import Mathlib.Data.List.AList

/-!
# Tables with a size

Finite maps as lists of entries whose keys are distinct, with the operations by which a table is
kept small.

* `Table` — Mathlib's `AList` with one type of values; `size` — the number of entries.
* `retain` — the entries that pass a test; `retainM` — the same with a test that may fail;
  `removeAll` — the table without some keys.
* `size_put`, `size_remove_le`, `size_removeAll` — **what the operations make of the size.**
* `get_retain`, `get_remove`, `get_removeAll` — what they leave of an entry: **it stays as it is, or
  goes.**
* `mapValues`, `collectM` — a table with other values, and one made of entries whose values must be
  converted first; `collectM_roundTrip`: **a table that is written and read back keeps its keys.**
* `countUp`, `Counts` — tables that count: **the count of a key is how often it occurs.**
-/

/-- A table with values of one type. -/
abbrev Table (K V : Type) := AList fun _ : K => V

namespace Table

variable {K V : Type}

/-- `len()` -/
def size (t : Table K V) : Nat := t.keys.length

/-- `retain` -/
def retain (t : Table K V) (keep : K → V → Bool) : Table K V :=
  ⟨t.entries.filter fun e => keep e.1 e.2, t.nodupKeys.sublist List.filter_sublist⟩

/-- `retain` with a test that may fail. -/
def retainM {E : Type} (t : Table K V) (keep : K → V → Except E Bool) : Except E (Table K V) := do
  let _ ← t.entries.mapM fun e => keep e.1 e.2
  return t.retain fun k v =>
    match keep k v with
    | .ok kept => kept
    | .error _ => false

theorem mapM_ok {E A B : Type} (f : A → B) (l : List A) :
    l.mapM (fun a => (.ok (f a) : Except E B)) = .ok (l.map f) := List.mapM_pure

/-- A test that does not fail. -/
theorem retainM_ok {E : Type} (t : Table K V) (keep : K → V → Bool) :
    t.retainM (fun k v => (.ok (keep k v) : Except E Bool)) = .ok (t.retain keep) := by
  unfold retainM
  rw [mapM_ok]
  rfl

variable [DecidableEq K]

/-- `get` -/
def get (t : Table K V) (k : K) : Option V := AList.lookup k t

/-- `insert` -/
def put (t : Table K V) (k : K) (v : V) : Table K V := AList.insert k v t

/-- `remove` -/
def remove (t : Table K V) (k : K) : Table K V := AList.erase k t

/-- `remove` of one key after the other. -/
def removeAll (t : Table K V) (keys : List K) : Table K V := keys.foldl remove t

@[simp] theorem get_empty (k : K) : get (∅ : Table K V) k = none := AList.lookup_empty k

@[simp] theorem get_put_self (t : Table K V) (k : K) (v : V) : (t.put k v).get k = some v :=
  AList.lookup_insert t

theorem get_put_of_ne (t : Table K V) {k k' : K} (v : V) (h : k' ≠ k) :
    (t.put k v).get k' = t.get k' := AList.lookup_insert_ne h

/-- An entry is among the entries. -/
theorem mem_entries {t : Table K V} {k : K} {v : V} :
    (⟨k, v⟩ : (_ : K) × V) ∈ t.entries ↔ t.get k = some v := (AList.mem_lookup_iff).symm

/-! ## Sizes -/

/-- A new key makes the table one entry larger, a known one leaves its size. -/
theorem size_put (t : Table K V) (k : K) (v : V) :
    (t.put k v).size = if k ∈ t.keys then t.size else t.size + 1 := by
  show (AList.insert k v t).keys.length = _
  rw [AList.keys_insert, List.length_cons, List.length_erase]
  split
  · rename_i hmem
    have hpos := List.length_pos_of_mem hmem
    unfold size
    omega
  · rfl

theorem size_put_le (t : Table K V) (k : K) (v : V) : (t.put k v).size ≤ t.size + 1 := by
  rw [size_put]
  split <;> omega

theorem size_remove_le (t : Table K V) (k : K) : (t.remove k).size ≤ t.size := by
  show (AList.erase k t).keys.length ≤ _
  rw [AList.keys_erase]
  exact List.length_erase_le

omit [DecidableEq K] in
theorem size_eq_length (t : Table K V) : t.size = t.entries.length := by
  simp [size, AList.keys, List.keys]

omit [DecidableEq K] in
theorem size_retain_le (t : Table K V) (keep : K → V → Bool) : (t.retain keep).size ≤ t.size := by
  rw [size_eq_length, size_eq_length]
  exact List.length_filter_le _ _

/-- A table that loses an entry is smaller. -/
theorem size_retain_lt {t : Table K V} {keep : K → V → Bool} {k : K} {v : V}
    (hget : t.get k = some v) (hdrop : keep k v = false) : (t.retain keep).size < t.size := by
  rw [size_eq_length, size_eq_length]
  exact List.length_filter_lt_length_iff_exists.mpr ⟨⟨k, v⟩, mem_entries.mpr hget, by simp [hdrop]⟩

/-- **Removing distinct keys of the table makes it smaller by their number.** -/
theorem size_removeAll {t : Table K V} {keys : List K} (hnodup : keys.Nodup)
    (hmem : ∀ k ∈ keys, k ∈ t.keys) : (t.removeAll keys).size + keys.length = t.size := by
  induction keys generalizing t with
  | nil => rfl
  | cons k keys ih =>
    obtain ⟨hk, hkeys⟩ := List.nodup_cons.mp hnodup
    have hin : k ∈ t.keys := hmem k List.mem_cons_self
    have hrest : ∀ k' ∈ keys, k' ∈ (t.remove k).keys := by
      intro k' hk'
      have hne : k' ≠ k := fun h => hk (h ▸ hk')
      show k' ∈ (AList.erase k t).keys
      rw [AList.keys_erase]
      exact (List.mem_erase_of_ne hne).mpr (hmem k' (List.mem_cons_of_mem _ hk'))
    have hsize : (t.remove k).size + 1 = t.size := by
      show (AList.erase k t).keys.length + 1 = _
      rw [AList.keys_erase, List.length_erase_of_mem hin]
      have hpos := List.length_pos_of_mem hin
      unfold size
      omega
    have hstep := ih hkeys hrest
    rw [List.length_cons]
    show ((t.remove k).removeAll keys).size + (keys.length + 1) = t.size
    omega

/-! ## Entries that stay -/

theorem get_retain (t : Table K V) (keep : K → V → Bool) {k : K} {v : V}
    (h : (t.retain keep).get k = some v) : t.get k = some v :=
  mem_entries.mp (List.mem_filter.mp (mem_entries.mpr h)).1

/-- An entry that passes the test stays. -/
theorem get_retain_eq (t : Table K V) (keep : K → V → Bool) (k : K) :
    (t.retain keep).get k = (t.get k).filter (keep k) := by
  cases hget : t.get k with
  | none =>
    cases hkept : (t.retain keep).get k with
    | none => rfl
    | some v =>
      rw [get_retain t keep hkept] at hget
      cases hget
  | some v =>
    have hmem : (⟨k, v⟩ : (_ : K) × V) ∈ (t.retain keep).entries ↔ keep k v = true := by
      simp [retain, mem_entries, hget]
    rw [Option.filter_some]
    split
    · rename_i hkeep
      exact mem_entries.mp (hmem.mpr hkeep)
    · rename_i hdrop
      cases hkept : (t.retain keep).get k with
      | none => rfl
      | some v' =>
        have hold := get_retain t keep hkept
        rw [hget] at hold
        cases hold
        exact absurd (hmem.mp (mem_entries.mpr hkept)) hdrop

theorem get_remove (t : Table K V) {k k' : K} {v : V} (h : (t.remove k').get k = some v) :
    t.get k = some v := by
  by_cases hk : k = k'
  · subst hk
    have hnone : (t.remove k).get k = none := AList.lookup_erase k t
    rw [hnone] at h
    cases h
  · rwa [get, remove, AList.lookup_erase_ne hk] at h

theorem get_removeAll (t : Table K V) {keys : List K} {k : K} {v : V}
    (h : (t.removeAll keys).get k = some v) : t.get k = some v := by
  induction keys generalizing t with
  | nil => exact h
  | cons k' keys ih => exact get_remove t (ih (t.remove k') h)

/-! ## Conversions -/

variable {W E : Type}

omit [DecidableEq K] in
theorem keys_map_values (f : K → V → W) (entries : List ((_ : K) × V)) :
    (entries.map fun e => (⟨e.1, f e.1 e.2⟩ : (_ : K) × W)).map Sigma.fst =
      entries.map Sigma.fst := by simp

/-- The same keys with other values. -/
def mapValues (t : Table K V) (f : K → V → W) : Table K W where
  entries := t.entries.map fun e => ⟨e.1, f e.1 e.2⟩
  nodupKeys := by
    have hkeys := t.nodupKeys
    unfold List.NodupKeys List.keys at hkeys ⊢
    rw [keys_map_values]
    exact hkeys

omit [DecidableEq K] in
theorem size_mapValues (t : Table K V) (f : K → V → W) : (t.mapValues f).size = t.size := by
  rw [size_eq_length, size_eq_length]
  exact List.length_map _

theorem get_mapValues (t : Table K V) (f : K → V → W) (k : K) :
    (t.mapValues f).get k = (t.get k).map (f k) := by
  cases hget : t.get k with
  | some v =>
    exact mem_entries.mp (List.mem_map.mpr ⟨⟨k, v⟩, mem_entries.mpr hget, rfl⟩)
  | none =>
    cases hmap : (t.mapValues f).get k with
    | none => rfl
    | some w =>
      obtain ⟨e, he, heq⟩ := List.mem_map.mp (mem_entries.mpr hmap)
      cases heq
      rw [mem_entries.mp he] at hget
      cases hget

/-- Entries put into a table one after the other, each with its value converted. -/
def collectM (f : K → V → Except E W) : List ((_ : K) × V) → Table K W → Except E (Table K W)
  | [], t => .ok t
  | e :: es, t =>
    match f e.1 e.2 with
    | .ok w => collectM f es (t.put e.1 w)
    | .error x => .error x

/-- **The table has the converted value of each entry**, and is as it was elsewhere. -/
theorem collectM_get {f : K → V → Except E W} {es : List ((_ : K) × V)} {t t' : Table K W}
    (hnodup : (es.map Sigma.fst).Nodup) (h : collectM f es t = .ok t') (k : K) :
    (∀ v, ⟨k, v⟩ ∈ es → ∃ w, f k v = .ok w ∧ t'.get k = some w) ∧
      (k ∉ es.map Sigma.fst → t'.get k = t.get k) := by
  induction es generalizing t with
  | nil =>
    cases h
    simp
  | cons e es ih =>
    obtain ⟨hnot, hrest⟩ := List.nodup_cons.mp hnodup
    rw [collectM] at h
    cases hf : f e.1 e.2 with
    | error x => simp [hf] at h
    | ok w =>
      simp only [hf] at h
      obtain ⟨hin, hout⟩ := ih hrest h
      refine ⟨fun v hv => ?_, fun hk => ?_⟩
      · rcases List.mem_cons.mp hv with rfl | hv
        · exact ⟨w, hf, by rw [hout hnot, get_put_self]⟩
        · exact hin v hv
      · rw [List.map_cons, List.mem_cons, not_or] at hk
        rw [hout hk.2, get_put_of_ne _ _ hk.1]

theorem collectM_error {f : K → V → Except E W} {es : List ((_ : K) × V)} {t : Table K W} {x : E}
    (h : collectM f es t = .error x) : ∃ e ∈ es, f e.1 e.2 = .error x := by
  induction es generalizing t with
  | nil => cases h
  | cons e es ih =>
    rw [collectM] at h
    cases hf : f e.1 e.2 with
    | error y =>
      simp only [hf] at h
      cases h
      exact ⟨e, by simp, hf⟩
    | ok w =>
      simp only [hf] at h
      obtain ⟨e', he', hx⟩ := ih h
      exact ⟨e', by simp [he'], hx⟩

/-- A table whose entries are all converted has the same keys. -/
theorem collectM_entries {f : K → V → Except E W} {t : Table K V} {t' : Table K W}
    (h : collectM f t.entries ∅ = .ok t') (k : K) :
    Option.Rel (fun v w => f k v = .ok w) (t.get k) (t'.get k) := by
  obtain ⟨hin, hout⟩ := collectM_get t.nodupKeys h k
  cases hget : t.get k with
  | none =>
    have hnot : k ∉ t.entries.map Sigma.fst := by
      intro hmem
      obtain ⟨e, he, rfl⟩ := List.mem_map.mp hmem
      rw [mem_entries.mp he] at hget
      cases hget
    rw [hout hnot, get_empty]
    exact .none
  | some v =>
    obtain ⟨w, hw, hget'⟩ := hin v (mem_entries.mpr hget)
    rw [hget']
    exact .some hw

/-- **Round trip of a table**: if what becomes of a value, written and converted back, is known, so
is what becomes of the table; every key keeps its entry and none comes in, unless one is lost. -/
theorem collectM_roundTrip {U : Type} {t : Table K V} {written : Table K U} {write : K → V → U}
    {convert : K → U → Except E W} {kept : K → V → W → Prop} {lost : K → V → Prop}
    (hwritten : ∀ k, written.get k = (t.mapValues write).get k)
    (hkept : ∀ k v w, convert k (write k v) = .ok w → kept k v w)
    (hlost : ∀ k v x, convert k (write k v) = .error x → lost k v) :
    (∀ t', collectM convert written.entries ∅ = .ok t' →
        ∀ k, Option.Rel (kept k) (t.get k) (t'.get k)) ∧
      ∀ x, collectM convert written.entries ∅ = .error x → ∃ k v, t.get k = some v ∧ lost k v := by
  constructor
  · intro t' h k
    have hrel := collectM_entries h k
    rw [hwritten, get_mapValues] at hrel
    generalize t.get k = before, t'.get k = after at hrel ⊢
    cases before with
    | none =>
      cases hrel
      exact .none
    | some v =>
      cases hrel with
      | some hconvert => exact .some (hkept k v _ hconvert)
  · intro x h
    obtain ⟨e, he, hfault⟩ := collectM_error h
    have hget := mem_entries.mp he
    rw [hwritten, get_mapValues] at hget
    obtain ⟨v, hv, hwrite⟩ := Option.map_eq_some_iff.mp hget
    rw [← hwrite] at hfault
    exact ⟨e.1, v, hv, hlost e.1 v x hfault⟩

/-! ## Counts -/

/-- `entry(k).and_modify(|c| *c += 1).or_insert(1)` -/
def countUp (t : Table K Nat) (k : K) : Table K Nat := t.put k ((t.get k).getD 0 + 1)

/-- The table counts the list: every key that occurs is there, with how often it occurs. -/
def Counts (t : Table K Nat) (l : List K) : Prop :=
  ∀ k, t.get k = if k ∈ l then some (l.count k) else none

theorem Counts.empty : Counts (∅ : Table K Nat) [] := fun k => by simp

/-- **The count of a key is how often it occurs.** -/
theorem Counts.countUp {t : Table K Nat} {l : List K} (h : Counts t l) (k : K) :
    Counts (t.countUp k) (k :: l) := by
  intro k'
  by_cases hk : k' = k
  · subst hk
    have hold : (t.get k').getD 0 = l.count k' := by
      rw [h k']
      split
      · rfl
      · rename_i hnot
        simp [List.count_eq_zero.mpr hnot]
    simp [Table.countUp, hold]
  · rw [Table.countUp, get_put_of_ne t _ hk, h k']
    simp [hk, List.count_cons_of_ne (Ne.symm hk)]

end Table
