import Mathlib.Logic.Function.Basic

/-!
# Stores that may forget

A store is a partial map `K → Option V`.  Caches, LRU tables and maps with a time to live may lose
any entry at any time, so what is known about one is an upper bound: it holds nothing but what
some history of writes accounts for.

* `put`, `forget` — one key written, one key dropped; `empty` — no key.
* `Accounted R m h` — **every entry of `m` stands, up to `R`, in the history `h`.**  Writing the
  same key on both sides keeps it, forgetting on the left keeps it.
-/

namespace PartialMap

variable {K V W : Type*}

/-- The store without an entry. -/
def empty : K → Option V := fun _ => none

variable [DecidableEq K]

/-- Write one key. -/
def put (m : K → Option V) (k : K) (v : V) : K → Option V := Function.update m k (some v)

/-- Drop one key. -/
def forget (m : K → Option V) (k : K) : K → Option V := Function.update m k none

@[simp] theorem put_self (m : K → Option V) (k : K) (v : V) : put m k v k = some v := by
  rw [put, Function.update_self]

theorem put_of_ne {k k' : K} (h : k' ≠ k) (m : K → Option V) (v : V) : put m k v k' = m k' := by
  rw [put, Function.update_of_ne h]

@[simp] theorem forget_self (m : K → Option V) (k : K) : forget m k k = none := by
  rw [forget, Function.update_self]

theorem forget_of_ne {k k' : K} (h : k' ≠ k) (m : K → Option V) : forget m k k' = m k' := by
  rw [forget, Function.update_of_ne h]

theorem put_some {m : K → Option V} {k k' : K} {v w : V} (h : put m k v k' = some w) :
    (k' = k ∧ w = v) ∨ (k' ≠ k ∧ m k' = some w) := by
  by_cases hk : k' = k
  · subst hk
    rw [put_self] at h
    exact Or.inl ⟨rfl, (Option.some.inj h).symm⟩
  · rw [put_of_ne hk] at h
    exact Or.inr ⟨hk, h⟩

theorem forget_some {m : K → Option V} {k k' : K} {w : V} (h : forget m k k' = some w) :
    k' ≠ k ∧ m k' = some w := by
  by_cases hk : k' = k
  · subst hk
    rw [forget_self] at h
    cases h
  · rw [forget_of_ne hk] at h
    exact ⟨hk, h⟩

/-! ## What a history accounts for -/

/-- Every entry of the store stands, up to `R`, in the history. -/
def Accounted (R : K → V → W → Prop) (m : K → Option V) (h : K → Option W) : Prop :=
  ∀ k v, m k = some v → ∃ w, h k = some w ∧ R k v w

variable {R : K → V → W → Prop} {m : K → Option V} {h : K → Option W}

omit [DecidableEq K] in
theorem Accounted.empty (h : K → Option W) : Accounted R PartialMap.empty h := by
  intro k v hv
  cases hv

theorem Accounted.put (hm : Accounted R m h) {k : K} {v : V} {w : W} (hvw : R k v w) :
    Accounted R (PartialMap.put m k v) (PartialMap.put h k w) := by
  intro k' v' hv'
  rcases put_some hv' with ⟨rfl, rfl⟩ | ⟨hne, hv'⟩
  · exact ⟨w, put_self h k' w, hvw⟩
  · rw [put_of_ne hne]
    exact hm k' v' hv'

theorem Accounted.forget (hm : Accounted R m h) (k : K) :
    Accounted R (PartialMap.forget m k) h := by
  intro k' v' hv'
  exact hm k' v' (forget_some hv').2

/-- An entry may be rewritten in place as long as the same history still accounts for it. -/
theorem Accounted.rewrite (hm : Accounted R m h) {k : K} {v v' : V} (hk : m k = some v)
    (hR : ∀ w, R k v w → R k v' w) : Accounted R (PartialMap.put m k v') h := by
  intro k' u hu
  rcases put_some hu with ⟨rfl, rfl⟩ | ⟨-, hu⟩
  · obtain ⟨w, hw, hvw⟩ := hm k' v hk
    exact ⟨w, hw, hR w hvw⟩
  · exact hm k' u hu

end PartialMap
