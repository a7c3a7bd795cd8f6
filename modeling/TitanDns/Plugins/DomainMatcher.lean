import TitanDns.Core.Context
import TitanDns.Lib.PartialMap
import TitanDns.Lib.Run
import TitanDns.Plugins.DomainRules
import TitanDns.Plugins.Responders

/-!
# Matching a name against the rules

`matches_lower` and `matches_lower_with_parts` of `MatcherPlugin` with their cache.  The first
splits the name at its dots, the second cuts it at the offsets that the context has kept.

* `Rules.lookup` — the three tables, for a name and its labels from the right.
* `matchesLower`, `matchesLowerWithParts`, `matchesName` — the functions, with the cache before and
  after; `matchStep` — one call, or an entry of the cache that is lost.
* `printed` — a name as it is printed; `Ordinary` — its labels.
* `partsRanges_printed`, `partsOf_ranges` — **the offsets of the context cut out the labels.**
* `Agreed` — what is cached of an ordinary name is the answer.

Principal results: `lookup_iff_listed` — **a name is found in the tables exactly when a rule covers
it**; `matches_iff_listed` — **so the functions answer, after any calls, with the offsets or
without**; `handle_eq_plugin` — **the plugin is the `MatcherPlugin` of the pipeline.**
-/

namespace TitanDns.DomainMatcher

open Trie PartialMap Run

/-! ## The functions -/

/-- `clean_domain`: without one trailing dot. -/
def cleanDomain (d : Text) : Text := if d.getLast? = some '.' then d.dropLast else d

/-- Exact names, the walk through the trie along the labels, keywords. -/
def Rules.lookup (r : Rules) (clean : Text) (labels : List Text) : Bool :=
  if clean ∈ r.domains then true
  else if r.suffixRoot.walk labels then true
  else r.keywords.any fun keyword => decide (keyword <:+: clean)

/-- The cached answers, by name. -/
abbrev Cache := Text → Option Bool

/-- The cached answer, or a new one that is cached. -/
def cached (cache : Cache) (clean : Text) (answer : Bool) : Bool × Cache :=
  match cache clean with
  | some b => (b, cache)
  | none => (answer, put cache clean answer)

/-- `matches_lower`. -/
def matchesLower (r : Rules) (cache : Cache) (domainLower : Text) : Bool × Cache :=
  let clean := cleanDomain domainLower
  cached cache clean (r.lookup clean (clean.splitOn '.').reverse)

/-- The parts of a name at the offsets, from the right; those beyond its end are left out. -/
def partsOf (clean : Text) (ranges : List (Nat × Nat)) : List Text :=
  (ranges.reverse.filter (·.2 ≤ clean.length)).map fun p => (clean.drop p.1).take (p.2 - p.1)

/-- `matches_lower_with_parts`. -/
def matchesLowerWithParts (r : Rules) (cache : Cache) (domainLower : Text)
    (ranges : List (Nat × Nat)) : Bool × Cache :=
  let clean := cleanDomain domainLower
  cached cache clean (r.lookup clean (partsOf clean ranges))

/-- `normalize_domain`. -/
def normalizeDomain (domain : Text) : Text := (trimEndDots domain).map Char.toLower

/-- `matches`. -/
def matchesName (r : Rules) (cache : Cache) (domain : Text) : Bool × Cache :=
  matchesLower r cache (normalizeDomain domain)

inductive MatchEvent where
  /-- `matches`, of any text. -/
  | name (domain : Text)
  | lower (domainLower : Text)
  /-- With the offsets that a context keeps of the same text. -/
  | withParts (domainLower : Text)
  /-- The cache loses an entry. -/
  | evict (clean : Text)

/-- One call. -/
def matchStep (r : Rules) (cache : Cache) : MatchEvent → Cache
  | .name domain => (matchesName r cache domain).2
  | .lower domainLower => (matchesLower r cache domainLower).2
  | .withParts domainLower =>
    (matchesLowerWithParts r cache domainLower (Context.partsRanges domainLower 0 0)).2
  | .evict clean => forget cache clean

/-! ## Names and labels -/

/-- The labels of a name: none is empty, and no dot is part of one. -/
def Ordinary (labels : List Text) : Prop := ∀ l ∈ labels, l ≠ [] ∧ '.' ∉ l

/-- The labels with dots between them. -/
def joined (labels : List Text) : Text := ['.'].intercalate labels

/-- A name as it is printed: every label with a dot behind it, the root as a dot. -/
def printed (labels : List Text) : Text := joined labels ++ ['.']

theorem joined_cons_cons (l l' : Text) (labels : List Text) :
    joined (l :: l' :: labels) = l ++ '.' :: joined (l' :: labels) := by
  simp [joined]

/-- The labels are found again. -/
theorem splitOn_joined {labels : List Text} (h : Ordinary labels) (hne : labels ≠ []) :
    (joined labels).splitOn '.' = labels :=
  List.splitOn_intercalate '.' (fun l hl => (h l hl).2) hne

theorem joined_splitOn (n : Text) : joined (n.splitOn '.') = n := List.intercalate_splitOn '.'

/-- Two names, one before the other. -/
theorem joined_append {front back : List Text} (hfront : Ordinary front) (hback : Ordinary back)
    (hf : front ≠ []) (hb : back ≠ []) :
    joined (front ++ back) = joined front ++ '.' :: joined back := by
  have hsplit : (joined front ++ '.' :: joined back).splitOn '.' = front ++ back := by
    rw [List.splitOn_append_cons_self, splitOn_joined hfront hf, splitOn_joined hback hb]
  rw [← hsplit, joined_splitOn]

/-- The name of ordinary labels does not end in a dot. -/
theorem joined_getLast {labels : List Text} (h : Ordinary labels) :
    (joined labels).getLast? ≠ some '.' := by
  intro hlast
  cases labels with
  | nil => cases hlast
  | cons l labels =>
    obtain ⟨front, hfront⟩ := List.getLast?_eq_some_iff.mp hlast
    have hsplit := splitOn_joined h (List.cons_ne_nil l labels)
    rw [hfront, List.splitOn_append_cons_self] at hsplit
    have hmem : ([] : Text) ∈ l :: labels := by
      rw [← hsplit]
      simp
    exact (h [] hmem).1 rfl

theorem cleanDomain_joined {labels : List Text} (h : Ordinary labels) :
    cleanDomain (joined labels) = joined labels := by
  rw [cleanDomain, if_neg (joined_getLast h)]

theorem cleanDomain_printed (labels : List Text) :
    cleanDomain (printed labels) = joined labels := by
  simp [cleanDomain, printed]

/-! ## The offsets of the context -/

theorem partsRanges_append {l : Text} (hdot : '.' ∉ l) (rest : Text) (i start : Nat) :
    Context.partsRanges (l ++ rest) i start = Context.partsRanges rest (i + l.length) start := by
  induction l generalizing i with
  | nil => rfl
  | cons c l ih =>
    have hc : c ≠ '.' := fun heq => hdot (heq ▸ List.mem_cons_self)
    have hl : '.' ∉ l := fun hmem => hdot (List.mem_cons_of_mem c hmem)
    rw [List.cons_append, Context.partsRanges, if_neg hc, ih hl, List.length_cons]
    congr 1
    omega

/-- A trailing dot makes no difference. -/
theorem partsRanges_dot (cs : Text) {i start : Nat} (h : start ≤ i) :
    Context.partsRanges (cs ++ ['.']) i start = Context.partsRanges cs i start := by
  induction cs generalizing i start with
  | nil =>
    have hnone : ¬ i + 1 < i + 1 := by omega
    simp [Context.partsRanges]
  | cons c cs ih =>
    rw [List.cons_append, Context.partsRanges, Context.partsRanges, ih (Nat.le_refl _),
      ih (by omega)]

/-- The offsets stay within the text. -/
theorem partsRanges_le {cs : Text} {i start : Nat} {p : Nat × Nat}
    (h : p ∈ Context.partsRanges cs i start) : p.2 ≤ i + cs.length := by
  induction cs generalizing i start with
  | nil =>
    unfold Context.partsRanges at h
    split at h
    · cases List.mem_singleton.mp h
      exact Nat.le_refl _
    · cases h
  | cons c cs ih =>
    rw [List.length_cons]
    unfold Context.partsRanges at h
    split at h
    · split at h
      · rcases List.mem_cons.mp h with rfl | h
        · show i ≤ _
          omega
        · have := ih h
          omega
      · have := ih h
        omega
    · have := ih h
      omega

/-- The offsets of the labels, one behind the other. -/
def offsets : Nat → List Text → List (Nat × Nat)
  | _, [] => []
  | i, l :: labels => (i, i + l.length) :: offsets (i + l.length + 1) labels

/-- **The offsets that the context finds are those of the labels.** -/
theorem partsRanges_joined {labels : List Text} (h : Ordinary labels) (i : Nat) :
    Context.partsRanges (joined labels) i i = offsets i labels := by
  induction labels generalizing i with
  | nil =>
    have hnone : ¬ i < i := by omega
    simp [joined, Context.partsRanges, offsets]
  | cons l labels ih =>
    obtain ⟨hne, hdot⟩ := h l List.mem_cons_self
    have hpos : i < i + l.length := by
      have := List.length_pos_iff.mpr hne
      omega
    have hrest : Ordinary labels := fun l' hl' => h l' (List.mem_cons_of_mem l hl')
    cases labels with
    | nil =>
      have hone : joined [l] = l ++ [] := by simp [joined]
      rw [hone, partsRanges_append hdot, Context.partsRanges, if_pos hpos]
      rfl
    | cons l' labels =>
      rw [joined_cons_cons, partsRanges_append hdot, Context.partsRanges, if_pos rfl, if_pos hpos,
        ih hrest]
      rfl

/-- The text at the offsets of the labels are the labels. -/
theorem cut_offsets {labels : List Text} {front : Text} {i : Nat} (hi : front.length = i) :
    (offsets i labels).map (fun p => ((front ++ joined labels).drop p.1).take (p.2 - p.1)) =
      labels := by
  induction labels generalizing front i with
  | nil => rfl
  | cons l labels ih =>
    have hdrop : ∀ rest : Text, ((front ++ (l ++ rest)).drop i).take (i + l.length - i) = l := by
      intro rest
      rw [List.drop_left' hi, Nat.add_sub_cancel_left, List.take_left' rfl]
    rw [offsets, List.map_cons]
    cases labels with
    | nil =>
      have hone : joined [l] = l ++ [] := by simp [joined]
      rw [hone, hdrop]
      rfl
    | cons l' labels =>
      rw [joined_cons_cons, hdrop]
      congr 1
      have hfront : (front ++ l ++ ['.']).length = i + l.length + 1 := by
        simp [hi]
        omega
      have hnext := ih hfront
      have htext : front ++ l ++ ['.'] ++ joined (l' :: labels) =
          front ++ (l ++ '.' :: joined (l' :: labels)) := by simp
      rw [htext] at hnext
      exact hnext

/-- **The offsets of the context cut out the labels**, from the right. -/
theorem partsOf_ranges {labels : List Text} (h : Ordinary labels) :
    partsOf (joined labels) (Context.partsRanges (joined labels) 0 0) = labels.reverse := by
  have hall : (Context.partsRanges (joined labels) 0 0).reverse.filter
      (·.2 ≤ (joined labels).length) = (Context.partsRanges (joined labels) 0 0).reverse := by
    rw [List.filter_eq_self]
    intro p hp
    have hle := partsRanges_le (List.mem_reverse.mp hp)
    simpa using hle
  have hcut := @cut_offsets labels [] 0 rfl
  rw [List.nil_append] at hcut
  rw [partsOf, hall, partsRanges_joined h, List.map_reverse, hcut]

theorem partsOf_printed {labels : List Text} (h : Ordinary labels) :
    partsOf (joined labels) (Context.partsRanges (printed labels) 0 0) = labels.reverse := by
  rw [printed, partsRanges_dot _ (Nat.le_refl 0), partsOf_ranges h]

/-! ## The answer -/

/-- **A suffix rule covers a name exactly when its labels end those of the name.** -/
theorem splitOn_suffix_iff {labels : List Text} (h : Ordinary labels) {n : Text} (hn : Domain n) :
    n.splitOn '.' <:+ labels ↔
      joined labels = n ∨ ∃ front, joined labels = front ++ '.' :: n := by
  constructor
  · rintro ⟨front, rfl⟩
    have hfront : Ordinary front := fun l hl => h l (List.mem_append_left _ hl)
    have hback : Ordinary (n.splitOn '.') := fun l hl => h l (List.mem_append_right _ hl)
    by_cases hf : front = []
    · subst hf
      exact Or.inl (joined_splitOn n)
    · refine Or.inr ⟨joined front, ?_⟩
      rw [joined_append hfront hback hf (List.splitOn_ne_nil '.' n), joined_splitOn]
  · intro hcovers
    have hne : labels ≠ [] := by
      rintro rfl
      rcases hcovers with hnil | ⟨front, hnil⟩
      · exact hn.ne_nil hnil.symm
      · exact absurd hnil.symm (by simp [joined])
    have hlabels := splitOn_joined h hne
    rcases hcovers with hname | ⟨front, hname⟩
    · rw [hname] at hlabels
      rw [hlabels]
    · rw [hname, List.splitOn_append_cons_self] at hlabels
      exact ⟨front.splitOn '.', hlabels⟩

/-- The labels of the name from the right; splitting the root finds an empty one. -/
def FromRight (labels parts : List Text) : Prop :=
  parts = labels.reverse ∨ labels = [] ∧ parts = [[]]

theorem fromRight_splitOn {labels : List Text} (h : Ordinary labels) :
    FromRight labels ((joined labels).splitOn '.').reverse := by
  by_cases hne : labels = []
  · subst hne
    exact Or.inr ⟨rfl, by simp [joined]⟩
  · exact Or.inl (by rw [splitOn_joined h hne])

variable {rules : List Rule} {r : Rules}

/-- The walk through the trie finds the suffix rules that cover the name. -/
theorem walk_iff_suffix (hr : Represents rules r) {labels parts : List Text} (h : Ordinary labels)
    (hparts : FromRight labels parts) :
    r.suffixRoot.walk parts = true ↔
      ∃ n, .suffix n ∈ rules ∧ (Rule.suffix n).Covers (joined labels) := by
  rw [Node.walk_iff]
  constructor
  · rintro ⟨word, -, hprefix, hholds⟩
    obtain ⟨n, hn, rfl⟩ := (hr.suffixes word).mp hholds
    refine ⟨n, hn, ?_⟩
    rcases hparts with rfl | ⟨rfl, rfl⟩
    · exact (splitOn_suffix_iff h (hr.proper n hn)).mp (List.reverse_prefix.mp hprefix)
    · -- no rule has an empty label
      obtain ⟨more, hmore⟩ := hprefix
      have hmem : ∀ l ∈ n.splitOn '.', l = [] := by
        intro l hl
        have : l ∈ (n.splitOn '.').reverse ++ more :=
          List.mem_append_left _ (List.mem_reverse.mpr hl)
        rw [hmore] at this
        exact List.mem_singleton.mp this
      obtain ⟨l, hl⟩ := List.exists_mem_of_ne_nil _ (List.splitOn_ne_nil '.' n)
      exact absurd (hmem l hl ▸ hl) (hr.proper n hn)
  · rintro ⟨n, hn, hcovers⟩
    have hproper := hr.proper n hn
    refine ⟨(n.splitOn '.').reverse, by simp, ?_, (hr.suffixes _).mpr ⟨n, hn, rfl⟩⟩
    rcases hparts with rfl | ⟨rfl, rfl⟩
    · exact List.reverse_prefix.mpr ((splitOn_suffix_iff h hproper).mpr hcovers)
    · exfalso
      rcases hcovers with hnil | ⟨front, hnil⟩
      · exact hproper.ne_nil hnil.symm
      · exact absurd hnil.symm (by simp [joined])

/-- **A name is found in the tables exactly when a rule covers it.** -/
theorem lookup_iff_listed (hr : Represents rules r) {labels parts : List Text} (h : Ordinary labels)
    (hparts : FromRight labels parts) :
    r.lookup (joined labels) parts = true ↔ Listed rules (joined labels) := by
  have hlookup : r.lookup (joined labels) parts = true ↔ joined labels ∈ r.domains ∨
      r.suffixRoot.walk parts = true ∨ ∃ w ∈ r.keywords, w <:+: joined labels := by
    unfold Rules.lookup
    split
    · simp [*]
    · split <;> simp [*]
  rw [hlookup, hr.domains, walk_iff_suffix hr h hparts]
  constructor
  · rintro ((hexact | hsuffix) | ⟨n, hn, hcovers⟩ | ⟨w, hw, hinfix⟩)
    · exact ⟨_, hexact, rfl⟩
    · exact ⟨_, hsuffix, Or.inl rfl⟩
    · exact ⟨_, hn, hcovers⟩
    · exact ⟨_, (hr.keywords w).mp hw, hinfix⟩
  · rintro ⟨rule, hrule, hcovers⟩
    cases rule with
    | exact n =>
      cases (show joined labels = n from hcovers)
      exact Or.inl (Or.inl hrule)
    | suffix n => exact Or.inr (Or.inl ⟨n, hrule, hcovers⟩)
    | keyword w => exact Or.inr (Or.inr ⟨w, (hr.keywords w).mpr hrule, hcovers⟩)

/-! ## The cache -/

/-- What is cached of an ordinary name is the answer. -/
def Agreed (rules : List Rule) (cache : Cache) : Prop :=
  ∀ labels, Ordinary labels → ∀ b, cache (joined labels) = some b →
    (b = true ↔ Listed rules (joined labels))

/-- A call with the right labels answers rightly, and what it caches is right. -/
theorem cached_agreed (hr : Represents rules r) {cache : Cache} (hcache : Agreed rules cache)
    {clean : Text} {parts : List Text}
    (hparts : ∀ labels, Ordinary labels → clean = joined labels → FromRight labels parts) :
    Agreed rules (cached cache clean (r.lookup clean parts)).2 ∧
      ∀ labels, Ordinary labels → clean = joined labels →
        ((cached cache clean (r.lookup clean parts)).1 = true ↔ Listed rules (joined labels)) := by
  have hanswer : ∀ labels, Ordinary labels → clean = joined labels →
      (r.lookup clean parts = true ↔ Listed rules (joined labels)) := by
    rintro labels h rfl
    exact lookup_iff_listed hr h (hparts labels h rfl)
  unfold cached
  cases hold : cache clean with
  | some b =>
    refine ⟨hcache, ?_⟩
    rintro labels h rfl
    exact hcache labels h b hold
  | none =>
    refine ⟨fun labels h b hb => ?_, hanswer⟩
    rcases put_some hb with ⟨hclean, rfl⟩ | ⟨-, hb⟩
    · exact hanswer labels h hclean.symm
    · exact hcache labels h b hb

/-- The labels by splitting. -/
theorem matchesLower_agreed (hr : Represents rules r) {cache : Cache} (hcache : Agreed rules cache)
    (d : Text) :
    Agreed rules (matchesLower r cache d).2 ∧
      ∀ labels, Ordinary labels → cleanDomain d = joined labels →
        ((matchesLower r cache d).1 = true ↔ Listed rules (joined labels)) := by
  apply cached_agreed hr hcache
  intro labels h hclean
  rw [hclean]
  exact fromRight_splitOn h

/-- The labels by their offsets. -/
theorem matchesLowerWithParts_agreed (hr : Represents rules r) {cache : Cache}
    (hcache : Agreed rules cache) (d : Text) :
    Agreed rules (matchesLowerWithParts r cache d (Context.partsRanges d 0 0)).2 ∧
      ∀ labels, Ordinary labels → cleanDomain d = joined labels →
        ((matchesLowerWithParts r cache d (Context.partsRanges d 0 0)).1 = true ↔
          Listed rules (joined labels)) := by
  apply cached_agreed hr hcache
  intro labels h hclean
  left
  by_cases hdot : d.getLast? = some '.'
  · -- the dot behind the name is the only difference
    have hd : d = printed labels := by
      obtain ⟨front, rfl⟩ := List.getLast?_eq_some_iff.mp hdot
      have hfront : front = joined labels := by
        rw [← hclean]
        simp [cleanDomain]
      rw [hfront]
      rfl
    rw [hclean, hd]
    exact partsOf_printed h
  · have hd : d = joined labels := by
      rw [← hclean, cleanDomain, if_neg hdot]
    rw [hclean, hd]
    exact partsOf_ranges h

theorem matchStep_agreed (hr : Represents rules r) (cache : Cache) (e : MatchEvent)
    (hcache : Agreed rules cache) : Agreed rules (matchStep r cache e) := by
  cases e with
  | name domain => exact (matchesLower_agreed hr hcache _).1
  | lower domainLower => exact (matchesLower_agreed hr hcache domainLower).1
  | withParts domainLower => exact (matchesLowerWithParts_agreed hr hcache domainLower).1
  | evict clean =>
    intro labels h b hb
    exact hcache labels h b (forget_some hb).2

/-- **After any calls the cache holds no wrong answer.** -/
theorem run_agreed (hr : Represents rules r) (es : List MatchEvent) :
    Agreed rules (run (matchStep r) PartialMap.empty es) := by
  have hempty : Agreed rules PartialMap.empty := by
    intro labels _ b hb
    cases hb
  exact invariant_run (matchStep_agreed hr) hempty es

/-! ## The name of a request -/

/-- Only the dot is a dot in lower case. -/
theorem toLower_eq_dot {c : Char} : c.toLower = '.' ↔ c = '.' := by
  unfold Char.toLower
  split
  · rename_i h
    have hlow : 65 ≤ c.val.toNat := h.1
    have hhigh : c.val.toNat ≤ 90 := h.2
    constructor
    · intro heq
      have hval := congrArg (fun d : Char => d.val.toNat) heq
      simp only [UInt32.toNat_add] at hval
      change (c.val.toNat + 32) % 2 ^ 32 = 46 at hval
      omega
    · rintro rfl
      exact absurd hlow (by decide)
  · rfl

/-- The labels in lower case. -/
def lowerLabels (labels : List Text) : List Text := labels.map (·.map Char.toLower)

theorem Ordinary.lower {labels : List Text} (h : Ordinary labels) :
    Ordinary (lowerLabels labels) := by
  intro l hl
  obtain ⟨l', hl', rfl⟩ := List.mem_map.mp hl
  obtain ⟨hne, hdot⟩ := h l' hl'
  refine ⟨by simpa using hne, fun hmem => ?_⟩
  obtain ⟨c, hc, hlower⟩ := List.mem_map.mp hmem
  rw [toLower_eq_dot] at hlower
  exact hdot (hlower ▸ hc)

theorem joined_lower (labels : List Text) :
    (joined labels).map Char.toLower = joined (lowerLabels labels) := by
  induction labels with
  | nil => rfl
  | cons l labels ih =>
    cases labels with
    | nil => simp [joined, lowerLabels]
    | cons l' labels =>
      have hdot : Char.toLower '.' = '.' := by decide
      rw [joined_cons_cons, List.map_append, List.map_cons, ih, hdot]
      exact (joined_cons_cons _ _ _).symm

theorem printed_lower (labels : List Text) :
    (printed labels).map Char.toLower = printed (lowerLabels labels) := by
  rw [printed, List.map_append, joined_lower]
  rfl

theorem normalizeDomain_printed {labels : List Text} (h : Ordinary labels) :
    normalizeDomain (printed labels) = joined (lowerLabels labels) := by
  have htrim : trimEndDots (printed labels) = joined labels := by
    rw [printed, trimEndDots, List.rdropWhile_concat_pos _ _ _ (by simp),
      List.rdropWhile_eq_self_iff]
    intro hne
    have hlast := joined_getLast h
    rw [List.getLast?_eq_some_getLast hne] at hlast
    simpa using hlast
  rw [normalizeDomain, htrim, joined_lower]

/-- The functions answer the question for the name of a request: on the text alone, with the
offsets of the context, and through `matches`. -/
structure Decides (codec : Codec) (ctx : Context) (r : Rules) (cache : Cache) (covered : Prop) :
    Prop where
  lower : (matchesLower r cache (ctx.qnameLower codec).toList).1 = true ↔ covered
  withParts : (matchesLowerWithParts r cache (ctx.qnameLower codec).toList
    (ctx.qnamePartsRanges codec)).1 = true ↔ covered
  name : (matchesName r cache (ctx.qname codec).toList).1 = true ↔ covered

/-- **The functions decide whether a rule of the files covers the name**, after any calls. -/
theorem matches_iff_listed {toLowercase : Text → Text} {files : List (List Text × Bool)}
    {fileRules : List (List Rule)}
    (hfiles : List.Forall₂ (fun file rules => Reads toLowercase file.1 rules) files fileRules)
    (es : List MatchEvent) {codec : Codec} {ctx : Context} {labels : List Text}
    (h : Ordinary labels) (hname : (ctx.qname codec).toList = printed labels) :
    Decides codec ctx (Rules.new toLowercase files)
      (run (matchStep (Rules.new toLowercase files)) PartialMap.empty es)
      (Listed fileRules.flatten (joined (lowerLabels labels))) := by
  have hr := new_represents hfiles
  have hcache := run_agreed hr es
  have hlower : (ctx.qnameLower codec).toList = printed (lowerLabels labels) := by
    rw [← printed_lower, ← hname, Context.qnameLower, String.toList_map]
  have hclean : cleanDomain (ctx.qnameLower codec).toList = joined (lowerLabels labels) := by
    rw [hlower, cleanDomain_printed]
  constructor
  · exact (matchesLower_agreed hr hcache _).2 _ h.lower hclean
  · exact (matchesLowerWithParts_agreed hr hcache _).2 _ h.lower hclean
  · have hnormal : cleanDomain (normalizeDomain (ctx.qname codec).toList) =
        joined (lowerLabels labels) := by
      rw [hname, normalizeDomain_printed h, cleanDomain_joined h.lower]
    exact (matchesLower_agreed hr hcache _).2 _ h.lower hnormal

/-- A file with a comment and a suffix rule in capitals. -/
def exampleFile : List Text := ["# names".toList, " .Example.COM. ".toList]

/-- A request for the name, in capitals too. -/
def exampleRequest : Context :=
  Context.new { id := 7, queries := [exampleQuestion] } (.v4 ⟨127, 0, 0, 1⟩)

def shouting : Codec := { Codec.ofTable [] [] with display := fun _ => "WWW.Example.com." }

/-- The name is asked for with its offsets, then the three ways. -/
theorem matches_iff_listed_www :
    Decides shouting exampleRequest (Rules.new (·.map Char.toLower) [(exampleFile, true)])
      (run (matchStep (Rules.new (·.map Char.toLower) [(exampleFile, true)])) PartialMap.empty
        [.withParts "www.example.com.".toList])
      (Listed [.suffix "example.com".toList]
        (joined (lowerLabels ["WWW".toList, "Example".toList, "com".toList]))) := by
  have hline : (trim " .Example.COM. ".toList).map Char.toLower =
      [] ++ ".example.com.".toList := by decide +kernel
  have hrule : Spelled ((trim " .Example.COM. ".toList).map Char.toLower)
      (.suffix "example.com".toList) := by
    rw [hline]
    exact Spelled.dotted (ExactPrefix.bare (by decide +kernel))
      (show _ = _ by decide +kernel) (show [] ∉ _ by decide +kernel)
  have hreads : Reads (·.map Char.toLower) exampleFile [.suffix "example.com".toList] :=
    Reads.skipped (by decide +kernel) (Reads.rule (by decide +kernel) hrule Reads.nil)
  have hfiles : List.Forall₂ (fun file rules => Reads (·.map Char.toLower) file.1 rules)
      [(exampleFile, true)] [[.suffix "example.com".toList]] :=
    List.Forall₂.cons hreads List.Forall₂.nil
  have hlabels : Ordinary ["WWW".toList, "Example".toList, "com".toList] := by
    unfold Ordinary
    decide +kernel
  have hname : (exampleRequest.qname shouting).toList =
      printed ["WWW".toList, "Example".toList, "com".toList] := by decide +kernel
  exact matches_iff_listed hfiles [.withParts "www.example.com.".toList] hlabels hname

/-! ## The plugin -/

/-- `handle`, with the cache before and after. -/
def handle (codec : Codec) (r : Rules) (mark : Option String) (cache : Cache) (ctx : Context) :
    Context × Cache :=
  if ctx.request.query = none then (ctx, cache)
  else
    let (matched, cache) := matchesLowerWithParts r cache (ctx.qnameLower codec).toList
      (ctx.qnamePartsRanges codec)
    (if matched then addMark ctx mark else ctx, cache)

/-- The plugin of the pipeline with these tables. -/
def Rules.plugin (r : Rules) (name : String) (mark : Option String) : MatcherPlugin where
  name := name
  matchesLower d := r.lookup (cleanDomain d.toList) ((cleanDomain d.toList).splitOn '.').reverse
  mark := mark

/-- **The plugin does what the plugin of the pipeline does**, for ordinary names. -/
theorem handle_eq_plugin (hr : Represents rules r) {cache : Cache} (hcache : Agreed rules cache)
    {codec : Codec} {ctx : Context} {labels : List Text} (h : Ordinary labels)
    (hname : (ctx.qname codec).toList = printed labels) (name : String) (mark : Option String) :
    (handle codec r mark cache ctx).1 = (r.plugin name mark).handle codec ctx := by
  have hlower : (ctx.qname codec).toLower.toList = printed (lowerLabels labels) := by
    rw [← printed_lower, ← hname]
    exact String.toList_map
  have hclean : cleanDomain (ctx.qnameLower codec).toList = joined (lowerLabels labels) := by
    show cleanDomain (ctx.qname codec).toLower.toList = _
    rw [hlower, cleanDomain_printed]
  have hcached := (matchesLowerWithParts_agreed hr hcache (ctx.qnameLower codec).toList).2 _
    h.lower hclean
  have hplugin : (r.plugin name mark).matchesLower (ctx.qname codec).toLower = true ↔
      Listed rules (joined (lowerLabels labels)) := by
    show r.lookup (cleanDomain (ctx.qname codec).toLower.toList) _ = true ↔ _
    rw [hlower, cleanDomain_printed]
    exact lookup_iff_listed hr h.lower (fromRight_splitOn h.lower)
  have hsame : (matchesLowerWithParts r cache (ctx.qnameLower codec).toList
      (ctx.qnamePartsRanges codec)).1 =
        (r.plugin name mark).matchesLower (ctx.qname codec).toLower := by
    rw [Bool.eq_iff_iff]
    exact hcached.trans hplugin.symm
  unfold handle MatcherPlugin.handle markName
  cases hquery : ctx.request.query with
  | none => simp
  | some q =>
    rw [← hsame]
    simp [Rules.plugin]

end TitanDns.DomainMatcher
