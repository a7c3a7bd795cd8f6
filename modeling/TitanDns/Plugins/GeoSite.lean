import TitanDns.Plugins.DomainMatcher

/-!
# GeoSite matching while rules are added

`DomainSet` of `geosite.rs` by category, with its two entry points and the cache of their results,
which `add_domain` leaves as it is.

* `DomainSet.add`, `DomainSet.eval` — the trie and the keywords, and the answer without the cache.
* `matchesName`, `matchesLowerWithParts`, `step` — the entry points with the cache, and one event.
* `Covered` — the rules loaded say that they cover a name; empty labels of a rule are left out, and
  a rule without any label covers nothing.
* `Represents` — the set holds just these rules; `eval_iff` — **without the cache it answers by
  them.**
* `Stale` — the name was asked for, none of the rules of that time covered it, and one does now that
  came while its result was cached.

Principal result: `answer_iff_not_stale` — **after any events an entry point answers by the rules
loaded exactly when the name is not stale.**
-/

namespace TitanDns.GeoSite

open DomainMatcher Trie PartialMap Run

/-! ## Domain sets -/

/-- `domain::Type` -/
inductive DomainType where
  | plain
  | regex
  | rootDomain
  | full
  deriving DecidableEq, Repr

/-- Lower case; the rules are ASCII. -/
def lowerText (t : Text) : Text := t.map Char.toLower

structure DomainSet where
  root : Node Text
  plain : List Text
  cache : Cache

namespace DomainSet

/-- `DomainSet::default` -/
def empty : DomainSet := ⟨.empty, [], PartialMap.empty⟩

/-- The path of a rule in the trie, from the last label; empty labels are left out. -/
def path (domain : Text) : List Text :=
  ((trimEndDots (lowerText domain)).splitOn '.').reverse.filter (· ≠ [])

/-- `add_plain` -/
def addPlain (s : DomainSet) (plain : Text) : DomainSet :=
  { s with plain := s.plain ++ [lowerText plain] }

/-- `add_domain` -/
def addDomain (s : DomainSet) (domain : Text) : DomainSet :=
  if domain = [] then s else { s with root := s.root.insert (path domain) }

/-- A rule is added by its type. -/
def add (s : DomainSet) (domain : Text) : DomainType → DomainSet
  | .plain => s.addPlain domain
  | _ => s.addDomain domain

/-- The walk through the trie along the labels, then the keywords. -/
def eval (s : DomainSet) (clean : Text) (labels : List Text) : Bool :=
  if s.root.walk labels then true else s.plain.any fun p => decide (p <:+: clean)

/-- `matches` -/
def matchesName (s : DomainSet) (domain : Text) : Bool × DomainSet :=
  let clean := normalizeDomain domain
  let (answer, cache) := cached s.cache clean (s.eval clean (clean.splitOn '.').reverse)
  (answer, { s with cache := cache })

/-- `matches_lower_with_parts` -/
def matchesLowerWithParts (s : DomainSet) (domainLower : Text) (ranges : List (Nat × Nat)) :
    Bool × DomainSet :=
  let clean := trimEndDots domainLower
  let (answer, cache) := cached s.cache clean (s.eval clean (partsOf clean ranges))
  (answer, { s with cache := cache })

end DomainSet

/-! ## The plugin -/

/-- The two entry points. -/
inductive Entry where
  | matchesName
  /-- With the name in lower case and the offsets that a context keeps of it. -/
  | withParts
  deriving DecidableEq, Repr

/-- One call on a set. -/
def DomainSet.ask (s : DomainSet) (domain : Text) : Entry → Bool × DomainSet
  | .matchesName => s.matchesName domain
  | .withParts =>
    s.matchesLowerWithParts (lowerText domain) (Context.partsRanges (lowerText domain) 0 0)

/-- `categories` -/
abbrev Categories := Text → Option DomainSet

inductive GeoEvent where
  | add (category domain : Text) (type : DomainType)
  | ask (entry : Entry) (category domain : Text)
  /-- The cache of a category loses an entry. -/
  | lose (category key : Text)

/-- `GeoSitePlugin::add_domain` -/
def addDomain (s : Categories) (category domain : Text) (type : DomainType) : Categories :=
  put s (lowerText category) (((s (lowerText category)).getD .empty).add domain type)

/-- `GeoSitePlugin::matches`, `matches_with_parts`, for a target category. -/
def answer (s : Categories) (entry : Entry) (category domain : Text) : Bool :=
  match s (lowerText category) with
  | some set => (set.ask domain entry).1
  | none => false

def step (s : Categories) : GeoEvent → Categories
  | .add category domain type => addDomain s category domain type
  | .ask entry category domain =>
    match s (lowerText category) with
    | some set => put s (lowerText category) (set.ask domain entry).2
    | none => s
  | .lose category key =>
    match s (lowerText category) with
    | some set => put s (lowerText category) { set with cache := forget set.cache key }
    | none => s

/-! ## What the rules say -/

/-- The rules of a category, in the order of their loading. -/
def rulesOf (category : Text) : List GeoEvent → List (Text × DomainType)
  | [] => []
  | .add category' domain type :: es =>
    if lowerText category' = category then (domain, type) :: rulesOf category es
    else rulesOf category es
  | _ :: es => rulesOf category es

/-- A plain rule covers every name it is part of, any other one the names its labels end. -/
def RuleCovers (rule : Text × DomainType) (labels : List Text) : Prop :=
  match rule.2 with
  | .plain => lowerText rule.1 <:+: joined labels
  | _ => DomainSet.path rule.1 ≠ [] ∧ (DomainSet.path rule.1).reverse <:+ labels

def Covered (rules : List (Text × DomainType)) (labels : List Text) : Prop :=
  ∃ rule ∈ rules, RuleCovers rule labels

theorem rulesOf_append (category : Text) (es fs : List GeoEvent) :
    rulesOf category (es ++ fs) = rulesOf category es ++ rulesOf category fs := by
  induction es with
  | nil => rfl
  | cons e es ih =>
    cases e with
    | add category' domain type =>
      simp only [List.cons_append, rulesOf]
      split
      · rw [ih, List.cons_append]
      · exact ih
    | ask entry category' domain => exact ih
    | lose category' key => exact ih

/-- What is covered stays covered. -/
theorem Covered.mono {rules more : List (Text × DomainType)} {labels : List Text}
    (h : Covered rules labels) : Covered (rules ++ more) labels := by
  obtain ⟨rule, hrule, hcovers⟩ := h
  exact ⟨rule, List.mem_append_left _ hrule, hcovers⟩

/-! ## The set holds the rules -/

structure Represents (rules : List (Text × DomainType)) (s : DomainSet) : Prop where
  root : ∀ word, word ≠ [] → (Node.Holds word s.root ↔
    ∃ rule ∈ rules, rule.2 ≠ .plain ∧ DomainSet.path rule.1 = word)
  plain : ∀ w, w ∈ s.plain ↔ ∃ rule ∈ rules, rule.2 = .plain ∧ lowerText rule.1 = w

theorem Represents.empty : Represents [] .empty := by
  constructor
  · intro word _
    simp [DomainSet.empty]
  · intro w
    simp [DomainSet.empty]

theorem Represents.add {rules : List (Text × DomainType)} {s : DomainSet} (h : Represents rules s)
    (domain : Text) (type : DomainType) :
    Represents (rules ++ [(domain, type)]) (s.add domain type) := by
  have hdomain (htype : type ≠ .plain) :
      Represents (rules ++ [(domain, type)]) (s.addDomain domain) := by
    unfold DomainSet.addDomain
    constructor
    · intro word hword
      by_cases hempty : domain = []
      · -- an empty rule has no path
        have hpath : DomainSet.path domain ≠ word := by
          rw [hempty]
          exact fun heq => hword heq.symm
        rw [if_pos hempty, h.root word hword]
        simp [hpath]
      · rw [if_neg hempty]
        show Node.Holds word (s.root.insert _) ↔ _
        rw [Node.holds_insert, h.root word hword]
        simp only [List.mem_append, List.mem_singleton, or_and_right, exists_or, exists_eq_left]
        rw [or_comm, and_iff_right htype, eq_comm]
    · intro w
      have hsame : (if domain = [] then s else
          { s with root := s.root.insert (DomainSet.path domain) }).plain = s.plain := by
        split
        · rfl
        · rfl
      rw [hsame, h.plain]
      simp [htype]
  cases type with
  | plain =>
    constructor
    · intro word hword
      show Node.Holds word s.root ↔ _
      rw [h.root word hword]
      simp
    · intro w
      show w ∈ s.plain ++ [lowerText domain] ↔ _
      rw [List.mem_append, h.plain]
      simp [eq_comm]
  | regex => exact hdomain nofun
  | rootDomain => exact hdomain nofun
  | full => exact hdomain nofun

/-- The trie answers by the rules that are paths. -/
theorem Represents.walk_iff {rules : List (Text × DomainType)} {s : DomainSet}
    (hs : Represents rules s) {labels parts : List Text} (hparts : FromRight labels parts) :
    s.root.walk parts = true ↔
      ∃ rule ∈ rules, rule.2 ≠ .plain ∧ DomainSet.path rule.1 ≠ [] ∧
        (DomainSet.path rule.1).reverse <:+ labels := by
  rw [Node.walk_iff]
  constructor
  · rintro ⟨word, hword, hprefix, hholds⟩
    obtain ⟨rule, hrule, htype, rfl⟩ := (hs.root word hword).mp hholds
    refine ⟨rule, hrule, htype, hword, ?_⟩
    rcases hparts with rfl | ⟨rfl, rfl⟩
    · rw [← List.reverse_prefix, List.reverse_reverse]
      exact hprefix
    · -- no path has an empty label
      obtain ⟨l, rest, hpath⟩ := List.exists_cons_of_ne_nil hword
      rw [hpath] at hprefix
      have hl : l = [] := (List.cons_prefix_cons.mp hprefix).1
      have hmem : l ∈ DomainSet.path rule.1 := by
        rw [hpath]
        exact List.mem_cons_self
      have hne := (List.mem_filter.mp hmem).2
      simp [hl] at hne
  · rintro ⟨rule, hrule, htype, hpath, hsuffix⟩
    refine ⟨DomainSet.path rule.1, hpath, ?_, (hs.root _ hpath).mpr ⟨rule, hrule, htype, rfl⟩⟩
    rcases hparts with rfl | ⟨rfl, rfl⟩
    · rw [← List.reverse_prefix, List.reverse_reverse] at hsuffix
      exact hsuffix
    · exact absurd (List.reverse_eq_nil_iff.mp (List.suffix_nil.mp hsuffix)) hpath

/-- The list of words answers by the plain rules. -/
theorem Represents.plain_iff {rules : List (Text × DomainType)} {s : DomainSet}
    (hs : Represents rules s) (t : Text) :
    (s.plain.any fun p => decide (p <:+: t)) = true ↔
      ∃ rule ∈ rules, rule.2 = .plain ∧ lowerText rule.1 <:+: t := by
  rw [List.any_eq_true]
  simp only [decide_eq_true_eq, hs.plain]
  constructor
  · rintro ⟨w, ⟨rule, hrule, htype, rfl⟩, hinfix⟩
    exact ⟨rule, hrule, htype, hinfix⟩
  · rintro ⟨rule, hrule, htype, hinfix⟩
    exact ⟨_, ⟨rule, hrule, htype, rfl⟩, hinfix⟩

/-- **Without the cache the set answers by its rules.** -/
theorem eval_iff {rules : List (Text × DomainType)} {s : DomainSet} (hs : Represents rules s)
    {labels parts : List Text} (hparts : FromRight labels parts) :
    s.eval (joined labels) parts = true ↔ Covered rules labels := by
  have heval : s.eval (joined labels) parts = true ↔
      s.root.walk parts = true ∨ (s.plain.any fun p => decide (p <:+: joined labels)) = true := by
    unfold DomainSet.eval
    split <;> simp [*]
  rw [heval, hs.walk_iff hparts, hs.plain_iff]
  constructor
  · rintro (⟨rule, hrule, htype, hcovers⟩ | ⟨rule, hrule, htype, hcovers⟩)
    · refine ⟨rule, hrule, ?_⟩
      unfold RuleCovers
      split
      · rename_i hplain
        exact absurd hplain htype
      · exact hcovers
    · refine ⟨rule, hrule, ?_⟩
      unfold RuleCovers
      rw [htype]
      exact hcovers
  · rintro ⟨rule, hrule, hcovers⟩
    unfold RuleCovers at hcovers
    split at hcovers
    · rename_i hplain
      exact .inr ⟨rule, hrule, hplain, hcovers⟩
    · rename_i hplain
      exact .inl ⟨rule, hrule, hplain, hcovers⟩

/-! ## The entry points -/

theorem lowerText_dot (c : Char) : (c.toLower == '.') = (c == '.') := by
  rw [Bool.eq_iff_iff, beq_iff_eq, beq_iff_eq, toLower_eq_dot]

theorem trimEndDots_lower (t : Text) : trimEndDots (lowerText t) = normalizeDomain t := by
  unfold trimEndDots lowerText normalizeDomain trimEndDots List.rdropWhile
  rw [← List.map_reverse, List.dropWhile_map, List.map_reverse]
  congr 3
  exact funext lowerText_dot

/-- Trailing dots do not move the offsets. -/
theorem partsRanges_trim (t : Text) :
    Context.partsRanges t 0 0 = Context.partsRanges (trimEndDots t) 0 0 := by
  unfold trimEndDots
  induction t using List.reverseRecOn with
  | nil => rfl
  | append_singleton t c ih =>
    by_cases hc : c = '.'
    · subst hc
      rw [partsRanges_dot t (Nat.le_refl 0), List.rdropWhile_concat_pos _ _ _ (by simp), ih]
    · rw [List.rdropWhile_concat_neg _ _ _ (by simpa using hc)]

/-- **Either entry point looks for the normal form of the name, with its labels.** -/
theorem ask_eq (s : DomainSet) (domain : Text) (entry : Entry) :
    ∃ parts, (∀ labels, Ordinary labels → normalizeDomain domain = joined labels →
        FromRight labels parts) ∧
      s.ask domain entry =
        ((cached s.cache (normalizeDomain domain) (s.eval (normalizeDomain domain) parts)).1,
          { s with
            cache := (cached s.cache (normalizeDomain domain)
              (s.eval (normalizeDomain domain) parts)).2 }) := by
  cases entry with
  | matchesName =>
    refine ⟨((normalizeDomain domain).splitOn '.').reverse, fun labels h hname => ?_, rfl⟩
    rw [hname]
    exact fromRight_splitOn h
  | withParts =>
    refine ⟨partsOf (normalizeDomain domain) (Context.partsRanges (lowerText domain) 0 0),
      fun labels h hname => .inl ?_, ?_⟩
    · rw [partsRanges_trim, trimEndDots_lower, hname, partsOf_ranges h]
    · unfold DomainSet.ask DomainSet.matchesLowerWithParts
      rw [trimEndDots_lower]

/-! ## Runs -/

/-- The cache of a category. -/
def cacheOf (s : Categories) (category : Text) : Cache :=
  ((s category).map (·.cache)).getD PartialMap.empty

theorem cacheOf_some {s : Categories} {category : Text} {set : DomainSet}
    (h : s category = some set) : cacheOf s category = set.cache := by
  rw [cacheOf, h]
  rfl

theorem getD_cache (s : Categories) (category : Text) :
    ((s category).getD .empty).cache = cacheOf s category := by
  rw [cacheOf]
  cases s category with
  | none => rfl
  | some set => rfl

theorem cacheOf_put_self (s : Categories) (category : Text) (set : DomainSet) :
    cacheOf (put s category set) category = set.cache := cacheOf_some (put_self _ _ _)

theorem cacheOf_put_of_ne {category category' : Text} (h : category ≠ category') (s : Categories)
    (set : DomainSet) : cacheOf (put s category' set) category = cacheOf s category := by
  rw [cacheOf, put_of_ne h, cacheOf]

/-- The event takes an entry from the cache of the category. -/
def Loses (category key : Text) (e : GeoEvent) : Prop :=
  ∃ category', e = .lose category' key ∧ lowerText category' = category

/-- The name was asked for once the category had been loaded, its result has not been lost since,
and it was this one by the rules of that time. -/
def Held (es : List GeoEvent) (category : Text) (labels : List Text) (b : Bool) : Prop :=
  ∃ before entry category' domain rest, es = before ++ .ask entry category' domain :: rest ∧
    lowerText category' = category ∧ normalizeDomain domain = joined labels ∧
    rulesOf category before ≠ [] ∧ (b = true ↔ Covered (rulesOf category before) labels) ∧
    ∀ e ∈ rest, ¬ Loses category (joined labels) e

/-- None of the rules covered the name when it was asked for, and one does now that was added while
the result was cached. -/
def Stale (es : List GeoEvent) (category : Text) (labels : List Text) : Prop :=
  Held es category labels false ∧ Covered (rulesOf category es) labels

theorem Held.later {es : List GeoEvent} {category : Text} {labels : List Text} {b : Bool}
    (h : Held es category labels b) {e : GeoEvent} (he : ¬ Loses category (joined labels) e) :
    Held (es ++ [e]) category labels b := by
  obtain ⟨before, entry, category', domain, rest, rfl, hcategory, hname, hloaded, hb, hrest⟩ := h
  refine ⟨before, entry, category', domain, rest ++ [e], by simp, hcategory, hname, hloaded, hb, ?_⟩
  intro e' he'
  rcases List.mem_append.mp he' with he' | he'
  · exact hrest e' he'
  · rw [List.mem_singleton.mp he']
    exact he

/-- What the state holds of a category after some events. -/
structure Loaded (es : List GeoEvent) (s : Categories) (category : Text) : Prop where
  absent : s category = none ↔ rulesOf category es = []
  represents : ∀ set, s category = some set → Represents (rulesOf category es) set
  held : ∀ labels b, Ordinary labels → cacheOf s category (joined labels) = some b →
    Held es category labels b

theorem DomainSet.add_cache (s : DomainSet) (domain : Text) (type : DomainType) :
    (s.add domain type).cache = s.cache := by
  have hdomain : (s.addDomain domain).cache = s.cache := by
    unfold DomainSet.addDomain
    split
    · rfl
    · rfl
  cases type with
  | plain => rfl
  | regex => exact hdomain
  | rootDomain => exact hdomain
  | full => exact hdomain

section

variable {es : List GeoEvent} {s : Categories} {category : Text} {e : GeoEvent}

/-- The event is about another category. -/
theorem Loaded.other (h : Loaded es s category)
    (hrules : rulesOf category (es ++ [e]) = rulesOf category es)
    (hstate : step s e category = s category)
    (hlose : ∀ key b, cacheOf s category key = some b → ¬ Loses category key e) :
    Loaded (es ++ [e]) (step s e) category := by
  constructor
  · rw [hstate, hrules]
    exact h.absent
  · intro set hset
    rw [hstate] at hset
    rw [hrules]
    exact h.represents set hset
  · intro labels b hlabels hcache
    rw [cacheOf, hstate] at hcache
    exact (h.held labels b hlabels hcache).later (hlose _ b hcache)

/-- The event writes into the cache of the category. -/
theorem Loaded.cached (h : Loaded es s category)
    (hrules : rulesOf category (es ++ [e]) = rulesOf category es) {set : DomainSet}
    (hset : s category = some set) (cache : Cache)
    (hstate : step s e category = some { set with cache := cache })
    (hheld : ∀ labels b, Ordinary labels → cache (joined labels) = some b →
      Held (es ++ [e]) category labels b) :
    Loaded (es ++ [e]) (step s e) category := by
  constructor
  · rw [hstate, hrules, ← h.absent, hset]
    simp
  · intro set' hset'
    rw [hstate] at hset'
    cases hset'
    rw [hrules]
    obtain ⟨hroot, hplain⟩ := h.represents set hset
    exact ⟨hroot, hplain⟩
  · intro labels b hlabels hcache
    rw [cacheOf_some hstate] at hcache
    exact hheld labels b hlabels hcache

/-- A rule is added to the category, and the cache is left as it is. -/
theorem Loaded.add (h : Loaded es s category) {category' : Text}
    (hcategory : lowerText category' = category) (domain : Text) (type : DomainType) :
    Loaded (es ++ [.add category' domain type]) (step s (.add category' domain type))
      category := by
  subst hcategory
  have hrules : rulesOf (lowerText category') (es ++ [.add category' domain type]) =
      rulesOf (lowerText category') es ++ [(domain, type)] := by
    rw [rulesOf_append]
    simp [rulesOf]
  have hstate : step s (.add category' domain type) (lowerText category') =
      some (((s (lowerText category')).getD .empty).add domain type) := put_self _ _ _
  have hrepresents : Represents (rulesOf (lowerText category') es)
      ((s (lowerText category')).getD .empty) := by
    cases hs : s (lowerText category') with
    | none =>
      rw [h.absent.mp hs]
      exact Represents.empty
    | some set => exact h.represents set hs
  constructor
  · rw [hstate, hrules]
    simp
  · intro set hset
    rw [hstate] at hset
    cases hset
    rw [hrules]
    exact hrepresents.add domain type
  · intro labels b hlabels hcache
    refine (h.held labels b hlabels ?_).later fun ⟨_, he, _⟩ => nomatch he
    rw [cacheOf_some hstate, DomainSet.add_cache, getD_cache] at hcache
    exact hcache

/-- An event that adds no rule. -/
theorem rulesOf_same (category : Text) (es : List GeoEvent)
    (hadd : ∀ category' domain type, e ≠ .add category' domain type) :
    rulesOf category (es ++ [e]) = rulesOf category es := by
  rw [rulesOf_append]
  cases e with
  | add category' domain type => exact absurd rfl (hadd category' domain type)
  | ask => simp [rulesOf]
  | lose => simp [rulesOf]

/-- The category is asked: the result found in the cache, or computed now, is held. -/
theorem Loaded.ask {category' : Text} (h : Loaded es s (lowerText category')) (entry : Entry)
    (domain : Text) :
    Loaded (es ++ [.ask entry category' domain]) (step s (.ask entry category' domain))
      (lowerText category') := by
  have hrules := rulesOf_same (e := .ask entry category' domain) (lowerText category') es nofun
  have hlose (key : Text) : ¬ Loses (lowerText category') key (.ask entry category' domain) :=
    fun ⟨_, he, _⟩ => nomatch he
  cases hset : s (lowerText category') with
  | none =>
    refine h.other hrules ?_ fun key _ _ => hlose key
    simp only [GeoSite.step, hset]
  | some set =>
    obtain ⟨parts, hparts, hask⟩ := ask_eq set domain entry
    refine h.cached hrules hset ((DomainMatcher.cached set.cache
      (normalizeDomain domain) (set.eval (normalizeDomain domain) parts)).2) ?_
      fun labels b hlabels hcache => ?_
    · simp only [GeoSite.step, hset, hask, put_self]
    · have hold (hb : set.cache (joined labels) = some b) :=
        (h.held labels b hlabels (by rw [cacheOf_some hset]; exact hb)).later (hlose _)
      unfold DomainMatcher.cached at hcache
      cases hhit : set.cache (normalizeDomain domain) with
      | some b' =>
        rw [hhit] at hcache
        exact hold hcache
      | none =>
        rw [hhit] at hcache
        rcases put_some hcache with ⟨hname, rfl⟩ | ⟨-, hcache⟩
        · -- the result is computed now
          refine ⟨es, entry, category', domain, [], rfl, rfl, hname.symm, ?_, ?_, nofun⟩
          · rw [ne_eq, ← h.absent, hset]
            exact nofun
          · rw [← hname]
            exact eval_iff (h.represents set hset) (hparts labels hlabels hname.symm)
        · exact hold hcache

/-- An entry of the category is lost. -/
theorem Loaded.lose {category' : Text} (h : Loaded es s (lowerText category')) (key : Text) :
    Loaded (es ++ [.lose category' key]) (step s (.lose category' key))
      (lowerText category') := by
  have hrules := rulesOf_same (e := .lose category' key) (lowerText category') es nofun
  cases hset : s (lowerText category') with
  | none =>
    refine h.other hrules ?_ fun key' b hcache => ?_
    · simp only [GeoSite.step, hset]
    · rw [cacheOf, hset] at hcache
      cases hcache
  | some set =>
    refine h.cached hrules hset (forget set.cache key) ?_
      fun labels b hlabels hcache => ?_
    · simp only [GeoSite.step, hset, put_self]
    · obtain ⟨hne, hcache⟩ := forget_some hcache
      refine (h.held labels b hlabels (by rw [cacheOf_some hset]; exact hcache)).later ?_
      rintro ⟨_, he, -⟩
      cases he
      exact hne rfl

/-- **One event keeps the state true to the events.** -/
theorem Loaded.step (h : Loaded es s category) (e : GeoEvent) :
    Loaded (es ++ [e]) (step s e) category := by
  cases e with
  | add category' domain type =>
    by_cases hcategory : lowerText category' = category
    · exact h.add hcategory domain type
    · refine h.other ?_ (put_of_ne (Ne.symm hcategory) _ _) fun _ _ _ ⟨_, he, _⟩ => nomatch he
      rw [rulesOf_append]
      simp [rulesOf, hcategory]
  | ask entry category' domain =>
    by_cases hcategory : lowerText category' = category
    · subst hcategory
      exact h.ask entry domain
    · refine h.other (rulesOf_same category es nofun) ?_ fun _ _ _ ⟨_, he, _⟩ => nomatch he
      simp only [GeoSite.step]
      cases s (lowerText category') with
      | none => rfl
      | some set => exact put_of_ne (Ne.symm hcategory) _ _
  | lose category' key =>
    by_cases hcategory : lowerText category' = category
    · subst hcategory
      exact h.lose key
    · refine h.other (rulesOf_same category es nofun) ?_ fun _ _ _ ⟨_, he, hc⟩ => ?_
      · simp only [GeoSite.step]
        cases s (lowerText category') with
        | none => rfl
        | some set => exact put_of_ne (Ne.symm hcategory) _ _
      · cases he
        exact hcategory hc

end

theorem loaded_run (es : List GeoEvent) (category : Text) :
    Loaded es (run step PartialMap.empty es) category := by
  induction es using List.reverseRecOn with
  | nil =>
    refine ⟨iff_of_true rfl rfl, fun set hset => ?_, fun labels b _ hcache => ?_⟩
    · cases hset
    · cases hcache
  | append_singleton es e ih =>
    rw [run_append]
    exact ih.step e

/-- What is cached stays until it is lost. -/
theorem cacheOf_step {s : Categories} {category key : Text} {b : Bool}
    (h : cacheOf s category key = some b) {e : GeoEvent} (he : ¬ Loses category key e) :
    cacheOf (step s e) category key = some b := by
  cases e with
  | add category' domain type =>
    by_cases hcategory : lowerText category' = category
    · subst hcategory
      rw [step, addDomain, cacheOf_put_self, DomainSet.add_cache, getD_cache]
      exact h
    · rw [step, addDomain, cacheOf_put_of_ne (Ne.symm hcategory)]
      exact h
  | ask entry category' domain =>
    simp only [step]
    cases hset : s (lowerText category') with
    | none => exact h
    | some set =>
      by_cases hcategory : lowerText category' = category
      · subst hcategory
        obtain ⟨parts, -, hask⟩ := ask_eq set domain entry
        simp only [cacheOf_put_self, hask]
        rw [cacheOf_some hset] at h
        unfold cached
        cases hhit : set.cache (normalizeDomain domain) with
        | some _ => exact h
        | none =>
          have hne : key ≠ normalizeDomain domain := by
            rintro rfl
            rw [h] at hhit
            cases hhit
          exact (put_of_ne hne _ _).trans h
      · simp only [cacheOf_put_of_ne (Ne.symm hcategory)]
        exact h
  | lose category' key' =>
    simp only [step]
    cases hset : s (lowerText category') with
    | none => exact h
    | some set =>
      by_cases hcategory : lowerText category' = category
      · subst hcategory
        have hne : key ≠ key' := by
          rintro rfl
          exact he ⟨category', rfl, rfl⟩
        rw [cacheOf_some hset] at h
        simp only [cacheOf_put_self]
        exact (forget_of_ne hne _).trans h
      · simp only [cacheOf_put_of_ne (Ne.symm hcategory)]
        exact h

/-- **A negative result that was held is still cached.** -/
theorem Held.cached_false (es : List GeoEvent) (category : Text) {labels : List Text}
    (hlabels : Ordinary labels) (h : Held es category labels false) :
    cacheOf (run step PartialMap.empty es) category (joined labels) = some false := by
  obtain ⟨before, entry, category', domain, rest, rfl, rfl, hname, hloaded, hb, hrest⟩ := h
  have hnot : ¬ Covered (rulesOf (lowerText category') before) labels :=
    mt hb.mpr Bool.false_ne_true
  obtain ⟨habsent, hrepresents, hheld⟩ := loaded_run before (lowerText category')
  rw [run_append, run_cons]
  generalize run step PartialMap.empty before = s at habsent hrepresents hheld ⊢
  have hasked : cacheOf (step s (.ask entry category' domain)) (lowerText category')
      (joined labels) = some false := by
    cases hset : s (lowerText category') with
    | none => exact absurd (habsent.mp hset) hloaded
    | some set =>
      obtain ⟨parts, hparts, hask⟩ := ask_eq set domain entry
      simp only [step, hset, cacheOf_put_self, hask]
      unfold cached
      rw [hname]
      cases hhit : set.cache (joined labels) with
      | some b =>
        -- a positive result would have come from a rule
        cases b with
        | false => exact hhit
        | true =>
          obtain ⟨before', _, _, _, rest', rfl, -, -, -, hcovered, -⟩ :=
            hheld labels true hlabels (by rw [cacheOf_some hset]; exact hhit)
          rw [rulesOf_append] at hnot
          exact absurd (hcovered.mp rfl).mono hnot
      | none =>
        refine (put_self _ _ _).trans ?_
        rw [Option.some.injEq, Bool.eq_false_iff]
        exact mt (eval_iff (hrepresents set hset) (hparts labels hlabels hname)).mp hnot
  generalize step s (.ask entry category' domain) = s' at hasked ⊢
  induction rest generalizing s' with
  | nil => exact hasked
  | cons e rest ih =>
    exact ih (fun e' he' => hrest e' (List.mem_cons_of_mem e he')) _
      (cacheOf_step hasked (hrest e List.mem_cons_self))

/-- **After any events either entry point answers by the rules loaded exactly when the name is not
stale.** -/
theorem answer_iff_not_stale (es : List GeoEvent) (entry : Entry) (category domain : Text)
    (labels : List Text) (hlabels : Ordinary labels)
    (hname : normalizeDomain domain = joined labels) :
    (answer (run step PartialMap.empty es) entry category domain = true ↔
        Covered (rulesOf (lowerText category) es) labels) ↔
      ¬ Stale es (lowerText category) labels := by
  obtain ⟨habsent, hrepresents, hheld⟩ := loaded_run es (lowerText category)
  have hfalse := Held.cached_false es (lowerText category) hlabels
  unfold answer
  generalize run step PartialMap.empty es = s at habsent hrepresents hheld hfalse ⊢
  cases hset : s (lowerText category) with
  | none =>
    have hnone : ¬ Covered (rulesOf (lowerText category) es) labels := by
      rw [habsent.mp hset]
      rintro ⟨rule, hrule, -⟩
      cases hrule
    exact iff_of_true (iff_of_false Bool.false_ne_true hnone) fun h => hnone h.2
  | some set =>
    obtain ⟨parts, hparts, hask⟩ := ask_eq set domain entry
    simp only [hask, cached, hname]
    rw [cacheOf_some hset] at hfalse
    cases hhit : set.cache (joined labels) with
    | none =>
      refine iff_of_true (eval_iff (hrepresents set hset) (hparts labels hlabels hname)) fun h => ?_
      have hcached : set.cache (joined labels) = some false := hfalse h.1
      rw [hhit] at hcached
      cases hcached
    | some b =>
      have hb := hheld labels b hlabels (by rw [cacheOf_some hset]; exact hhit)
      cases b with
      | true =>
        obtain ⟨before, _, _, _, rest, rfl, -, -, -, hcovered, -⟩ := hb
        rw [rulesOf_append]
        refine iff_of_true (iff_of_true rfl (hcovered.mp rfl).mono) fun h => ?_
        have hcached : set.cache (joined labels) = some false := hfalse h.1
        rw [hhit] at hcached
        cases hcached
      | false =>
        have hstale : Stale es (lowerText category) labels ↔
            Covered (rulesOf (lowerText category) es) labels := and_iff_right hb
        rw [hstale]
        simp

/-- A rule for another name, a query, the rule for its name. -/
def lateRule : List GeoEvent :=
  [.add "cn".toList "a.cn".toList .rootDomain, .ask .matchesName "cn".toList "b.com".toList,
    .add "cn".toList "b.com".toList .rootDomain]

/-- The name is covered now, and the answer is still no. -/
theorem late_rule_ignored :
    ¬ (answer (run step PartialMap.empty lateRule) .matchesName "cn".toList "b.com".toList = true ↔
      Covered (rulesOf (lowerText "cn".toList) lateRule) ["b".toList, "com".toList]) := by
  have hcovered : Covered (rulesOf (lowerText "cn".toList) lateRule) ["b".toList, "com".toList] :=
    ⟨("b.com".toList, .rootDomain), by decide +kernel, by decide +kernel, by decide +kernel⟩
  have hanswer : answer (run step PartialMap.empty lateRule) .matchesName "cn".toList
      "b.com".toList = false := by decide +kernel
  rw [hanswer]
  exact fun h => Bool.false_ne_true (h.mpr hcovered)

/-- Before the rule is added the answer is the one of the rules. -/
theorem answer_iff_not_stale_early :
    (answer (run step PartialMap.empty (lateRule.take 2)) .withParts "cn".toList "B.com.".toList =
        true ↔
      Covered (rulesOf (lowerText "cn".toList) (lateRule.take 2)) ["b".toList, "com".toList]) ↔
    ¬ Stale (lateRule.take 2) (lowerText "cn".toList) ["b".toList, "com".toList] :=
  answer_iff_not_stale _ _ _ _ _ (by unfold Ordinary; decide +kernel) (by decide +kernel)

end TitanDns.GeoSite
