import TitanDns.Plugins.AdBlockRules
import TitanDns.Plugins.KeySpelling
import TitanDns.Plugins.RecursiveBackend

/-!
# Domestic names of the recursive backend

`is_domestic_domain` on texts, with the standard library's `to_lowercase` as a parameter.

* `localSuffixes`, `domesticTlds`, `domesticKeywords` — the three lists.
* `isDomestic` — the verdict; `isDomesticDomain_eq` connects it to that of `RecursiveBackend`, in
  ASCII.
* `EndsDomestic` — the name ends at a label boundary with a suffix; `HasKeyword` — it has a keyword
  somewhere.
* `Spells` — the spellings of a name; `Uniform` — what is said of the verdict.

Principal results: `isDomestic_dot` — **behind a trailing dot only the keywords count**;
`uniform_iff` — **the verdict is that of the name exactly when no suffix is needed for it.**
-/

namespace TitanDns

open DomainMatcher

namespace RecursiveBackend

/-- Step 1: local names. -/
def localSuffixes : List Text :=
  [".local".toList, ".lan".toList, ".home".toList, ".internal".toList]

/-- Step 2: `domestic_tlds`. -/
def domesticTlds : List Text :=
  [".cn".toList, ".com.cn".toList, ".net.cn".toList, ".org.cn".toList, ".gov.cn".toList,
    ".edu.cn".toList, ".hk".toList, ".tw".toList, ".mo".toList]

/-- Step 3: `domestic_keywords`. -/
def domesticKeywords : List Text :=
  ["baidu".toList, "taobao".toList, "tmall".toList, "alipay".toList, "aliyun".toList,
    "tencent".toList, "qq".toList, "weixin".toList, "wechat".toList, "jd".toList, "360".toList,
    "sina".toList, "sohu".toList, "163".toList, "126".toList, "bilibili".toList, "douyin".toList,
    "kuaishou".toList]

/-- The verdict on a name in lower case. -/
def isDomesticLower (nameLower : Text) : Bool :=
  localSuffixes.any (·.isSuffixOf nameLower) || domesticTlds.any (·.isSuffixOf nameLower) ||
    domesticKeywords.any (hasInfix · nameLower)

/-- `is_domestic_domain` -/
def isDomestic (lib : CharTables) (name : Text) : Bool := isDomesticLower (lib.toLowercase name)

/-- `to_lowercase` of ASCII. -/
def asciiTables : CharTables := ⟨(·.map Char.toLower), fun _ => false⟩

/-- **The verdict by which `lookup` chooses is this one**, in ASCII. -/
theorem isDomesticDomain_eq (name : String) :
    isDomesticDomain name = isDomestic asciiTables name.toList := by
  have hlower : name.toLower.toList = name.toList.map Char.toLower := String.toList_map
  unfold isDomesticDomain isDomestic isDomesticLower asciiTables
  rw [hlower, ← List.any_append]
  rfl

/-! ## Names and spellings -/

/-- The name ends at a label boundary with a domestic TLD or a local suffix; the dot in front of the
name is for a name that is the suffix itself. -/
def EndsDomestic (nameLower : Text) : Prop :=
  ∃ s ∈ localSuffixes ++ domesticTlds, s <:+ '.' :: nameLower

def HasKeyword (nameLower : Text) : Prop := ∃ k ∈ domesticKeywords, k <:+: nameLower

/-- What is said of the verdict on a name: it is that of every spelling, and a name with a domestic
end is domestic. -/
structure Uniform (lib : CharTables) (n : Text) : Prop where
  same : ∀ t t', Spelling n t → Spelling n t' → isDomestic lib t = isDomestic lib t'
  domestic : EndsDomestic (lib.toLowercase n) → ∀ t, Spelling n t → isDomestic lib t = true

/-- What is relied on of `to_lowercase`: it does not see the case of ASCII letters, and a dot at the
end stays. -/
structure Lowers (lib : CharTables) : Prop where
  ascii : ∀ t, lib.toLowercase (t.map Char.toLower) = lib.toLowercase t
  dot : ∀ t, lib.toLowercase (t ++ ['.']) = lib.toLowercase t ++ ['.']

theorem toLower_toLower (c : Char) : c.toLower.toLower = c.toLower := by
  cases h : c.isAlpha with
  | true => exact (letter_cases h).1
  | false => rw [toLower_of_not_isAlpha h, toLower_of_not_isAlpha h]

theorem asciiTables_lowers : Lowers asciiTables := by
  constructor
  · intro t
    show (t.map Char.toLower).map Char.toLower = t.map Char.toLower
    rw [List.map_map]
    exact List.map_congr_left fun c _ => toLower_toLower c
  · intro t
    exact List.map_append

/-! ## The trailing dot -/

theorem hasInfix_iff (k t : Text) : hasInfix k t = true ↔ k <:+: t := by
  simp only [hasInfix, List.any_eq_true, List.isPrefixOf_iff_prefix, List.mem_tails]
  constructor
  · rintro ⟨u, hu, hk⟩
    exact hk.isInfix.trans hu.isInfix
  · intro h
    obtain ⟨u, hk, hu⟩ := List.infix_iff_prefix_suffix.mp h
    exact ⟨u, hu, hk⟩

/-- The verdict, by suffix and by keyword. -/
theorem isDomesticLower_iff (t : Text) : isDomesticLower t = true ↔
    (∃ s ∈ localSuffixes ++ domesticTlds, s <:+ t) ∨ HasKeyword t := by
  simp only [isDomesticLower, HasKeyword, Bool.or_eq_true, List.any_eq_true, hasInfix_iff,
    List.isSuffixOf_iff_suffix, List.mem_append, or_and_right, exists_or]

/-- A suffix of the lists has no dot at its end. -/
theorem suffix_not_dotted {s t : Text} (hs : s ∈ localSuffixes ++ domesticTlds) :
    ¬ s <:+ t ++ ['.'] := by
  have hlast : ∀ s ∈ localSuffixes ++ domesticTlds, s ≠ [] ∧ s.getLast? ≠ some '.' := by decide
  obtain ⟨hne, hdot⟩ := hlast s hs
  rintro ⟨front, h⟩
  have hlast' := congrArg List.getLast? h
  rw [List.getLast?_append_of_ne_nil _ hne, List.getLast?_concat] at hlast'
  exact hdot hlast'

/-- A text without dots stands in another one in front of its last dot. -/
theorem infix_dotted_iff {k t : Text} (hne : k ≠ []) (hdot : '.' ∉ k) :
    k <:+: t ++ ['.'] ↔ k <:+: t := by
  constructor
  · rintro ⟨front, back, h⟩
    rcases List.eq_nil_or_concat back with rfl | ⟨back, c, rfl⟩
    · rw [List.append_nil] at h
      have hlast := congrArg List.getLast? h
      rw [List.getLast?_append_of_ne_nil _ hne, List.getLast?_concat] at hlast
      exact absurd (List.mem_of_getLast? hlast) hdot
    · rw [List.concat_eq_append, ← List.append_assoc] at h
      exact ⟨front, back, List.append_inj_left' h rfl⟩
  · exact fun h => h.trans (List.prefix_append t ['.']).isInfix

theorem hasKeyword_dotted_iff (t : Text) : HasKeyword (t ++ ['.']) ↔ HasKeyword t := by
  have hplain : ∀ k ∈ domesticKeywords, k ≠ [] ∧ '.' ∉ k := by decide
  constructor
  · rintro ⟨k, hk, h⟩
    exact ⟨k, hk, (infix_dotted_iff (hplain k hk).1 (hplain k hk).2).mp h⟩
  · rintro ⟨k, hk, h⟩
    exact ⟨k, hk, (infix_dotted_iff (hplain k hk).1 (hplain k hk).2).mpr h⟩

/-- **Behind a trailing dot only the keywords count.** -/
theorem isDomesticLower_dotted (t : Text) :
    isDomesticLower (t ++ ['.']) = true ↔ HasKeyword t := by
  rw [isDomesticLower_iff, hasKeyword_dotted_iff]
  constructor
  · rintro (⟨s, hs, hsuffix⟩ | h)
    · exact absurd hsuffix (suffix_not_dotted hs)
    · exact h
  · exact Or.inr

/-- Without a domestic end, too, only the keywords count. -/
theorem isDomesticLower_foreign {t : Text} (h : ¬ EndsDomestic t) :
    isDomesticLower t = true ↔ HasKeyword t := by
  rw [isDomesticLower_iff]
  constructor
  · rintro (⟨s, hs, hsuffix⟩ | hkeyword)
    · exact absurd ⟨s, hs, hsuffix.trans (List.suffix_cons '.' t)⟩ h
    · exact hkeyword
  · exact Or.inr

/-- The spellings of a name, in lower case. -/
theorem Lowers.spelling {lib : CharTables} (hlib : Lowers lib) {n t : Text} (h : Spelling n t) :
    lib.toLowercase t = lib.toLowercase n ∨ lib.toLowercase t = lib.toLowercase n ++ ['.'] := by
  rcases h.2 with h | h
  · left
    rw [← hlib.ascii t, h, hlib.ascii]
  · right
    rw [← hlib.ascii t, h, hlib.ascii, hlib.dot]

/-- **The verdict is the same for every spelling, and the suffixes count for all of them, exactly
when the name has no domestic end or has a keyword as well.** -/
theorem uniform_iff {lib : CharTables} (hlib : Lowers lib) (n : Text) :
    Uniform lib n ↔ ¬ EndsDomestic (lib.toLowercase n) ∨ HasKeyword (lib.toLowercase n) := by
  constructor
  · intro h
    by_cases hends : EndsDomestic (lib.toLowercase n)
    · have hdotted := h.domestic hends (n ++ ['.']) ⟨by simp, Or.inr rfl⟩
      rw [isDomestic, hlib.dot] at hdotted
      exact Or.inr ((isDomesticLower_dotted _).mp hdotted)
    · exact Or.inl hends
  · intro h
    have hverdict (t : Text) (ht : Spelling n t) :
        isDomestic lib t = true ↔ HasKeyword (lib.toLowercase n) := by
      unfold isDomestic
      rcases hlib.spelling ht with hlower | hlower
      · rw [hlower]
        rcases h with hforeign | hkeyword
        · exact isDomesticLower_foreign hforeign
        · exact iff_of_true ((isDomesticLower_iff _).mpr (Or.inr hkeyword)) hkeyword
      · rw [hlower]
        exact isDomesticLower_dotted _
    constructor
    · intro t t' ht ht'
      rw [Bool.eq_iff_iff, hverdict t ht, hverdict t' ht']
    · intro hends t ht
      exact (hverdict t ht).mpr (h.resolve_left (not_not_intro hends))

/-- A foreign name. -/
theorem uniform_iff_example : Uniform asciiTables "www.example.com".toList :=
  (uniform_iff asciiTables_lowers _).mpr (Or.inl (by
    rintro ⟨s, hs, hsuffix⟩
    have hnone : ∀ s ∈ localSuffixes ++ domesticTlds,
        s.isSuffixOf ('.' :: asciiTables.toLowercase "www.example.com".toList) = false := by decide
    rw [← List.isSuffixOf_iff_suffix, hnone s hs] at hsuffix
    cases hsuffix))

/-- `www.gov.cn` is domestic as it is written by hand and foreign as `to_string` prints it. -/
theorem trailing_dot_foreign :
    isDomestic asciiTables "www.gov.cn".toList = true ∧
    isDomestic asciiTables "www.gov.cn.".toList = false ∧
    ¬ ∀ lib, Lowers lib → ∀ n, Uniform lib n := by
  refine ⟨by decide, by decide, fun hall => ?_⟩
  have hsame := (hall asciiTables asciiTables_lowers "www.gov.cn".toList).same "www.gov.cn".toList
    "www.gov.cn.".toList (by decide) (by decide)
  exact absurd hsame (by decide)

/-! ## The mode chosen -/

/-- **Of the dotted names, the Hybrid mode asks the trusted resolver first only for one with a
keyword.** -/
theorem lookup_hybrid_dotted (codec : Codec) {b : RecursiveBackend} (hmode : b.mode = .hybrid)
    (env : ResolverEnv) {name : String} (qtype : UInt16)
    (hkeyword : ¬ HasKeyword (name.toList.map Char.toLower)) :
    lookup codec b env (name ++ ".") qtype =
      match lookupIterative codec b env (name ++ ".") qtype with
      | .ok msg => .ok msg
      | .error _ => lookupTrusted codec b env (name ++ ".") qtype := by
  have hforeign : isDomesticDomain (name ++ ".") = false := by
    rw [isDomesticDomain_eq, String.toList_append]
    show isDomesticLower (asciiTables.toLowercase (name.toList ++ ['.'])) = false
    rw [asciiTables_lowers.dot, ← Bool.not_eq_true, isDomesticLower_dotted]
    exact hkeyword
  unfold lookup
  rw [hmode, hforeign]
  rfl

end RecursiveBackend

end TitanDns
