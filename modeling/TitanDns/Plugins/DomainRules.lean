import TitanDns.Lib.Trie
import Mathlib.Data.List.DropRight

/-!
# The rules of a domain matcher

What `MatcherPlugin::load_file` makes of the lines of a rule file, and what the rules of the file
say.  Texts are lists of characters; how the standard library lower-cases a line is a parameter.

* `parseRule`, `Rules.addLine`, `Rules.loadFile`, `Rules.new` — the loader: exact names, a trie of
  suffixes by label from the right, keywords.
* `Rule`, `Rule.Covers` — a rule, and the names it covers; `Spelled` — how it may be written in a
  line; `Reads` — the rules of a file.
* `Represents` — the three tables hold just these rules.

Principal results: `parseRule_spelled` — **every spelling is read as its rule**;
`loadFile_represents` — **the tables hold the rules of the file**, in any order and any number of
times.
-/

namespace TitanDns.DomainMatcher

open Trie

abbrev Text := List Char

/-! ## Reading a line -/

/-- `char::is_whitespace`: the characters that Unicode counts as white space. -/
def isWhitespace (c : Char) : Bool :=
  (9 ≤ c.toNat && c.toNat ≤ 13) || c.toNat == 0x20 || c.toNat == 0x85 || c.toNat == 0xa0 ||
    c.toNat == 0x1680 || (0x2000 ≤ c.toNat && c.toNat ≤ 0x200a) || c.toNat == 0x2028 ||
    c.toNat == 0x2029 || c.toNat == 0x202f || c.toNat == 0x205f || c.toNat == 0x3000

def trim (s : Text) : Text := (s.dropWhile isWhitespace).rdropWhile isWhitespace

/-- `trim_start_matches('.')` -/
def trimStartDots (s : Text) : Text := s.dropWhile (· == '.')

/-- `trim_end_matches('.')` -/
def trimEndDots (s : Text) : Text := s.rdropWhile (· == '.')

inductive RuleKind where
  | exact
  | suffix
  | keyword
  deriving DecidableEq, Repr

structure ParsedRule where
  kind : RuleKind
  value : Text
  deriving DecidableEq

def KEYWORD : Text := ['k', 'e', 'y', 'w', 'o', 'r', 'd', ':']
def DOMAIN : Text := ['d', 'o', 'm', 'a', 'i', 'n', ':']
def FULL : Text := ['f', 'u', 'l', 'l', ':']
def SUFFIX : Text := ['s', 'u', 'f', 'f', 'i', 'x', ':']
def REGEXP : Text := ['r', 'e', 'g', 'e', 'x', 'p', ':']

/-- The kind that the prefix of the line says, and what follows the prefix. -/
def ruleKind (line : Text) : Option (RuleKind × Text) :=
  if KEYWORD.isPrefixOf line then some (.keyword, line.drop KEYWORD.length)
  else if DOMAIN.isPrefixOf line then some (.exact, line.drop DOMAIN.length)
  else if FULL.isPrefixOf line then some (.exact, line.drop FULL.length)
  else if SUFFIX.isPrefixOf line then some (.suffix, line.drop SUFFIX.length)
  else if ':' ∈ line then none
  else some (.exact, line)

/-- The rest of `parse_rule`: a leading dot makes a suffix rule. -/
def ruleOf (kind : RuleKind) (value : Text) : Option ParsedRule :=
  let value := trimEndDots (trim value)
  if value = [] then none
  else
    let dotted := kind ≠ .keyword ∧ value.head? = some '.'
    let kind := if dotted then .suffix else kind
    let value := if dotted then trimStartDots value else value
    if kind = .suffix then
      if trimStartDots value = [] then none else some ⟨kind, trimStartDots value⟩
    else some ⟨kind, value⟩

/-- `parse_rule`. -/
def parseRule (toLowercase : Text → Text) (line : Text) : Option ParsedRule :=
  let line := toLowercase line
  if REGEXP.isPrefixOf line then none
  else (ruleKind line).bind fun p => ruleOf p.1 p.2

/-! ## Loading -/

/-- The tables of a `MatcherPlugin`. -/
structure Rules where
  domains : List Text
  suffixRoot : Node Text
  keywords : List Text
  totalRules : Nat

namespace Rules

def empty : Rules := ⟨[], .empty, [], 0⟩

/-- The path of a suffix rule, from the last label; empty labels are left out. -/
def suffixPath (clean : Text) : List Text := (clean.splitOn '.').reverse.filter (· ≠ [])

/-- One rule is entered. -/
def add (r : Rules) (rule : ParsedRule) : Rules :=
  match rule.kind with
  | .suffix =>
    let clean := trimEndDots (trimStartDots rule.value)
    if clean = [] then r
    else
      { r with
        suffixRoot := r.suffixRoot.insert (suffixPath clean)
        domains := r.domains.insert clean }
  | .exact => { r with domains := r.domains.insert rule.value }
  | .keyword => { r with keywords := r.keywords.insert rule.value }

/-- A line without a rule: empty, or a comment. -/
def skipped (line : Text) : Bool :=
  line.isEmpty || ['#'].isPrefixOf line || ['/', '/'].isPrefixOf line

variable (toLowercase : Text → Text)

/-- One turn of the loop of `load_file`; with the number of rules so far. -/
def addLine (p : Rules × Nat) (line : Text) : Rules × Nat :=
  let line := trim line
  if skipped line then p
  else
    match parseRule toLowercase line with
    | some rule => (p.1.add rule, p.2 + 1)
    | none => p

/-- `load_file`, on the lines that can be read. -/
def loadFile (r : Rules) (lines : List Text) : Rules × Nat :=
  lines.foldl (addLine toLowercase) (r, 0)

/-- `new`.  What was entered of a file that cannot be read to its end stays, but is not counted. -/
def new (files : List (List Text × Bool)) : Rules :=
  files.foldl (fun r file =>
    let (r', count) := loadFile toLowercase r file.1
    if file.2 then { r' with totalRules := r.totalRules + count } else r') empty

end Rules

/-! ## What the rules say -/

/-- A rule of the file, in lower case. -/
inductive Rule where
  | exact (name : Text)
  | suffix (name : Text)
  | keyword (word : Text)
  deriving DecidableEq

/-- The rule covers the name: it is the name, it ends the name at a label boundary, it occurs in
it. -/
def Rule.Covers (name : Text) : Rule → Prop
  | exact n => name = n
  | suffix n => name = n ∨ ∃ front, name = front ++ '.' :: n
  | keyword w => w <:+: name

/-- Some rule covers the name. -/
def Listed (rules : List Rule) (name : Text) : Prop := ∃ rule ∈ rules, rule.Covers name

/-- A name without an empty label. -/
def Domain (n : Text) : Prop := [] ∉ n.splitOn '.'

/-- The text in a rule: white space around it and dots behind it do not count. -/
def Says (body text : Text) : Prop := trimEndDots (trim body) = text

/-- What may stand before an exact name: a prefix, or nothing if there is no colon. -/
inductive ExactPrefix (body : Text) : Text → Prop
  | full : ExactPrefix body FULL
  | domain : ExactPrefix body DOMAIN
  | bare (h : ':' ∉ body) : ExactPrefix body []

/-- How a rule may be written, in lower case. -/
inductive Spelled : Text → Rule → Prop
  | exact {front body n : Text} (hfront : ExactPrefix body front) (hbody : Says body n)
      (hn : Domain n) : Spelled (front ++ body) (.exact n)
  /-- A leading dot. -/
  | dotted {front body n : Text} (hfront : ExactPrefix body front) (hbody : Says body ('.' :: n))
      (hn : Domain n) : Spelled (front ++ body) (.suffix n)
  | suffix {body n : Text} (hbody : Says body n ∨ Says body ('.' :: n)) (hn : Domain n) :
      Spelled (SUFFIX ++ body) (.suffix n)
  | keyword {body w : Text} (hbody : Says body w) (hw : w ≠ []) :
      Spelled (KEYWORD ++ body) (.keyword w)

/-- The rules of a file, line by line; letter case is for `toLowercase` to settle. -/
inductive Reads (toLowercase : Text → Text) : List Text → List Rule → Prop
  | nil : Reads toLowercase [] []
  | skipped {line : Text} {lines : List Text} {rules : List Rule}
      (h : Rules.skipped (trim line) = true) (hlines : Reads toLowercase lines rules) :
      Reads toLowercase (line :: lines) rules
  | rule {line : Text} {lines : List Text} {rule : Rule} {rules : List Rule}
      (h : Rules.skipped (trim line) = false) (hrule : Spelled (toLowercase (trim line)) rule)
      (hlines : Reads toLowercase lines rules) :
      Reads toLowercase (line :: lines) (rule :: rules)

/-- What `parse_rule` is to make of a rule. -/
def Rule.parsed : Rule → ParsedRule
  | exact n => ⟨.exact, n⟩
  | suffix n => ⟨.suffix, n⟩
  | keyword w => ⟨.keyword, w⟩

/-! ## Names without empty labels -/

theorem Domain.ne_nil {n : Text} (h : Domain n) : n ≠ [] := by
  rintro rfl
  exact h (by simp)

theorem Domain.head {n : Text} (h : Domain n) : n.head? ≠ some '.' := by
  intro hhead
  cases n with
  | nil => cases hhead
  | cons c n =>
    cases hhead
    apply h
    have hsplit := List.splitOn_append_cons_self (a := '.') [] n
    rw [List.nil_append] at hsplit
    rw [hsplit]
    simp

theorem Domain.last {n : Text} (h : Domain n) (hne : n ≠ []) : n.getLast hne ≠ '.' := by
  intro hlast
  apply h
  have hconcat : n = n.dropLast ++ '.' :: [] := by
    rw [← hlast]
    exact (List.dropLast_append_getLast hne).symm
  rw [hconcat, List.splitOn_append_cons_self]
  simp

theorem Domain.trimStartDots {n : Text} (h : Domain n) : trimStartDots n = n := by
  cases n with
  | nil => rfl
  | cons c n =>
    have hc : c ≠ '.' := fun heq => h.head (by rw [heq]; rfl)
    simp [DomainMatcher.trimStartDots, hc]

theorem Domain.trimEndDots {n : Text} (h : Domain n) : trimEndDots n = n := by
  rw [DomainMatcher.trimEndDots, List.rdropWhile_eq_self_iff]
  intro hne
  simpa using h.last hne

theorem Domain.suffixPath {n : Text} (h : Domain n) :
    Rules.suffixPath n = (n.splitOn '.').reverse := by
  rw [Rules.suffixPath, List.filter_eq_self]
  intro label hlabel
  have hne : label ≠ [] := by
    rintro rfl
    exact h (List.mem_reverse.mp hlabel)
  simpa using hne

/-! ## Reading a rule -/

theorem ruleOf_exact {body n : Text} (hbody : Says body n) (hn : Domain n) :
    ruleOf .exact body = some ⟨.exact, n⟩ := by
  unfold ruleOf
  simp only [show trimEndDots (trim body) = n from hbody]
  simp [hn.ne_nil, hn.head]

theorem ruleOf_dotted {kind : RuleKind} (hkind : kind ≠ .keyword) {body n : Text}
    (hbody : Says body ('.' :: n)) (hn : Domain n) : ruleOf kind body = some ⟨.suffix, n⟩ := by
  have hstart : trimStartDots ('.' :: n) = n := hn.trimStartDots
  unfold ruleOf
  simp only [show trimEndDots (trim body) = '.' :: n from hbody]
  simp [hkind, hstart, hn.trimStartDots, hn.ne_nil]

theorem ruleOf_suffix {body n : Text} (hbody : Says body n ∨ Says body ('.' :: n))
    (hn : Domain n) : ruleOf .suffix body = some ⟨.suffix, n⟩ := by
  rcases hbody with hbody | hbody
  · unfold ruleOf
    simp only [show trimEndDots (trim body) = n from hbody]
    simp [hn.ne_nil, hn.head, hn.trimStartDots]
  · exact ruleOf_dotted (by decide) hbody hn

theorem ruleOf_keyword {body w : Text} (hbody : Says body w) (hw : w ≠ []) :
    ruleOf .keyword body = some ⟨.keyword, w⟩ := by
  unfold ruleOf
  simp only [show trimEndDots (trim body) = w from hbody]
  simp [hw]

/-- A prefix with a colon does not begin a text without one. -/
theorem not_isPrefixOf_of_colon {front line : Text} (hfront : ':' ∈ front) (hline : ':' ∉ line) :
    front.isPrefixOf line = false := by
  rw [Bool.eq_false_iff]
  intro h
  exact hline ((List.isPrefixOf_iff_prefix.mp h).subset hfront)

theorem ruleKind_exact {front body : Text} (h : ExactPrefix body front) :
    REGEXP.isPrefixOf (front ++ body) = false ∧
      ruleKind (front ++ body) = some (.exact, body) := by
  cases h with
  | full => exact ⟨rfl, rfl⟩
  | domain => exact ⟨rfl, rfl⟩
  | bare hcolon =>
    rw [List.nil_append]
    have hregexp := @not_isPrefixOf_of_colon REGEXP body (by decide) hcolon
    have hkeyword := @not_isPrefixOf_of_colon KEYWORD body (by decide) hcolon
    have hdomain := @not_isPrefixOf_of_colon DOMAIN body (by decide) hcolon
    have hfull := @not_isPrefixOf_of_colon FULL body (by decide) hcolon
    have hsuffix := @not_isPrefixOf_of_colon SUFFIX body (by decide) hcolon
    refine ⟨hregexp, ?_⟩
    simp [ruleKind, hkeyword, hdomain, hfull, hsuffix, hcolon]

/-- **Every spelling is read as its rule.** -/
theorem parseRule_spelled {toLowercase : Text → Text} {line : Text} {rule : Rule}
    (h : Spelled (toLowercase line) rule) : parseRule toLowercase line = some rule.parsed := by
  unfold parseRule
  generalize toLowercase line = lower at h
  cases h with
  | exact hfront hbody hn =>
    obtain ⟨hregexp, hkind⟩ := ruleKind_exact hfront
    simp [hregexp, hkind, ruleOf_exact hbody hn, Rule.parsed]
  | dotted hfront hbody hn =>
    obtain ⟨hregexp, hkind⟩ := ruleKind_exact hfront
    have hexact : RuleKind.exact ≠ .keyword := by decide
    simp [hregexp, hkind, ruleOf_dotted hexact hbody hn, Rule.parsed]
  | @suffix body n hbody hn =>
    have hregexp : REGEXP.isPrefixOf (SUFFIX ++ body) = false := rfl
    have hkind : ruleKind (SUFFIX ++ body) = some (.suffix, body) := rfl
    simp [hregexp, hkind, ruleOf_suffix hbody hn, Rule.parsed]
  | @keyword body w hbody hw =>
    have hregexp : REGEXP.isPrefixOf (KEYWORD ++ body) = false := rfl
    have hkind : ruleKind (KEYWORD ++ body) = some (.keyword, body) := rfl
    simp [hregexp, hkind, ruleOf_keyword hbody hw, Rule.parsed]

/-! ## What is loaded -/

/-- The tables hold just these rules; a suffix rule stands among the exact names too. -/
structure Represents (rules : List Rule) (r : Rules) : Prop where
  proper : ∀ n, .suffix n ∈ rules → Domain n
  domains : ∀ n, n ∈ r.domains ↔ .exact n ∈ rules ∨ .suffix n ∈ rules
  suffixes : ∀ word, r.suffixRoot.Holds word ↔
    ∃ n, .suffix n ∈ rules ∧ word = (n.splitOn '.').reverse
  keywords : ∀ w, w ∈ r.keywords ↔ .keyword w ∈ rules

theorem represents_empty : Represents [] Rules.empty where
  proper := fun n hn => absurd hn List.not_mem_nil
  domains := fun n => by simp [Rules.empty]
  suffixes := fun word => by simp [Rules.empty]
  keywords := fun w => by simp [Rules.empty]

theorem Spelled.domain {line n : Text} (h : Spelled line (.suffix n)) : Domain n := by
  cases h with
  | dotted _ _ hn => exact hn
  | suffix _ hn => exact hn

/-- **One more rule.** -/
theorem Represents.add {rules : List Rule} {r : Rules} (h : Represents rules r) {rule : Rule}
    (hproper : ∀ n, rule = .suffix n → Domain n) :
    Represents (rules ++ [rule]) (r.add rule.parsed) := by
  have hall : ∀ n, .suffix n ∈ rules ++ [rule] → Domain n := by
    intro n hn
    rcases List.mem_append.mp hn with hn | hn
    · exact h.proper n hn
    · exact hproper n (List.mem_singleton.mp hn).symm
  cases rule with
  | exact m =>
    refine ⟨hall, fun n => ?_, fun word => ?_, fun w => ?_⟩
    · show n ∈ r.domains.insert m ↔ _
      rw [List.mem_insert_iff, h.domains]
      simp only [List.mem_append, List.mem_singleton, Rule.exact.injEq, reduceCtorEq, or_false]
      tauto
    · show r.suffixRoot.Holds word ↔ _
      rw [h.suffixes]
      simp
    · show w ∈ r.keywords ↔ _
      rw [h.keywords]
      simp
  | suffix m =>
    have hm : Domain m := hproper m rfl
    have hclean : trimEndDots (trimStartDots m) = m := by rw [hm.trimStartDots, hm.trimEndDots]
    have hadd : r.add (Rule.suffix m).parsed =
        { r with
          suffixRoot := r.suffixRoot.insert (Rules.suffixPath m)
          domains := r.domains.insert m } := by
      simp [Rules.add, Rule.parsed, hclean, hm.ne_nil]
    rw [hadd]
    refine ⟨hall, fun n => ?_, fun word => ?_, fun w => ?_⟩
    · show n ∈ r.domains.insert m ↔ _
      rw [List.mem_insert_iff, h.domains]
      simp only [List.mem_append, List.mem_singleton, Rule.suffix.injEq, reduceCtorEq, or_false]
      tauto
    · show (r.suffixRoot.insert (Rules.suffixPath m)).Holds word ↔ _
      rw [Node.holds_insert, h.suffixes, hm.suffixPath]
      constructor
      · rintro (rfl | ⟨n, hn, rfl⟩)
        · exact ⟨m, by simp, rfl⟩
        · exact ⟨n, List.mem_append_left _ hn, rfl⟩
      · rintro ⟨n, hn, rfl⟩
        rcases List.mem_append.mp hn with hn | hn
        · exact Or.inr ⟨n, hn, rfl⟩
        · cases List.mem_singleton.mp hn
          exact Or.inl rfl
    · show w ∈ r.keywords ↔ _
      rw [h.keywords]
      simp
  | keyword m =>
    refine ⟨hall, fun n => ?_, fun word => ?_, fun w => ?_⟩
    · show n ∈ r.domains ↔ _
      rw [h.domains]
      simp
    · show r.suffixRoot.Holds word ↔ _
      rw [h.suffixes]
      simp
    · show w ∈ r.keywords.insert m ↔ _
      rw [List.mem_insert_iff, h.keywords]
      simp only [List.mem_append, List.mem_singleton, Rule.keyword.injEq]
      tauto

/-- **The tables hold the rules of the file**, next to those that were there. -/
theorem loadFile_represents {toLowercase : Text → Text} {lines : List Text}
    {rules before : List Rule} (hlines : Reads toLowercase lines rules) {r : Rules}
    (h : Represents before r) :
    Represents (before ++ rules) (r.loadFile toLowercase lines).1 := by
  unfold Rules.loadFile
  generalize 0 = count
  induction hlines generalizing r before count with
  | nil =>
    rw [List.append_nil]
    exact h
  | skipped hskip _ ih =>
    rw [List.foldl_cons]
    unfold Rules.addLine
    simp only [hskip, if_true]
    exact ih h count
  | @rule line lines rule rules hskip hrule _ ih =>
    rw [List.foldl_cons]
    unfold Rules.addLine
    simp only [hskip, Bool.false_eq_true, if_false, parseRule_spelled hrule]
    have hnext := @Represents.add before r h rule fun n hn => Spelled.domain (hn ▸ hrule)
    rw [show before ++ rule :: rules = before ++ [rule] ++ rules by simp]
    exact ih hnext (count + 1)

/-- The tables of a matcher hold the rules of its files. -/
theorem new_represents {toLowercase : Text → Text} {files : List (List Text × Bool)}
    {rules : List (List Rule)}
    (hfiles : List.Forall₂ (fun file rules => Reads toLowercase file.1 rules) files rules) :
    Represents rules.flatten (Rules.new toLowercase files) := by
  have hfold : ∀ (before : List Rule) (r : Rules), Represents before r →
      Represents (before ++ rules.flatten) (files.foldl (fun r file =>
        let (r', count) := r.loadFile toLowercase file.1
        if file.2 then { r' with totalRules := r.totalRules + count } else r') r) := by
    induction hfiles with
    | nil =>
      intro before r h
      rw [List.flatten_nil, List.append_nil]
      exact h
    | @cons file rules₁ files rules hfile _ ih =>
      intro before r h
      rw [List.foldl_cons, List.flatten_cons, ← List.append_assoc]
      apply ih
      have hloaded := loadFile_represents hfile h
      simp only
      split
      · exact ⟨hloaded.proper, hloaded.domains, hloaded.suffixes, hloaded.keywords⟩
      · exact hloaded
  exact hfold [] Rules.empty represents_empty

end TitanDns.DomainMatcher
