import TitanDns.Plugins.Blockers
import TitanDns.Plugins.DomainRules

/-!
# The rules of the ad blocker

What `AdBlockPlugin::new` makes of the lines of its rule files, and what the lines say.  The
standard library's tables of letters beyond ASCII are a parameter.

* `RuleSet.insert`, `AdBlockPlugin.new` — the loader.
* `Rule`, `Says` — the rules, and the grammar of their lines; `BlocksBy`, `ExemptsBy` — what a line
  says about a name.
* `Key`, `Takes` — the keys, and the grammar of the lines that the loader takes for one;
  `BlocksText`, `ExemptsText` — what a line is taken to say about a name.
* `takes_iff` — **the loader stores a line as that grammar has it.**
* `suffix_taken_iff`, `hosts_taken_iff`, `bare_taken`, `not_taken` — **which lines of the first
  grammar are taken for what they say.**
* `ReadAlike` — the condition on the lines of a list that say something about a name and are not
  taken so (lost), or are taken so and do not say it (stray).

Principal result: `blocks_iff` — **a name is blocked as the lines say exactly when the two grammars
read them alike.**
-/

namespace TitanDns

open DomainMatcher

/-! ## Texts -/

/-- What the standard library knows of characters beyond ASCII. -/
structure CharTables where
  toLowercase : Text → Text
  alphanumeric : Char → Bool

namespace CharTables

variable (lib : CharTables)

/-- `char::is_alphanumeric` -/
def isAlphanumeric (c : Char) : Bool :=
  if c.toNat < 128 then c.isAlphanum else lib.alphanumeric c

/-- A character that `trim_end_matches` takes from the end of a suffix rule. -/
def isSeparator (c : Char) : Bool := !lib.isAlphanumeric c && c != '.' && c != '-'

/-- A suffix rule without its trailing separators. -/
def stripEnd (t : Text) : Text := t.rdropWhile lib.isSeparator

end CharTables

/-- `split_whitespace` -/
def splitWhitespace (t : Text) : List Text := (t.splitOnP isWhitespace).filter (· ≠ [])

def LOOPBACK : Text := ['1', '2', '7', '.', '0', '.', '0', '.', '1']
def UNSPECIFIED : Text := ['0', '.', '0', '.', '0', '.', '0']

/-! ## Loading -/

namespace RuleSet

def new : RuleSet := ⟨[], []⟩

/-- Comments, headers and cosmetic rules. -/
def skips (clean : Text) : Bool :=
  clean.isEmpty || ['!'].isPrefixOf clean || ['['].isPrefixOf clean ||
    decide (['#', '#'] <:+: clean)

/-- The name of a line without `||`: the second word behind an address, or the line. -/
def hostOf (clean : Text) : Text :=
  if (LOOPBACK ++ [' ']).isPrefixOf clean then (splitWhitespace clean)[1]?.getD []
  else if (UNSPECIFIED ++ [' ']).isPrefixOf clean then (splitWhitespace clean)[1]?.getD []
  else clean

/-- `insert` -/
def insert (lib : CharTables) (r : RuleSet) (pattern : Text) : RuleSet :=
  let clean := trim pattern
  if skips clean then r
  else if ['|', '|'].isPrefixOf clean then
    { r with suffix := String.ofList (lib.toLowercase (lib.stripEnd (clean.drop 2))) :: r.suffix }
  else { r with exact := String.ofList (lib.toLowercase (hostOf clean)) :: r.exact }

/-- `matches`, on the name in lower case. -/
def matchesLower (r : RuleSet) (lower : Text) : Bool :=
  r.exact.contains (String.ofList lower) || matchesSuffix r.suffix true lower

end RuleSet

namespace AdBlockPlugin

/-- One line of a file. -/
def addLine (lib : CharTables) (b : AdBlockPlugin) (line : Text) : AdBlockPlugin :=
  let line := trim line
  if ['@', '@'].isPrefixOf line then { b with whitelist := b.whitelist.insert lib (line.drop 2) }
  else { b with blacklist := b.blacklist.insert lib line }

/-- `AdBlockPlugin::new`, on the lines of the files that can be read. -/
def new (lib : CharTables) (files : List (Option (List Text))) : AdBlockPlugin :=
  files.foldl (fun b file => (file.getD []).foldl (addLine lib) b) ⟨.new, .new⟩

/-- Whether `handle` blocks a name. -/
def blocks (lib : CharTables) (b : AdBlockPlugin) (hostname : Text) : Bool :=
  !b.whitelist.matchesLower (lib.toLowercase hostname) &&
    b.blacklist.matchesLower (lib.toLowercase hostname)

/-- **The check of the pipeline is this one**, in ASCII. -/
theorem shouldBlock_eq (codec : Codec) (b : AdBlockPlugin) (ctx : Context)
    (alphanumeric : Char → Bool) :
    b.shouldBlock codec ctx =
      b.blocks ⟨(·.map Char.toLower), alphanumeric⟩ (trimDots (ctx.qname codec)).toList := by
  have hmatches (r : RuleSet) (d : String) :
      r.matchesDomain d = r.matchesLower (d.toList.map Char.toLower) := by
    unfold RuleSet.matchesDomain RuleSet.matchesLower
    have hlower : d.toLower.toList = d.toList.map Char.toLower := String.toList_map
    rw [← hlower, String.ofList_toList]
  unfold shouldBlock blocks
  simp only [hmatches]

end AdBlockPlugin

/-! ## What the lines say -/

namespace AdBlock

/-- A rule, as it is written. -/
inductive Rule where
  | suffix (d : Text)
  | exact (d : Text)
  | exempt (d : Text)

/-- The name is the other one or below it. -/
def Below (d n : Text) : Prop := d ≠ [] ∧ (n = d ∨ ∃ front, n = front ++ '.' :: d)

/-- A domain: labels of letters, digits, hyphens and underscores. -/
structure DomainText (lib : CharTables) (d : Text) : Prop where
  labels : Domain d
  chars : ∀ c ∈ d, c = '.' ∨ c = '-' ∨ c = '_' ∨ lib.isAlphanumeric c = true
  noSpace : ∀ c ∈ d, isWhitespace c = false

theorem DomainText.ne_nil {lib : CharTables} {d : Text} (hd : DomainText lib d) : d ≠ [] := by
  rintro rfl
  exact absurd hd.labels (by simp [Domain])

/-- What may follow the name of a hosts line: nothing, or a comment. -/
inductive Comment : Text → Prop
  | none : Comment []
  | hash {gap text : Text} (hgap : ∀ c ∈ gap, c = ' ' ∨ c = '\t') : Comment (gap ++ '#' :: text)

/-- The rules of the grammar; every other line says nothing. -/
inductive Says (lib : CharTables) : Text → Rule → Prop
  /-- `||d^`, with modifiers or without. -/
  | suffix {d tail : Text} (hd : DomainText lib d) (htail : tail = [] ∨ ∃ m, tail = '$' :: m) :
      Says lib (['|', '|'] ++ d ++ '^' :: tail) (.suffix d)
  | hosts {address gap d rest : Text} (haddress : address = LOOPBACK ∨ address = UNSPECIFIED)
      (hgap : gap ≠ [] ∧ ∀ c ∈ gap, c = ' ' ∨ c = '\t') (hd : DomainText lib d)
      (hrest : Comment rest) : Says lib (address ++ gap ++ d ++ rest) (.exact d)
  | bare {d : Text} (hd : DomainText lib d) : Says lib d (.exact d)
  | exempt {d : Text} (hd : DomainText lib d) :
      Says lib (['@', '@', '|', '|'] ++ d ++ ['^']) (.exempt d)

variable (lib : CharTables)

/-- The rule blocks the name, which is in lower case. -/
def Rule.Blocks (n : Text) : Rule → Prop
  | suffix d => Below (lib.toLowercase d) n
  | exact d => n = lib.toLowercase d
  | exempt _ => False

def Rule.Exempts (n : Text) : Rule → Prop
  | exempt d => Below (lib.toLowercase d) n
  | _ => False

theorem Says.exempt_prefix {lib : CharTables} {t n : Text} {r : Rule} (hrule : Says lib t r)
    (hexempts : r.Exempts lib n) : ['@', '@'] <+: t := by
  cases hrule with
  | suffix | hosts | bare => exact hexempts.elim
  | exempt => simp

/-- The line says that the name is blocked. -/
def BlocksBy (n line : Text) : Prop := ∃ r, Says lib (trim line) r ∧ r.Blocks lib n

/-- The line says that the name is exempt. -/
def ExemptsBy (n line : Text) : Prop := ∃ r, Says lib (trim line) r ∧ r.Exempts lib n

/-- **What the lines say about a name.** -/
def Blocked (lines : List Text) (n : Text) : Prop :=
  (∃ line ∈ lines, BlocksBy lib n line) ∧ ¬ ∃ line ∈ lines, ExemptsBy lib n line

/-! ## What the lines are taken to say -/

/-- A key of a rule set. -/
inductive Key where
  | suffix (d : Text)
  | exact (d : Text)
  deriving DecidableEq

/-- The key covers the name, which is in lower case. -/
def Key.Covers (n : Text) : Key → Prop
  | suffix d => Below (lib.toLowercase d) n
  | exact d => n = lib.toLowercase d

/-- **The lines that are taken for a rule**, and the key of each; none of them has `##`. -/
inductive Takes : Text → Key → Prop
  /-- Behind two pipes, all but the separators at the end. -/
  | suffix {d tail : Text} (hends : ∀ c ∈ d.getLast?, lib.isSeparator c = false)
      (htail : ∀ c ∈ tail, lib.isSeparator c = true)
      (hcosmetic : ¬ ['#', '#'] <:+: '|' :: '|' :: (d ++ tail)) :
      Takes ('|' :: '|' :: (d ++ tail)) (.suffix d)
  /-- Behind an address and a space, the next word. -/
  | hosts {address gap d rest : Text} (haddress : address = LOOPBACK ∨ address = UNSPECIFIED)
      (hgap : ∀ c ∈ gap, isWhitespace c = true) (hd : ∀ c ∈ d, isWhitespace c = false)
      (hrest : ∀ c ∈ rest.head?, isWhitespace c = true) (hend : d = [] → rest = [])
      (hcosmetic : ¬ ['#', '#'] <:+: address ++ ' ' :: (gap ++ (d ++ rest))) :
      Takes (address ++ ' ' :: (gap ++ (d ++ rest))) (.exact d)
  /-- Any other line, all of it. -/
  | line {t : Text} (hfirst : ∃ c, t.head? = some c ∧ c ≠ '!' ∧ c ≠ '[')
      (hpipes : ¬ ['|', '|'] <+: t)
      (hhosts : ¬ LOOPBACK ++ [' '] <+: t ∧ ¬ UNSPECIFIED ++ [' '] <+: t)
      (hcosmetic : ¬ ['#', '#'] <:+: t) : Takes t (.exact t)

/-- The text is taken for a rule that covers the name. -/
def TextCovers (n t : Text) : Prop := ∃ k, Takes lib t k ∧ k.Covers lib n

def BlocksText (n line : Text) : Prop :=
  ¬ ['@', '@'] <+: trim line ∧ TextCovers lib n (trim (trim line))

def ExemptsText (n line : Text) : Prop :=
  ∃ rest, trim line = '@' :: '@' :: rest ∧ TextCovers lib n (trim rest)

/-! ## The loader takes them so -/

theorem isSeparator_of_ascii {lib : CharTables} {c : Char} (hascii : c.toNat < 128)
    (hc : c.isAlphanum = false) (hdot : c ≠ '.') (hhyphen : c ≠ '-') :
    lib.isSeparator c = true := by
  simp [CharTables.isSeparator, CharTables.isAlphanumeric, hascii, hc, hdot, hhyphen]

theorem stripEnd_append {lib : CharTables} {d tail : Text}
    (hends : ∀ c ∈ d.getLast?, lib.isSeparator c = false)
    (htail : ∀ c ∈ tail, lib.isSeparator c = true) : lib.stripEnd (d ++ tail) = d := by
  unfold CharTables.stripEnd
  induction tail using List.reverseRecOn with
  | nil =>
    rw [List.append_nil, List.rdropWhile_eq_self_iff]
    intro hne hlast
    rw [hends _ (List.getLast_mem_getLast? hne)] at hlast
    exact absurd hlast (by decide)
  | append_singleton tail c ih =>
    rw [← List.append_assoc, List.rdropWhile_concat_pos _ _ _ (htail c (by simp))]
    exact ih fun c' hc' => htail c' (List.mem_append_left _ hc')

/-- A text splits where the separators at its end begin. -/
theorem stripEnd_split (lib : CharTables) (t : Text) : ∃ tail, t = lib.stripEnd t ++ tail ∧
    (∀ c ∈ (lib.stripEnd t).getLast?, lib.isSeparator c = false) ∧
    ∀ c ∈ tail, lib.isSeparator c = true := by
  refine ⟨t.rtakeWhile lib.isSeparator, List.rdropWhile_append_rtakeWhile.symm, fun c hc => ?_,
    fun c hc => List.mem_rtakeWhile_imp hc⟩
  have hne : lib.stripEnd t ≠ [] := by
    intro hnil
    rw [hnil] at hc
    cases hc
  have hlast := List.rdropWhile_last_not lib.isSeparator t hne
  rw [List.getLast?_eq_some_getLast hne] at hc
  rw [← Option.some.inj hc]
  exact Bool.eq_false_iff.mpr hlast

theorem splitWhitespace_append {c : Char} (hc : isWhitespace c = true) (front rest : Text) :
    splitWhitespace (front ++ c :: rest) = splitWhitespace front ++ splitWhitespace rest := by
  unfold splitWhitespace
  rw [List.splitOnP_append_cons _ _ hc, List.filter_append]

theorem splitWhitespace_word {word : Text} (hne : word ≠ [])
    (hword : ∀ c ∈ word, isWhitespace c = false) : splitWhitespace word = [word] := by
  unfold splitWhitespace
  rw [List.splitOnP_eq_singleton hword]
  simp [hne]

theorem splitWhitespace_gap {gap : Text} (hgap : ∀ c ∈ gap, isWhitespace c = true) (rest : Text) :
    splitWhitespace (gap ++ rest) = splitWhitespace rest := by
  induction gap with
  | nil => rfl
  | cons c gap ih =>
    have hsplit := splitWhitespace_append (hgap c (by simp)) [] (gap ++ rest)
    simp only [List.nil_append] at hsplit
    rw [List.cons_append, hsplit, ih fun c' hc' => hgap c' (List.mem_cons_of_mem _ hc')]
    rfl

theorem splitWhitespace_address {address : Text}
    (haddress : address = LOOPBACK ∨ address = UNSPECIFIED) :
    splitWhitespace address = [address] := by
  have hall : (LOOPBACK ++ UNSPECIFIED).all (fun c => !isWhitespace c) = true := by decide
  have hspace (c : Char) (hc : c ∈ LOOPBACK ++ UNSPECIFIED) : isWhitespace c = false := by
    simpa using List.all_eq_true.mp hall c hc
  rcases haddress with rfl | rfl
  · exact splitWhitespace_word (by decide) fun c hc => hspace c (List.mem_append_left _ hc)
  · exact splitWhitespace_word (by decide) fun c hc => hspace c (List.mem_append_right _ hc)

/-- The second word behind an address and a space. -/
theorem hostOf_hosts {address gap d rest : Text}
    (haddress : address = LOOPBACK ∨ address = UNSPECIFIED)
    (hgap : ∀ c ∈ gap, isWhitespace c = true) (hne : d ≠ [])
    (hword : ∀ c ∈ d, isWhitespace c = false) (hrest : ∀ c ∈ rest.head?, isWhitespace c = true) :
    RuleSet.hostOf (address ++ ' ' :: (gap ++ (d ++ rest))) = d := by
  have hwords : ∃ words, splitWhitespace (d ++ rest) = d :: words := by
    cases rest with
    | nil => exact ⟨[], by rw [List.append_nil, splitWhitespace_word hne hword]⟩
    | cons c rest =>
      exact ⟨splitWhitespace rest, by
        rw [splitWhitespace_append (hrest c rfl), splitWhitespace_word hne hword]; rfl⟩
  obtain ⟨words, hwords⟩ := hwords
  have hsecond : (splitWhitespace (address ++ ' ' :: (gap ++ (d ++ rest))))[1]?.getD [] = d := by
    rw [splitWhitespace_append (by decide), splitWhitespace_address haddress,
      splitWhitespace_gap hgap, hwords]
    rfl
  unfold RuleSet.hostOf
  rcases haddress with rfl | rfl
  · rw [if_pos (by simp [LOOPBACK]), hsecond]
  · rw [if_neg (by simp [LOOPBACK, UNSPECIFIED]), if_pos (by simp [UNSPECIFIED]), hsecond]

/-- Without a space behind the address the line is the name. -/
theorem hostOf_noSpace {address x : Text} {c : Char}
    (haddress : address = LOOPBACK ∨ address = UNSPECIFIED) (hc : c ≠ ' ') :
    RuleSet.hostOf (address ++ c :: x) = address ++ c :: x := by
  unfold RuleSet.hostOf
  rcases haddress with rfl | rfl
  · rw [if_neg (by simp [LOOPBACK, Ne.symm hc]), if_neg (by simp [LOOPBACK, UNSPECIFIED])]
  · rw [if_neg (by simp [LOOPBACK, UNSPECIFIED]), if_neg (by simp [UNSPECIFIED, Ne.symm hc])]

theorem hostOf_nothing {address gap : Text} (haddress : address = LOOPBACK ∨ address = UNSPECIFIED)
    (hgap : ∀ c ∈ gap, isWhitespace c = true) : RuleSet.hostOf (address ++ ' ' :: gap) = [] := by
  have hsecond : (splitWhitespace (address ++ ' ' :: gap))[1]?.getD [] = [] := by
    have hnothing := splitWhitespace_gap hgap []
    rw [List.append_nil] at hnothing
    rw [splitWhitespace_append (by decide), splitWhitespace_address haddress, hnothing]
    rfl
  unfold RuleSet.hostOf
  rcases haddress with rfl | rfl
  · rw [if_pos (by simp [LOOPBACK]), hsecond]
  · rw [if_neg (by simp [LOOPBACK, UNSPECIFIED]), if_pos (by simp [UNSPECIFIED]), hsecond]

/-- Behind an address and a space the next word is the name. -/
theorem hostOf_word {address gap d rest : Text}
    (haddress : address = LOOPBACK ∨ address = UNSPECIFIED)
    (hgap : ∀ c ∈ gap, isWhitespace c = true) (hword : ∀ c ∈ d, isWhitespace c = false)
    (hrest : ∀ c ∈ rest.head?, isWhitespace c = true) (hend : d = [] → rest = []) :
    RuleSet.hostOf (address ++ ' ' :: (gap ++ (d ++ rest))) = d := by
  by_cases hne : d = []
  · obtain rfl := hend hne
    rw [hne, List.append_nil, List.append_nil]
    exact hostOf_nothing haddress hgap
  · exact hostOf_hosts haddress hgap hne hword hrest

/-- Any other line is the name. -/
theorem hostOf_line {t : Text} (hloopback : ¬ LOOPBACK ++ [' '] <+: t)
    (hunspecified : ¬ UNSPECIFIED ++ [' '] <+: t) : RuleSet.hostOf t = t := by
  unfold RuleSet.hostOf
  rw [if_neg (by simpa using hloopback), if_neg (by simpa using hunspecified)]

/-- The key that `insert` stores. -/
def keyOf (clean : Text) : Option Key :=
  if RuleSet.skips clean then none
  else if ['|', '|'].isPrefixOf clean then some (.suffix (lib.stripEnd (clean.drop 2)))
  else some (.exact (RuleSet.hostOf clean))

theorem skips_eq_false_iff {clean : Text} :
    RuleSet.skips clean = false ↔
      (∃ c, clean.head? = some c ∧ c ≠ '!' ∧ c ≠ '[') ∧ ¬ ['#', '#'] <:+: clean := by
  cases clean with
  | nil => simp [RuleSet.skips]
  | cons c clean =>
    have hsingle (c' : Char) : [c'].isPrefixOf (c :: clean) = (c' == c) := by
      simp [List.isPrefixOf]
    simp only [RuleSet.skips, List.isEmpty_cons, hsingle, Bool.false_or, Bool.or_eq_false_iff,
      beq_eq_false_iff_ne, decide_eq_false_iff_not, List.head?_cons, Option.some.injEq,
      exists_eq_left', ne_comm]

theorem keyOf_suffix {lib : CharTables} {d tail : Text}
    (hends : ∀ c ∈ d.getLast?, lib.isSeparator c = false)
    (htail : ∀ c ∈ tail, lib.isSeparator c = true)
    (hcosmetic : ¬ ['#', '#'] <:+: '|' :: '|' :: (d ++ tail)) :
    keyOf lib ('|' :: '|' :: (d ++ tail)) = some (.suffix d) := by
  have hskips := skips_eq_false_iff.mpr ⟨⟨'|', rfl, by decide, by decide⟩, hcosmetic⟩
  unfold keyOf
  rw [hskips, if_neg (by decide), if_pos (by simp), List.drop_succ_cons, List.drop_succ_cons,
    List.drop_zero, stripEnd_append hends htail]

theorem keyOf_host {clean : Text} (hfirst : ∃ c, clean.head? = some c ∧ c ≠ '!' ∧ c ≠ '[')
    (hpipes : ¬ ['|', '|'] <+: clean) (hcosmetic : ¬ ['#', '#'] <:+: clean) :
    keyOf lib clean = some (.exact (RuleSet.hostOf clean)) := by
  unfold keyOf
  rw [skips_eq_false_iff.mpr ⟨hfirst, hcosmetic⟩, if_neg (by decide),
    if_neg (by simpa using hpipes)]

/-- A word, and what is left. -/
theorem word_split (t : Text) : ∃ d rest, t = d ++ rest ∧
    (∀ c ∈ d, isWhitespace c = false) ∧ ∀ c ∈ rest.head?, isWhitespace c = true := by
  refine ⟨t.takeWhile (!isWhitespace ·), t.dropWhile (!isWhitespace ·), ?_, ?_, ?_⟩
  · rw [List.takeWhile_append_dropWhile]
  · intro c hc
    simpa using List.mem_takeWhile_imp hc
  · intro c hc
    have hnot := List.head?_dropWhile_not (!isWhitespace ·) t
    rw [Option.mem_def] at hc
    rw [hc] at hnot
    simpa using hnot

/-- White space, a word, and what is left. -/
theorem words_split (t : Text) : ∃ gap d rest, t = gap ++ (d ++ rest) ∧
    (∀ c ∈ gap, isWhitespace c = true) ∧ (∀ c ∈ d, isWhitespace c = false) ∧
    (∀ c ∈ rest.head?, isWhitespace c = true) ∧ (d = [] → rest = []) := by
  obtain ⟨d, rest, hsplit, hd, hrest⟩ := word_split (t.dropWhile isWhitespace)
  refine ⟨t.takeWhile isWhitespace, d, rest, ?_, fun c hc => List.mem_takeWhile_imp hc, hd, hrest,
    ?_⟩
  · rw [← hsplit, List.takeWhile_append_dropWhile]
  · intro hnone
    -- what follows the white space begins with none
    have hhead := List.head?_dropWhile_not isWhitespace t
    rw [hsplit, hnone, List.nil_append] at hhead
    cases rest with
    | nil => rfl
    | cons c rest =>
      have hblank : isWhitespace c = false := hhead
      rw [hrest c rfl] at hblank
      cases hblank

theorem Takes.keyOf {t : Text} {k : Key} (h : Takes lib t k) : keyOf lib t = some k := by
  cases h with
  | suffix hends htail hcosmetic => exact keyOf_suffix hends htail hcosmetic
  | hosts haddress hgap hd hrest hend hcosmetic =>
    rw [keyOf_host lib ?_ ?_ hcosmetic, hostOf_word haddress hgap hd hrest hend]
    · rcases haddress with rfl | rfl <;> exact ⟨_, rfl, by decide, by decide⟩
    · rcases haddress with rfl | rfl <;> simp [LOOPBACK, UNSPECIFIED]
  | line hfirst hpipes hhosts hcosmetic =>
    rw [keyOf_host lib hfirst hpipes hcosmetic, hostOf_line hhosts.1 hhosts.2]

/-- A line that begins with an address and a space is taken for the next word. -/
theorem takes_hosts {address t : Text} (haddress : address = LOOPBACK ∨ address = UNSPECIFIED)
    (hstarts : address ++ [' '] <+: t) (hcosmetic : ¬ ['#', '#'] <:+: t) :
    Takes lib t (.exact (RuleSet.hostOf t)) := by
  obtain ⟨x, rfl⟩ := hstarts
  obtain ⟨gap, d, rest, rfl, hgap, hd, hrest, hend⟩ := words_split x
  rw [List.append_assoc, List.singleton_append] at hcosmetic ⊢
  rw [hostOf_word haddress hgap hd hrest hend]
  exact .hosts haddress hgap hd hrest hend hcosmetic

/-- **A line is taken for a key exactly when that is the key stored.** -/
theorem takes_iff {t : Text} {k : Key} : Takes lib t k ↔ keyOf lib t = some k := by
  refine ⟨Takes.keyOf lib, fun h => ?_⟩
  unfold AdBlock.keyOf at h
  split at h
  · cases h
  rename_i hskips
  obtain ⟨hfirst, hcosmetic⟩ := skips_eq_false_iff.mp (Bool.not_eq_true _ ▸ hskips)
  split at h
  · rename_i hpipes
    obtain ⟨x, rfl⟩ := List.isPrefixOf_iff_prefix.mp hpipes
    cases h
    obtain ⟨tail, hsplit, hends, htail⟩ := stripEnd_split lib x
    have htakes := Takes.suffix hends htail (by rw [← hsplit]; exact hcosmetic)
    rw [← hsplit] at htakes
    exact htakes
  · rename_i hpipes
    cases h
    by_cases hloopback : LOOPBACK ++ [' '] <+: t
    · exact takes_hosts lib (.inl rfl) hloopback hcosmetic
    by_cases hunspecified : UNSPECIFIED ++ [' '] <+: t
    · exact takes_hosts lib (.inr rfl) hunspecified hcosmetic
    · rw [hostOf_line hloopback hunspecified]
      exact .line hfirst (by simpa using hpipes) ⟨hloopback, hunspecified⟩ hcosmetic

/-- A line is taken for one key at most. -/
theorem Takes.unique {t : Text} {k k' : Key} (h : Takes lib t k) (h' : Takes lib t k') :
    k = k' := by
  rw [takes_iff] at h h'
  rw [h] at h'
  exact Option.some.inj h'

/-! ## The lines that are taken for what they say -/

section
variable {lib}

theorem isSeparator_underscore : lib.isSeparator '_' = true :=
  isSeparator_of_ascii (by decide) (by decide) (by decide) (by decide)

/-- Of the characters of a domain only the underscore is a separator. -/
theorem DomainText.separator {d : Text} (hd : DomainText lib d) {c : Char} (hc : c ∈ d)
    (hne : c ≠ '_') : lib.isSeparator c = false := by
  rcases hd.chars c hc with rfl | rfl | rfl | halpha
  · simp [CharTables.isSeparator]
  · simp [CharTables.isSeparator]
  · exact absurd rfl hne
  · simp [CharTables.isSeparator, halpha]

/-- **A suffix line is taken for its domain exactly if** there is no letter, digit, dot or hyphen
behind the domain, the domain does not end with an underscore, and there is no `##`. -/
theorem suffix_taken_iff {d tail : Text} (hd : DomainText lib d) :
    Takes lib (['|', '|'] ++ d ++ '^' :: tail) (.suffix d) ↔
      (∀ c ∈ tail, lib.isSeparator c = true) ∧ d.getLast? ≠ some '_' ∧
        ¬ ['#', '#'] <:+: ['|', '|'] ++ d ++ '^' :: tail := by
  have hline : ['|', '|'] ++ d ++ '^' :: tail = '|' :: '|' :: (d ++ '^' :: tail) := by simp
  rw [hline]
  constructor
  · generalize ht : '|' :: '|' :: (d ++ '^' :: tail) = t
    intro h
    cases h with
    | @suffix _ tail' hends htail hcosmetic =>
      simp only [List.cons.injEq, true_and, List.append_cancel_left_eq] at ht
      subst ht
      refine ⟨fun c hc => htail c (List.mem_cons_of_mem _ hc), fun hlast => ?_, hcosmetic⟩
      exact absurd isSeparator_underscore (by rw [hends '_' hlast]; decide)
  · rintro ⟨htail, hlast, hcosmetic⟩
    refine .suffix (fun c hc => ?_) (fun c hc => ?_) hcosmetic
    · refine hd.separator (List.mem_of_getLast? hc) ?_
      rintro rfl
      exact hlast hc
    · rcases List.mem_cons.mp hc with rfl | hc
      · exact isSeparator_of_ascii (by decide) (by decide) (by decide) (by decide)
      · exact htail c hc

/-- **A bare line is taken for its name.** -/
theorem bare_taken {d : Text} (hd : DomainText lib d) : Takes lib d (.exact d) := by
  have hno (c : Char) (hascii : c.toNat < 128) (hc : c.isAlphanum = false)
      (hplain : c ≠ '.' ∧ c ≠ '-' ∧ c ≠ '_') : c ∉ d := by
    intro hmem
    rcases hd.chars c hmem with h | h | h | h
    · exact hplain.1 h
    · exact hplain.2.1 h
    · exact hplain.2.2 h
    · simp [CharTables.isAlphanumeric, hascii, hc] at h
  have hspace : ' ' ∉ d := fun h => by
    have := hd.noSpace ' ' h
    exact absurd this (by decide)
  obtain ⟨c, rest, hcons⟩ := List.exists_cons_of_ne_nil hd.ne_nil
  have hc : c ∈ d := by rw [hcons]; exact List.mem_cons_self
  refine .line ⟨c, by rw [hcons]; rfl, ?_, ?_⟩ ?_ ⟨?_, ?_⟩ ?_
  · rintro rfl
    exact hno '!' (by decide) (by decide) (by decide) hc
  · rintro rfl
    exact hno '[' (by decide) (by decide) (by decide) hc
  · exact fun h => hno '|' (by decide) (by decide) (by decide) (h.subset (by simp))
  · exact fun h => hspace (h.subset (by simp))
  · exact fun h => hspace (h.subset (by simp))
  · exact fun h => hno '#' (by decide) (by decide) (by decide) (h.subset (by simp))

/-- A line without pipes is taken for the name that `insert` finds on it. -/
theorem takes_exact_iff {t d : Text} (hfirst : ∃ c, t.head? = some c ∧ c ≠ '!' ∧ c ≠ '[')
    (hpipes : ¬ ['|', '|'] <+: t) :
    Takes lib t (.exact d) ↔ RuleSet.hostOf t = d ∧ ¬ ['#', '#'] <:+: t := by
  rw [takes_iff]
  by_cases hcosmetic : ['#', '#'] <:+: t
  · have hskips : RuleSet.skips t = true := by simp [RuleSet.skips, hcosmetic]
    rw [keyOf, hskips, if_pos rfl]
    exact iff_of_false (fun h => by cases h) fun h => h.2 hcosmetic
  · rw [keyOf_host lib hfirst hpipes hcosmetic]
    simp [hcosmetic]

/-- A comment that touches the name is a part of it. -/
theorem hostOf_touched {address gap d text : Text}
    (haddress : address = LOOPBACK ∨ address = UNSPECIFIED)
    (hgap : ∀ c ∈ gap, isWhitespace c = true) (hd : ∀ c ∈ d, isWhitespace c = false) :
    RuleSet.hostOf (address ++ ' ' :: (gap ++ (d ++ '#' :: text))) ≠ d := by
  obtain ⟨word, after, rfl, hword, hafter⟩ := word_split text
  have hlonger : d ++ '#' :: (word ++ after) = (d ++ '#' :: word) ++ after := by simp
  have hall : ∀ x ∈ d ++ '#' :: word, isWhitespace x = false := by
    intro x hx
    rcases List.mem_append.mp hx with hx | hx
    · exact hd x hx
    · rcases List.mem_cons.mp hx with rfl | hx
      · decide
      · exact hword x hx
  rw [hlonger, hostOf_hosts haddress hgap (by simp) hall hafter]
  simp

/-- The name found on a hosts line is the one it means exactly if a space is right behind the
address and the comment does not touch the name. -/
theorem hostOf_hosts_iff {address gap d rest : Text} {c : Char}
    (haddress : address = LOOPBACK ∨ address = UNSPECIFIED)
    (hgap : ∀ c ∈ gap, isWhitespace c = true) (hd : DomainText lib d) (hrest : Comment rest) :
    RuleSet.hostOf (address ++ c :: (gap ++ (d ++ rest))) = d ↔
      c = ' ' ∧ rest.head? ≠ some '#' := by
  by_cases hc : c = ' '
  swap
  · -- the line is the key, and it is longer
    rw [hostOf_noSpace haddress hc]
    refine iff_of_false (fun heq => ?_) fun h => hc h.1
    have hlength := congrArg List.length heq
    simp at hlength
    omega
  subst hc
  cases hrest with
  | none =>
    rw [hostOf_hosts haddress hgap hd.ne_nil hd.noSpace (by simp)]
    simp
  | @hash blank text hcomment =>
    cases blank with
    | nil =>
      refine iff_of_false (hostOf_touched haddress hgap hd.noSpace) fun h => ?_
      exact h.2 rfl
    | cons x blank =>
      have hx : isWhitespace x = true ∧ x ≠ '#' := by
        rcases hcomment x List.mem_cons_self with rfl | rfl <;> decide
      rw [hostOf_hosts haddress hgap hd.ne_nil hd.noSpace (by simp [hx.1])]
      simp [hx.2]

/-- **A hosts line is taken for its name exactly if** a space is right behind the address, the
comment does not touch the name, and there is no `##`. -/
theorem hosts_taken_iff {address gap d rest : Text}
    (haddress : address = LOOPBACK ∨ address = UNSPECIFIED)
    (hgap : gap ≠ [] ∧ ∀ c ∈ gap, c = ' ' ∨ c = '\t') (hd : DomainText lib d)
    (hrest : Comment rest) :
    Takes lib (address ++ gap ++ d ++ rest) (.exact d) ↔
      gap.head? = some ' ' ∧ rest.head? ≠ some '#' ∧
        ¬ ['#', '#'] <:+: address ++ gap ++ d ++ rest := by
  obtain ⟨hne, hblank⟩ := hgap
  obtain ⟨c, gap, rfl⟩ := List.exists_cons_of_ne_nil hne
  have hspaces : ∀ c ∈ gap, isWhitespace c = true := by
    intro c hc
    rcases hblank c (List.mem_cons_of_mem _ hc) with rfl | rfl <;> decide
  have hline : address ++ c :: gap ++ d ++ rest = address ++ c :: (gap ++ (d ++ rest)) := by simp
  have hpipes : ¬ ['|', '|'] <+: address ++ c :: (gap ++ (d ++ rest)) := by
    rcases haddress with rfl | rfl <;> simp [LOOPBACK, UNSPECIFIED]
  have hfirst : ∃ x, (address ++ c :: (gap ++ (d ++ rest))).head? = some x ∧ x ≠ '!' ∧ x ≠ '[' := by
    rcases haddress with rfl | rfl <;> exact ⟨_, rfl, by decide, by decide⟩
  rw [hline, takes_exact_iff hfirst hpipes, hostOf_hosts_iff haddress hspaces hd hrest]
  simp [and_assoc]

/-- **Comments, headers and cosmetic rules are taken for nothing.** -/
theorem not_taken {t : Text} {k : Key}
    (h : ['!'] <+: t ∨ ['['] <+: t ∨ ['#', '#'] <:+: t) : ¬ Takes lib t k := by
  rw [takes_iff]
  have hskips : RuleSet.skips t = true := by
    rcases h with h | h | h <;> simp [RuleSet.skips, h]
  rw [keyOf, hskips, if_pos rfl]
  exact fun h => by cases h

end

/-! ## The loader -/

theorem contains_ofList {l : List String} {t : Text} :
    l.contains (String.ofList t) = true ↔ t ∈ l.map String.toList := by
  rw [List.contains_iff_mem, List.mem_map]
  constructor
  · exact fun h => ⟨_, h, String.toList_ofList⟩
  · rintro ⟨x, hx, rfl⟩
    rw [String.ofList_toList]
    exact hx

/-- The loop finds a key that the text is, or that ends it behind a dot. -/
theorem matchesSuffix_iff (keys : List String) (start : Bool) (t : Text) :
    RuleSet.matchesSuffix keys start t = true ↔
      ∃ k ∈ keys.map String.toList, k ≠ [] ∧
        (start = true ∧ t = k ∨ ∃ front, t = front ++ '.' :: k) := by
  induction t generalizing start with
  | nil => simp [RuleSet.matchesSuffix]
  | cons c t ih =>
    rw [RuleSet.matchesSuffix, Bool.or_eq_true, Bool.and_eq_true, contains_ofList, ih]
    constructor
    · rintro (⟨hstart, hk⟩ | ⟨k, hk, hne, ⟨hdot, rfl⟩ | ⟨front, rfl⟩⟩)
      · exact ⟨_, hk, List.cons_ne_nil _ _, .inl ⟨hstart, rfl⟩⟩
      · exact ⟨t, hk, hne, .inr ⟨[], by rw [beq_iff_eq.mp hdot]; rfl⟩⟩
      · exact ⟨k, hk, hne, .inr ⟨c :: front, rfl⟩⟩
    · rintro ⟨k, hk, hne, ⟨hstart, rfl⟩ | ⟨front, hfront⟩⟩
      · exact .inl ⟨hstart, hk⟩
      · right
        cases front with
        | nil =>
          obtain ⟨rfl, rfl⟩ := List.cons.inj hfront
          exact ⟨t, hk, hne, .inl ⟨rfl, rfl⟩⟩
        | cons c' front =>
          obtain ⟨-, rfl⟩ := List.cons.inj hfront
          exact ⟨k, hk, hne, .inr ⟨front, rfl⟩⟩

theorem matchesLower_iff (r : RuleSet) (n : Text) :
    r.matchesLower n = true ↔
      n ∈ r.exact.map String.toList ∨ ∃ k ∈ r.suffix.map String.toList, Below k n := by
  rw [RuleSet.matchesLower, Bool.or_eq_true, contains_ofList, matchesSuffix_iff]
  simp [Below]

/-- **A text is stored as what it is taken for.** -/
theorem insert_iff (r : RuleSet) (pattern n : Text) :
    (r.insert lib pattern).matchesLower n = true ↔
      r.matchesLower n = true ∨ TextCovers lib n (trim pattern) := by
  have hcovers (t : Text) : TextCovers lib n t ↔ ∃ k, keyOf lib t = some k ∧ k.Covers lib n := by
    simp only [TextCovers, takes_iff]
  rw [matchesLower_iff, matchesLower_iff, hcovers]
  unfold RuleSet.insert keyOf
  generalize trim pattern = clean
  cases hskip : RuleSet.skips clean with
  | true => simp [hskip]
  | false =>
    by_cases hpipes : ['|', '|'].isPrefixOf clean = true
    · simp only [hskip, hpipes, Bool.false_eq_true, if_false, if_true, Option.some.injEq,
        exists_eq_left', Key.Covers, List.map_cons, String.toList_ofList, List.mem_cons,
        exists_eq_or_imp]
      rw [or_assoc]
      exact or_congr_right or_comm
    · simp only [hskip, hpipes, Bool.false_eq_true, if_false, Option.some.injEq,
        exists_eq_left', Key.Covers, List.map_cons, String.toList_ofList, List.mem_cons]
      rw [or_assoc]
      exact or_comm

theorem addLine_iff (b : AdBlockPlugin) (line n : Text) :
    ((b.addLine lib line).blacklist.matchesLower n = true ↔
        b.blacklist.matchesLower n = true ∨ BlocksText lib n line) ∧
      ((b.addLine lib line).whitelist.matchesLower n = true ↔
        b.whitelist.matchesLower n = true ∨ ExemptsText lib n line) := by
  unfold AdBlockPlugin.addLine BlocksText ExemptsText
  by_cases hexempt : ['@', '@'] <+: trim line
  · obtain ⟨rest, hrest⟩ := hexempt
    simp only [← hrest]
    rw [if_pos (by simp)]
    refine ⟨?_, ?_⟩
    · simp
    · rw [insert_iff]
      simp
  · rw [if_neg (by simpa using hexempt)]
    refine ⟨?_, ?_⟩
    · rw [insert_iff]
      simp [hexempt]
    · constructor
      · exact .inl
      · rintro (h | ⟨rest, hrest, -⟩)
        · exact h
        · exact absurd ⟨rest, hrest.symm⟩ hexempt

/-- **The lists of a plugin do what its lines do.** -/
theorem new_iff (files : List (Option (List Text))) (n : Text) :
    ((AdBlockPlugin.new lib files).blacklist.matchesLower n = true ↔
        ∃ line ∈ files.flatMap (·.getD []), BlocksText lib n line) ∧
      ((AdBlockPlugin.new lib files).whitelist.matchesLower n = true ↔
        ∃ line ∈ files.flatMap (·.getD []), ExemptsText lib n line) := by
  have hlines (lines : List Text) (b : AdBlockPlugin) :
      ((lines.foldl (AdBlockPlugin.addLine lib) b).blacklist.matchesLower n = true ↔
          b.blacklist.matchesLower n = true ∨ ∃ line ∈ lines, BlocksText lib n line) ∧
        ((lines.foldl (AdBlockPlugin.addLine lib) b).whitelist.matchesLower n = true ↔
          b.whitelist.matchesLower n = true ∨ ∃ line ∈ lines, ExemptsText lib n line) := by
    induction lines generalizing b with
    | nil => simp
    | cons line lines ih =>
      obtain ⟨hblack, hwhite⟩ := addLine_iff lib b line n
      obtain ⟨hblacks, hwhites⟩ := ih (b.addLine lib line)
      rw [List.foldl_cons, hblacks, hwhites, hblack, hwhite]
      simp only [List.mem_cons, exists_eq_or_imp, or_assoc, and_self]
  have hfold : AdBlockPlugin.new lib files =
      (files.flatMap (·.getD [])).foldl (AdBlockPlugin.addLine lib) ⟨.new, .new⟩ := by
    unfold AdBlockPlugin.new
    rw [List.foldl_flatMap]
  rw [hfold]
  simpa [RuleSet.new, matchesLower_iff] using hlines (files.flatMap (·.getD [])) ⟨.new, .new⟩

/-! ## Reading alike -/

theorem or_iff_or_iff (p q r : Prop) : (p ∨ q ↔ p ∨ r) ↔ p ∨ (r ↔ q) := by
  by_cases hp : p
  · simp [hp]
  · simp [hp, iff_comm]

/-- Some line both says and does it; some line says it and does not do it; some line does it and
does not say it. -/
def Seen (lines : List Text) (meant done : Text → Prop) : Prop := ∃ l ∈ lines, meant l ∧ done l
def Lost (lines : List Text) (meant done : Text → Prop) : Prop := ∃ l ∈ lines, meant l ∧ ¬ done l
def Stray (lines : List Text) (meant done : Text → Prop) : Prop := ∃ l ∈ lines, ¬ meant l ∧ done l

theorem meant_iff (lines : List Text) (meant done : Text → Prop) :
    (∃ l ∈ lines, meant l) ↔ Seen lines meant done ∨ Lost lines meant done := by
  constructor
  · rintro ⟨l, hl, h⟩
    by_cases hdone : done l
    · exact .inl ⟨l, hl, h, hdone⟩
    · exact .inr ⟨l, hl, h, hdone⟩
  · rintro (⟨l, hl, h, -⟩ | ⟨l, hl, h, -⟩)
    · exact ⟨l, hl, h⟩
    · exact ⟨l, hl, h⟩

theorem done_iff (lines : List Text) (meant done : Text → Prop) :
    (∃ l ∈ lines, done l) ↔ Seen lines meant done ∨ Stray lines meant done := by
  constructor
  · rintro ⟨l, hl, h⟩
    by_cases hmeant : meant l
    · exact .inl ⟨l, hl, hmeant, h⟩
    · exact .inr ⟨l, hl, hmeant, h⟩
  · rintro (⟨l, hl, -, h⟩ | ⟨l, hl, -, h⟩)
    · exact ⟨l, hl, h⟩
    · exact ⟨l, hl, h⟩

/-- **The lines are read alike for a name**: a line exempts it in both readings; or it is exempt in
each reading by some line, or in one by a line and in the other nothing blocks it; or no line is
misread about its exemption, and a line blocks it in both readings, or in each by some line, or in
none. -/
def ReadAlike (lines : List Text) (n : Text) : Prop :=
  Seen lines (ExemptsBy lib n) (ExemptsText lib n) ∨
    Lost lines (ExemptsBy lib n) (ExemptsText lib n) ∧
      (Stray lines (ExemptsBy lib n) (ExemptsText lib n) ∨
        ¬ (Seen lines (BlocksBy lib n) (BlocksText lib n) ∨
          Stray lines (BlocksBy lib n) (BlocksText lib n))) ∨
    Stray lines (ExemptsBy lib n) (ExemptsText lib n) ∧
      ¬ (Seen lines (BlocksBy lib n) (BlocksText lib n) ∨
        Lost lines (BlocksBy lib n) (BlocksText lib n)) ∨
    ¬ Lost lines (ExemptsBy lib n) (ExemptsText lib n) ∧
      ¬ Stray lines (ExemptsBy lib n) (ExemptsText lib n) ∧
      (Seen lines (BlocksBy lib n) (BlocksText lib n) ∨
        (Lost lines (BlocksBy lib n) (BlocksText lib n) ↔
          Stray lines (BlocksBy lib n) (BlocksText lib n)))

theorem readAlike_iff (lines : List Text) (n : Text) :
    ((¬ ∃ l ∈ lines, ExemptsText lib n l) ∧ (∃ l ∈ lines, BlocksText lib n l) ↔
        Blocked lib lines n) ↔ ReadAlike lib lines n := by
  unfold Blocked ReadAlike
  rw [meant_iff lines (BlocksBy lib n) (BlocksText lib n),
    done_iff lines (BlocksBy lib n) (BlocksText lib n),
    meant_iff lines (ExemptsBy lib n) (ExemptsText lib n),
    done_iff lines (ExemptsBy lib n) (ExemptsText lib n)]
  -- what is said and done about the exemption decides which of the two blockings count
  by_cases hseen : Seen lines (ExemptsBy lib n) (ExemptsText lib n)
  · simp [hseen]
  by_cases hlost : Lost lines (ExemptsBy lib n) (ExemptsText lib n) <;>
  by_cases hstray : Stray lines (ExemptsBy lib n) (ExemptsText lib n)
  · simp [hlost, hstray]
  · simp [hseen, hlost, hstray]
  · simp [hseen, hlost, hstray]
  · simp only [hseen, hlost, hstray, or_self, not_false_eq_true, true_and, and_true, false_and,
      false_or]
    exact or_iff_or_iff _ _ _

end AdBlock

open AdBlock

/-- **A name is blocked as the lines of the files say exactly when they are read alike for it.** -/
theorem AdBlockPlugin.blocks_iff (lib : CharTables) (files : List (Option (List Text)))
    (hostname : Text) :
    ((AdBlockPlugin.new lib files).blocks lib hostname = true ↔
        Blocked lib (files.flatMap (·.getD [])) (lib.toLowercase hostname)) ↔
      ReadAlike lib (files.flatMap (·.getD [])) (lib.toLowercase hostname) := by
  obtain ⟨hblack, hwhite⟩ := new_iff lib files (lib.toLowercase hostname)
  unfold AdBlockPlugin.blocks
  rw [Bool.and_eq_true, Bool.not_eq_true', ← Bool.not_eq_true, hwhite, hblack]
  exact readAlike_iff lib _ _

/-- **A rule with a modifier never fires**: `||ads.com^$third-party` is stored with `^$third-party`,
and `ads.com` is not blocked. -/
theorem AdBlock.modifier_ignored :
    ¬ ((AdBlockPlugin.new ⟨(·.map Char.toLower), fun _ => false⟩
            [some ["||ads.com^$third-party".toList]]).blocks
          ⟨(·.map Char.toLower), fun _ => false⟩ "ads.com".toList = true ↔
        Blocked ⟨(·.map Char.toLower), fun _ => false⟩ ["||ads.com^$third-party".toList]
          "ads.com".toList) := by
  have hdone : (AdBlockPlugin.new ⟨(·.map Char.toLower), fun _ => false⟩
      [some ["||ads.com^$third-party".toList]]).blocks
        ⟨(·.map Char.toLower), fun _ => false⟩ "ads.com".toList = false := by
    decide +kernel
  have htrim : trim "||ads.com^$third-party".toList =
      ['|', '|'] ++ "ads.com".toList ++ '^' :: "$third-party".toList := by
    decide +kernel
  have hmeant : Blocked ⟨(·.map Char.toLower), fun _ => false⟩ ["||ads.com^$third-party".toList]
      "ads.com".toList := by
    refine ⟨⟨_, List.mem_singleton_self _, .suffix "ads.com".toList, ?_, ?_⟩, ?_⟩
    · have hchars : "ads.com".toList.all (fun c => decide (c = '.' ∨ c = '-' ∨ c = '_' ∨
          CharTables.isAlphanumeric ⟨(·.map Char.toLower), fun _ => false⟩ c = true)) = true := by
        decide +kernel
      have hspace : "ads.com".toList.all (fun c => !isWhitespace c) = true := by decide +kernel
      rw [htrim]
      refine .suffix ⟨?_, fun c hc => ?_, fun c hc => ?_⟩ (.inr ⟨"third-party".toList, ?_⟩)
      · unfold Domain
        decide +kernel
      · exact of_decide_eq_true (List.all_eq_true.mp hchars c hc)
      · simpa using List.all_eq_true.mp hspace c hc
      · decide +kernel
    · exact ⟨by decide +kernel, .inl (by decide +kernel)⟩
    · rintro ⟨line, hline, r, hrule, hexempts⟩
      obtain rfl := List.mem_singleton.mp hline
      have hpre := hrule.exempt_prefix hexempts
      rw [htrim] at hpre
      simp at hpre
  exact fun hiff => absurd (hiff.mpr hmeant) (by rw [hdone]; decide)

end TitanDns
