import TitanDns.Dns.Addresses
import TitanDns.Lib.PartialMap
import TitanDns.Plugins.DomesticNames
import TitanDns.Plugins.Responders

/-!
# The hosts file

What `HostsPlugin::load_from_file` makes of a text, and what the lines of the text say.

* `loadFromFile`, `lookup` — the loader and `get_ips`; `loadFromFile_hosts` — **the table holds what
  the lines push, in file order.**
* `uncommented`, `entryOf`, `listed` — what a line says in front of its comment.
* `ReadsExactly` — what is said of a text and a name.
* `Plain` — the condition: no comment behind an address, and no line that names the host twice or
  in letters that are not its own.

Principal result: `readsExactly_iff` — **the text is read exactly when it is plain.**
-/

namespace TitanDns

open DomainMatcher
open AdBlock (splitWhitespace_append splitWhitespace_word splitWhitespace_gap)
open RecursiveBackend (asciiTables Lowers asciiTables_lowers)

/-- `str::parse::<IpAddr>` -/
def IpAddr.parse (text : Text) : Option IpAddr :=
  match Ipv4Addr.parse (String.ofList text) with
  | some ip => some (.v4 ip)
  | none => (Ipv6Addr.parse text).map .v6

/-- `str::lines`: the terminator of a line is a line feed, or a carriage return and a line feed. -/
def lines (content : Text) : List Text :=
  let parts := content.splitOn '\n'
  let last := parts.getLast?.getD []
  parts.dropLast.map (fun line => if line.getLast? = some '\r' then line.dropLast else line) ++
    if last = [] then [] else [last]

namespace HostsPlugin

variable (lib : CharTables)

/-! ## Loading -/

def new : HostsPlugin := ⟨PartialMap.empty⟩

/-- The key of a host name: lower case, with the trailing dot. -/
def keyOf (hostname : Text) : String :=
  String.ofList (if hostname.getLast? = some '.' then lib.toLowercase hostname
    else lib.toLowercase hostname ++ ['.'])

/-- `entry(..).or_insert_with(Vec::new).push(ip)`, as in `add_host`. -/
def addHost (h : HostsPlugin) (ip : IpAddr) (hostname : Text) : HostsPlugin :=
  let key := keyOf lib hostname
  ⟨PartialMap.put h.hosts key ((h.hosts key).getD [] ++ [ip])⟩

/-- A line of the file. -/
def addLine (h : HostsPlugin) (line : Text) : HostsPlugin :=
  let line := trim line
  if line.isEmpty || ['#'].isPrefixOf line then h
  else
    match splitWhitespace line with
    | ipStr :: hostname :: aliases =>
      match IpAddr.parse ipStr with
      | some ip => (hostname :: aliases).foldl (addHost lib · ip ·) h
      | none => h
    | _ => h

/-- `load_from_file`, on what the file holds. -/
def loadFromFile (content : Text) : HostsPlugin := (lines content).foldl (addLine lib) new

/-- `get_ips` -/
def lookup (h : HostsPlugin) (hostname : Text) : Option (List IpAddr) :=
  h.hosts (keyOf lib hostname)

/-- **The lookup by which the plugin answers is this one**, in ASCII. -/
theorem getIps_eq (h : HostsPlugin) (hostname : String) :
    h.getIps hostname = h.lookup asciiTables hostname.toList := by
  have hlower : hostname.toLower = String.ofList (hostname.toList.map Char.toLower) := by
    rw [← String.toList_inj, String.toList_ofList]
    exact String.toList_map
  unfold getIps lookup normalized keyOf asciiTables
  rw [hlower]
  split
  · rfl
  · rw [String.ofList_append]

/-! ## What the lines say -/

/-- The address and the names of a line. -/
def entryOf (line : Text) : Option (IpAddr × List Text) :=
  match splitWhitespace line with
  | word :: names => (IpAddr.parse word).map (·, names)
  | [] => none

/-- A line in front of its comment. -/
def uncommented (line : Text) : Text := line.takeWhile (· != '#')

/-- A name with the dot at its end, in lower case of ASCII. -/
def asciiKey (name : Text) : Text :=
  (if name.getLast? = some '.' then name else name ++ ['.']).map Char.toLower

/-- The address of a line that lists a host. -/
def listed (hostname line : Text) : List IpAddr :=
  match entryOf (uncommented line) with
  | some (ip, names) => if names.any (asciiKey · = asciiKey hostname) then [ip] else []
  | none => []

/-- What is said of a text and a host: the addresses are those of the lines that list it, and every
name in the table stands in front of the comment of a line. -/
structure ReadsExactly (content hostname : Text) : Prop where
  ips : ((loadFromFile lib content).lookup lib hostname).getD [] =
    (lines content).flatMap (listed hostname)
  no_comment : ∀ key, (loadFromFile lib content).hosts key ≠ none →
    ∃ line ∈ lines content, ∃ ip names, entryOf (uncommented line) = some (ip, names) ∧
      ∃ name ∈ names, keyOf lib name = key

/-- The condition on the lines that start with an address: no comment behind it, and of the names at
most one has the key of the host, and that one is the host up to ASCII case. -/
def Plain (content hostname : Text) : Prop :=
  ∀ line ∈ lines content, ∀ ip names, entryOf line = some (ip, names) →
    '#' ∉ line ∧ names.countP (keyOf lib · = keyOf lib hostname) ≤ 1 ∧
      ∀ name ∈ names, keyOf lib name = keyOf lib hostname → asciiKey name = asciiKey hostname

/-- What is relied on of `to_lowercase`, besides `Lowers`: no letter becomes a number sign. -/
structure LowersHosts : Prop extends Lowers lib where
  hash : ∀ t, '#' ∈ lib.toLowercase t ↔ '#' ∈ t

theorem asciiTables_lowersHosts : LowersHosts asciiTables where
  toLowers := asciiTables_lowers
  hash t := by
    show '#' ∈ t.map Char.toLower ↔ '#' ∈ t
    constructor
    · intro h
      obtain ⟨c, hc, hlower⟩ := List.mem_map.mp h
      rwa [← toLower_inj (c := c) (d := '#') rfl (hlower.trans rfl)]
    · intro h
      exact List.mem_map.mpr ⟨'#', h, rfl⟩

/-! ## Words -/

/-- What is between the separators has every other character, in order. -/
theorem splitOnP_flatten (p : Char → Bool) (t : Text) :
    (t.splitOnP p).flatten = t.filter (fun c => !p c) := by
  induction t with
  | nil => rfl
  | cons c t ih =>
    obtain ⟨part, parts, hparts⟩ := List.exists_cons_of_ne_nil (List.splitOnP_ne_nil p t)
    rw [List.splitOnP_cons_eq_if_modifyHead]
    rw [hparts] at ih ⊢
    cases hc : p c with
    | true => simpa [hc] using ih
    | false => simpa [hc] using ih

theorem splitWhitespace_flatten (t : Text) :
    (splitWhitespace t).flatten = t.filter (fun c => !isWhitespace c) := by
  have hdrop : ∀ parts : List Text, (parts.filter (· ≠ [])).flatten = parts.flatten := by
    intro parts
    induction parts with
    | nil => rfl
    | cons part parts ih =>
      cases part with
      | nil => simpa using ih
      | cons c part => simpa using ih
  rw [splitWhitespace, hdrop, splitOnP_flatten]

/-- A character that is not white space is in some word, and the words have no other. -/
theorem mem_splitWhitespace {t : Text} {c : Char} :
    (∃ word ∈ splitWhitespace t, c ∈ word) ↔ c ∈ t ∧ isWhitespace c = false := by
  rw [← List.mem_flatten, splitWhitespace_flatten, List.mem_filter]
  simp

/-- White space at the end makes no word. -/
theorem splitWhitespace_end {gap : Text} (hgap : ∀ c ∈ gap, isWhitespace c = true) (front : Text) :
    splitWhitespace (front ++ gap) = splitWhitespace front := by
  cases gap with
  | nil => rw [List.append_nil]
  | cons c gap =>
    have hrest := splitWhitespace_gap (fun c' hc' => hgap c' (List.mem_cons_of_mem _ hc')) []
    rw [List.append_nil] at hrest
    rw [splitWhitespace_append (hgap c List.mem_cons_self), hrest]
    exact List.append_nil _

/-- The words of a line are those of the line trimmed. -/
theorem splitWhitespace_trim (line : Text) :
    splitWhitespace (trim line) = splitWhitespace line := by
  have hfront : ∀ c ∈ line.takeWhile isWhitespace, isWhitespace c = true :=
    fun c hc => List.mem_takeWhile_imp hc
  have hend : ∀ c ∈ (line.dropWhile isWhitespace).rtakeWhile isWhitespace, isWhitespace c = true :=
    fun c hc => List.mem_rtakeWhile_imp hc
  have hline := List.takeWhile_append_dropWhile (p := isWhitespace) (l := line)
  have hrest : trim line ++ (line.dropWhile isWhitespace).rtakeWhile isWhitespace =
      line.dropWhile isWhitespace := List.rdropWhile_append_rtakeWhile
  calc splitWhitespace (trim line)
      = splitWhitespace (trim line ++ (line.dropWhile isWhitespace).rtakeWhile isWhitespace) :=
        (splitWhitespace_end hend _).symm
    _ = splitWhitespace (line.takeWhile isWhitespace ++ line.dropWhile isWhitespace) := by
        rw [hrest, splitWhitespace_gap hfront]
    _ = splitWhitespace line := by rw [hline]

/-- Words in front of a gap, or of the end, and those behind it. -/
theorem splitWhitespace_gapped (front : Text) {rest : Text}
    (hrest : ∀ c ∈ rest.head?, isWhitespace c = true) :
    splitWhitespace (front ++ rest) = splitWhitespace front ++ splitWhitespace rest := by
  cases rest with
  | nil => simp [splitWhitespace]
  | cons c rest =>
    have hgap : splitWhitespace (c :: rest) = splitWhitespace rest :=
      @splitWhitespace_gap [c] (by simpa using hrest) rest
    rw [splitWhitespace_append (hrest c rfl), hgap]

/-- `dropWhile` stops at a character that does not satisfy the test. -/
theorem dropWhile_head {p : Char → Bool} {t : Text} : ∀ c ∈ (t.dropWhile p).head?, p c = false := by
  intro c hc
  have hstop := List.head?_dropWhile_not p t
  rwa [hc] at hstop

/-- A text with a word: what is behind its first word starts with white space. -/
theorem splitWhitespace_cons {t word : Text} {words : List Text}
    (h : splitWhitespace t = word :: words) :
    ∃ front rest, t = front ++ rest ∧ splitWhitespace front = [word] ∧
      splitWhitespace rest = words ∧ ∀ c ∈ rest.head?, isWhitespace c = true := by
  let gap := t.takeWhile isWhitespace
  let first := (t.dropWhile isWhitespace).takeWhile (!isWhitespace ·)
  let rest := (t.dropWhile isWhitespace).dropWhile (!isWhitespace ·)
  have hgap : ∀ c ∈ gap, isWhitespace c = true := fun c hc => List.mem_takeWhile_imp hc
  have hfirst : ∀ c ∈ first, isWhitespace c = false :=
    fun c hc => by simpa using List.mem_takeWhile_imp hc
  have hrest : ∀ c ∈ rest.head?, isWhitespace c = true :=
    fun c hc => by simpa using dropWhile_head c hc
  have hsplit : first ++ rest = t.dropWhile isWhitespace := List.takeWhile_append_dropWhile
  have ht : t = gap ++ (first ++ rest) := by
    rw [hsplit]
    exact List.takeWhile_append_dropWhile.symm
  have hwords : splitWhitespace t = splitWhitespace first ++ splitWhitespace rest := by
    rw [ht, splitWhitespace_gap hgap, splitWhitespace_gapped first hrest]
  by_cases hne : first = []
  · -- what stops the white space starts the word
    have hnone : rest = [] := by
      cases hu : t.dropWhile isWhitespace with
      | nil =>
        rw [hu] at hsplit
        exact (List.append_eq_nil_iff.mp hsplit).2
      | cons c u =>
        have hstop := dropWhile_head (p := isWhitespace) (t := t) c (by rw [hu]; rfl)
        have : first = c :: u.takeWhile (!isWhitespace ·) := by
          show (t.dropWhile isWhitespace).takeWhile (!isWhitespace ·) = _
          rw [hu, List.takeWhile_cons_of_pos (by simpa using hstop)]
        rw [hne] at this
        cases this
    rw [hne, hnone] at hwords
    rw [hwords] at h
    cases h
  · rw [splitWhitespace_word hne hfirst] at hwords
    rw [hwords] at h
    obtain ⟨rfl, rfl⟩ := List.cons.inj h
    refine ⟨gap ++ first, rest, by rw [List.append_assoc]; exact ht, ?_, rfl, hrest⟩
    rw [splitWhitespace_gap hgap, splitWhitespace_word hne hfirst]

/-! ## Addresses -/

theorem hash_dropWhile {p : Char → Bool} (hp : p '#' = false) {cs : Text} (h : '#' ∈ cs) :
    '#' ∈ cs.dropWhile p := by
  have hsplit : cs.takeWhile p ++ cs.dropWhile p = cs := List.takeWhile_append_dropWhile
  rw [← hsplit] at h
  rcases List.mem_append.mp h with htaken | hleft
  · have htaken := List.mem_takeWhile_imp htaken
    rw [hp] at htaken
    cases htaken
  · exact hleft

theorem hash_readChar {c : Char} (hc : c ≠ '#') {cs rest : Text} (hread : readChar c cs = some rest)
    (h : '#' ∈ cs) : '#' ∈ rest := by
  cases cs with
  | nil => cases h
  | cons c' cs =>
    unfold readChar at hread
    simp only at hread
    split at hread
    · rename_i heq
      obtain rfl := Option.some.inj hread
      rcases List.mem_cons.mp h with hhash | hmem
      · exact absurd (heq.symm.trans hhash.symm) hc
      · exact hmem
    · cases hread

theorem hash_readOctet {cs rest : Text} {b : UInt8} (hread : readOctet cs = some (b, rest))
    (h : '#' ∈ cs) : '#' ∈ rest := by
  obtain ⟨_, -, heq⟩ := Option.map_eq_some_iff.mp hread
  obtain ⟨-, rfl⟩ := Prod.mk.inj heq
  exact hash_dropWhile rfl h

theorem hash_readGroup {cs rest : Text} {n : Nat} (hread : readGroup cs = some (n, rest))
    (h : '#' ∈ cs) : '#' ∈ rest := by
  unfold readGroup at hread
  simp only at hread
  split at hread
  · cases hread
  · obtain ⟨-, rfl⟩ := Prod.mk.inj (Option.some.inj hread)
    exact hash_dropWhile rfl h

theorem hash_readIpv4 {cs rest : Text} {ip : Ipv4Addr} (hread : readIpv4 cs = some (ip, rest))
    (h : '#' ∈ cs) : '#' ∈ rest := by
  have hnext : ∀ {cs rest : Text} {b : UInt8}, (readChar '.' cs).bind readOctet = some (b, rest) →
      '#' ∈ cs → '#' ∈ rest := by
    intro cs rest b hnext h
    obtain ⟨behind, hdot, hoctet⟩ := Option.bind_eq_some_iff.mp hnext
    exact hash_readOctet hoctet (hash_readChar (by decide) hdot h)
  unfold readIpv4 at hread
  obtain ⟨⟨a, cs₁⟩, ha, hread⟩ := Option.bind_eq_some_iff.mp hread
  obtain ⟨⟨b, cs₂⟩, hb, hread⟩ := Option.bind_eq_some_iff.mp hread
  obtain ⟨⟨c, cs₃⟩, hc, hread⟩ := Option.bind_eq_some_iff.mp hread
  obtain ⟨⟨d, cs₄⟩, hd, hread⟩ := Option.bind_eq_some_iff.mp hread
  obtain ⟨-, rfl⟩ := Prod.mk.inj (Option.some.inj hread)
  exact hnext hd (hnext hc (hnext hb (hash_readOctet ha h)))

/-- The groups leave a number sign in what is left of the text. -/
theorem hash_readGroups (limit : Nat) (first : Bool) {cs : Text} (h : '#' ∈ cs) :
    '#' ∈ (readGroups limit first cs).2.2 := by
  induction limit generalizing first cs with
  | zero => exact h
  | succ limit ih =>
    have hrest : ∀ rest, (if first then some cs else readChar ':' cs) = some rest → '#' ∈ rest := by
      intro rest heq
      split at heq
      · exact Option.some.inj heq ▸ h
      · exact hash_readChar (by decide) heq h
    unfold readGroups
    simp only
    split
    · rename_i ip cs' hread
      split at hread
      · obtain ⟨rest, hopt, hread⟩ := Option.bind_eq_some_iff.mp hread
        exact hash_readIpv4 hread (hrest rest hopt)
      · cases hread
    · split
      · rename_i group cs' hread
        obtain ⟨rest, hopt, hread⟩ := Option.bind_eq_some_iff.mp hread
        exact ih false (hash_readGroup hread (hrest rest hopt))
      · exact h

theorem ipv4_parse_hash {text : Text} (h : '#' ∈ text) :
    Ipv4Addr.parse (String.ofList text) = none := by
  obtain ⟨part, hpart, hhash⟩ : ∃ part ∈ text.splitOn '.', '#' ∈ part := by
    rw [← List.mem_flatten, List.splitOn_eq_splitOnP, splitOnP_flatten, List.mem_filter]
    exact ⟨h, rfl⟩
  have hnone : none ∈ (text.splitOn '.').map parseOctet := by
    refine List.mem_map.mpr ⟨part, hpart, ?_⟩
    have hany : part.any (fun c => !c.isDigit) = true := List.any_eq_true.mpr ⟨'#', hhash, rfl⟩
    rw [parseOctet, if_pos (.inr (.inr hany))]
  unfold Ipv4Addr.parse
  rw [String.toList_ofList]
  split
  · rename_i hmap
    rw [hmap] at hnone
    simp at hnone
  · rfl

theorem ipv6_parse_hash {text : Text} (h : '#' ∈ text) : Ipv6Addr.parse text = none := by
  have hhead := hash_readGroups 8 true h
  have hleft : ∀ {rest : Text}, '#' ∈ rest → rest.isEmpty = false := by
    intro rest hrest
    cases rest with
    | nil => cases hrest
    | cons c rest => rfl
  unfold Ipv6Addr.parse
  simp only
  split
  · rw [hleft hhead]
    rfl
  split
  · rfl
  split
  · rfl
  · rename_i rest hread
    obtain ⟨behind, hfirst, hsecond⟩ := Option.bind_eq_some_iff.mp hread
    have hrest := hash_readChar (by decide) hsecond (hash_readChar (by decide) hfirst hhead)
    rw [hleft (hash_readGroups _ true hrest)]
    rfl

/-- **A text with a number sign is no address.** -/
theorem parse_hash {text : Text} (h : '#' ∈ text) : IpAddr.parse text = none := by
  rw [IpAddr.parse, ipv4_parse_hash h, ipv6_parse_hash h]
  rfl

/-! ## The table -/

section

variable {lib : CharTables}

/-- The addresses that a line pushes under a key. -/
def pushed (lib : CharTables) (key : String) (line : Text) : List IpAddr :=
  match entryOf line with
  | some (ip, names) => List.replicate (names.countP (keyOf lib · = key)) ip
  | none => []

/-- What the table holds where it holds something. -/
def stored (ips : List IpAddr) : Option (List IpAddr) := if ips = [] then none else some ips

@[simp] theorem stored_getD (ips : List IpAddr) : (stored ips).getD [] = ips := by
  unfold stored
  split
  · rename_i h
    exact h.symm
  · rfl

/-- The names of a line, one after the other. -/
theorem addHosts_hosts (ip : IpAddr) (names : List Text) {h : HostsPlugin} {key : String}
    {ips : List IpAddr} (hkey : h.hosts key = stored ips) :
    (names.foldl (addHost lib · ip ·) h).hosts key =
      stored (ips ++ List.replicate (names.countP (keyOf lib · = key)) ip) := by
  induction names generalizing h ips with
  | nil => simpa using hkey
  | cons name names ih =>
    rw [List.foldl_cons]
    by_cases hname : keyOf lib name = key
    · have hput : (addHost lib h ip name).hosts key = stored (ips ++ [ip]) := by
        show PartialMap.put h.hosts (keyOf lib name)
          ((h.hosts (keyOf lib name)).getD [] ++ [ip]) key = _
        rw [hname, PartialMap.put_self, hkey, stored_getD]
        simp [stored]
      rw [ih hput, List.countP_cons_of_pos (by simpa using hname), List.replicate_succ,
        List.append_assoc]
      rfl
    · have hput : (addHost lib h ip name).hosts key = stored ips := by
        show PartialMap.put h.hosts (keyOf lib name)
          ((h.hosts (keyOf lib name)).getD [] ++ [ip]) key = _
        rw [PartialMap.put_of_ne (Ne.symm hname), hkey]
      rw [ih hput, List.countP_cons_of_neg (by simpa using hname)]

/-- A number sign at the start is in the first word. -/
theorem hash_mem_first {t word : Text} {words : List Text} (h : ['#'] <+: t)
    (hwords : splitWhitespace t = word :: words) : '#' ∈ word := by
  obtain ⟨front, rest, rfl, hfront, -, -⟩ := splitWhitespace_cons hwords
  obtain ⟨c, front, rfl⟩ : ∃ c front', front = c :: front' := by
    cases front with
    | nil => cases hfront
    | cons c front => exact ⟨c, front, rfl⟩
  obtain rfl : '#' = c := (List.cons_prefix_cons.mp h).1
  obtain ⟨word', hmem, hhash⟩ := mem_splitWhitespace.mpr
    ⟨List.mem_cons_self (a := '#') (l := front), rfl⟩
  rw [hfront] at hmem
  rwa [List.mem_singleton.mp hmem] at hhash

/-- A line pushes its address under the keys of its names. -/
theorem addLine_eq (h : HostsPlugin) (line : Text) :
    addLine lib h line =
      match entryOf line with
      | some (ip, names) => names.foldl (addHost lib · ip ·) h
      | none => h := by
  unfold addLine entryOf
  rw [← splitWhitespace_trim line]
  generalize trim line = line
  simp only
  cases hwords : splitWhitespace line with
  | nil => split <;> rfl
  | cons word names =>
    dsimp only
    split
    · rename_i hskip
      rcases Bool.or_eq_true_iff.mp hskip with hempty | hcomment
      · rw [List.isEmpty_iff.mp hempty] at hwords
        cases hwords
      · have hhash := hash_mem_first (List.isPrefixOf_iff_prefix.mp hcomment) hwords
        rw [parse_hash hhash]
        rfl
    · cases names with
      | nil =>
        dsimp only
        cases IpAddr.parse word <;> rfl
      | cons name names =>
        dsimp only
        cases IpAddr.parse word <;> rfl

theorem addLine_hosts (line : Text) {h : HostsPlugin} {key : String} {ips : List IpAddr}
    (hkey : h.hosts key = stored ips) :
    (addLine lib h line).hosts key = stored (ips ++ pushed lib key line) := by
  rw [addLine_eq, pushed]
  cases entryOf line with
  | none => simpa using hkey
  | some entry => exact addHosts_hosts entry.1 entry.2 hkey

/-- **The table holds what the lines push, in file order.** -/
theorem loadFromFile_hosts (content : Text) (key : String) :
    (loadFromFile lib content).hosts key = stored ((lines content).flatMap (pushed lib key)) := by
  have hall : ∀ (ls : List Text) {h : HostsPlugin} {ips : List IpAddr}, h.hosts key = stored ips →
      (ls.foldl (addLine lib) h).hosts key = stored (ips ++ ls.flatMap (pushed lib key)) := by
    intro ls
    induction ls with
    | nil =>
      intro h ips hkey
      simpa using hkey
    | cons line ls ih =>
      intro h ips hkey
      rw [List.foldl_cons, ih (addLine_hosts line hkey), List.flatMap_cons, List.append_assoc]
  have hnew : (new : HostsPlugin).hosts key = stored [] := rfl
  have hload := hall (lines content) hnew
  rwa [List.nil_append] at hload

/-- A key is in the table when a line that starts with an address has a name with that key. -/
theorem hosts_ne_none {content : Text} {key : String} :
    (loadFromFile lib content).hosts key ≠ none ↔
      ∃ line ∈ lines content, ∃ ip names, entryOf line = some (ip, names) ∧
        ∃ name ∈ names, keyOf lib name = key := by
  have hstored : ∀ ips, stored ips ≠ none ↔ ips ≠ [] := by
    intro ips
    unfold stored
    split
    · rename_i h
      simp [h]
    · rename_i h
      simp [h]
  rw [loadFromFile_hosts, hstored, ne_eq, List.flatMap_eq_nil_iff, not_forall]
  simp only [not_forall, exists_prop]
  refine exists_congr fun line => and_congr_right fun _ => ?_
  unfold pushed
  cases entryOf line with
  | none => simp
  | some entry =>
    obtain ⟨ip, names⟩ := entry
    simp [List.replicate_eq_nil_iff, List.countP_eq_zero]

/-! ## Comments -/

theorem uncommented_eq {line : Text} (h : '#' ∉ line) : uncommented line = line := by
  refine List.takeWhile_eq_self_iff.mpr fun c hc => ?_
  simp only [bne_iff_ne, ne_eq]
  rintro rfl
  exact h hc

theorem hash_not_mem_uncommented (line : Text) : '#' ∉ uncommented line := by
  intro h
  have := List.mem_takeWhile_imp h
  simp at this

/-- A line that lists something in front of its comment starts with the same address. -/
theorem entryOf_ne_none {line : Text} {ip : IpAddr} {name : Text} {names : List Text}
    (h : entryOf (uncommented line) = some (ip, name :: names)) : entryOf line ≠ none := by
  have hline : uncommented line ++ line.dropWhile (· != '#') = line :=
    List.takeWhile_append_dropWhile
  unfold entryOf at h
  cases hwords : splitWhitespace (uncommented line) with
  | nil =>
    rw [hwords] at h
    cases h
  | cons word words =>
    rw [hwords] at h
    obtain ⟨ip', hparse, heq⟩ := Option.map_eq_some_iff.mp h
    obtain ⟨-, rfl⟩ := Prod.mk.inj heq
    obtain ⟨front, rest, hsplit, hfront, hrest, hgap⟩ := splitWhitespace_cons hwords
    -- the first word ends in front of the comment
    obtain ⟨c, rest, rfl⟩ : ∃ c rest', rest = c :: rest' := by
      cases rest with
      | nil => cases hrest
      | cons c rest => exact ⟨c, rest, rfl⟩
    have hwhole : splitWhitespace line =
        word :: splitWhitespace (c :: rest ++ line.dropWhile (· != '#')) := by
      have hsame : line = front ++ (c :: rest ++ line.dropWhile (· != '#')) := by
        rw [← List.append_assoc, ← hsplit, hline]
      conv_lhs => rw [hsame]
      rw [@splitWhitespace_gapped front (c :: rest ++ line.dropWhile (· != '#')) hgap, hfront]
      rfl
    unfold entryOf
    rw [hwhole]
    simp [hparse]

theorem listed_of_none {hostname line : Text} (h : entryOf line = none) :
    listed hostname line = [] := by
  unfold listed
  cases hentry : entryOf (uncommented line) with
  | none => rfl
  | some entry =>
    obtain ⟨ip, names⟩ := entry
    cases names with
    | nil => rfl
    | cons name names => exact absurd h (entryOf_ne_none hentry)

theorem listed_eq {hostname line : Text} {ip : IpAddr} {names : List Text} (hhash : '#' ∉ line)
    (h : entryOf line = some (ip, names)) :
    listed hostname line = if names.any (asciiKey · = asciiKey hostname) then [ip] else [] := by
  rw [listed, uncommented_eq hhash, h]

/-- A comment behind an address makes a name of it. -/
theorem hash_mem_names {line : Text} {ip : IpAddr} {names : List Text}
    (h : entryOf line = some (ip, names)) (hhash : '#' ∈ line) : ∃ name ∈ names, '#' ∈ name := by
  obtain ⟨word, hmem, hword⟩ := mem_splitWhitespace.mpr ⟨hhash, rfl⟩
  unfold entryOf at h
  cases hwords : splitWhitespace line with
  | nil =>
    rw [hwords] at hmem
    cases hmem
  | cons first words =>
    rw [hwords] at h hmem
    obtain ⟨ip', hparse, heq⟩ := Option.map_eq_some_iff.mp h
    obtain ⟨-, rfl⟩ := Prod.mk.inj heq
    rcases List.mem_cons.mp hmem with rfl | hmem
    · rw [parse_hash hword] at hparse
      cases hparse
    · exact ⟨word, hmem, hword⟩

/-- The names of a line are words of it. -/
theorem mem_of_mem_names {line name : Text} {ip : IpAddr} {names : List Text} {c : Char}
    (h : entryOf line = some (ip, names)) (hname : name ∈ names) (hc : c ∈ name) : c ∈ line := by
  unfold entryOf at h
  cases hwords : splitWhitespace line with
  | nil =>
    rw [hwords] at h
    cases h
  | cons first words =>
    rw [hwords] at h
    obtain ⟨ip', -, heq⟩ := Option.map_eq_some_iff.mp h
    obtain ⟨-, rfl⟩ := Prod.mk.inj heq
    exact (mem_splitWhitespace.mp ⟨name, by rw [hwords]; exact List.mem_cons_of_mem _ hname, hc⟩).1

/-! ## Exactly the lines -/

theorem keyOf_eq (hlib : Lowers lib) (name : Text) :
    keyOf lib name = String.ofList (lib.toLowercase (asciiKey name)) := by
  rw [keyOf, asciiKey, hlib.ascii]
  split
  · rfl
  · rw [hlib.dot]

theorem hash_mem_keyOf (hlib : LowersHosts lib) {name name' : Text}
    (h : keyOf lib name = keyOf lib name') : '#' ∈ name ↔ '#' ∈ name' := by
  have hkey : ∀ name, '#' ∈ (keyOf lib name).toList ↔ '#' ∈ name := by
    intro name
    rw [keyOf, String.toList_ofList]
    split
    · exact hlib.hash name
    · rw [List.mem_append, hlib.hash]
      simp
  rw [← hkey name, ← hkey name', h]

/-- The names that are the host have its key. -/
theorem any_of_listed (hlib : Lowers lib) {hostname : Text} {names : List Text}
    (h : names.any (asciiKey · = asciiKey hostname) = true) :
    0 < names.countP (keyOf lib · = keyOf lib hostname) := by
  obtain ⟨name, hname, hkey⟩ := List.any_eq_true.mp h
  refine List.countP_pos_iff.mpr ⟨name, hname, ?_⟩
  rw [decide_eq_true_eq] at hkey ⊢
  rw [keyOf_eq hlib, keyOf_eq hlib, hkey]

/-- Of one name with a key there are not two. -/
theorem eq_of_countP_eq_one {names : List Text} {key : String} {name name' : Text}
    (h : names.countP (keyOf lib · = key) = 1) (hname : name ∈ names) (hkey : keyOf lib name = key)
    (hname' : name' ∈ names) (hkey' : keyOf lib name' = key) : name = name' := by
  rw [List.countP_eq_length_filter] at h
  obtain ⟨only, honly⟩ := List.length_eq_one_iff.mp h
  have hmem : ∀ {name}, name ∈ names → keyOf lib name = key → name = only := by
    intro name hname hkey
    have hfilter : name ∈ names.filter (keyOf lib · = key) :=
      List.mem_filter.mpr ⟨hname, by simpa using hkey⟩
    rw [honly] at hfilter
    exact List.mem_singleton.mp hfilter
  rw [hmem hname hkey, hmem hname' hkey']

/-- **A line without a comment pushes what it lists** when it names the host once, and by its own
letters. -/
theorem length_pushed_eq_iff (hlib : Lowers lib) {hostname line : Text} {ip : IpAddr}
    {names : List Text} (hhash : '#' ∉ line) (h : entryOf line = some (ip, names)) :
    (pushed lib (keyOf lib hostname) line).length = (listed hostname line).length ↔
      names.countP (keyOf lib · = keyOf lib hostname) ≤ 1 ∧
        ∀ name ∈ names, keyOf lib name = keyOf lib hostname →
          asciiKey name = asciiKey hostname := by
  have hpushed : (pushed lib (keyOf lib hostname) line).length =
      names.countP (keyOf lib · = keyOf lib hostname) := by
    rw [pushed, h]
    exact List.length_replicate
  rw [hpushed, listed_eq hhash h]
  cases hany : names.any (asciiKey · = asciiKey hostname) with
  | true =>
    have hpos := any_of_listed hlib hany
    obtain ⟨host, hhost, heq⟩ := List.any_eq_true.mp hany
    rw [decide_eq_true_eq] at heq
    have hkey : keyOf lib host = keyOf lib hostname := by rw [keyOf_eq hlib, keyOf_eq hlib, heq]
    show _ = 1 ↔ _
    constructor
    · intro hone
      refine ⟨by omega, fun name hname hname' => ?_⟩
      rw [eq_of_countP_eq_one hone hname hname' hhost hkey, heq]
    · rintro ⟨hle, -⟩
      omega
  | false =>
    show _ = 0 ↔ _
    constructor
    · intro hzero
      refine ⟨by omega, fun name hname hkey => ?_⟩
      exact absurd (by simpa using hkey) (List.countP_eq_zero.mp hzero name hname)
    · rintro ⟨-, hown⟩
      refine List.countP_eq_zero.mpr fun name hname hkey => ?_
      have hlisted := hown name hname (by simpa using hkey)
      have htrue : names.any (asciiKey · = asciiKey hostname) = true :=
        List.any_eq_true.mpr ⟨name, hname, by simpa using hlisted⟩
      rw [hany] at htrue
      cases htrue

/-- Lists put together from parts that are no longer than others, and equal, have parts of the same
lengths. -/
theorem length_eq_of_flatMap_eq {α β : Type} {f g : α → List β} {l : List α}
    (hle : ∀ a ∈ l, (g a).length ≤ (f a).length)
    (heq : (l.flatMap f).length = (l.flatMap g).length) :
    ∀ a ∈ l, (f a).length = (g a).length := by
  have hsum : ∀ l : List α, (∀ a ∈ l, (g a).length ≤ (f a).length) →
      (l.flatMap g).length ≤ (l.flatMap f).length := by
    intro l hl
    induction l with
    | nil => exact Nat.le_refl _
    | cons b l ih =>
      have hb := hl b List.mem_cons_self
      have hrest := ih fun a ha => hl a (List.mem_cons_of_mem _ ha)
      rw [List.flatMap_cons, List.flatMap_cons, List.length_append, List.length_append]
      omega
  induction l with
  | nil =>
    intro a ha
    cases ha
  | cons b l ih =>
    have hb := hle b List.mem_cons_self
    have hl := hsum l fun a ha => hle a (List.mem_cons_of_mem _ ha)
    rw [List.flatMap_cons, List.flatMap_cons, List.length_append, List.length_append] at heq
    intro a ha
    rcases List.mem_cons.mp ha with rfl | ha
    · omega
    · exact ih (fun a ha => hle a (List.mem_cons_of_mem _ ha)) (by omega) a ha

/-- The addresses that the text gives a host. -/
theorem lookup_getD (content hostname : Text) :
    ((loadFromFile lib content).lookup lib hostname).getD [] =
      (lines content).flatMap (pushed lib (keyOf lib hostname)) := by
  rw [lookup, loadFromFile_hosts, stored_getD]

/-- Where no comment makes a name, there is none behind an address. -/
theorem ReadsExactly.hash_not_mem (hlib : LowersHosts lib) {content hostname : Text}
    (h : ReadsExactly lib content hostname) {line : Text} (hline : line ∈ lines content)
    {ip : IpAddr} {names : List Text} (hentry : entryOf line = some (ip, names)) : '#' ∉ line := by
  intro hhash
  obtain ⟨name, hname, hmem⟩ := hash_mem_names hentry hhash
  obtain ⟨line', -, ip', names', hentry', name', hname', hkey⟩ := h.no_comment (keyOf lib name)
    (hosts_ne_none.mpr ⟨line, hline, ip, names, hentry, name, hname, rfl⟩)
  have hmem' := (hash_mem_keyOf hlib hkey).mpr hmem
  exact hash_not_mem_uncommented line' (mem_of_mem_names hentry' hname' hmem')

/-- **A text is read exactly when it is plain.** -/
theorem readsExactly_iff (hlib : LowersHosts lib) (content hostname : Text) :
    ReadsExactly lib content hostname ↔ Plain lib content hostname := by
  constructor
  · intro h
    have hle : ∀ line ∈ lines content, (listed hostname line).length ≤
        (pushed lib (keyOf lib hostname) line).length := by
      intro line hline
      cases hentry : entryOf line with
      | none =>
        rw [listed_of_none hentry]
        exact Nat.zero_le _
      | some entry =>
        obtain ⟨ip, names⟩ := entry
        rw [listed_eq (h.hash_not_mem hlib hline hentry) hentry, pushed, hentry,
          List.length_replicate]
        split
        · rename_i hany
          exact any_of_listed hlib.toLowers hany
        · exact Nat.zero_le _
    have hips := h.ips
    rw [lookup_getD] at hips
    intro line hline ip names hentry
    have hhash := h.hash_not_mem hlib hline hentry
    have hlength := length_eq_of_flatMap_eq hle (congrArg List.length hips) line hline
    exact ⟨hhash, (length_pushed_eq_iff hlib.toLowers hhash hentry).mp hlength⟩
  · intro h
    constructor
    · rw [lookup_getD]
      refine List.flatMap_congr fun line hline => ?_
      cases hentry : entryOf line with
      | none => rw [listed_of_none hentry, pushed, hentry]
      | some entry =>
        obtain ⟨ip, names⟩ := entry
        obtain ⟨hhash, hplain⟩ := h line hline ip names hentry
        have hlength := (length_pushed_eq_iff hlib.toLowers hhash hentry).mpr hplain
        -- both are repetitions of the one address
        rw [pushed, hentry, List.length_replicate] at hlength
        rw [pushed, hentry]
        simp only
        rw [hlength, listed_eq hhash hentry]
        split <;> rfl
    · intro key hkey
      obtain ⟨line, hline, ip, names, hentry, name, hname, hkey⟩ := hosts_ne_none.mp hkey
      refine ⟨line, hline, ip, names, ?_, name, hname, hkey⟩
      rw [uncommented_eq (h line hline ip names hentry).1, hentry]

theorem readsExactly_iff_localhost :
    ReadsExactly asciiTables "127.0.0.1 localhost".toList "localhost".toList :=
  (readsExactly_iff asciiTables_lowersHosts _ _).mpr (by
    have hlines : lines "127.0.0.1 localhost".toList = ["127.0.0.1 localhost".toList] := by decide
    have hentry : entryOf "127.0.0.1 localhost".toList =
        some (.v4 ⟨127, 0, 0, 1⟩, ["localhost".toList]) := by decide +kernel
    intro line hline ip names h
    rw [hlines] at hline
    obtain rfl := List.mem_singleton.mp hline
    rw [hentry] at h
    obtain ⟨rfl, rfl⟩ := Prod.mk.inj (Option.some.inj h)
    decide +kernel)

/-- A word of a comment resolves. -/
theorem comment_resolves :
    ¬ ∀ lib, LowersHosts lib → ∀ content hostname, ReadsExactly lib content hostname := by
  intro h
  have hips := (h asciiTables asciiTables_lowersHosts "127.0.0.1 localhost # loopback".toList
    "loopback".toList).ips
  rw [lookup_getD] at hips
  revert hips
  decide +kernel

end

end HostsPlugin

end TitanDns
