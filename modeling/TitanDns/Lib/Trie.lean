import Mathlib.Data.List.Infix
import Mathlib.Logic.Function.Basic

/-!
# Tries

A set of words over any alphabet, kept as a tree: a node says whether a word ends at it, and has at
most one child for every letter.

* `Node`, `Node.insert` — tries, and one more word.
* `Node.Holds` — the words of a trie; `holds_insert` — **one more than before.**
* `Node.walk` — a walk along a word that stops at the first node where one ends; `walk_iff` — **it
  finds one exactly when a word of the trie, not empty, begins the word that is walked.**
-/

namespace Trie

/-- A node: whether a word ends here, and the children. -/
inductive Node (K : Type) where
  | mk (isMatch : Bool) (children : K → Option (Node K))

namespace Node

variable {K : Type}

def isMatch : Node K → Bool
  | mk isMatch _ => isMatch

def children : Node K → K → Option (Node K)
  | mk _ children => children

/-- A node where no word ends, without children. -/
def empty : Node K := mk false fun _ => none

/-- Walk the word, with new nodes where there are none, and mark the last one. -/
def insert [DecidableEq K] : List K → Node K → Node K
  | [], n => mk true n.children
  | k :: ks, n =>
    mk n.isMatch (Function.update n.children k (some (insert ks ((n.children k).getD empty))))

/-- Walk the word as far as there are nodes; the answer is whether a node on the way is marked. -/
def walk : List K → Node K → Bool
  | [], _ => false
  | k :: ks, n =>
    match n.children k with
    | some child => if child.isMatch then true else walk ks child
    | none => false

/-- The words of the trie. -/
def Holds : List K → Node K → Prop
  | [], n => n.isMatch = true
  | k :: ks, n => ∃ child, n.children k = some child ∧ Holds ks child

@[simp] theorem not_holds_empty (ks : List K) : ¬ Holds ks empty := by
  cases ks with
  | nil => simp [Holds, empty, isMatch]
  | cons k ks => simp [Holds, empty, children]

/-- A child that is made anew holds nothing. -/
theorem holds_child (k : K) (ks : List K) (n : Node K) :
    Holds ks ((n.children k).getD empty) ↔ Holds (k :: ks) n := by
  cases h : n.children k with
  | none => simp [Holds, h]
  | some child => simp [Holds, h]

variable [DecidableEq K]

theorem insert_children_self (k : K) (ks : List K) (n : Node K) :
    (insert (k :: ks) n).children k = some (insert ks ((n.children k).getD empty)) := by
  simp [insert, children]

theorem insert_children_of_ne {k k' : K} (h : k' ≠ k) (ks : List K) (n : Node K) :
    (insert (k :: ks) n).children k' = n.children k' := by
  simp [insert, children, h]

/-- **One word more than before.** -/
theorem holds_insert (word ks : List K) (n : Node K) :
    Holds ks (insert word n) ↔ ks = word ∨ Holds ks n := by
  induction word generalizing ks n with
  | nil =>
    cases ks with
    | nil => simp [Holds, insert, isMatch]
    | cons k ks => simp [Holds, insert, children]
  | cons w word ih =>
    cases ks with
    | nil => simp [Holds, insert, isMatch]
    | cons k ks =>
      by_cases hk : k = w
      · subst hk
        have hchild : Holds (k :: ks) (insert (k :: word) n) ↔
            Holds ks (insert word ((n.children k).getD empty)) := by
          simp [Holds, insert_children_self]
        rw [hchild, ih, holds_child]
        simp
      · simp [Holds, insert_children_of_ne hk, hk]

omit [DecidableEq K] in
/-- **The walk finds a word exactly when one begins the word that is walked.** -/
theorem walk_iff (ks : List K) (n : Node K) :
    walk ks n = true ↔ ∃ word, word ≠ [] ∧ word <+: ks ∧ Holds word n := by
  induction ks generalizing n with
  | nil =>
    constructor
    · intro h
      cases h
    · rintro ⟨word, hne, hprefix, -⟩
      exact absurd (List.prefix_nil.mp hprefix) hne
  | cons k ks ih =>
    unfold walk
    cases hchild : n.children k with
    | none =>
      constructor
      · intro h
        cases h
      · rintro ⟨_ | ⟨k', word⟩, hne, hprefix, hholds⟩
        · exact absurd rfl hne
        · obtain ⟨rfl, -⟩ := List.cons_prefix_cons.mp hprefix
          obtain ⟨child, hchild', -⟩ := hholds
          rw [hchild] at hchild'
          cases hchild'
    | some child =>
      simp only
      split
      · rename_i hmatch
        refine ⟨fun _ => ⟨[k], List.cons_ne_nil _ _, ?_, child, hchild, hmatch⟩, fun _ => rfl⟩
        exact List.cons_prefix_cons.mpr ⟨rfl, List.nil_prefix⟩
      · rename_i hmatch
        rw [ih]
        constructor
        · rintro ⟨word, -, hprefix, hholds⟩
          exact ⟨k :: word, List.cons_ne_nil _ _, List.cons_prefix_cons.mpr ⟨rfl, hprefix⟩, child,
            hchild, hholds⟩
        · rintro ⟨_ | ⟨k', word⟩, hne, hprefix, hholds⟩
          · exact absurd rfl hne
          · obtain ⟨rfl, hrest⟩ := List.cons_prefix_cons.mp hprefix
            obtain ⟨child', hchild', hholds⟩ := hholds
            rw [hchild] at hchild'
            cases hchild'
            refine ⟨word, ?_, hrest, hholds⟩
            rintro rfl
            exact hmatch hholds

end Node

end Trie
