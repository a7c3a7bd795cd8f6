import TitanDns.Lib.Run
import Mathlib.Data.List.Induction
import Mathlib.Order.Basic

/-!
# A queue of dated entries

Entries are pushed with their date, and each push first drops what has expired from the front.

* `push` — one entry; `run_push` — **where the dates do not go back, the queue holds exactly what
  has not expired at the last push.**
-/

namespace TimeWindow

open Run

variable {α T : Type*} [Preorder T]

/-- Drop what has expired from the front, and append. -/
def push (date : α → T) (expired : T → T → Bool) (q : List α) (x : α) : List α :=
  q.dropWhile (fun y => expired (date x) (date y)) ++ [x]

/-- When something has expired, so has what is older, now and later. -/
structure Ageing (expired : T → T → Bool) : Prop where
  later : ∀ {now now' date}, expired now date = true → now ≤ now' → expired now' date = true
  older : ∀ {now date date'}, expired now date = true → date' ≤ date → expired now date' = true
  fresh : ∀ now, expired now now = false

omit [Preorder T] in
/-- Where what comes later is kept if anything before it is, the front is all that is dropped. -/
theorem dropWhile_eq_filter {p : α → Bool} {l : List α}
    (h : l.Pairwise fun x y => p y = true → p x = true) :
    l.dropWhile p = l.filter fun x => !p x := by
  induction l with
  | nil => rfl
  | cons a l ih =>
    obtain ⟨hfirst, hrest⟩ := List.pairwise_cons.mp h
    cases ha : p a with
    | true =>
      rw [List.dropWhile_cons_of_pos ha, List.filter_cons_of_neg (by simp [ha])]
      exact ih hrest
    | false =>
      rw [List.dropWhile_cons_of_neg (by simp [ha]), eq_comm, List.filter_eq_self]
      intro x hx
      rcases List.mem_cons.mp hx with rfl | hx
      · simp [ha]
      · cases hpx : p x with
        | true => exact absurd (hfirst x hx hpx) (by simp [ha])
        | false => rfl

/-- **Where the dates do not go back, the queue holds what has not expired at the last push.** -/
theorem run_push {date : α → T} {expired : T → T → Bool} (hage : Ageing expired) {es : List α}
    {x : α} (h : (es ++ [x]).Pairwise fun a b => date a ≤ date b) :
    run (push date expired) [] (es ++ [x]) =
      (es ++ [x]).filter fun y => !expired (date x) (date y) := by
  induction es using List.reverseRecOn generalizing x with
  | nil =>
    show [x] = _
    rw [List.nil_append, List.filter_cons_of_pos (by rw [hage.fresh]; rfl)]
    rfl
  | append_singleton es y ih =>
    obtain ⟨hbefore, -, hlast⟩ := List.pairwise_append.mp h
    have hyx : date y ≤ date x := hlast y (by simp) x (by simp)
    -- what had expired at the push before has expired now
    have hqueue := ih hbefore
    have hkept : ((es ++ [y]).filter fun z => !expired (date y) (date z)).filter
        (fun z => !expired (date x) (date z)) =
          (es ++ [y]).filter fun z => !expired (date x) (date z) := by
      rw [List.filter_filter]
      refine List.filter_congr fun z _ => ?_
      cases hz : expired (date y) (date z) with
      | true => simp [hage.later hz hyx]
      | false => simp
    have hsorted : ((es ++ [y]).filter fun z => !expired (date y) (date z)).Pairwise
        fun a b => expired (date x) (date b) = true → expired (date x) (date a) = true := by
      refine (hbefore.filter _).imp ?_
      intro a b hab hb
      exact hage.older hb hab
    rw [run_append, hqueue, run_cons, run_nil, push, dropWhile_eq_filter hsorted, hkept,
      List.filter_append (es ++ [y]), List.filter_cons_of_pos (by rw [hage.fresh]; rfl)]
    rfl

end TimeWindow
