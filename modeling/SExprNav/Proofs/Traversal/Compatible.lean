import Mathlib.Data.List.Forall2
import SExprNav.Traversal.Execute

/-!
# Relations that combinators respect

The combinators of `Executed` are put together by answering and by having one thing after another, in
whatever monad they are used. So a relation between two monads that is compatible with these two
holds between what a combinator makes of related parts. Each pair of ways to execute traversals is
compared by such a relation.

## Key results

- `Compatible.andThen`, `Compatible.firstOf`, …: one for each combinator
-/

namespace SExprNav

/-- The relation between two monads holds between answers without more, and between things in sequence
    if it holds between the first ones and, for each answer, between those that follow. -/
structure Compatible {m n : Type → Type} [Monad m] [Monad n] (R : (α : Type) → m α → n α → Prop) :
    Prop where
  pure : ∀ {α : Type} (a : α), R α (Pure.pure a) (Pure.pure a)
  bind : ∀ {α β : Type} {x : m α} {y : n α} {f : α → m β} {g : α → n β},
    R α x y → (∀ a, R β (f a) (g a)) → R β (x >>= f) (y >>= g)

namespace Compatible

variable {m n : Type → Type} [Monad m] [Monad n] {R : (α : Type) → m α → n α → Prop}
  {x x' : m Executed} {y y' : n Executed} {xs : List (m Executed)} {ys : List (n Executed)}

/-- Two executions, one after the other, are compared one by one. -/
theorem andThen (h : Compatible R) (hx : R _ x y) (hx' : R _ x' y') :
    R _ (Executed.andThen x x') (Executed.andThen y y') := by
  refine h.bind hx fun r => ?_
  cases r with
  | none => exact h.pure none
  | some ms => exact h.bind hx' fun rest => h.pure _

/-- The executions in order are compared one by one. -/
theorem inSequence (h : Compatible R) (hxs : List.Forall₂ (R _) xs ys) :
    R _ (Executed.inSequence xs) (Executed.inSequence ys) := by
  induction hxs with
  | nil => exact h.pure (some [])
  | cons hx _ ih => exact h.andThen hx ih

/-- Repetitions are compared like what they repeat. -/
theorem repeated (h : Compatible R) (hx : R _ x y) (k : Nat) :
    R _ (Executed.repeated k x) (Executed.repeated k y) := by
  induction k with
  | zero => exact h.pure (some [])
  | succ k ih => exact h.andThen hx ih

/-- The executions to be tried are compared one by one. -/
theorem firstOf (h : Compatible R) (hxs : List.Forall₂ (R _) xs ys) :
    R _ (Executed.firstOf xs) (Executed.firstOf ys) := by
  induction hxs with
  | nil => exact h.pure none
  | cons hx _ ih =>
    refine h.bind hx fun r => ?_
    cases r with
    | none => exact ih
    | some ms => exact h.pure (some ms)

/-- Executions between conditions are compared like the three parts. -/
theorem guarded (h : Compatible R) {before after : m Bool} {before' after' : n Bool}
    (hbefore : R _ before before') (hx : R _ x y) (hafter : R _ after after') :
    R _ (Executed.guarded before x after) (Executed.guarded before' y after') := by
  refine h.bind hbefore fun b => ?_
  cases b with
  | false => exact h.pure none
  | true =>
    refine h.bind hx fun r => ?_
    cases r with
    | none => exact h.pure none
    | some ms =>
      refine h.bind hafter fun b => ?_
      cases b with
      | false => exact h.pure none
      | true => exact h.pure (some ms)

/-- Rounds of repetitions are compared like what they repeat. -/
theorem again (h : Compatible R) (hx : R _ x y) : R _ (Executed.again x) (Executed.again y) := by
  refine h.bind hx fun r => ?_
  cases r with
  | none => exact h.pure (Verdict.done ())
  | some ms => exact h.pure (Verdict.again ms)

/-- Rounds of detours are compared like the reorientation and what is tried after it. -/
theorem reorient (h : Compatible R) (hx : R _ x y) (hx' : R _ x' y') :
    R _ (Executed.reorient x x') (Executed.reorient y y') := by
  refine h.bind hx fun r => ?_
  cases r with
  | none => exact h.pure (Verdict.done none)
  | some ms =>
    refine h.bind hx' fun r => ?_
    cases r with
    | none => exact h.pure (Verdict.again ms)
    | some ns => exact h.pure (Verdict.done (some (ms ++ ns)))

end Compatible

/-- Two functions of the members of a row are compared member by member. -/
theorem forall₂_map_of_mem {α β γ : Type} {S : β → γ → Prop} {f : α → β} {g : α → γ} {l : List α}
    (h : ∀ a ∈ l, S (f a) (g a)) : List.Forall₂ S (l.map f) (l.map g) := by
  rwa [List.forall₂_map_left_iff, List.forall₂_map_right_iff, List.forall₂_same]

end SExprNav
