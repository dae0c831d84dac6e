import Mathlib.Data.List.Forall2
import SExprNav.Cursor.Boundary

/-!
# Corresponding cursors

Cursors of two documents correspond in some way that steps keep: a step is possible for both of them
or for none, and where the two lead corresponds again. Then as many steps are possible for both, the
lists around them correspond, and they are at the same boundaries, as far as steps decide these.

## Key results

- `Cursor.StepsKeep.go`: several steps keep the correspondence, and as many of them are possible
- `Cursor.StepsKeep.ancestors`: the lists around corresponding cursors correspond
- `Cursor.StepsKeep.holds_eq`: corresponding cursors are at the same boundaries
-/

namespace SExprNav.Cursor

variable {d e doc : Document} {R : Cursor d → Cursor e → Prop}

/-- A step is possible for both of two corresponding cursors or for none, and where they lead
    corresponds again. -/
structure StepsKeep (R : Cursor d → Cursor e → Prop) : Prop where
  step : ∀ {c c'}, R c c' → ∀ dir, (step? dir c).Rel R (step? dir c')

/-- Related things pass related tests, all of them or not. -/
theorem all_eq_all {α β : Type} {P : α → β → Prop} {l : List α} {l' : List β}
    {f : α → Bool} {g : β → Bool} (h : List.Forall₂ P l l') (hfg : ∀ a b, P a b → f a = g b) :
    l.all f = l'.all g := by
  induction h with
  | nil => rfl
  | cons hab _ ih => rw [List.all_cons, List.all_cons, hfg _ _ hab, ih]

theorem isNone_eq {x : Option (Cursor d)} {x' : Option (Cursor e)} (hx : x.Rel R x') :
    x.isNone = x'.isNone := by
  cases hx <;> rfl

theorem ancestors_of_none {c : Cursor doc} (h : c.leave? = none) : c.ancestors = [] := by
  rw [ancestors]
  split
  · rfl
  · rename_i b hb
    rw [h] at hb
    cases hb

theorem ancestors_of_some {c b : Cursor doc} (h : c.leave? = some b) :
    c.ancestors = b :: b.ancestors := by
  rw [ancestors]
  split
  · rename_i hb
    rw [h] at hb
    cases hb
  · rename_i b' hb
    rw [h] at hb
    cases hb
    rfl

namespace StepsKeep

variable {c : Cursor d} {c' : Cursor e} (h : StepsKeep R) (hc : R c c')

include h hc

/-! ## Several steps -/

/-- As many steps are possible for both cursors, and where they lead corresponds. -/
theorem repeated (dir : Direction) (n : Nat) :
    (repeated (Cursor.step? dir) n c).1 = (repeated (Cursor.step? dir) n c').1 ∧
      R (repeated (Cursor.step? dir) n c).2 (repeated (Cursor.step? dir) n c').2 := by
  induction n generalizing c c' with
  | zero => exact ⟨rfl, hc⟩
  | succ n ih =>
    have hstep := h.step hc dir
    unfold Cursor.repeated
    generalize Cursor.step? dir c = x, Cursor.step? dir c' = x' at hstep
    cases hstep with
    | none => exact ⟨rfl, hc⟩
    | some hab =>
      have hrest := ih hab
      exact ⟨congrArg (· + 1) hrest.1, hrest.2⟩

/-- The same part of a move is achieved from both cursors, and where it leads corresponds. -/
theorem go (dir : Direction) (n : Nat) :
    (c.go dir n).Rel (fun r r' => r.1 = r'.1 ∧ R r.2 r'.2) (c'.go dir n) := by
  obtain ⟨hcount, hled⟩ := h.repeated hc dir n
  unfold Cursor.go
  generalize Cursor.repeated (Cursor.step? dir) n c = r, Cursor.repeated (Cursor.step? dir) n c' = r'
    at hcount hled
  obtain ⟨k, b⟩ := r
  obtain ⟨k', b'⟩ := r'
  cases hcount
  cases k with
  | zero => exact .none
  | succ k => exact .some ⟨rfl, hled⟩

/-! ## Boundaries -/

/-- The opening delimiters of the lists around the cursors correspond. -/
theorem ancestors : List.Forall₂ R c.ancestors c'.ancestors := by
  -- Leaving a list leads to the left, so the induction is on the position.
  induction hp : c.pos using Nat.strongRecOn generalizing c c' with
  | ind p ih =>
    have hleave : c.leave?.Rel R c'.leave? := h.step hc .outward
    cases hx : c.leave? with
    | none =>
      have hx' : c'.leave? = none := by
        rw [hx] at hleave
        generalize c'.leave? = x' at hleave
        cases hleave
        rfl
      rw [ancestors_of_none hx, ancestors_of_none hx']
      exact .nil
    | some a =>
      obtain ⟨a', hx', hab⟩ : ∃ a', c'.leave? = some a' ∧ R a a' := by
        rw [hx] at hleave
        generalize c'.leave? = x' at hleave
        cases hleave with
        | some hab => exact ⟨_, rfl, hab⟩
      have hlt := pos_leave?_lt hx
      rw [ancestors_of_some hx, ancestors_of_some hx']
      exact .cons hab (ih a.pos (by omega) hab rfl)

/-- Corresponding cursors are at the same boundaries, if they are on empty lists and on comment lines
    together: the other boundaries are told by steps. -/
theorem holds_eq (hempty : c.onEmptyList = c'.onEmptyList)
    (hcomment : c.onCommentLine = c'.onCommentLine) (b : Boundary) : b.holds c = b.holds c' := by
  have hall : List.Forall₂ R (c :: c.ancestors) (c' :: c'.ancestors) := .cons hc (h.ancestors hc)
  unfold Boundary.holds
  cases b with
  | top => exact isNone_eq (h.step hc .outward)
  | first => exact isNone_eq (h.step hc .backward)
  | last => exact isNone_eq (h.step hc .forward)
  | final => exact all_eq_all hall fun _ _ hab => isNone_eq (h.step hab .forward)
  | initial => exact all_eq_all hall fun _ _ hab => isNone_eq (h.step hab .backward)
  | emptyList => exact hempty
  | commentLine => exact hcomment

end StepsKeep

end SExprNav.Cursor
