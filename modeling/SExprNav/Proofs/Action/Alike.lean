import Mathlib.Data.List.Forall2
import SExprNav.Proofs.Action.Rounds

/-!
# Actions alike

Actions on two documents are alike, for a relation between their cursors, if from related cursors
they come to the same answer or fault and end at related cursors. Their events may differ. Actions
that are put together from actions alike are alike; for loops this takes a relation that is
one-to-one, as a loop ends when it comes back to a cursor.

## Key results

- `Action.Alike.bind`: actions alike in sequence are alike
- `Action.Alike.trail`: loops with rounds alike have rounds alike, and as many of them
-/

namespace SExprNav

variable {κ : Type} {d e : Document} {R : Cursor d → Cursor e → Prop} {α β : Type}

/-- The two runs came to the same answer or fault and ended at related cursors. -/
structure Run.Alike (R : Cursor d → Cursor e → Prop) (r : Run κ d α) (r' : Run κ e α) : Prop where
  answer : r.answer = r'.answer
  cursor : R r.cursor r'.cursor

/-- The two actions run alike from related cursors. -/
def Action.Alike (R : Cursor d → Cursor e → Prop) (x : Action κ d α) (x' : Action κ e α) : Prop :=
  ∀ c c', R c c' → (x c).Alike R (x' c')

/-- The two loops have kept rounds with the same shares and related cursors, and last rounds
    alike. -/
structure Trail.Alike (R : Cursor d → Cursor e → Prop) (t : Trail κ d α β) (t' : Trail κ e α β) :
    Prop where
  kept : List.Forall₂ (fun r r' => r.1 = r'.1 ∧ R r.2 r'.2) t.kept t'.kept
  last : t.last.Alike R t'.last

namespace Trail.Alike

variable {t : Trail κ d α β} {t' : Trail κ e α β}

theorem kept_shares (h : t.Alike R t') : t.kept.map (·.1) = t'.kept.map (·.1) := by
  have hkept := h.kept
  generalize t.kept = l, t'.kept = l' at hkept
  induction hkept with
  | nil => rfl
  | cons hr _ ih => rw [List.map_cons, List.map_cons, hr.1, ih]

/-- The last rounds start at related cursors. -/
theorem lastStart (h : t.Alike R t') {c : Cursor d} {c' : Cursor e} (hc : R c c') :
    R (t.lastStart c) (t'.lastStart c') := by
  have hkept := h.kept
  unfold Trail.lastStart
  generalize t.kept = l, t'.kept = l' at hkept
  induction hkept generalizing c c' with
  | nil => exact hc
  | @cons r r' l l' hr _ ih =>
    obtain ⟨a, b⟩ := r
    obtain ⟨a', b'⟩ := r'
    rw [Trail.getLast?_kept_cons, Trail.getLast?_kept_cons]
    exact ih hr.2

end Trail.Alike

namespace Action.Alike

/-! ## Single actions -/

theorem pure (a : α) : Alike R (Pure.pure a : Action κ d α) (Pure.pure a) := by
  intro c c' hc
  exact ⟨rfl, hc⟩

/-- Questions with the same answer at related cursors are alike. -/
theorem ask {q : Cursor d → α} {q' : Cursor e → α} (h : ∀ c c', R c c' → q c = q' c') :
    Alike R (Action.ask q : Action κ d α) (Action.ask q') := by
  intro c c' hc
  exact ⟨congrArg Except.ok (h c c' hc), hc⟩

/-- Taking steps is alike if the same part of a move is achieved from related cursors. -/
theorem go {dir : Direction} {n : Nat} (h : ∀ c c', R c c' →
      (c.go dir n).Rel (fun r r' => r.1 = r'.1 ∧ R r.2 r'.2) (c'.go dir n)) :
    Alike R (Action.go dir n : Action κ d (Option Move)) (Action.go dir n) := by
  intro c c' hc
  have hgo := h c c' hc
  unfold Action.go
  generalize c.go dir n = r, c'.go dir n = r' at hgo
  cases hgo with
  | none => exact ⟨rfl, hc⟩
  | some hr => exact ⟨congrArg (fun m => Except.ok (some m)) hr.1, hr.2⟩

/-! ## Actions in sequence -/

/-- Actions alike in sequence are alike. -/
theorem bind {x : Action κ d α} {x' : Action κ e α} {f : α → Action κ d β} {f' : α → Action κ e β}
    (hx : Alike R x x') (hf : ∀ a, Alike R (f a) (f' a)) : Alike R (x >>= f) (x' >>= f') := by
  intro c c' hc
  have hrun := hx c c' hc
  rcases hr : x c with ⟨a | a, b, log⟩
  · rcases hr' : x' c' with ⟨a' | a', b', log'⟩
    · rw [hr, hr'] at hrun
      rw [bind_of_error hr, bind_of_error hr']
      exact ⟨congrArg Except.error (Except.error.inj hrun.answer), hrun.cursor⟩
    · rw [hr, hr'] at hrun
      exact nomatch hrun.answer
  · rcases hr' : x' c' with ⟨a' | a', b', log'⟩
    · rw [hr, hr'] at hrun
      exact nomatch hrun.answer
    · rw [hr, hr'] at hrun
      obtain rfl : a = a' := Except.ok.inj hrun.answer
      have hrest := hf a b b' hrun.cursor
      rw [bind_of_ok hr, bind_of_ok hr']
      exact ⟨hrest.answer, hrest.cursor⟩

theorem map {x : Action κ d α} {x' : Action κ e α} (f : α → β) (hx : Alike R x x') :
    Alike R (f <$> x) (f <$> x') := by
  rw [← bind_pure_comp, ← bind_pure_comp]
  exact hx.bind fun a => pure (f a)

/-- Putting the cursor back leads to the related cursors where the actions started. -/
theorem rollback {x : Action κ d (Option α)} {x' : Action κ e (Option α)} (hx : Alike R x x') :
    Alike R x.rollback x'.rollback := by
  intro c c' hc
  have hrun := hx c c' hc
  unfold Action.rollback
  rcases hr : x c with ⟨answer, b, log⟩
  rcases hr' : x' c' with ⟨answer', b', log'⟩
  rw [hr, hr'] at hrun
  obtain rfl : answer = answer' := hrun.answer
  rcases answer with e | (_ | a)
  · exact ⟨rfl, hc⟩
  · exact ⟨rfl, hc⟩
  · exact ⟨rfl, hrun.cursor⟩

/-! ## Loops -/

/-- Loops with rounds alike are alike, if the relation between the cursors is one-to-one: then both
    come back to a position, or none does. -/
theorem trail (hR : Relator.BiUnique R) {round : Action κ d (Verdict α β)}
    {round' : Action κ e (Verdict α β)} (hround : Alike R round round')
    {visited : List (Cursor d)} {visited' : List (Cursor e)}
    (hvisited : List.Forall₂ R visited visited') {c : Cursor d} {c' : Cursor e} (hc : R c c') :
    Trail.Alike R (Action.trail round visited c) (Action.trail round' visited' c') := by
  have hrun := hround c c' hc
  fun_induction Action.trail round visited c generalizing visited' c' with
  | case1 visited c a b log hr hmem =>
    rw [hr] at hrun
    rcases hr' : round' c' with ⟨answer', b', log'⟩
    rw [hr'] at hrun
    obtain rfl : answer' = .ok (.again a) := hrun.answer.symm
    -- The cursors where the two rounds ended are related, and so are the visited ones.
    have hmem' : b' ∈ visited' := (List.rel_mem hR hrun.cursor hvisited).mp hmem
    rw [trail_of_mem hr' hmem']
    exact ⟨.nil, hrun⟩
  | case2 visited c a b log hr hmem =>
    rename_i ih
    rw [hr] at hrun
    rcases hr' : round' c' with ⟨answer', b', log'⟩
    rw [hr'] at hrun
    obtain rfl : answer' = .ok (.again a) := hrun.answer.symm
    have hmem' : b' ∉ visited' := fun h => hmem ((List.rel_mem hR hrun.cursor hvisited).mpr h)
    have hrest := ih (.cons hrun.cursor hvisited) hrun.cursor (hround b b' hrun.cursor)
    rw [trail_of_not_mem hr' hmem']
    exact ⟨.cons ⟨rfl, hrun.cursor⟩ hrest.kept, hrest.last⟩
  | case3 visited c hlast =>
    -- This loop does not go on, so the other one does not, either.
    have hlast' : ∀ a b' log', round' c' ≠ ⟨.ok (.again a), b', log'⟩ := by
      intro a b' log' hr'
      rcases hr : round c with ⟨answer, b, log⟩
      rw [hr, hr'] at hrun
      obtain rfl : answer = .ok (.again a) := hrun.answer
      exact hlast a b log hr
    rw [trail_of_stop hlast']
    exact ⟨.nil, hrun⟩

end Action.Alike

end SExprNav
