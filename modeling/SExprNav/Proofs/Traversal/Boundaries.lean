import SExprNav.Proofs.Bare.Tracking
import SExprNav.Proofs.Traversal.Movement

/-!
# Boundaries by traversals

Whether there is a next or a previous expression anywhere outward is asked in two ways. A boundary
climbs from list to list and tries a step from each of them, and a detour reorients outward until the
step succeeds, with the positions where it has been and with everything undone that fails. Both come
to the same lists in the same order, so that a cursor is at the boundary exactly if the detour fails,
and the step itself before it.

## Key results

- `Advance.isNone_seek_outward`: a search outward against the cursors outward
- `Action.Follows.yields_none_iff`: when an action that follows a movement fails
- `Traversal.seeking_fails_iff`: a step is possible from nowhere outward exactly if its search fails
- `Traversal.boundaries_tell_failures`: the last and the first expression by traversals
-/

namespace SExprNav

variable {κ : Type} {limit : Option Nat} {doc : Document}

/-- A search outward finds nothing if the goal leads nowhere from all cursors outward. -/
theorem Advance.isNone_seek_outward (goal : Cursor doc → Option (Cursor doc)) (c : Cursor doc) :
    ((outward doc).seek goal c).isNone = c.ancestors.all fun d => (goal d).isNone := by
  fun_induction Cursor.ancestors c with
  | case1 c h => rw [seek_of_none (m := outward doc) h, List.all_nil, Option.isNone_none]
  | case2 c d h ih =>
    rw [seek_of_some (m := outward doc) h, List.all_cons, ← ih]
    cases goal d <;> simp

namespace Action.Follows

variable {x : Action κ doc Executed} {f : Cursor doc → Option (Cursor doc)} {c d : Cursor doc}

/-- An action fails exactly where the movement that it follows is not possible. -/
theorem yields_none_iff (hx : x.Follows f) : x.Yields c none d ↔ f c = none ∧ d = c := by
  constructor
  · intro h
    cases hf : f c with
    | none => exact ⟨rfl, (h.unique (hx.failure hf)).2⟩
    | some b =>
      obtain ⟨ms, hms⟩ := hx.success hf
      exact nomatch (h.unique hms).1
  · rintro ⟨hf, rfl⟩
    exact hx.failure hf

/-- An action that follows a movement fails and stays, or succeeds. -/
theorem fails_or_succeeds (hx : x.Follows f) (c : Cursor doc) :
    x.Yields c none c ∨ ∃ ms d, x.Yields c (some ms) d := by
  cases hf : f c with
  | none => exact .inl (hx.failure hf)
  | some d =>
    obtain ⟨ms, hms⟩ := hx.success hf
    exact .inr ⟨ms, d, hms⟩

end Action.Follows

namespace Traversal

open Cursor (step?)

/-- A step in a direction, or else one from the closest list around from where there is one. -/
def seeking (dir : Direction) : Traversal κ :=
  .protocol [.step dir, .detour (.step .outward) (.step dir)]

variable (meaning : κ → Action κ doc Bool) {dir : Direction} {c d : Cursor doc}

theorem follows_seeking (dir : Direction) : ((seeking dir).execute meaning).Follows
    fun c => (step? dir c).or ((Advance.outward doc).seek (step? dir) c) := by
  have hdetour := follows_detour (m := Advance.outward doc) (follows_step meaning .outward)
    (follows_step meaning dir)
  have hrow := (follows_step meaning dir).firstOf_cons (hdetour.firstOf_cons .firstOf_nil)
  simp only [Option.or_none] at hrow
  exact follows_protocol hrow

/-- The search for a step outward fails exactly if the step is possible neither from the cursor nor
    from any cursor outward. -/
theorem seeking_fails_iff : ((seeking dir).execute meaning).Yields c none d ↔
    ((c :: c.ancestors).all fun a => (step? dir a).isNone) = true ∧ d = c := by
  rw [(follows_seeking meaning dir).yields_none_iff, List.all_cons, Bool.and_eq_true,
    ← Advance.isNone_seek_outward, Option.isNone_iff_eq_none, Option.isNone_iff_eq_none,
    Option.or_eq_none_iff]

/-- A cursor passes for the last expression exactly if there is no step forward by traversals, not
    from the lists around either, and for the first one exactly if there is no such step backward. So
    the walk in preorder ends exactly where a cursor passes for the last expression and no step
    inward is possible. What a cursor passes for is what the climb from list to list answers, which
    ends and puts the cursor back; and each of the traversals ends in failure or success. -/
theorem boundaries_tell_failures (c : Cursor doc) :
    let fails (t : Traversal κ) : Prop := (t.execute meaning).Yields c none c
    let next : Traversal κ := .protocol [.step .forward, .detour (.step .outward) (.step .forward)]
    let previous : Traversal κ :=
      .protocol [.step .backward, .detour (.step .outward) (.step .backward)]
    let preorder : Traversal κ := Standard.preorder.traversal
    let enter : Action κ doc (Option Move) := Action.go .inward 1
    (Boundary.final.holds c = true ↔ fails next) ∧
    (Boundary.initial.holds c = true ↔ fails previous) ∧
    (fails preorder ↔ Boundary.final.holds c = true ∧ enter.Yields c none c) ∧
    (∀ b, (Bare.atBoundary b : Bare limit doc Bool) c.pos = Part.some (.ok (b.holds c), c.pos)) ∧
    ∀ t ∈ [next, previous, preorder], fails t ∨ ∃ ms d, (t.execute meaning).Yields c (some ms) d := by
  intro fails next previous preorder enter
  have hnext : fails next ↔ Boundary.final.holds c = true :=
    (seeking_fails_iff meaning).trans (and_iff_left rfl)
  have hprevious : fails previous ↔ Boundary.initial.holds c = true :=
    (seeking_fails_iff meaning).trans (and_iff_left rfl)
  have henter : enter.Yields c none c ↔ c.enter? = none := by
    rw [Action.yields_go_none, c.go_one, Option.map_eq_none_iff]
    exact and_iff_left rfl
  -- The walk tries the step inward first, and then what the search for a step forward tries.
  have hsearch : fails next ↔ c.next?.or ((Advance.outward doc).seek Cursor.next? c) = none :=
    (follows_seeking meaning .forward).yields_none_iff.trans (and_iff_left rfl)
  have hwalk : fails preorder ↔ c.preorder? = none :=
    (Standard.follows_preorder meaning).yields_none_iff.trans (and_iff_left rfl)
  have hpreorder : fails preorder ↔ c.enter? = none ∧ fails next := by
    rw [hwalk, hsearch]
    exact Option.or_eq_none_iff
  refine ⟨hnext.symm, hprevious.symm, ?_, fun b => Bare.answers_atBoundary b c, ?_⟩
  · rw [hpreorder, hnext, henter, and_comm]
  · simp only [List.forall_mem_cons]
    exact ⟨(follows_seeking meaning .forward).fails_or_succeeds c,
      (follows_seeking meaning .backward).fails_or_succeeds c,
      (Standard.follows_preorder meaning).fails_or_succeeds c, List.forall_mem_nil _⟩

end Traversal

end SExprNav
