import SExprNav.Proofs.Cursor.Displacement
import SExprNav.Proofs.Cursor.Repetition

/-!
# Steps add up

Some steps in a direction and then some more are as many steps at once. A move that has stopped early
has come to where no step is possible, and no later one will be: it would start from the very same
cursor. And each step gets somewhere, by a character at least and always the same way, so that a move
has achieved nothing exactly if the cursor has not moved.

## Key results

- `Cursor.repeated_add`: a movement repeated, and then repeated again
- `Advance.rank_times?`: some steps of an advance lower the rank by as many
- `Cursor.leads_of_times?`: how far some steps lead, at least
- `Cursor.go_adds_up`: moves add up, and say whether the cursor has moved
-/

namespace SExprNav

variable {κ : Type} {doc : Document}

namespace Direction

/-- What a move answers of which some steps were possible: nothing if there were none. -/
def achieved (dir : Direction) (k : Nat) : Option Move :=
  if k = 0 then none else some (dir.move k)

theorem achieved_eq_none_iff {dir : Direction} {k : Nat} : dir.achieved k = none ↔ k = 0 := by
  unfold achieved
  split <;> simp_all

/-- No step counts as no displacement. -/
theorem getD_achieved (dir : Direction) (k : Nat) : (dir.achieved k).getD .zero = dir.move k := by
  cases k with
  | zero => exact dir.move_zero.symm
  | succ k => rfl

theorem move_add (dir : Direction) (j k : Nat) : dir.move (j + k) = dir.move j + dir.move k := by
  induction j with
  | zero => rw [Nat.zero_add, move_zero, Move.zero_add]
  | succ j ih => rw [Nat.succ_add, move_succ, move_succ, ih, Move.add_assoc]

/-- From position `p`, `k` steps may lead to `q`: forward and inward they go to the right, backward
    and outward to the left, by a character each at least. -/
def Leads (dir : Direction) (k p q : Nat) : Prop :=
  match dir with
  | .forward | .inward => p + k ≤ q
  | .backward | .outward => q + k ≤ p

end Direction

/-- Each application of an advance lowers the rank. -/
theorem Advance.rank_times? (m : Advance doc) {k : Nat} {c d : Cursor doc}
    (h : Cursor.times? m.movement k c = some d) : m.rank d + k ≤ m.rank c := by
  induction k generalizing c with
  | zero =>
    cases h
    exact Nat.le_refl _
  | succ k ih =>
    obtain ⟨b, hb, hrest⟩ := Cursor.times?_succ_iff.mp h
    have hstep := m.rank_lt hb
    have hle := ih hrest
    omega

namespace Cursor

variable {f : Cursor doc → Option (Cursor doc)} {dir : Direction} {c d e : Cursor doc}
  {j k m n : Nat}

/-- Where a movement is not possible, it is not possible however often it is tried. -/
theorem repeated_of_none (h : f c = none) (n : Nat) : repeated f n c = (0, c) := by
  cases n with
  | zero => rfl
  | succ n => rw [repeated, h]

/-- A movement repeated up to a number of times, and then again up to a number of times, is the
    movement repeated up to their sum. -/
theorem repeated_add (h : repeated f m c = (j, d)) (h' : repeated f n d = (k, e)) :
    repeated f (m + n) c = (j + k, e) := by
  induction m generalizing c j with
  | zero =>
    cases h
    rw [Nat.zero_add, Nat.zero_add, h']
  | succ m ih =>
    rw [Nat.succ_add]
    unfold repeated at h ⊢
    cases hc : f c with
    | none =>
      -- The first repetition has stopped at `c`, so the second one stops there at once.
      rw [hc] at h
      cases h
      rw [repeated_of_none hc] at h'
      cases h'
      rfl
    | some b =>
      rw [hc] at h
      cases h
      simp only [ih (c := b) rfl, Nat.succ_add]

/-- A move answers what was achieved of it, and ends where the repetition of the step does. -/
theorem yields_go_of_repeated (h : repeated (step? dir) n c = (k, d)) :
    (Action.go dir n : Action κ doc (Option Move)).Yields c (dir.achieved k) d := by
  cases k with
  | zero =>
    have hstay := (times?_of_repeated h).2
    cases hstay
    refine Action.yields_go_none.mpr ⟨?_, rfl⟩
    rw [go, h]
  | succ k =>
    refine Action.yields_go_some.mpr ?_
    rw [go, h]

/-- How far some steps lead, and which way. -/
theorem leads_of_times? (h : times? (step? dir) k c = some d) : dir.Leads k c.pos d.pos := by
  -- The rank is what is left of the text on the side where the direction leads.
  have hrank := (Advance.steps doc dir).rank_times? h
  have hc := c.pos_le
  have hd := d.pos_le
  cases dir with
  | forward | inward =>
    have hright : doc.length - d.pos + k ≤ doc.length - c.pos := hrank
    show c.pos + k ≤ d.pos
    omega
  | backward | outward => exact hrank

/-- Without a step the cursor stays, and with one it does not. -/
theorem eq_zero_iff_of_times? (h : times? (step? dir) k c = some d) : k = 0 ↔ d = c := by
  constructor
  · rintro rfl
    cases h
    rfl
  · rintro rfl
    have hrank := (Advance.steps doc dir).rank_times? h
    omega

/-- A move of some steps and then one of some more end where the move of all of them does, and
    achieve the same together. Of a move, no more steps are achieved than it has; there are none
    exactly if the cursor has not moved; and those that there are lead one way only, to the right
    forward and inward, and to the left backward and outward. -/
theorem go_adds_up (dir : Direction) (c : Cursor doc) (m n : Nat) :
    let move (n : Nat) : Action κ doc (Option Move) := Action.go dir n
    let total (a : Option Move) : Move := a.getD .zero
    ∃ j k d e, (move m).Yields c (dir.achieved j) d ∧ (move n).Yields d (dir.achieved k) e ∧
      (move (m + n)).Yields c (dir.achieved (j + k)) e ∧
      total (dir.achieved (j + k)) = total (dir.achieved j) + total (dir.achieved k) ∧
      j ≤ m ∧ (dir.achieved j = none ↔ d = c) ∧ dir.Leads j c.pos d.pos := by
  intro move total
  obtain ⟨⟨j, d⟩, hfirst⟩ : ∃ r, repeated (step? dir) m c = r := ⟨_, rfl⟩
  obtain ⟨⟨k, e⟩, hsecond⟩ : ∃ r, repeated (step? dir) n d = r := ⟨_, rfl⟩
  obtain ⟨hle, htimes⟩ := times?_of_repeated hfirst
  have hsum : total (dir.achieved (j + k)) = total (dir.achieved j) + total (dir.achieved k) := by
    show (dir.achieved (j + k)).getD .zero = _
    rw [dir.getD_achieved, dir.move_add, ← dir.getD_achieved j, ← dir.getD_achieved k]
  refine ⟨j, k, d, e, yields_go_of_repeated hfirst, yields_go_of_repeated hsecond,
    yields_go_of_repeated (repeated_add hfirst hsecond), hsum, hle, ?_, leads_of_times? htimes⟩
  exact Direction.achieved_eq_none_iff.trans (eq_zero_iff_of_times? htimes)

end Cursor

end SExprNav
