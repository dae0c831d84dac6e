import SExprNav.Proofs.Cursor.Landing

/-!
# Movements that come to an end

A movement that lowers a rank with each step cannot be repeated forever. `Advance` is a movement
together with such a rank. It can be repeated until it is not possible any more, and it can be
repeated until another movement is possible; both are functions of the cursor.

## Key results

- `Advance.forward`, `Advance.inward`, `Advance.outward`, `Advance.steps`: the steps are advances
- `Advance.descent`: so is the step to the last child
- `Advance.farthest_of_none`, `Advance.farthest_of_some`, `Advance.movement_farthest`: a movement
  made as often as possible
- `Advance.seek_of_none`, `Advance.seek_of_some`: a movement made until a goal can be reached
- `Advance.farthest_induction`, `Advance.seek_induction`: what each step keeps holds at the end
- `Advance.Lowest.step`: the movement does not come back
-/

namespace SExprNav

variable {doc : Document} {c d : Cursor doc}

/-- A movement of cursors that lowers a rank. -/
structure Advance (doc : Document) where
  movement : Cursor doc → Option (Cursor doc)
  rank : Cursor doc → Nat
  rank_lt : ∀ {c d : Cursor doc}, movement c = some d → rank d < rank c

namespace Advance

variable {m : Advance doc}

/-- Where the movement leads when it is made as often as possible. -/
def farthest (m : Advance doc) (c : Cursor doc) : Cursor doc :=
  match _h : m.movement c with
  | none => c
  | some d => m.farthest d
termination_by m.rank c
decreasing_by exact m.rank_lt _h

/-- Where the goal leads from the first place where it leads anywhere, of those that the movement
    comes to after `c`. -/
def seek (m : Advance doc) (goal : Cursor doc → Option (Cursor doc)) (c : Cursor doc) :
    Option (Cursor doc) :=
  match _h : m.movement c with
  | none => none
  | some d => (goal d).or (m.seek goal d)
termination_by m.rank c
decreasing_by exact m.rank_lt _h

theorem farthest_of_none (h : m.movement c = none) : m.farthest c = c := by
  rw [farthest]
  split
  · rfl
  · simp_all

theorem farthest_of_some (h : m.movement c = some d) : m.farthest c = m.farthest d := by
  rw [farthest]
  split <;> simp_all

theorem farthest_eq (m : Advance doc) (c : Cursor doc) :
    m.farthest c = ((m.movement c).map m.farthest).getD c := by
  cases h : m.movement c with
  | none => rw [farthest_of_none h]; rfl
  | some d => rw [farthest_of_some h]; rfl

theorem seek_of_none {goal : Cursor doc → Option (Cursor doc)} (h : m.movement c = none) :
    m.seek goal c = none := by
  rw [seek]
  split <;> simp_all

theorem seek_of_some {goal : Cursor doc → Option (Cursor doc)} (h : m.movement c = some d) :
    m.seek goal c = (goal d).or (m.seek goal d) := by
  rw [seek]
  split <;> simp_all

/-- At the farthest place the movement is not possible any more. -/
theorem movement_farthest (m : Advance doc) (c : Cursor doc) : m.movement (m.farthest c) = none := by
  fun_induction m.farthest c with
  | case1 c h => exact h
  | case2 c d h ih => exact ih

/-- What holds at the start and is kept by each step holds at the farthest place. -/
theorem farthest_induction {P : Cursor doc → Prop}
    (hstep : ∀ {c d}, P c → m.movement c = some d → P d) (hc : P c) : P (m.farthest c) := by
  fun_induction m.farthest c with
  | case1 c h => exact hc
  | case2 c d h ih => exact ih (hstep hc h)

/-- What holds at the start and is kept by each step holds where the goal is reached from. -/
theorem seek_induction {goal : Cursor doc → Option (Cursor doc)} {P : Cursor doc → Prop}
    (hstep : ∀ {c d}, P c → m.movement c = some d → P d) (hc : P c)
    (h : m.seek goal c = some d) : ∃ b, P b ∧ goal b = some d := by
  fun_induction m.seek goal c with
  | case1 c hm => exact nomatch h
  | case2 c b hm ih =>
    have hb : P b := hstep hc hm
    cases hgoal : goal b with
    | none =>
      rw [hgoal, Option.none_or] at h
      exact ih hb h
    | some a =>
      rw [hgoal, Option.some_or] at h
      cases h
      exact ⟨b, hb, hgoal⟩

/-- None of the visited cursors ranks lower than `c`. -/
def Lowest (m : Advance doc) (c : Cursor doc) (visited : List (Cursor doc)) : Prop :=
  ∀ v ∈ visited, m.rank c ≤ m.rank v

theorem lowest_singleton (m : Advance doc) (c : Cursor doc) : m.Lowest c [c] :=
  List.forall_mem_singleton.mpr (Nat.le_refl _)

/-- The movement leads to a cursor that was not visited, and ranks lower than all that were. -/
theorem Lowest.step {visited : List (Cursor doc)} (hvisited : m.Lowest c visited)
    (h : m.movement c = some d) : d ∉ visited ∧ m.Lowest d (d :: visited) := by
  have hlt := m.rank_lt h
  constructor
  · intro hd
    have := hvisited d hd
    omega
  · refine List.forall_mem_cons.mpr ⟨Nat.le_refl _, fun v hv => ?_⟩
    have := hvisited v hv
    omega

end Advance

namespace Cursor

/-- A step inward moves to the right. -/
theorem pos_enter?_lt (h : c.enter? = some d) : c.pos < d.pos := by
  rw [enter?_eq] at h
  split at h
  · -- The next opening delimiter of the text starts after the cursor.
    obtain ⟨t, ht, rfl⟩ := Option.map_eq_some_iff.mp h
    have hb := doc.laid_tokens.bounds t (List.mem_of_find?_eq_some ht)
    have hlt := List.find?_some ht
    simp only [Bool.and_eq_true, decide_eq_true_eq] at hlt
    rw [Document.pos_cursorAt]
    omega
  · split at h
    · rename_i hopening
      obtain ⟨s, hs, hd⟩ := Option.bind_eq_some_iff.mp h
      have hmem := List.mem_of_mem_head? hs
      have hlt := lt_start_of_inside hopening s hmem
      have hpos := pos_of_startOf? hmem hd
      omega
    · exact nomatch h

end Cursor

namespace Advance

/-- Steps forward, which move to the right. -/
def forward (doc : Document) : Advance doc where
  movement := Cursor.next?
  rank c := doc.length - c.pos
  rank_lt {c d} h := by
    have hlt := Cursor.pos_next?_lt h
    have hle := d.pos_le
    omega

/-- Steps inward, which move to the right. -/
def inward (doc : Document) : Advance doc where
  movement := Cursor.enter?
  rank c := doc.length - c.pos
  rank_lt {c d} h := by
    have hlt := Cursor.pos_enter?_lt h
    have hle := d.pos_le
    omega

/-- Steps outward, which move to the left. -/
def outward (doc : Document) : Advance doc where
  movement := Cursor.leave?
  rank c := c.pos
  rank_lt h := Cursor.pos_leave?_lt h

/-- Steps in any direction. Steps backward, too, move to the left. -/
def steps (doc : Document) (dir : Direction) : Advance doc where
  movement := Cursor.step? dir
  rank :=
    match dir with
    | .forward => (forward doc).rank
    | .inward => (inward doc).rank
    | .backward | .outward => Cursor.pos
  rank_lt h := by
    cases dir with
    | forward => exact (forward doc).rank_lt h
    | inward => exact (inward doc).rank_lt h
    | outward => exact Cursor.pos_leave?_lt h
    | backward => exact Cursor.pos_previous?_lt h

theorem pos_le_farthest_forward (c : Cursor doc) : c.pos ≤ ((forward doc).farthest c).pos := by
  refine farthest_induction (P := fun d => c.pos ≤ d.pos) ?_ (Nat.le_refl _)
  intro b d hb h
  exact Nat.le_trans hb (Nat.le_of_lt (Cursor.pos_next?_lt h))

theorem pos_le_farthest_inward (c : Cursor doc) : c.pos ≤ ((inward doc).farthest c).pos := by
  refine farthest_induction (P := fun d => c.pos ≤ d.pos) ?_ (Nat.le_refl _)
  intro b d hb h
  exact Nat.le_trans hb (Nat.le_of_lt (Cursor.pos_enter?_lt h))

end Advance

/-- To the last child: a step inward and then forward as often as possible. -/
def Cursor.lastChild? (c : Cursor doc) : Option (Cursor doc) :=
  c.enter?.map (Advance.forward doc).farthest

namespace Advance

/-- Steps to the last child, which move to the right. -/
def descent (doc : Document) : Advance doc where
  movement := Cursor.lastChild?
  rank c := doc.length - c.pos
  rank_lt {c d} h := by
    obtain ⟨b, hb, rfl⟩ := Option.map_eq_some_iff.mp h
    have hlt := Cursor.pos_enter?_lt hb
    have hle := pos_le_farthest_forward b
    have hend := ((forward doc).farthest b).pos_le
    omega

end Advance

/-! ## The steps of the depth-first walks -/

namespace Cursor

/-- Where a step of the walk in preorder leads: to the first child; else to the next sibling; else
    to the next sibling of the closest list around that has one. -/
def preorder? (c : Cursor doc) : Option (Cursor doc) :=
  c.enter?.or (c.next?.or ((Advance.outward doc).seek next? c))

/-- Where a step of the walk in preorder leads that goes backward: to the deepest last descendant of
    the previous sibling; else to the parent. -/
def preorderBackward? (c : Cursor doc) : Option (Cursor doc) :=
  (c.previous?.map (Advance.descent doc).farthest).or c.leave?

/-- Where a step of the walk in postorder leads: to the lowest first descendant of the next sibling;
    else to the parent. -/
def postorder? (c : Cursor doc) : Option (Cursor doc) :=
  (c.next?.map (Advance.inward doc).farthest).or c.leave?

/-- Where a step of the walk in postorder leads that goes backward: to the last child; else to the
    previous sibling; else to that of the closest list around that has one. -/
def postorderBackward? (c : Cursor doc) : Option (Cursor doc) :=
  c.lastChild?.or (c.previous?.or ((Advance.outward doc).seek previous? c))

end Cursor

end SExprNav
