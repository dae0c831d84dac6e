import SExprNav.Proofs.Cursor.Displacement
import SExprNav.Proofs.Traversal.Movement
import SExprNav.Proofs.Traversal.Orbit

/-!
# Counted steps

There are two ways to take several steps in a direction: a move counts them itself and stops where no
step is possible, and a circuit repeats a step and fails where there are too few, or has no number and
repeats it until it fails. All of them lead along the same row of cursors, so that they agree on where
some number of steps leads.

## Key results

- `Traversal.yields_repeated_step`: repetitions of a step, in steps of the cursor
- `Traversal.move_along`, `Traversal.circuit_along`, `Traversal.farthest_along`: moves and circuits
  along a row
- `Traversal.counted_steps_agree`: moves and circuits of steps agree
-/

namespace SExprNav

variable {κ : Type} {doc : Document}

/-- Some steps in a direction make up a move. -/
theorem Move.sum_replicate_unit (dir : Direction) (n : Nat) :
    Move.sum (List.replicate n dir.unit) = dir.move n := by
  induction n with
  | zero => exact dir.move_zero.symm
  | succ n ih => rw [List.replicate_succ, sum_cons, ih, dir.move_succ]

namespace Traversal

open Cursor (Along step? times?)
open Standard (farthest)

section Steps

variable {meaning : κ → Action κ doc Bool} {dir : Direction} {c d : Cursor doc} {ms : List Move}
  {n : Nat}

/-- There are no conditions in a circuit of steps. -/
theorem answers_circuit_step (dir : Direction) (times : Option Nat) :
    (circuit (step dir) times).Answers meaning := by
  intro k hk
  simp [conditions, step] at hk

/-- A step can be repeated as often as the cursor can make it. -/
theorem yields_repeated_step : (Executed.repeated n ((step dir).execute meaning)).Yields c (some ms) d ↔
    times? (step? dir) n c = some d ∧ ms = List.replicate n dir.unit := by
  induction n generalizing c ms with
  | zero =>
    rw [Executed.repeated, Action.yields_pure, times?]
    simp [and_comm, eq_comm]
  | succ n ih =>
    rw [Executed.repeated, Action.yields_andThen_some, Cursor.times?_succ_iff]
    simp only [yields_step_some, ih]
    constructor
    · rintro ⟨_, b, _, ⟨hb, rfl⟩, ⟨hrest, rfl⟩, rfl⟩
      exact ⟨⟨b, hb, hrest⟩, rfl⟩
    · rintro ⟨⟨b, hb, hrest⟩, rfl⟩
      exact ⟨_, b, _, ⟨hb, rfl⟩, ⟨hrest, rfl⟩, rfl⟩

end Steps

section Along

variable (meaning : κ → Action κ doc Bool) {dir : Direction} {c : Cursor doc}
  {row : List (Cursor doc)}

/-- A move achieves as many of its steps as there are, and fails if there are none. -/
theorem move_along (h : Along (step? dir) (c :: row) none) (n : Nat) :
    ∃ d, times? (step? dir) (min n row.length) c = some d ∧
      ((move (dir.move n)).execute meaning).Yields c
        (if min n row.length = 0 then none else some [dir.move (min n row.length)]) d := by
  have hgo := h.go n
  rw [h.times?_eq]
  cases hk : min n row.length with
  | zero =>
    rw [hk, if_pos rfl] at hgo
    exact ⟨c, rfl, yields_move_none.mpr ⟨hgo, rfl⟩⟩
  | succ k =>
    have hlt : k < row.length := by omega
    rw [hk, if_neg (Nat.succ_ne_zero k), Nat.add_sub_cancel, List.getElem?_eq_getElem hlt] at hgo
    exact ⟨row[k], by simp [hlt], yields_move_some.mpr ⟨_, hgo, rfl⟩⟩

/-- A circuit repeats a step if there are as many steps, and fails otherwise. -/
theorem circuit_along (h : Along (step? dir) (c :: row) none) (n : Nat) :
    let repetition := (circuit (step dir) (some n)).execute meaning
    if n ≤ row.length then
      ∃ d, times? (step? dir) n c = some d ∧
        repetition.Yields c (some (List.replicate n dir.unit)) d
    else repetition.Yields c none c := by
  intro repetition
  have hyields : ∀ {ms d}, repetition.Yields c (some ms) d ↔
      times? (step? dir) n c = some d ∧ ms = List.replicate n dir.unit :=
    yields_execute_some.trans yields_repeated_step
  split
  · rename_i hle
    obtain ⟨d, hd⟩ := Option.isSome_iff_exists.mp (h.isSome_times?_iff.mpr hle)
    exact ⟨d, hd, hyields.mpr ⟨hd, rfl⟩⟩
  · rename_i hlt
    refine yields_none_of_no_success (answers_circuit_step dir _) fun ms d hy => hlt ?_
    rw [← h.isSome_times?_iff, (hyields.mp hy).1]
    rfl

/-- A circuit without a number of times takes all steps that there are. -/
theorem farthest_along (h : Along (step? dir) (c :: row) none) :
    ∃ e, times? (step? dir) row.length c = some e ∧ step? dir e = none ∧
      ((farthest dir).execute meaning).Yields c (some (List.replicate row.length dir.unit)) e := by
  obtain ⟨m, ms, e, -, -, hrepeated, hends⟩ := Action.untilStuck_orbit ((step dir).execute meaning) c
  have hloop : ((farthest dir).execute meaning).Yields c (some ms) e := by
    rcases hends with ⟨_, -, he⟩ | hloop
    · have hfault : ((farthest dir).execute meaning).Faults c _ := faults_execute_iff.mpr he
      exact absurd hfault (not_faults_execute (answers_circuit_step dir none))
    · exact yields_execute_some.mpr hloop
  obtain ⟨hm, rfl⟩ := yields_repeated_step.mp hrepeated
  -- The loop follows the steps as far as they go, so that its rounds are all there are.
  have hfollows := follows_circuit (m := Advance.steps doc dir) (follows_step meaning dir)
  have he : (Advance.steps doc dir).farthest c = e :=
    Option.some.inj (hfollows.eq_some_of_yields hloop)
  have hstuck : step? dir e = none := he ▸ (Advance.steps doc dir).movement_farthest c
  have hle : m ≤ row.length := h.isSome_times?_iff.mp (by rw [hm]; rfl)
  have hge : ¬ m + 1 ≤ row.length := by
    rw [← h.isSome_times?_iff, Cursor.times?_add, hm, Option.bind_some, Cursor.times?_one, hstuck]
    simp
  obtain rfl : m = row.length := by omega
  exact ⟨e, hm, hstuck, hloop⟩

/-- Where no step is possible, a circuit without a number of times does nothing. -/
theorem farthest_of_stuck (h : step? dir c = none) :
    ((farthest dir).execute meaning).Yields c (some []) c := by
  have hrow : Along (step? dir) [c] none := ⟨h, trivial⟩
  obtain ⟨e, he, -, hloop⟩ := farthest_along meaning hrow
  cases he
  exact hloop

/-- Executed again, a circuit without a number of times does nothing. -/
theorem farthest_twice (dir : Direction) (c : Cursor doc) :
    ∃ ms e, ((farthest dir).execute meaning).Yields c (some ms) e ∧
      ((farthest dir).execute meaning).Yields e (some []) e := by
  obtain ⟨row, hrow⟩ := c.exists_along_step dir
  obtain ⟨e, -, hstuck, hloop⟩ := farthest_along meaning hrow
  exact ⟨_, e, hloop, farthest_of_stuck meaning hstuck⟩

end Along

/-- Of a move, as many steps are achieved as there are steps, and a circuit of steps with the same
    number succeeds if there are that many, and leads to the same place. A circuit of steps without
    a number takes all steps that there are: it leads to where all moves lead that are long enough,
    and there it does nothing when it is executed again. -/
theorem counted_steps_agree (meaning : κ → Action κ doc Bool) (c : Cursor doc) :
    (∀ dir : Direction,
      let moves n := (move (dir.move n)).execute meaning
      let repeats n := (circuit (step dir) (some n)).execute meaning
      let loop := (circuit (step dir) none).execute meaning
      ∃ (s : Nat) (e : Cursor doc),
        (∀ k, (times? (step? dir) k c).isSome = true ↔ k ≤ s) ∧ times? (step? dir) s c = some e ∧
        (∀ n, ∃ d, times? (step? dir) (min n s) c = some d ∧
          (moves n).Yields c (if min n s = 0 then none else some [dir.move (min n s)]) d) ∧
        (∀ n, if n ≤ s then
            ∃ ms, (repeats n).Yields c (some ms) (moves n c).cursor ∧
              Executed.displacement (some ms) = some (dir.move n)
          else (repeats n).Yields c none c) ∧
        (∃ ms, loop.Yields c (some ms) e ∧ Executed.displacement (some ms) = some (dir.move s)) ∧
        (∀ n, max s 1 ≤ n → (moves n c).cursor = e) ∧ loop.Yields e (some []) e) ∧
    ∀ standard ∈ [Standard.first, .last, .lowest, .highest],
      let goto := standard.traversal.execute meaning
      ∃ ms e, goto.Yields c (some ms) e ∧ goto.Yields e (some []) e := by
  have hsum : ∀ (dir : Direction) (n : Nat),
      Executed.displacement (some (List.replicate n dir.unit)) = some (dir.move n) :=
    fun dir n => congrArg some (Move.sum_replicate_unit dir n)
  constructor
  · intro dir moves repeats loop
    obtain ⟨row, hrow⟩ := c.exists_along_step dir
    obtain ⟨e, he, hstuck, hloop⟩ := farthest_along meaning hrow
    have hmove := move_along meaning hrow
    -- Where a move ends is told by how many of its steps are possible.
    have hcursor : ∀ n d, times? (step? dir) (min n row.length) c = some d →
        (moves n c).cursor = d := by
      intro n d hd
      obtain ⟨d', hd', hyields⟩ := hmove n
      rw [hyields.2, Option.some.inj (hd'.symm.trans hd)]
    refine ⟨row.length, e, fun k => hrow.isSome_times?_iff, he, hmove, fun n => ?_,
      ⟨_, hloop, hsum dir _⟩, fun n hn => hcursor n e ?_, farthest_of_stuck meaning hstuck⟩
    · have hcircuit := circuit_along meaning hrow n
      by_cases hle : n ≤ row.length
      · rw [if_pos hle] at hcircuit ⊢
        obtain ⟨d, hd, hyields⟩ := hcircuit
        rw [hcursor n d (by rwa [Nat.min_eq_left hle])]
        exact ⟨_, hyields, hsum dir n⟩
      · rw [if_neg hle] at hcircuit ⊢
        exact hcircuit
    · rwa [Nat.min_eq_right (by omega)]
  · simp only [List.forall_mem_cons]
    exact ⟨farthest_twice meaning .backward c, farthest_twice meaning .forward c,
      farthest_twice meaning .inward c, farthest_twice meaning .outward c, List.forall_mem_nil _⟩

end Traversal

end SExprNav
