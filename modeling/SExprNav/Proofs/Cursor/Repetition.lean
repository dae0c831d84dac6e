import SExprNav.Proofs.Action.Outcome
import SExprNav.Proofs.Cursor.Tour

/-!
# Several steps

A movement can be made a number of times, all or none (`Cursor.times?`), or up to a number of times
(`Cursor.repeated`, `Cursor.go`). What was achieved of the second is always something achieved in
full. If the movement leads along a row of cursors, it leads to a place in the row.

## Key results

- `Cursor.times?_add`: some applications of a movement and then some more
- `Cursor.times?_of_go`, `Cursor.go_of_times?`: what was achieved of a move, in applications
- `Cursor.times?_undo`: a movement made a number of times is undone as often
- `Cursor.along_map`: a movement that always leads to the first of some places leads along all of them
- `Cursor.Along.go`, `Cursor.Along.yields_go_map`: where several steps lead along a row
-/

namespace SExprNav

/-- The move that some steps in a direction make up. -/
theorem Direction.move_eq (dir : Direction) (n : Nat) : dir.move n =
    match dir with
    | .forward => ⟨n, 0⟩
    | .backward => ⟨-n, 0⟩
    | .inward => ⟨0, n⟩
    | .outward => ⟨0, -n⟩ := by
  cases dir <;> simp [move, unit, Move.scale]

/-- An advance leads along a row, up to where it is not possible any more. -/
theorem Advance.exists_along {doc : Document} (m : Advance doc) (c : Cursor doc) :
    ∃ row, Cursor.Along m.movement (c :: row) none := by
  fun_induction m.farthest c with
  | case1 c h => exact ⟨[], h, trivial⟩
  | case2 c d h ih =>
    obtain ⟨row, hrow⟩ := ih
    exact ⟨d :: row, h, hrow⟩

namespace Cursor

variable {doc : Document} {f g : Cursor doc → Option (Cursor doc)} {c d : Cursor doc}
  {dir : Direction} {k n : Nat}

/-! ## All or none -/

theorem times?_one (c : Cursor doc) : times? f 1 c = f c := by
  unfold times?
  cases f c <;> rfl

theorem times?_add (m n : Nat) (c : Cursor doc) :
    times? f (m + n) c = (times? f m c).bind (times? f n) := by
  induction m generalizing c with
  | zero => rw [Nat.zero_add]; rfl
  | succ m ih =>
    rw [Nat.succ_add, times?, times?]
    cases f c with
    | none => rfl
    | some b => exact ih b

/-- One application and then the others. -/
theorem times?_succ_iff : times? f (n + 1) c = some d ↔ ∃ b, f c = some b ∧ times? f n b = some d := by
  rw [times?]
  cases f c <;> simp

/-- If each application of a movement is undone by one of another movement, several are undone by as
    many. The movement may have to start from certain cursors and then leads to such cursors. -/
theorem times?_undo {P : Cursor doc → Prop}
    (hstep : ∀ {c d}, P c → f c = some d → P d ∧ g d = some c) (hc : P c)
    (h : times? f n c = some d) : times? g n d = some c := by
  induction n generalizing c with
  | zero => cases h; rfl
  | succ n ih =>
    obtain ⟨b, hb, hrest⟩ := times?_succ_iff.mp h
    obtain ⟨hPb, hback⟩ := hstep hc hb
    rw [times?_add, ih hPb hrest, Option.bind_some, times?_one, hback]

/-! ## As many as possible -/

/-- A row of repetitions that stopped is all of its applications in full. -/
theorem times?_of_repeated (h : repeated f n c = (k, d)) : k ≤ n ∧ times? f k c = some d := by
  induction n generalizing c k with
  | zero => cases h; exact ⟨Nat.le_refl 0, rfl⟩
  | succ n ih =>
    unfold repeated at h
    cases hm : f c with
    | none =>
      rw [hm] at h
      cases h
      exact ⟨Nat.zero_le _, rfl⟩
    | some b =>
      rw [hm] at h
      cases h
      have hrest := ih (c := b) rfl
      exact ⟨Nat.succ_le_succ hrest.1, times?_succ_iff.mpr ⟨b, hm, hrest.2⟩⟩

theorem repeated_of_times? (h : times? f n c = some d) : repeated f n c = (n, d) := by
  induction n generalizing c with
  | zero => cases h; rfl
  | succ n ih =>
    obtain ⟨b, hb, hrest⟩ := times?_succ_iff.mp h
    simp only [repeated, hb, ih hrest]

/-- The part of a move that was achieved, as steps that were all possible. -/
theorem times?_of_go {m : Move} (h : c.go dir n = some (m, d)) :
    ∃ k, 0 < k ∧ k ≤ n ∧ m = dir.move k ∧ times? (step? dir) k c = some d := by
  unfold go at h
  split at h
  · exact nomatch h
  · rename_i k c' hr
    cases h
    obtain ⟨hle, htimes⟩ := times?_of_repeated hr
    exact ⟨k + 1, Nat.succ_pos k, hle, rfl, htimes⟩

/-- If all steps of a move are possible, it is achieved in full. -/
theorem go_of_times? (hn : 0 < n) (h : times? (step? dir) n c = some d) :
    c.go dir n = some (dir.move n, d) := by
  obtain ⟨k, rfl⟩ := Nat.exists_eq_succ_of_ne_zero (Nat.ne_of_gt hn)
  unfold go
  rw [repeated_of_times? h]

/-- The part of a move that was achieved can be achieved in full, and leads to the same place. -/
theorem go_achieved {m : Move} (h : c.go dir n = some (m, d)) :
    ∃ k, 0 < k ∧ m = dir.move k ∧ c.go dir k = some (dir.move k, d) := by
  obtain ⟨k, hk, -, hm, htimes⟩ := times?_of_go h
  exact ⟨k, hk, hm, go_of_times? hk htimes⟩

/-! ## Along a row -/

/-- If a movement leads to the first of some places, and there the others are left, then it leads
    along all of them. -/
theorem along_map {α : Type} {place : α → Cursor doc} (row : Cursor doc → List α)
    (hstep : ∀ c, f c = (row c).head?.map place)
    (hrest : ∀ {c a rest}, row c = a :: rest → row (place a) = rest) (c : Cursor doc) :
    Along f (c :: (row c).map place) none := by
  induction hrow : row c generalizing c with
  | nil => simp [Along, hstep, hrow]
  | cons a rest ih =>
    have hhead : f c = some (place a) := by rw [hstep, hrow]; rfl
    exact ⟨hhead, ih (place a) (hrest hrow)⟩

/-- Steps in a direction lead along a row. -/
theorem exists_along_step (dir : Direction) (c : Cursor doc) :
    ∃ row, Along (step? dir) (c :: row) none :=
  (Advance.steps doc dir).exists_along c

namespace Along

variable {row : List (Cursor doc)}

/-- Made a number of times, the movement leads to the cursor with this number, if the row goes as
    far. -/
theorem times?_eq (h : Along f (c :: row) none) (n : Nat) : times? f n c = (c :: row)[n]? := by
  induction n generalizing c row with
  | zero => rfl
  | succ n ih =>
    obtain ⟨hstep, hrest⟩ := h
    rw [times?, hstep]
    cases row with
    | nil => rfl
    | cons b row => exact ih hrest

theorem isSome_times?_iff (h : Along f (c :: row) none) :
    (times? f n c).isSome = true ↔ n ≤ row.length := by
  rw [h.times?_eq, isSome_getElem?, List.length_cons, Nat.lt_succ_iff]

/-- Repeated up to a number of times, the movement goes on as long as the row does. -/
theorem repeated (h : Along f (c :: row) none) (n : Nat) :
    repeated f n c = (min n row.length, (row.take n).getLast?.getD c) := by
  induction n generalizing c row with
  | zero => simp [Cursor.repeated]
  | succ n ih =>
    obtain ⟨hstep, hrest⟩ := h
    rw [Cursor.repeated, hstep]
    cases row with
    | nil => rfl
    | cons b row => simp [ih hrest, List.getLast?_cons]

/-- Up to a number of steps lead to the cursor with that number in the row, or to the last one. -/
theorem go (h : Along (step? dir) (c :: row) none) (n : Nat) :
    c.go dir n =
      if min n row.length = 0 then none
      else row[min n row.length - 1]?.map fun d => (dir.move (min n row.length), d) := by
  unfold Cursor.go
  rw [h.repeated n]
  cases hk : min n row.length with
  | zero => rfl
  | succ k =>
    have hlt : k < row.length := by omega
    have hlast : (row.take n).getLast? = row[k]? := by
      rw [List.getLast?_eq_getElem?, List.length_take, hk, List.getElem?_take_of_lt (by omega)]
      rfl
    rw [hlast, List.getElem?_eq_getElem hlt]
    simp [hlt]

/-- Along some places, a move achieves as many of its steps as there are places, and leads to the one
    with that number. -/
theorem yields_go_map {κ α : Type} {places : List α} {place : α → Cursor doc}
    (h : Along (step? dir) (c :: places.map place) none) (n : Nat) :
    let k := min n places.length
    let move : Action κ doc (Option Move) := Action.go dir n
    if k = 0 then move.Yields c none c
    else ∃ a, places[k - 1]? = some a ∧ move.Yields c (some (dir.move k)) (place a) := by
  intro k move
  have hgo := h.go n
  rw [List.length_map] at hgo
  change c.go dir n = if k = 0 then none else _ at hgo
  by_cases hk : k = 0
  · rw [if_pos hk] at hgo ⊢
    exact Action.yields_go_none.mpr ⟨hgo, rfl⟩
  · have hlt : k - 1 < places.length := by omega
    have ha : places[k - 1]? = some places[k - 1] := List.getElem?_eq_getElem hlt
    rw [if_neg hk, List.getElem?_map, ha] at hgo
    rw [if_neg hk]
    exact ⟨places[k - 1], ha, Action.yields_go_some.mpr hgo⟩

end Along

end Cursor

end SExprNav
