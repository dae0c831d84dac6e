import SExprNav.Proofs.Bare.Machine
import SExprNav.Proofs.Cursor.Landing

/-!
# Bare positions stay in the text

Started at a cursor, the programs for bare positions do what the cursor does: they answer the same
question, or make the same movement. So none of them gets out of the text, and none ends in a fault.
It all rests on where tokens and expressions lie, and on that a position that is in the text can be
put back.

## Key results

- `Answers`, `Moves`: a program answers a question about cursors, or makes a movement of cursors
- `excursion_apply`: an excursion can always be undone
- `moves_one`: the steps
- `answers_atBoundary`: the boundaries, their climbing loops included
- `steps_apply`: rows of steps
-/

namespace SExprNav

variable {limit : Option Nat} {doc : Document} {α β σ : Type}

namespace Cursor

/-- Flowing leads to the right. -/
theorem pos_flow?_lt {c d : Cursor doc} (h : c.flow? = some d) : c.pos < d.pos := by
  obtain ⟨t, ht, rfl⟩ := Option.map_eq_some_iff.mp h
  have hb := doc.laid_tokens.bounds t (List.mem_of_find?_eq_some ht)
  have hlt : c.pos < t.start := by
    have hfound := List.find?_some ht
    simp only [Bool.and_eq_true, decide_eq_true_eq] at hfound
    exact hfound.2
  rw [Document.pos_cursorAt, Nat.min_eq_left (by omega)]
  exact hlt

/-- Skipping two expressions is tried first, where the cursor is on one. -/
theorem pastNext?_eq (c : Cursor doc) : c.pastNext? =
    ((if c.onExpression then c.skipForward 2 else none) <|> c.skipForward 1) := by
  unfold pastNext?
  cases c.onExpression <;> rfl

/-- Without a step the cursor stays. -/
theorem repeated_of_zero {m : Cursor doc → Option (Cursor doc)} {n : Nat} {c d : Cursor doc}
    (h : repeated m n c = (0, d)) : d = c := by
  cases n with
  | zero => exact (congrArg Prod.snd h).symm
  | succ n =>
    unfold repeated at h
    cases hc : m c with
    | none =>
      rw [hc] at h
      exact (congrArg Prod.snd h).symm
    | some c' =>
      rw [hc] at h
      exact absurd (congrArg Prod.fst h) (Nat.succ_ne_zero _)

end Cursor

namespace Bare

/-! ## Programs at a position -/

section Apply

variable {x : Bare limit doc α} {f : α → Bare limit doc β} {p q : Nat} {a : α} {e : Fault}

/-- An answer alone leaves the position as it is. -/
theorem pure_apply (a : α) (p : Nat) : (pure a : Bare limit doc α) p = Part.some (.ok a, p) := rfl

/-- The position is answered and stays. -/
theorem position_apply (p : Nat) : (position : Bare limit doc Nat) p = Part.some (.ok p, p) := rfl

/-- After an answer, what follows starts where the answer was given. -/
theorem bind_of_ok (h : x p = Part.some (.ok a, q)) : (x >>= f) p = f a q := by
  show Bare.bind x f p = _
  rw [Bare.bind, h, Part.bind_some]

/-- After a fault, nothing follows. -/
theorem bind_of_error (h : x p = Part.some (.error e, q)) :
    (x >>= f) p = Part.some (.error e, q) := by
  show Bare.bind x f p = _
  rw [Bare.bind, h, Part.bind_some]

/-- A caught program answers with what came of it. -/
theorem caught_apply {r : Except Fault α} (h : x p = Part.some (r, q)) :
    x.caught p = Part.some (.ok r, q) := by
  rw [caught, h, Part.map_some]

/-- A result that is given comes of the program at once. -/
theorem ofExcept_apply (r : Except Fault α) (p : Nat) :
    (ofExcept r : Bare limit doc α) p = Part.some (r, p) := by
  cases r <;> rfl

/-- The position of a cursor can be put back. -/
theorem put_pos (c : Cursor doc) (p : Nat) :
    (put c.pos : Bare limit doc Unit) p = Part.some (.ok (), c.pos) := by
  have h : (0 : Int) ≤ c.pos ∧ (c.pos : Int) ≤ doc.length :=
    ⟨Int.natCast_nonneg _, Int.ofNat_le.mpr c.pos_le⟩
  rw [put, if_pos h, Int.toNat_natCast]

/-- An excursion from a cursor ends there, wherever it led. -/
theorem excursion_apply {c : Cursor doc} {r : Except Fault α} (h : x c.pos = Part.some (r, q)) :
    excursion x c.pos = Part.some (r, c.pos) := by
  rw [excursion, bind_of_ok (position_apply _), bind_of_ok (caught_apply h),
    bind_of_ok (put_pos c q), ofExcept_apply]

end Apply

section Loop

variable {round : σ → Bare limit doc (β ⊕ σ)} {s s' : σ} {p q : Nat}

/-- A loop whose first round is done ends with its result. -/
theorem loop_of_done {b : β} (h : round s p = Part.some (.ok (.inl b), q)) :
    loop round s p = Part.some (.ok b, q) := by
  apply Loop.run_of_done
  dsimp only
  rw [h, Part.map_some]

/-- A loop whose first round faults ends in the fault. -/
theorem loop_of_error {e : Fault} (h : round s p = Part.some (.error e, q)) :
    loop round s p = Part.some (.error e, q) := by
  apply Loop.run_of_done
  dsimp only
  rw [h, Part.map_some]

/-- A loop whose first round goes on is the loop from there. -/
theorem loop_of_again (h : round s p = Part.some (.ok (.inr s'), q)) :
    loop round s p = loop round s' q := by
  apply Loop.run_of_again
  dsimp only
  rw [h, Part.map_some]

end Loop

/-! ## Questions and movements of cursors -/

/-- Started at a cursor, the program answers the question and stays there. -/
def Answers (x : Bare limit doc α) (question : Cursor doc → α) : Prop :=
  ∀ c : Cursor doc, x c.pos = Part.some (.ok (question c), c.pos)

/-- Started at a cursor, the program makes the movement, if it is possible, and answers whether it
    is. -/
def Moves (x : Bare limit doc Bool) (movement : Cursor doc → Option (Cursor doc)) : Prop :=
  ∀ c : Cursor doc, x c.pos = Part.some (.ok (movement c).isSome, ((movement c).getD c).pos)

section Moves

variable {x : Bare limit doc Bool} {m : Cursor doc → Option (Cursor doc)} {c d : Cursor doc}

/-- Where the movement is not possible, the program answers so and stays. -/
theorem Moves.of_none (hx : Moves x m) (h : m c = none) :
    x c.pos = Part.some (.ok false, c.pos) := by
  rw [hx c, h]
  rfl

/-- Where the movement is possible, the program makes it. -/
theorem Moves.of_some (hx : Moves x m) (h : m c = some d) :
    x c.pos = Part.some (.ok true, d.pos) := by
  rw [hx c, h]
  rfl

/-- A movement without a check makes a movement of cursors if that leads to the same positions. -/
theorem moves_jump {f : Nat → Option Nat} (h : ∀ c : Cursor doc, f c.pos = (m c).map Cursor.pos) :
    Moves (jump f : Bare limit doc Bool) m := by
  intro c
  unfold jump
  rw [h c]
  cases m c <;> rfl

/-- A movement that leads elsewhere is not stuck when it is possible. -/
theorem Moves.ifStuck (hx : Moves x m) (hne : ∀ c d, m c = some d → d.pos ≠ c.pos) :
    Moves (ifStuck (pure false) x) m := by
  intro c
  unfold Bare.ifStuck
  rw [bind_of_ok (position_apply _)]
  cases h : m c with
  | none =>
    rw [bind_of_ok (hx.of_none h), bind_of_ok (position_apply _), if_pos rfl]
    rfl
  | some d =>
    rw [bind_of_ok (hx.of_some h), bind_of_ok (position_apply _), if_neg (hne c d h)]
    rfl

/-- Whether a movement is not possible can be answered by an excursion. -/
theorem Moves.excursion_not (hx : Moves x m) :
    Answers (excursion do return !(← x)) fun c => (m c).isNone := by
  intro c
  have h : (do return !(← x) : Bare limit doc Bool) c.pos =
      Part.some (.ok (m c).isNone, ((m c).getD c).pos) := by
    rw [bind_of_ok (hx c), Option.not_isSome]
    rfl
  exact excursion_apply h

end Moves

/-! ## What stands at the cursor -/

/-- The position is that of the cursor. -/
theorem answers_position : Answers (position : Bare limit doc Nat) Cursor.pos := fun _ => rfl

/-- Whether a token starts at the position is asked of the same tokens. -/
theorem answers_onToken (kind : Token.Kind) :
    Answers (onToken kind : Bare limit doc Bool) (Cursor.onToken kind) := fun _ => rfl

/-- Whether an expression starts at the position is asked of the same tokens. -/
theorem answers_onExpression : Answers (onExpression : Bare limit doc Bool) Cursor.onExpression :=
  fun _ => rfl

/-- The character before a cursor is there to look at. -/
theorem answers_atLineStart : Answers (atLineStart : Bare limit doc Bool) Cursor.atLineStart := by
  rintro ⟨p, hp⟩
  rw [atLineStart, bind_of_ok (position_apply p)]
  cases p with
  | zero => rfl
  | succ p =>
    have hlt : p < doc.text.length := hp
    simp only [Cursor.atLineStart, List.getElem?_eq_getElem hlt]
    rfl

/-! ## Movements -/

/-- Expressions end in the text. -/
theorem ahead?_pos (c : Cursor doc) : ahead? doc c.pos = c.ahead?.map Cursor.pos := by
  have hlevel : (doc.forest.level c.pos).spans = c.level := rfl
  unfold ahead? Cursor.ahead?
  rw [hlevel]
  cases h : c.level.find? fun s => decide (c.pos < s.stop) with
  | none => rfl
  | some s =>
    have hle : s.stop ≤ doc.length := c.row.stop_le s (List.mem_of_find?_eq_some h)
    cases hclosed : s.closed <;> simp [hclosed, Nat.min_eq_left hle]

/-- Expressions start in the text. -/
theorem behind?_pos (c : Cursor doc) : behind? doc c.pos = c.back?.map Cursor.pos := by
  have hlevel : (doc.forest.level c.pos).spans = c.level := rfl
  unfold behind? Cursor.back?
  rw [hlevel]
  cases h : c.level.reverse.find? fun s => decide (s.start < c.pos) with
  | none => rfl
  | some s =>
    have hlt : s.start < c.pos := by simpa using List.find?_some h
    have hle : s.start ≤ doc.length := Nat.le_of_lt (Nat.lt_of_lt_of_le hlt c.pos_le)
    simp [Nat.min_eq_left hle]

/-- Movements that agree do so when they are repeated. -/
theorem times?_pos {f : Nat → Option Nat} {m : Cursor doc → Option (Cursor doc)}
    (h : ∀ c : Cursor doc, f c.pos = (m c).map Cursor.pos) (n : Nat) (c : Cursor doc) :
    times? f n c.pos = (Cursor.times? m n c).map Cursor.pos := by
  induction n generalizing c with
  | zero => rfl
  | succ n ih =>
    rw [times?, Cursor.times?, h c]
    cases m c with
    | none => rfl
    | some d => exact ih d

/-- Skipping forward makes the movement of the cursor; a negative number of times is none. -/
theorem moves_skipForward (n : Int) :
    Moves (skipForward n : Bare limit doc Bool) (Cursor.skipForward n.toNat) :=
  moves_jump (times?_pos ahead?_pos n.toNat)

/-- Skipping backward makes the movement of the cursor; a negative number of times is none. -/
theorem moves_skipBackward (n : Int) :
    Moves (skipBackward n : Bare limit doc Bool) (Cursor.skipBackward n.toNat) :=
  moves_jump (times?_pos behind?_pos n.toNat)

/-- The lists around a cursor open in the text. -/
theorem moves_ascend : Moves (ascend : Bare limit doc Bool) Cursor.ascend? := by
  refine moves_jump fun c => ?_
  unfold Cursor.ascend?
  cases h : doc.forest.innermost? c.pos with
  | none => rfl
  | some e =>
    have hlt := Forest.opening_lt_of_innermost? h
    have hle : e.1.opening ≤ doc.length := Nat.le_of_lt (Nat.lt_of_lt_of_le hlt c.pos_le)
    simp [Nat.min_eq_left hle]

/-- Tokens start in the text. -/
theorem moves_flow : Moves (flow : Bare limit doc Bool) Cursor.flow? := by
  refine moves_jump fun c => ?_
  unfold Cursor.flow?
  cases h : doc.tokens.find? fun t => decide (t.kind = .opener) && decide (c.pos < t.start) with
  | none => rfl
  | some t =>
    have hb := doc.laid_tokens.bounds t (List.mem_of_find?_eq_some h)
    have hle : t.start ≤ doc.length := by omega
    simp [Nat.min_eq_left hle]

/-! ## Steps -/

/-- Comment lines are found in the same way. -/
theorem answers_onCommentLine : Answers (onCommentLine : Bare limit doc Bool) Cursor.onCommentLine := by
  intro c
  rw [onCommentLine, bind_of_ok (answers_atLineStart c)]
  unfold Cursor.onCommentLine
  cases c.atLineStart with
  | false => rfl
  | true => exact answers_onToken .comment c

/-- The position after an opening delimiter is in the text. -/
theorem putNext_apply {c : Cursor doc} (h : c.onOpening = true) :
    (putNext : Bare limit doc Unit) c.pos = Part.some (.ok (), (doc.cursorAt (c.pos + 1)).pos) := by
  rw [putNext, bind_of_ok (position_apply _)]
  have hput := @put_pos limit doc (doc.cursorAt (c.pos + 1)) c.pos
  rwa [Cursor.pos_inside h] at hput ⊢

/-- Empty lists are found in the same way, with the cursor put back. -/
theorem answers_onEmptyList : Answers (onEmptyList : Bare limit doc Bool) Cursor.onEmptyList := by
  intro c
  rw [onEmptyList, bind_of_ok (answers_onToken .opener c)]
  unfold Cursor.onEmptyList Cursor.onOpening
  cases h : c.onToken .opener with
  | false => rfl
  | true =>
    apply excursion_apply
    rw [bind_of_ok (putNext_apply h), bind_of_ok (moves_skipForward 1 _), Option.not_isSome,
      pure_apply]
    rfl

/-- Going back over an expression, if there is one, ends where the cursor does. -/
theorem backUp_apply (c : Cursor doc) :
    (backUp : Bare limit doc Unit) c.pos = Part.some (.ok (), c.backUp.pos) := by
  rw [backUp, bind_of_ok (moves_skipBackward 1 c), pure_apply]
  rfl

/-- Going over two expressions starts at one. -/
theorem moves_overTwo :
    Moves (overTwo : Bare limit doc Bool) fun c => if c.onExpression then c.skipForward 2 else none := by
  intro c
  rw [overTwo, bind_of_ok (answers_onExpression c)]
  dsimp only
  cases c.onExpression with
  | false => rfl
  | true => exact moves_skipForward 2 c

/-- Going over the next expression and back ends where the cursor does. -/
theorem overAndBack_apply (c : Cursor doc) : (overAndBack : Bare limit doc Unit) c.pos =
    Part.some (.ok (), ((c.pastNext?.map Cursor.backUp).getD c).pos) := by
  rw [overAndBack, Cursor.pastNext?_eq]
  cases htwo : if c.onExpression then c.skipForward 2 else none with
  | some d =>
    rw [bind_of_ok (moves_overTwo.of_some htwo)]
    exact backUp_apply d
  | none =>
    rw [bind_of_ok (moves_overTwo.of_none htwo)]
    show (skipForward 1 >>= fun b => if b then backUp else pure ()) c.pos = _
    cases hone : c.skipForward 1 with
    | none =>
      rw [bind_of_ok ((moves_skipForward 1).of_none hone)]
      rfl
    | some d =>
      rw [bind_of_ok ((moves_skipForward 1).of_some hone)]
      exact backUp_apply d

/-- Without progress, the step puts the cursor back to where it was. -/
theorem moves_forwardOne : Moves (forwardOne : Bare limit doc Bool) Cursor.next? := by
  intro c
  rw [forwardOne, bind_of_ok (position_apply _), bind_of_ok (overAndBack_apply c),
    bind_of_ok (position_apply _)]
  unfold Cursor.next?
  have hstay : ∀ p, (put c.pos >>= fun _ => pure false : Bare limit doc Bool) p =
      Part.some (.ok false, c.pos) := fun p => by rw [bind_of_ok (put_pos c p), pure_apply]
  cases c.pastNext?.map Cursor.backUp with
  | none =>
    rw [Option.getD_none, if_pos (Nat.le_refl _)]
    exact hstay _
  | some d =>
    by_cases hlt : c.pos < d.pos
    · simp [Option.filter, hlt, Nat.not_le.mpr hlt, pure_apply]
    · rw [Option.getD_some, if_pos (Nat.not_lt.mp hlt), hstay]
      simp [Option.filter, hlt]

/-- A step backward makes the movement of the cursor. -/
theorem moves_backwardOne : Moves (backwardOne : Bare limit doc Bool) Cursor.previous? :=
  (moves_skipBackward 1).ifStuck fun _ _ h => Nat.ne_of_lt (Cursor.pos_previous?_lt h)

/-- A step outward makes the movement of the cursor. -/
theorem moves_exitOne : Moves (exitOne : Bare limit doc Bool) Cursor.leave? :=
  moves_ascend.ifStuck fun _ _ h => Nat.ne_of_lt (Cursor.pos_leave?_lt h)

/-- Going to the start of the first expression ends where the cursor does. -/
theorem toExpression_apply (c : Cursor doc) : (toExpression : Bare limit doc Unit) c.pos =
    Part.some (.ok (),
      (if c.onExpression then c else ((c.skipForward 1).getD c).backUp).pos) := by
  rw [toExpression, bind_of_ok (answers_onExpression c)]
  cases c.onExpression with
  | true => rfl
  | false =>
    show (skipForward 1 >>= fun _ => backUp) c.pos = _
    rw [bind_of_ok (moves_skipForward 1 c)]
    exact backUp_apply _

/-- On a comment at the start of a line, the step is a movement of its own. -/
theorem moves_enterOne : Moves (enterOne : Bare limit doc Bool) Cursor.enter? := by
  intro c
  rw [enterOne, bind_of_ok (answers_onCommentLine c)]
  unfold Cursor.enter?
  cases c.onCommentLine with
  | true =>
    have hne : ∀ c d : Cursor doc, c.flow? = some d → d.pos ≠ c.pos :=
      fun c d h => Nat.ne_of_gt (Cursor.pos_flow?_lt h)
    exact moves_flow.ifStuck hne c
  | false =>
    rw [if_neg Bool.false_ne_true, if_neg Bool.false_ne_true,
      bind_of_ok (answers_onToken .opener c)]
    unfold Cursor.onOpening
    cases hopen : c.onToken .opener with
    | false => rfl
    | true =>
      show (onEmptyList >>= _) c.pos = _
      rw [bind_of_ok (answers_onEmptyList c)]
      cases c.onEmptyList with
      | true => rfl
      | false =>
        show (putNext >>= fun _ => toExpression >>= fun _ => pure true) c.pos = _
        rw [bind_of_ok (putNext_apply hopen), bind_of_ok (toExpression_apply _), pure_apply]
        rfl

/-- A step in any direction makes the movement of the cursor. -/
theorem moves_one (d : Direction) : Moves (one d : Bare limit doc Bool) (Cursor.step? d) := by
  cases d with
  | forward => exact moves_forwardOne
  | backward => exact moves_backwardOne
  | inward => exact moves_enterOne
  | outward => exact moves_exitOne

/-- A row of steps counts those that are possible and ends behind them. -/
theorem steps_apply {x : Bare limit doc Bool} {m : Cursor doc → Option (Cursor doc)} (hx : Moves x m)
    (n : Nat) (c : Cursor doc) :
    steps x n c.pos = Part.some (.ok (Cursor.repeated m n c).1, (Cursor.repeated m n c).2.pos) := by
  induction n generalizing c with
  | zero => rfl
  | succ n ih =>
    unfold steps Cursor.repeated
    cases h : m c with
    | none =>
      rw [bind_of_ok (hx.of_none h)]
      rfl
    | some d =>
      rw [bind_of_ok (hx.of_some h)]
      show (steps x n >>= fun rest => pure (rest + 1)) d.pos = _
      rw [bind_of_ok (ih d), pure_apply]

/-! ## Boundaries -/

section Boundaries

variable {x : Bare limit doc Bool} {m : Cursor doc → Option (Cursor doc)}

/-- A round of climbing tries the step from the opening delimiter that it has gone to. -/
theorem climbRound_apply {c d : Cursor doc} {b : Bool} {q : Nat} (hd : c.leave? = some d)
    (hx : x d.pos = Part.some (.ok b, q)) :
    climbRound x () c.pos = Part.some (.ok (if b then .inl false else .inr ()), q) := by
  rw [climbRound, bind_of_ok (moves_exitOne.of_some hd), if_pos rfl, bind_of_ok hx]
  cases b <;> rfl

/-- Climbing ends at the outermost opening delimiter, or at the first from where there is a step. -/
theorem climb_apply (hx : Moves x m) (c : Cursor doc) : ∃ q, loop (climbRound x) () c.pos =
    Part.some (.ok (c.ancestors.all fun d => (m d).isNone), q) := by
  -- The induction is on the way outward, which gets shorter with each round.
  fun_induction Cursor.ancestors c with
  | case1 c h =>
    refine ⟨c.pos, loop_of_done ?_⟩
    rw [climbRound, bind_of_ok (moves_exitOne.of_none h)]
    rfl
  | case2 c d h ih =>
    cases hd : m d with
    | some d' =>
      refine ⟨d'.pos, loop_of_done ?_⟩
      rw [climbRound_apply h (hx.of_some hd), List.all_cons, hd]
      rfl
    | none =>
      obtain ⟨q, hq⟩ := ih
      refine ⟨q, (loop_of_again (climbRound_apply h (hx.of_none hd))).trans ?_⟩
      rw [hq, List.all_cons, hd]
      rfl

/-- Whether a movement is possible nowhere on the way out is asked of the cursor and those around
    it. -/
theorem Moves.stuckOutward (hx : Moves x m) :
    Answers (excursion (stuckOutward x)) fun c => (c :: c.ancestors).all fun d => (m d).isNone := by
  intro c
  show excursion (Bare.stuckOutward x) c.pos =
    Part.some (.ok ((c :: c.ancestors).all fun d => (m d).isNone), c.pos)
  cases h : m c with
  | some d =>
    have hrun : Bare.stuckOutward x c.pos = Part.some (.ok false, d.pos) := by
      rw [Bare.stuckOutward, bind_of_ok (hx.of_some h)]
      rfl
    rw [excursion_apply hrun, List.all_cons, h]
    rfl
  | none =>
    obtain ⟨q, hclimb⟩ := climb_apply hx c
    have hrun : Bare.stuckOutward x c.pos =
        Part.some (.ok (c.ancestors.all fun d => (m d).isNone), q) := by
      rw [Bare.stuckOutward, bind_of_ok (hx.of_none h)]
      exact hclimb
    rw [excursion_apply hrun, List.all_cons, h]
    rfl

/-- None of the boundaries moves the cursor. -/
theorem answers_atBoundary (b : Boundary) : Answers (atBoundary b : Bare limit doc Bool) b.holds := by
  cases b with
  | top => exact moves_exitOne.excursion_not
  | first => exact moves_backwardOne.excursion_not
  | last => exact moves_forwardOne.excursion_not
  | final => exact moves_forwardOne.stuckOutward
  | initial => exact moves_backwardOne.stuckOutward
  | emptyList => exact answers_onEmptyList
  | commentLine => exact answers_onCommentLine

end Boundaries

end Bare

end SExprNav
