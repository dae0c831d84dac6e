import SExprNav.Proofs.Process.Evaluate
import SExprNav.Proofs.Traversal.Combinators
import SExprNav.Proofs.Traversal.Conditions

/-!
# What evaluations are made of

An evaluation that succeeds reports the moves of those of its parts that it kept, one after another,
and what it did not keep it has undone. So a relation between moves, where they start and where they
end, holds of all evaluations of a traversal if it holds of the moves in the traversal and composes:
it holds of two rows of moves one after the other if it holds of both. Whether an evaluation ends does
not matter here, nor what its conditions answer, as long as they leave the cursor where they found it.

## Key results

- `Process.Correct.bind`, `Process.correct_loop`: the rules for partial correctness
- `Process.Ensures.andThen`, `Process.Ensures.untilStuck`, `Process.Ensures.detour`, …: one for each
  way to put processes together
- `Composes.ensures_evaluate`: what composes holds of evaluations if it holds of moves
-/

namespace SExprNav

variable {κ : Type} {doc : Document} {σ : Type}

namespace Process

variable {α β : Type}

/-! ## Partial correctness -/

/-- If the process that starts at `c` answers, whatever its state, then `Q` holds of the answer and of
    where it ends. -/
def Correct (x : Process doc σ α) (c : Cursor doc) (Q : α → Cursor doc → Prop) : Prop :=
  ∀ s a d s', ⟨.ok a, d, s'⟩ ∈ x c s → Q a d

section Rules

variable {c : Cursor doc} {Q : α → Cursor doc → Prop}

/-- The rule for answers. -/
theorem correct_pure {a : α} (h : Q a c) : (pure a : Process doc σ α).Correct c Q := by
  intro s a' d s' hr
  cases Part.mem_some_iff.mp hr
  exact h

/-- The rule for actions. -/
theorem correct_process {x : Action κ doc α} (h : ∀ a d, x.Yields c a d → Q a d) :
    (x.process : Process doc σ α).Correct c Q := by
  intro s a d s' hr
  obtain ⟨hanswer, hcursor, -⟩ := Outcome.mk.inj (Part.mem_some_iff.mp hr)
  exact h a d ⟨hanswer.symm, hcursor.symm⟩

/-- The rule of conjunction. -/
theorem Correct.and {x : Process doc σ α} {R : α → Cursor doc → Prop} (hx : x.Correct c Q)
    (hx' : x.Correct c R) : x.Correct c fun a d => Q a d ∧ R a d :=
  fun _ _ _ _ hr => ⟨hx _ _ _ _ hr, hx' _ _ _ _ hr⟩

/-- The rule for processes in sequence. -/
theorem Correct.bind {x : Process doc σ α} {f : α → Process doc σ β} {R : β → Cursor doc → Prop}
    (hx : x.Correct c Q) (hf : ∀ a d, Q a d → (f a).Correct d R) : (x >>= f).Correct c R := by
  intro s b d s' hr
  obtain ⟨⟨answer, c', s₁⟩, hfirst, hrest⟩ := Part.mem_bind_iff.mp hr
  cases answer with
  | error e => exact nomatch Part.mem_some_iff.mp hrest
  | ok a => exact hf a c' (hx _ _ _ _ hfirst) _ _ _ _ hrest

end Rules

section Loop

variable {round : Process doc σ (Verdict (List Move) β)} {finish : List Move → β → Executed}
  {stuck : Cursor doc → Cursor doc → List Move → Cursor doc × Executed}
  {I : List Move → Cursor doc → Prop} {Q : Executed → Cursor doc → Prop} {c : Cursor doc}

/-- The rule for loops: an invariant of the moves that were made and the cursor. -/
theorem correct_loop (hstart : I [] c)
    (hagain : ∀ ms c', I ms c' → round.Correct c' fun v d => ∀ ns, v = .again ns → I (ms ++ ns) d)
    (hdone : ∀ ms c', I ms c' → round.Correct c' fun v d => ∀ b, v = .done b → Q (finish ms b) d)
    (hstuck : ∀ ms before after, I ms before →
      Q (stuck before after ms).2 (stuck before after ms).1) :
    Correct (fun c s => (loop round finish stuck c s).map (·.2)) c Q := by
  intro s a d s' hr
  obtain ⟨⟨n, r⟩, hloop, rfl⟩ := (Part.mem_map_iff _).mp hr
  -- The result of the loop is that of its last round, from what the rounds before it have kept.
  have hresult := Loop.run_invariant (I := fun l : Going doc σ => I l.moves l.cursor)
    (Q := fun r => ∀ a, r.2.answer = .ok a → Q a r.2.cursor) (fun l hl r hr => ?_) hloop hstart
  · exact hresult a rfl
  · obtain ⟨⟨answer, d, s⟩, hround, rfl⟩ := (Part.mem_map_iff _).mp hr
    rcases answer with e | (ns | b)
    · rintro a ⟨⟩
    · dsimp only
      split
      · rintro a ⟨⟩
        exact hstuck _ _ _ hl
      · exact hagain _ _ hl _ _ _ _ hround ns rfl
    · rintro a ⟨⟩
      exact hdone _ _ hl _ _ _ _ hround b rfl

end Loop

/-! ## Relations -/

/-- The relation holds of the moves of each success of the process, of where it started and of where
    it ended. -/
def Ensures (x : Process doc σ Executed) (R : List Move → Cursor doc → Cursor doc → Prop) : Prop :=
  ∀ c, x.Correct c fun r d => ∀ ms, r = some ms → R ms c d

/-- The process leaves the cursor where it found it when it fails. -/
def Restores (x : Process doc σ Executed) : Prop :=
  ∀ c, x.Correct c fun r d => r = none → d = c

/-- An attempt that fails has put the cursor back. -/
theorem restores_attempt (x : Process doc σ Executed) : x.attempt.Restores := by
  intro c s r d s' hr
  obtain ⟨⟨answer, c', s₁⟩, -, hattempt⟩ := (Part.mem_map_iff _).mp hr
  rcases answer with e | (_ | ms)
  · exact nomatch hattempt
  · cases hattempt
    exact fun _ => rfl
  · cases hattempt
    exact nofun

end Process

/-- The relation between moves, where they start and where they end holds of no moves, and of two
    rows of moves one after the other if it holds of both. -/
structure Composes (R : List Move → Cursor doc → Cursor doc → Prop) : Prop where
  nil : ∀ c, R [] c c
  append : ∀ {ms ns c c' d}, R ms c c' → R ns c' d → R (ms ++ ns) c d

/-- The relation holds of the steps that the move stands for, however many of them are possible. -/
def Move.Ensures (m : Move) (R : List Move → Cursor doc → Cursor doc → Prop) : Prop :=
  ∀ p ∈ m.heading, ∀ c achieved d, c.go p.1 p.2 = some (achieved, d) → R [achieved] c d

namespace Process.Ensures

variable {R : List Move → Cursor doc → Cursor doc → Prop} {x y : Process doc σ Executed}
  {xs : List (Process doc σ Executed)}

/-- A move that is possible reports what was achieved of it. -/
theorem travel {m : Move} (hm : m.Ensures R) :
    ((Action.travel m : Action κ doc Executed).process : Process doc σ Executed).Ensures R := by
  refine fun c => correct_process fun r d hyields ms hms => ?_
  subst hms
  obtain ⟨dir, n, achieved, hheading, hgo, rfl⟩ := Action.yields_travel_some.mp hyields
  exact hm (dir, n) hheading c achieved d hgo

/-- A success of an attempt is one of what it attempts. -/
theorem attempt (hx : x.Ensures R) : x.attempt.Ensures R := by
  intro c s r d s' hr ms hms
  obtain ⟨⟨answer, c', s₁⟩, hfirst, hattempt⟩ := (Part.mem_map_iff _).mp hr
  rcases answer with e | (_ | ns)
  · exact nomatch hattempt
  · cases hattempt
    exact nomatch hms
  · cases hattempt
    exact hx _ _ _ _ _ hfirst ms hms

/-- Two processes in sequence make the moves of both. -/
theorem andThen (hR : Composes R) (hx : x.Ensures R) (hy : y.Ensures R) :
    (Executed.andThen x y).Ensures R := by
  intro c
  refine (hx c).bind fun r c' hr => ?_
  cases r with
  | none => exact correct_pure fun ms hms => nomatch hms
  | some ms =>
    refine (hy c').bind fun rest d hrest => correct_pure fun ms' hms' => ?_
    obtain ⟨ns, rfl, rfl⟩ := Option.map_eq_some_iff.mp hms'
    exact hR.append (hr ms rfl) (hrest ns rfl)

/-- Doing nothing is a success without a move. -/
theorem nothing (hR : Composes R) : (pure (some []) : Process doc σ Executed).Ensures R := by
  intro c
  refine correct_pure fun ms hms => ?_
  cases hms
  exact hR.nil c

/-- Processes in order make the moves of all of them. -/
theorem inSequence (hR : Composes R) (h : ∀ x ∈ xs, x.Ensures R) :
    (Executed.inSequence xs).Ensures R := by
  induction xs with
  | nil => exact nothing hR
  | cons x xs ih =>
    obtain ⟨hx, hxs⟩ := List.forall_mem_cons.mp h
    exact andThen hR hx (ih hxs)

/-- A repeated process makes the moves of all repetitions. -/
theorem repeated (hR : Composes R) (hx : x.Ensures R) (n : Nat) :
    (Executed.repeated n x).Ensures R := by
  induction n with
  | zero => exact nothing hR
  | succ n ih => exact andThen hR hx ih

/-- The repetition that fails, or comes back to a position, has been undone. -/
theorem untilStuck (hR : Composes R) (hx : x.Ensures R) (hback : x.Restores) :
    x.untilStuck.Ensures R := by
  intro c
  refine correct_loop (I := fun ms d => R ms c d) (hR.nil c) ?again ?done ?stuck
  case again =>
    intro ms c' hms
    refine (hx c').bind fun r d hr => ?_
    cases r with
    | none => exact correct_pure fun ns hns => nomatch hns
    | some ns =>
      refine correct_pure fun ns' hns' => ?_
      cases hns'
      exact hR.append hms (hr ns rfl)
  case done =>
    intro ms c' hms
    refine (hback c').bind fun r d hr => ?_
    cases r with
    | none =>
      refine correct_pure fun _ _ ns hns => ?_
      cases hns
      rw [hr rfl]
      exact hms
    | some ns => exact correct_pure fun b hb => nomatch hb
  case stuck =>
    intro ms before after hms ns hns
    cases hns
    exact hms

/-- After a reorientation, the other process has been tried, and if it failed, it has put the cursor
    back to where the reorientation led. -/
theorem detour (hR : Composes R) (hx : x.Ensures R) (hy : y.Ensures R) (hback : y.Restores) :
    (x.detour y).Ensures R := by
  intro c
  refine correct_loop (I := fun ms d => R ms c d) (hR.nil c) ?again ?done ?stuck
  case again =>
    intro ms c' hms
    -- The round goes on after the reorientation only if what was tried there has been undone.
    refine (hx c').bind fun r c₁ hr => ?_
    cases r with
    | none => exact correct_pure fun ns hns => nomatch hns
    | some ms₁ =>
      refine (hback c₁).bind fun r d hd => ?_
      cases r with
      | none =>
        refine correct_pure fun ns hns => ?_
        cases hns
        rw [hd rfl]
        exact hR.append hms (hr ms₁ rfl)
      | some ms₂ => exact correct_pure fun ns hns => nomatch hns
  case done =>
    intro ms c' hms
    refine (hx c').bind fun r c₁ hr => ?_
    cases r with
    | none =>
      refine correct_pure fun b hb ns hns => ?_
      cases hb
      exact nomatch hns
    | some ms₁ =>
      refine (hy c₁).bind fun r d hd => ?_
      cases r with
      | none => exact correct_pure fun b hb => nomatch hb
      | some ms₂ =>
        refine correct_pure fun b hb ns hns => ?_
        cases hb
        cases hns
        exact hR.append hms (hR.append (hr ms₁ rfl) (hd ms₂ rfl))
  case stuck => exact fun ms before after _ ns hns => nomatch hns

/-- Conditions that leave the cursor where they found it do not count. -/
theorem guarded {before after : Process doc σ Bool} (hx : x.Ensures R)
    (hbefore : ∀ c, before.Correct c fun _ d => d = c)
    (hafter : ∀ c, after.Correct c fun _ d => d = c) : (Executed.guarded before x after).Ensures R := by
  intro c
  refine (hbefore c).bind fun b c' hc' => ?_
  obtain rfl := hc'
  cases b with
  | false => exact correct_pure fun ms hms => nomatch hms
  | true =>
    refine (hx c').bind fun r d hr => ?_
    cases r with
    | none => exact correct_pure fun ms hms => nomatch hms
    | some ms =>
      refine (hafter d).bind fun b d' hd' => ?_
      obtain rfl := hd'
      cases b with
      | false => exact correct_pure fun ms hms => nomatch hms
      | true => exact correct_pure hr

/-- The options that failed have put the cursor back. -/
theorem firstOf (h : ∀ x ∈ xs, x.Ensures R) (hback : ∀ x ∈ xs, x.Restores) :
    (Executed.firstOf xs).Ensures R := by
  induction xs with
  | nil => exact fun c => correct_pure fun ms hms => nomatch hms
  | cons x xs ih =>
    obtain ⟨hx, hxs⟩ := List.forall_mem_cons.mp h
    obtain ⟨hbackx, hbackxs⟩ := List.forall_mem_cons.mp hback
    intro c
    refine ((hx c).and (hbackx c)).bind fun r d hr => ?_
    cases r with
    | some ms => exact correct_pure hr.1
    | none =>
      -- The next option starts where the failed one did.
      obtain rfl := hr.2 rfl
      exact ih hxs hbackxs d

end Process.Ensures

/-! ## Evaluations -/

/-- The condition leaves the cursor where it found it, whenever it answers. It may change its state. -/
def Condition.Still (custom : κ → Process doc σ Bool) (k : Condition κ) : Prop :=
  ∀ c, (k.ask custom).Correct c fun _ d => d = c

/-- The condition that always holds is still. -/
theorem Condition.still_always (custom : κ → Process doc σ Bool) :
    (Condition.always : Condition κ).Still custom :=
  fun _ => Process.correct_pure rfl

namespace Traversal

mutual

/-- The moves in a traversal. -/
def moves : Traversal κ → List Move
  | .move m => [m]
  | .maneuver phases => movesAll phases
  | .circuit body _ => moves body
  | .detour reorientation body => moves reorientation ++ moves body
  | .precaution body _ _ => moves body
  | .protocol options => movesAll options

/-- The moves in some traversals. -/
def movesAll : List (Traversal κ) → List Move
  | [] => []
  | t :: ts => moves t ++ movesAll ts

end

/-- The moves in some traversals are those in one of them. -/
theorem mem_movesAll {m : Move} {ts : List (Traversal κ)} :
    m ∈ movesAll ts ↔ ∃ t ∈ ts, m ∈ t.moves := by
  induction ts with
  | nil => simp [movesAll]
  | cons t ts ih => simp [movesAll, ih]

/-- An evaluation that fails has put the cursor back, whatever the conditions did to it. -/
theorem restores_evaluate (custom : κ → Process doc σ Bool) (t : Traversal κ) :
    (t.evaluate custom).Restores := by
  cases t with
  | circuit body times => cases times <;> exact Process.restores_attempt _
  | move | maneuver | detour | precaution | protocol => exact Process.restores_attempt _

end Traversal

open Traversal in
/-- What composes holds of all evaluations of a traversal if it holds of the moves in it. -/
theorem Composes.ensures_evaluate {R : List Move → Cursor doc → Cursor doc → Prop} (hR : Composes R)
    {custom : κ → Process doc σ Bool} {t : Traversal κ} (hmoves : ∀ m ∈ t.moves, m.Ensures R)
    (hstill : ∀ k ∈ t.conditions, k.Still custom) : (t.evaluate custom).Ensures R := by
  -- Each kind of traversal has the rule of its combinator.
  induction t using Traversal.induction with
  | move m => exact (Process.Ensures.travel (hmoves m (by simp [moves]))).attempt
  | maneuver phases ih =>
    rw [evaluate, evaluateAll_eq_map]
    refine (Process.Ensures.inSequence hR (List.forall_mem_map.mpr fun t ht => ?_)).attempt
    refine ih t ht (fun m hm => hmoves m ?_) (conditions_of_mem_maneuver ht hstill)
    rw [moves]
    exact mem_movesAll.mpr ⟨t, ht, hm⟩
  | circuit body times ih =>
    have hbody := ih (by simpa only [moves] using hmoves) (conditions_of_circuit hstill)
    cases times with
    | none => exact (hbody.untilStuck hR (restores_evaluate custom body)).attempt
    | some n => exact (hbody.repeated hR n).attempt
  | detour reorientation body ihr ihb =>
    rw [moves, List.forall_mem_append] at hmoves
    obtain ⟨hr, hb⟩ := conditions_of_detour hstill
    have hbody := ihb hmoves.2 hb
    exact ((ihr hmoves.1 hr).detour hR hbody (restores_evaluate custom body)).attempt
  | precaution body before after ih =>
    obtain ⟨hbefore, hafter, hbody⟩ := conditions_of_precaution hstill
    have hx := ih (by simpa only [moves] using hmoves) hbody
    exact (hx.guarded hbefore hafter).attempt
  | protocol options ih =>
    rw [evaluate, evaluateAll_eq_map]
    refine (Process.Ensures.firstOf (List.forall_mem_map.mpr fun t ht => ?_)
      (List.forall_mem_map.mpr fun t _ => restores_evaluate custom t)).attempt
    refine ih t ht (fun m hm => hmoves m ?_) (conditions_of_mem_protocol ht hstill)
    rw [moves]
    exact mem_movesAll.mpr ⟨t, ht, hm⟩

end SExprNav
