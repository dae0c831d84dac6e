import SExprNav.Proofs.Process.Termination

/-!
# An execution is an evaluation that ends

If the conditions from outside the library are actions, the evaluation of a traversal ends with what
its execution gives: the process of a combinator of actions is the combinator of processes. For the
loops, the rounds of the process are the rounds of the trail.

## Key results

- `Process.compatible_process`: the combinators of processes are those of actions
- `Process.goOn_process`: a loop of processes goes along the trail of the loop of actions
- `Traversal.evaluate_eq_process`: an execution is an evaluation
- `Traversal.evaluate_terminates`: evaluations end, and how often their loops go round
-/

namespace SExprNav

variable {κ : Type} {doc : Document} {σ : Type}

namespace Action

variable {α β : Type}

/-- What comes of a process is what comes of its action, with the state as it was. -/
theorem process_apply {x : Action κ doc α} {c d : Cursor doc} {answer : Except Fault α}
    {log : List (Event κ)} (h : x c = ⟨answer, d, log⟩) (s : σ) :
    x.process c s = Part.some ⟨answer, d, s⟩ := by
  rw [process, h]

/-- The process of two actions in sequence is that of the first one and then that of the second. -/
theorem process_bind (x : Action κ doc α) (f : α → Action κ doc β) :
    ((x >>= f).process : Process doc σ β) = x.process >>= fun a => (f a).process := by
  funext c s
  rcases hx : x c with ⟨e | a, d, log⟩
  · rw [process_apply (bind_of_error hx), Process.bind_of_error (process_apply hx s)]
  · rw [Process.bind_of_ok (process_apply hx s), process, bind_of_ok hx]
    rfl

end Action

namespace Process

open Executed (again reorient)

/-- The processes of combinators of actions are combinators of processes. -/
theorem compatible_process :
    Compatible fun α => (fun x y => x.process = y : Action κ doc α → Process doc σ α → Prop) where
  pure a := rfl
  bind hx hf := by rw [Action.process_bind, hx, funext hf]

/-- The process of an attempt is an attempt; events do not count. -/
theorem process_attempt {x : Action κ doc Executed} (t : Traversal κ) :
    ((Action.attempt t x).process : Process doc σ Executed) = attempt x.process := by
  funext c s
  unfold attempt
  rcases hx : x c with ⟨e | (_ | ms), d, log⟩ <;>
    simp [Action.process, Action.attempt, Action.rollback, hx]

/-! ## Loops -/

section Loop

variable {β : Type} {round : Action κ doc (Verdict (List Move) β)} {finish : List Move → β → Executed}
  {stuck : Cursor doc → Cursor doc → List Move → Cursor doc × Executed}

/-- What comes of a loop that goes along a trail from `c` after some moves. -/
def outcome (finish : List Move → β → Executed)
    (stuck : Cursor doc → Cursor doc → List Move → Cursor doc × Executed)
    (t : Trail κ doc (List Move) β) (c : Cursor doc) (s : σ) (ms : List Move) :
    Outcome doc σ Executed :=
  let moves := ms ++ t.kept.flatMap (·.1)
  match t.last.answer with
  | .error e => ⟨.error e, t.last.cursor, s⟩
  | .ok (.done b) => ⟨.ok (finish moves b), t.last.cursor, s⟩
  | .ok (.again _) =>
    ⟨.ok (stuck (t.lastStart c) t.last.cursor moves).2,
      (stuck (t.lastStart c) t.last.cursor moves).1, s⟩

/-- The moves of a kept round come after those before it and before those of the other rounds. -/
theorem outcome_cons (t : Trail κ doc (List Move) β) (c d : Cursor doc) (s : σ)
    (ms ns : List Move) (log : List (Event κ)) :
    outcome finish stuck { t with kept := (ns, d) :: t.kept, log := log } c s ms =
      outcome finish stuck t d s (ms ++ ns) := by
  unfold outcome
  rw [Trail.lastStart_cons, List.flatMap_cons, List.append_assoc]

/-- The rounds of a loop of processes from somewhere on are those of the trail from there on. -/
theorem goOn_process (visited : List (Cursor doc)) (c : Cursor doc) (s : σ) (n : Nat)
    (ms : List Move) :
    goOn round.process finish stuck ⟨n, visited, ms, c, s⟩ =
      Part.some (n + (Action.trail round visited c).rounds,
        outcome finish stuck (Action.trail round visited c) c s ms) := by
  fun_induction Action.trail round visited c generalizing n ms with
  | case1 visited c ns d log h hd =>
    -- The round comes back to a visited position.
    rw [goOn_of_mem (Action.process_apply h s) hd, outcome, List.flatMap_nil, List.append_nil]
    rfl
  | case2 visited c ns d log h hd t ih =>
    -- One more round is counted, and its moves come before those of the others.
    rw [goOn_of_not_mem (Action.process_apply h s) hd, ih, Nat.add_right_comm, outcome_cons]
    rfl
  | case3 visited c hstop =>
    -- The round does not go on, be it that it is done or that it faults.
    rcases h : round c with ⟨e | (ns | b), d, log⟩
    · rw [goOn_of_error (Action.process_apply h s)]
      rfl
    · exact absurd h (hstop ns d log)
    · rw [goOn_of_done (Action.process_apply h s), outcome, List.flatMap_nil, List.append_nil]
      rfl

/-- The rounds of a loop of processes are those of the trail. -/
theorem loop_process (c : Cursor doc) (s : σ) :
    loop round.process finish stuck c s =
      Part.some ((Action.trail round [c] c).rounds,
        outcome finish stuck (Action.trail round [c] c) c s []) := by
  rw [loop, goOn_process, Nat.zero_add]

end Loop

variable {x y : Action κ doc Executed}

/-- The last round of a repetition that is done has failed where it started. -/
theorem cursor_last_of_done (hstay : ∀ {c d}, x.Yields c none d → d = c) {c : Cursor doc}
    (h : (Action.trail (again x) [c] c).last.answer = .ok (.done ())) :
    (Action.trail (again x) [c] c).last.cursor = (Action.trail (again x) [c] c).lastStart c := by
  have hlast := Action.last_trail (again x) [c] c
  rw [hlast] at h
  have hyields : (again x).Yields ((Action.trail (again x) [c] c).lastStart c) (.done ())
      (Action.trail (again x) [c] c).last.cursor := ⟨h, congrArg Run.cursor hlast.symm⟩
  exact hstay (Action.yields_again_done.mp hyields)

/-- The process of a repetition is a repetition, if what is repeated stays where it fails. -/
theorem process_untilStuck (hstay : ∀ {c d}, x.Yields c none d → d = c) :
    (x.untilStuck.process : Process doc σ Executed) = x.process.untilStuck := by
  funext c s
  -- A loop that is done stays where the last round failed, and that is where this round started.
  unfold untilStuck countedUntilStuck
  rw [← compatible_process.again rfl, loop_process, Part.map_some, Action.process]
  have hdone := cursor_last_of_done hstay (c := c)
  unfold Action.untilStuck outcome
  rcases h : (Action.trail (again x) [c] c).last.answer with e | (ms | _)
  · simp [h]
  · simp [h]
  · simp [h, hdone h]

/-- The process of a detour is a detour. -/
theorem process_detour :
    ((x.detour y).process : Process doc σ Executed) = x.process.detour y.process := by
  funext c s
  unfold detour countedDetour
  rw [← compatible_process.reorient rfl rfl, loop_process, Part.map_some, Action.process]
  -- A detour ends where its last round ends, whatever this round answers.
  unfold Action.detour outcome
  rcases h : (Action.trail (reorient x y) [c] c).last.answer with e | (ms | _ | ns) <;> simp [h]

end Process

namespace Traversal

/-- Conditions that are actions are asked as actions. -/
theorem ask_process (meaning : κ → Action κ doc Bool) (k : Condition κ) :
    ((k.test meaning).process : Process doc σ Bool) = k.ask fun k => (meaning k).process := by
  cases k <;> rfl

/-- If the conditions of a traversal are actions, its evaluation is its execution. -/
theorem evaluate_eq_process {meaning : κ → Action κ doc Bool} {custom : κ → Process doc σ Bool}
    {t : Traversal κ} (h : ∀ k ∈ t.conditions, (k.test meaning).process = k.ask custom) :
    t.evaluate custom = (t.execute meaning).process := by
  -- Both are attempts at the same combinator, of parts that agree by induction.
  induction t using Traversal.induction with
  | move m => rw [execute_eq_attempt, Process.process_attempt, evaluate, perform]
  | maneuver phases ih =>
    rw [execute_eq_attempt, Process.process_attempt, evaluate, perform, evaluateAll_eq_map,
      Process.compatible_process.inSequence
        (forall₂_map_of_mem fun t ht => (ih t ht (conditions_of_mem_maneuver ht h)).symm)]
  | circuit body times ih =>
    rw [execute_eq_attempt, Process.process_attempt]
    have hbody := ih (conditions_of_circuit h)
    cases times with
    | none =>
      have hstay : ∀ {c d}, (body.execute meaning).Yields c none d → d = c :=
        fun h => (yields_execute_none.mp h).1
      rw [evaluate, perform, hbody, Process.process_untilStuck hstay]
    | some n => rw [evaluate, perform, Process.compatible_process.repeated hbody.symm]
  | detour reorientation body ihr ihb =>
    obtain ⟨hr, hb⟩ := conditions_of_detour h
    rw [execute_eq_attempt, Process.process_attempt, evaluate, perform, ihr hr, ihb hb,
      Process.process_detour]
  | precaution body before after ih =>
    obtain ⟨hbefore, hafter, hbody⟩ := conditions_of_precaution h
    rw [execute_eq_attempt, Process.process_attempt, evaluate, perform,
      Process.compatible_process.guarded hbefore (ih hbody).symm hafter]
  | protocol options ih =>
    rw [execute_eq_attempt, Process.process_attempt, evaluate, perform, evaluateAll_eq_map,
      Process.compatible_process.firstOf
        (forall₂_map_of_mem fun t ht => (ih t ht (conditions_of_mem_protocol ht h)).symm)]

/-- What an execution yields comes of the evaluation in any state, and the state stays as it was. -/
theorem mem_evaluate_of_yields {meaning : κ → Action κ doc Bool} {custom : κ → Process doc σ Bool}
    {t : Traversal κ} (hsame : ∀ k ∈ t.conditions, (k.test meaning).process = k.ask custom)
    {c d : Cursor doc} {r : Executed} (h : (t.execute meaning).Yields c r d) (s : σ) :
    ⟨.ok r, d, s⟩ ∈ t.evaluate custom c s := by
  rw [evaluate_eq_process hsame, Action.process, h.1, h.2]
  exact Part.mem_some _

/-- If the conditions of a traversal end, so does its evaluation, whatever the conditions do to the
    cursor and to their state. A circuit without a number of times executes its body, and a detour
    its reorientation, at most once for each position of the text. If the conditions from outside
    the library are actions, the evaluation ends with what the execution gives. -/
theorem evaluate_terminates (custom : κ → Process doc σ Bool) (t : Traversal κ)
    (hends : ∀ k ∈ t.conditions, (k.ask custom).Ends) (c : Cursor doc) (s : σ) :
    (∃ r, t.evaluate custom c s = Part.some r) ∧
    (∀ body, t = .circuit body none → ∃ n r,
      (body.evaluate custom).countedUntilStuck c s = Part.some (n, r) ∧ n ≤ doc.length + 1) ∧
    (∀ reorientation body, t = .detour reorientation body → ∃ n r,
      (reorientation.evaluate custom).countedDetour (body.evaluate custom) c s = Part.some (n, r) ∧
        n ≤ doc.length + 1) ∧
    (∀ meaning : κ → Action κ doc Bool, (∀ k, custom k = (meaning k).process) →
      t.evaluate custom c s =
        Part.some ⟨(t.execute meaning c).answer, (t.execute meaning c).cursor, s⟩) := by
  refine ⟨ends_evaluate hends c s, ?_, ?_, ?_⟩
  · rintro body rfl
    have hbody := ends_evaluate (conditions_of_circuit hends)
    exact hbody.countedUntilStuck c s
  · rintro reorientation body rfl
    obtain ⟨hr, hb⟩ := conditions_of_detour hends
    exact (ends_evaluate hr).countedDetour (ends_evaluate hb) c s
  · intro meaning hcustom
    obtain rfl : custom = fun k => (meaning k).process := funext hcustom
    rw [evaluate_eq_process fun k _ => ask_process meaning k]
    rfl

/-- A condition puts the cursor back to the start of `a b c` after each step and counts. The steps
    succeed, but they do not go on forever: there are at most six of them. -/
theorem evaluate_terminates_displaced :
    let doc := Document.ofText .lisp ['a', ' ', 'b', ' ', 'c']
    let custom : Unit → Process doc Nat Bool := fun _ _ s =>
      Part.some ⟨.ok true, doc.cursorAt 0, s + 1⟩
    let body : Traversal Unit := .precaution (.step .forward) .always (.custom ())
    ∃ n r, (body.evaluate custom).countedUntilStuck (doc.cursorAt 0) 0 = Part.some (n, r) ∧
      n ≤ 6 := by
  intro doc custom body
  have hends : ∀ k ∈ (circuit body none).conditions, (k.ask custom).Ends := by
    intro k hk
    simp only [body, step, conditions, List.mem_cons, List.not_mem_nil, or_false] at hk
    rcases hk with rfl | rfl
    · exact Process.ends_pure true
    · exact fun _ s => ⟨⟨.ok true, doc.cursorAt 0, s + 1⟩, rfl⟩
  exact (evaluate_terminates custom (.circuit body none) hends (doc.cursorAt 0) 0).2.1 body rfl

end Traversal

end SExprNav
