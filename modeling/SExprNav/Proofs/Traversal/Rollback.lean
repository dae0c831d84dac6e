import SExprNav.Proofs.Traversal.Combinators
import SExprNav.Proofs.Traversal.Conditions

/-!
# Executions are all or nothing

An execution that fails or ends in a fault leaves the cursor where it was, whatever the conditions
on the way did to it. A fault of a condition that is asked is the fault of the whole execution, and
an execution has no other faults. `Traversal.Asks` says which conditions an execution asks, and
where.

## Key results

- `Traversal.faults_of_asks`: no kind of traversal swallows the fault of a condition
- `Traversal.exists_asks_of_faults`: every fault is the fault of a condition that was asked
- `Traversal.exists_custom_of_faults`: and that condition is not one of the library itself
- `Traversal.not_faults_execute`: without faults of conditions there are none of executions
- `Traversal.execute_all_or_nothing`: both, with the cursor put back and circuits that never fail
-/

namespace SExprNav.Traversal

variable {κ : Type} {doc : Document}

/-- Executed from `c`, the traversal asks the condition `k` when the cursor is at `d`.

    Each part of a traversal is executed where the part before it led, and conditions may move the
    cursor, too. The parts of a circuit without a number of times and of a detour are executed
    where the rounds of the loop start. -/
inductive Asks (meaning : κ → Action κ doc Bool) :
    Traversal κ → Cursor doc → Condition κ → Cursor doc → Prop where
  | phase {t ts c k d} : Asks meaning t c k d → Asks meaning (.maneuver (t :: ts)) c k d
  | laterPhase {t ts c k d ms c'} : (t.execute meaning).Yields c (some ms) c' →
      Asks meaning (.maneuver ts) c' k d → Asks meaning (.maneuver (t :: ts)) c k d
  | repetition {t n c k d} : Asks meaning t c k d → Asks meaning (.circuit t (some (n + 1))) c k d
  | laterRepetition {t n c k d ms c'} : (t.execute meaning).Yields c (some ms) c' →
      Asks meaning (.circuit t (some n)) c' k d → Asks meaning (.circuit t (some (n + 1))) c k d
  | round {t c k d s} : s ∈ (Action.trail (Executed.again (t.execute meaning)) [c] c).starts c →
      Asks meaning t s k d → Asks meaning (.circuit t none) c k d
  | reorientation {r t c k d s} :
      s ∈ (Action.trail (Executed.reorient (r.execute meaning) (t.execute meaning)) [c] c).starts c →
      Asks meaning r s k d → Asks meaning (.detour r t) c k d
  | reoriented {r t c k d s ms c'} :
      s ∈ (Action.trail (Executed.reorient (r.execute meaning) (t.execute meaning)) [c] c).starts c →
      (r.execute meaning).Yields s (some ms) c' →
      Asks meaning t c' k d → Asks meaning (.detour r t) c k d
  | before {t b a c} : Asks meaning (.precaution t b a) c b c
  | guarded {t b a c k d c'} : (b.test meaning).Yields c true c' →
      Asks meaning t c' k d → Asks meaning (.precaution t b a) c k d
  | after {t b a c ms c' d} : (b.test meaning).Yields c true c' →
      (t.execute meaning).Yields c' (some ms) d → Asks meaning (.precaution t b a) c a d
  | option {t ts c k d} : Asks meaning t c k d → Asks meaning (.protocol (t :: ts)) c k d
  | laterOption {t ts c k d c'} : (t.execute meaning).Yields c none c' →
      Asks meaning (.protocol ts) c' k d → Asks meaning (.protocol (t :: ts)) c k d

variable {meaning : κ → Action κ doc Bool} {t : Traversal κ} {c d : Cursor doc} {k : Condition κ}
  {e : Fault}

/-- No kind of traversal swallows the fault of a condition that it asks. -/
theorem faults_of_asks (h : Asks meaning t c k d) (he : (k.test meaning).Faults d e) :
    (t.execute meaning).Faults c e := by
  -- What comes after the first part is executed like a traversal of its own kind: its fault is
  -- first taken out of that execution and then put behind the first part.
  induction h with
  | phase _ ih =>
    rw [faults_execute_iff]
    exact Action.faults_andThen_iff.mpr (.inl (ih he))
  | laterPhase hy _ ih =>
    have hrest := faults_execute_iff.mp (ih he)
    rw [faults_execute_iff]
    exact Action.faults_andThen_iff.mpr (.inr ⟨_, _, hy, hrest⟩)
  | repetition _ ih =>
    rw [faults_execute_iff]
    exact Action.faults_andThen_iff.mpr (.inl (ih he))
  | laterRepetition hy _ ih =>
    have hrest := faults_execute_iff.mp (ih he)
    rw [faults_execute_iff]
    exact Action.faults_andThen_iff.mpr (.inr ⟨_, _, hy, hrest⟩)
  | round hs _ ih =>
    rw [faults_execute_iff]
    exact Action.faults_untilStuck_iff.mpr ⟨_, hs, ih he⟩
  | reorientation hs _ ih =>
    rw [faults_execute_iff]
    exact Action.faults_detour_iff.mpr ⟨_, hs, .inl (ih he)⟩
  | reoriented hs hy _ ih =>
    rw [faults_execute_iff]
    exact Action.faults_detour_iff.mpr ⟨_, hs, .inr ⟨_, _, hy, ih he⟩⟩
  | before =>
    rw [faults_execute_iff]
    exact Action.faults_guarded_iff.mpr (.inl he)
  | guarded hb _ ih =>
    rw [faults_execute_iff]
    exact Action.faults_guarded_iff.mpr (.inr ⟨_, hb, .inl (ih he)⟩)
  | after hb hy =>
    rw [faults_execute_iff]
    exact Action.faults_guarded_iff.mpr (.inr ⟨_, hb, .inr ⟨_, _, hy, he⟩⟩)
  | option _ ih =>
    rw [faults_execute_iff]
    exact Action.faults_firstOf_cons_iff.mpr (.inl (ih he))
  | laterOption hy _ ih =>
    have hrest := faults_execute_iff.mp (ih he)
    rw [faults_execute_iff]
    exact Action.faults_firstOf_cons_iff.mpr (.inr ⟨_, hy, hrest⟩)

/-- Every fault of an execution is the fault of a condition that it asked. -/
theorem exists_asks_of_faults (h : (t.execute meaning).Faults c e) :
    ∃ k d, Asks meaning t c k d ∧ (k.test meaning).Faults d e := by
  induction t using Traversal.induction generalizing c with
  | move m => exact absurd (faults_execute_iff.mp h) Action.not_faults_travel
  | maneuver phases ih =>
    rw [faults_execute_iff] at h
    -- The phases that are left form a maneuver, from wherever the first one led.
    induction phases generalizing c with
    | nil => exact absurd h Action.not_faults_pure
    | cons t ts ihts =>
      rcases Action.faults_andThen_iff.mp h with h | ⟨ms, c', hy, h⟩
      · obtain ⟨k, d, hk, hf⟩ := ih t List.mem_cons_self h
        exact ⟨k, d, .phase hk, hf⟩
      · obtain ⟨k, d, hk, hf⟩ := ihts (fun u hu => ih u (List.mem_cons_of_mem _ hu)) h
        exact ⟨k, d, .laterPhase hy hk, hf⟩
  | circuit body times ih =>
    rw [faults_execute_iff] at h
    cases times with
    | none =>
      obtain ⟨s, hs, h⟩ := Action.faults_untilStuck_iff.mp h
      obtain ⟨k, d, hk, hf⟩ := ih h
      exact ⟨k, d, .round hs hk, hf⟩
    | some n =>
      induction n generalizing c with
      | zero => exact absurd h Action.not_faults_pure
      | succ n ihn =>
        rcases Action.faults_andThen_iff.mp h with h | ⟨ms, c', hy, h⟩
        · obtain ⟨k, d, hk, hf⟩ := ih h
          exact ⟨k, d, .repetition hk, hf⟩
        · obtain ⟨k, d, hk, hf⟩ := ihn h
          exact ⟨k, d, .laterRepetition hy hk, hf⟩
  | detour reorientation body ihr ihb =>
    rw [faults_execute_iff] at h
    -- The round that faults is the one at `s`, in its first part or after it.
    obtain ⟨s, hs, h | ⟨ms, c', hy, h⟩⟩ := Action.faults_detour_iff.mp h
    · obtain ⟨k, d, hk, hf⟩ := ihr h
      exact ⟨k, d, .reorientation hs hk, hf⟩
    · obtain ⟨k, d, hk, hf⟩ := ihb h
      exact ⟨k, d, .reoriented hs hy hk, hf⟩
  | precaution body before after ih =>
    rw [faults_execute_iff] at h
    obtain h | ⟨c', hb, h | ⟨ms, d, hy, h⟩⟩ := Action.faults_guarded_iff.mp h
    · exact ⟨before, c, .before, h⟩
    · obtain ⟨k, d, hk, hf⟩ := ih h
      exact ⟨k, d, .guarded hb hk, hf⟩
    · exact ⟨after, d, .after hb hy, h⟩
  | protocol options ih =>
    rw [faults_execute_iff] at h
    induction options generalizing c with
    | nil => exact absurd h Action.not_faults_pure
    | cons t ts ihts =>
      rcases Action.faults_firstOf_cons_iff.mp h with h | ⟨c', hy, h⟩
      · obtain ⟨k, d, hk, hf⟩ := ih t List.mem_cons_self h
        exact ⟨k, d, .option hk, hf⟩
      · obtain ⟨k, d, hk, hf⟩ := ihts (fun u hu => ih u (List.mem_cons_of_mem _ hu)) h
        exact ⟨k, d, .laterOption hy hk, hf⟩

/-- The conditions of the library itself do not end in faults. -/
theorem exists_custom_of_faults (h : (t.execute meaning).Faults c e) :
    ∃ k d, Asks meaning t c (.custom k) d ∧ (meaning k).Faults d e := by
  obtain ⟨k, d, hk, hf⟩ := exists_asks_of_faults h
  cases k with
  | always => exact absurd hf Action.not_faults_pure
  | holds boundary => exact absurd hf Action.not_faults_ask
  | fails boundary => exact absurd hf Action.not_faults_ask
  | custom k => exact ⟨k, d, hk, hf⟩

/-- An execution asks only conditions that are in the traversal. -/
theorem Asks.mem_conditions (h : Asks meaning t c k d) : k ∈ t.conditions := by
  induction h with
  | before => simp [conditions]
  | after => simp [conditions]
  | phase _ ih | option _ ih | reorientation _ _ ih =>
    simp only [conditions, conditionsAll, List.mem_append]
    exact .inl ih
  | laterPhase _ _ ih | laterOption _ _ ih =>
    simp only [conditions, conditionsAll, List.mem_append] at ih ⊢
    exact .inr ih
  | reoriented _ _ _ ih =>
    simp only [conditions, List.mem_append]
    exact .inr ih
  | repetition _ ih | round _ _ ih =>
    simpa only [conditions] using ih
  | laterRepetition _ _ ih =>
    simpa only [conditions] using ih
  | guarded _ _ ih =>
    simp only [conditions, List.mem_cons]
    exact .inr (.inr ih)

/-- The conditions in the traversal that come from outside the library answer wherever they are
    asked. -/
def Answers (t : Traversal κ) (meaning : κ → Action κ doc Bool) : Prop :=
  ∀ k, .custom k ∈ t.conditions → ∀ d e, ¬ (meaning k).Faults d e

/-- If its conditions answer, an execution does not end in a fault. -/
theorem not_faults_execute (h : t.Answers meaning) : ¬ (t.execute meaning).Faults c e := by
  intro he
  obtain ⟨k, d, hk, hf⟩ := exists_custom_of_faults he
  exact h k hk.mem_conditions d e hf

/-- If its conditions answer, an execution without success fails. -/
theorem yields_none_of_no_success (h : t.Answers meaning)
    (hno : ∀ ms d, ¬ (t.execute meaning).Yields c (some ms) d) :
    (t.execute meaning).Yields c none c := by
  rcases Action.yields_or_faults (t.execute meaning) c with ⟨_ | ms, d, hy⟩ | ⟨e, he⟩
  · rwa [(yields_execute_none.mp hy).1] at hy
  · exact absurd hy (hno ms d)
  · exact absurd he (not_faults_execute h)

/-- An execution without success ends where it started. -/
theorem cursor_execute_of_no_success
    (h : ∀ ms d, ¬ (t.execute meaning).Yields c (some ms) d) :
    (t.execute meaning c).cursor = c := by
  rcases Action.yields_or_faults (t.execute meaning) c with ⟨_ | ms, d, hy⟩ | ⟨e, he⟩
  · have hd := (yields_execute_none.mp hy).1
    rw [hy.2, hd]
  · exact absurd hy (h ms d)
  · exact cursor_execute_of_faults he

/-- A circuit without a number of times does not fail. -/
theorem not_yields_circuit_none (body : Traversal κ) :
    ¬ ((circuit body none).execute meaning).Yields c none d := by
  intro h
  obtain ⟨-, d', h⟩ := yields_execute_none.mp h
  exact nomatch (Action.yields_untilStuck.mp h).2.1

/-- Whatever the conditions do, an execution that fails or ends in a fault leaves the cursor where
    it was; it ends in a fault exactly when a condition that it asks does, with that fault; and a
    circuit without a number of times does not fail. -/
theorem execute_all_or_nothing (meaning : κ → Action κ doc Bool) (t : Traversal κ) (c : Cursor doc) :
    (((t.execute meaning c).answer = .ok none ∨ ∃ e, (t.execute meaning c).answer = .error e) →
      (t.execute meaning c).cursor = c) ∧
    (∀ e, (t.execute meaning c).answer = .error e ↔
      ∃ k d, Asks meaning t c k d ∧ (k.test meaning d).answer = .error e) ∧
    (∀ body, t = .circuit body none → (t.execute meaning c).answer ≠ .ok none) := by
  refine ⟨fun h => ?_, fun e => ⟨exists_asks_of_faults, ?_⟩, ?_⟩
  · apply cursor_execute_of_no_success
    intro ms d hy
    rcases h with h | ⟨e, h⟩
    · exact nomatch h.symm.trans hy.1
    · exact nomatch h.symm.trans hy.1
  · rintro ⟨k, d, hk, he⟩
    exact faults_of_asks hk he
  · rintro body rfl h
    exact not_yields_circuit_none body ⟨h, rfl⟩

/-- In `a b c`, a step is made before a condition fails to answer: the step is undone. -/
theorem raising_condition_undoes_step :
    let doc := Document.ofText .lisp ['a', ' ', 'b', ' ', 'c']
    let meaning : Unit → Action Unit doc Bool := fun _ => Action.fault (.conditionFailed "boom")
    let t : Traversal Unit :=
      .maneuver [.step .forward, .precaution (.step .forward) .always (.custom ())]
    let r := t.execute meaning (doc.cursorAt 0)
    r.answer = .error (.conditionFailed "boom") ∧ r.cursor = doc.cursorAt 0 := by
  intro doc meaning t r
  have h : r.answer = .error (.conditionFailed "boom") := by rfl
  exact ⟨h, (execute_all_or_nothing meaning t (doc.cursorAt 0)).1 (.inr ⟨_, h⟩)⟩

end SExprNav.Traversal
