import SExprNav.Proofs.Process.Evaluate
import SExprNav.Proofs.Traversal.Combinators
import SExprNav.Proofs.Traversal.Compatible
import SExprNav.Proofs.Traversal.Conditions

/-!
# The evaluation of a traversal comes to an end

A process ends if something comes of it from everywhere and in every state. What is put together
from processes that end, ends; a loop does because it has no more rounds than there are positions to
go to, whatever its rounds do. So a traversal ends if its conditions do.

## Key results

- `Process.Ends.goOn`: a loop ends after at most one round more than there are positions not yet
  visited
- `Traversal.ends_evaluate`: a traversal ends if its conditions do
-/

namespace SExprNav

variable {κ : Type} {doc : Document} {σ : Type}

namespace Process

variable {α β : Type}

/-- Something comes of the process, from everywhere and in every state. -/
def Ends (x : Process doc σ α) : Prop := ∀ c s, ∃ r, x c s = Part.some r

/-- An answer alone ends. -/
theorem ends_pure (a : α) : (pure a : Process doc σ α).Ends := fun c s => ⟨⟨.ok a, c, s⟩, rfl⟩

/-- Processes in sequence end if both do, the second one for each answer of the first. -/
theorem Ends.bind {x : Process doc σ α} {f : α → Process doc σ β} (hx : x.Ends)
    (hf : ∀ a, (f a).Ends) : (x >>= f).Ends := by
  intro c s
  obtain ⟨⟨answer, d, s'⟩, hr⟩ := hx c s
  cases answer with
  | error e => exact ⟨_, bind_of_error hr f⟩
  | ok a =>
    rw [bind_of_ok hr]
    exact hf a d s'

/-- An action always ends. -/
theorem ends_process (x : Action κ doc α) : (x.process : Process doc σ α).Ends :=
  fun _ _ => ⟨_, rfl⟩

/-- Answers and sequences that end make all combinators end. A process is compared with itself here. -/
theorem compatible_ends :
    Compatible fun α => (fun x y => x = y ∧ x.Ends : Process doc σ α → Process doc σ α → Prop) where
  pure a := ⟨rfl, ends_pure a⟩
  bind hx hf := ⟨by rw [hx.1, funext fun a => (hf a).1], hx.2.bind fun a => (hf a).2⟩

/-- An attempt ends if what it attempts does. -/
theorem Ends.attempt {x : Process doc σ Executed} (hx : x.Ends) : x.attempt.Ends := by
  intro c s
  obtain ⟨r, hr⟩ := hx c s
  unfold Process.attempt
  rw [hr, Part.map_some]
  exact ⟨_, rfl⟩

/-! ## Loops -/

section Loop

variable {β : Type} {round : Process doc σ (Verdict (List Move) β)}
  {finish : List Move → β → Executed}
  {stuck : Cursor doc → Cursor doc → List Move → Cursor doc × Executed} {l : Going doc σ}
  {d : Cursor doc} {s : σ}

/-- A round that faults ends the loop in the fault. -/
theorem goOn_of_error {e : Fault} (h : round l.cursor l.state = Part.some ⟨.error e, d, s⟩) :
    goOn round finish stuck l = Part.some (l.rounds + 1, ⟨.error e, d, s⟩) := by
  apply Loop.run_of_done
  rw [goRound, h, Part.map_some]

/-- A round that is done ends the loop where the round ended. -/
theorem goOn_of_done {b : β} (h : round l.cursor l.state = Part.some ⟨.ok (.done b), d, s⟩) :
    goOn round finish stuck l = Part.some (l.rounds + 1, ⟨.ok (finish l.moves b), d, s⟩) := by
  apply Loop.run_of_done
  rw [goRound, h, Part.map_some]

/-- A round that comes back to a position ends the loop, too. -/
theorem goOn_of_mem {ms : List Move}
    (h : round l.cursor l.state = Part.some ⟨.ok (.again ms), d, s⟩) (hd : d ∈ l.visited) :
    goOn round finish stuck l = Part.some (l.rounds + 1,
      ⟨.ok (stuck l.cursor d l.moves).2, (stuck l.cursor d l.moves).1, s⟩) := by
  apply Loop.run_of_done
  rw [goRound, h, Part.map_some]
  dsimp only
  rw [if_pos (List.contains_iff_mem.mpr hd)]

/-- After a round to a new position, the loop goes on from there. -/
theorem goOn_of_not_mem {ms : List Move}
    (h : round l.cursor l.state = Part.some ⟨.ok (.again ms), d, s⟩) (hd : d ∉ l.visited) :
    goOn round finish stuck l =
      goOn round finish stuck ⟨l.rounds + 1, d :: l.visited, l.moves ++ ms, d, s⟩ := by
  apply Loop.run_of_again
  rw [goRound, h, Part.map_some]
  dsimp only
  rw [if_neg fun h => hd (List.contains_iff_mem.mp h)]

/-- Each round of a loop but the last one leads to a new position. -/
theorem Ends.goOn (hround : round.Ends) (l : Going doc σ) :
    ∃ n r, Process.goOn round finish stuck l = Part.some (n, r) ∧
      n ≤ l.rounds + Document.unvisited l.visited + 1 := by
  -- The induction is on the number of positions that are left.
  induction hleft : Document.unvisited l.visited using Nat.strongRecOn generalizing l with
  | ind left ih =>
    obtain ⟨⟨answer, d, s⟩, hr⟩ := hround l.cursor l.state
    rcases answer with e | (ms | e)
    · exact ⟨_, _, goOn_of_error hr, by omega⟩
    · by_cases hd : d ∈ l.visited
      · exact ⟨_, _, goOn_of_mem hr hd, by omega⟩
      · -- The round led to a new position, so that fewer are left.
        have hlt := Document.unvisited_cons_lt hd
        obtain ⟨n, r, hrest, hn⟩ :=
          ih _ (hleft ▸ hlt) ⟨l.rounds + 1, d :: l.visited, l.moves ++ ms, d, s⟩ rfl
        rw [goOn_of_not_mem hr hd]
        exact ⟨n, r, hrest, by dsimp only at hn; omega⟩
    · exact ⟨_, _, goOn_of_done hr, by omega⟩

/-- A loop has at most one round for each position. -/
theorem Ends.loop (hround : round.Ends) (c : Cursor doc) (s : σ) :
    ∃ n r, Process.loop round finish stuck c s = Part.some (n, r) ∧ n ≤ doc.length + 1 := by
  -- At the start, all positions but one are left.
  obtain ⟨n, r, hloop, hn⟩ := hround.goOn ⟨0, [c], [], c, s⟩
  have hle := Document.unvisited_singleton_le c
  exact ⟨n, r, hloop, by dsimp only at hn; omega⟩

end Loop

variable {x y : Process doc σ Executed}

/-- A repetition executes the process at most once for each position. -/
theorem Ends.countedUntilStuck (hx : x.Ends) (c : Cursor doc) (s : σ) :
    ∃ n r, x.countedUntilStuck c s = Part.some (n, r) ∧ n ≤ doc.length + 1 :=
  (compatible_ends.again ⟨rfl, hx⟩).2.loop c s

/-- A detour executes the reorientation at most once for each position. -/
theorem Ends.countedDetour (hx : x.Ends) (hy : y.Ends) (c : Cursor doc) (s : σ) :
    ∃ n r, x.countedDetour y c s = Part.some (n, r) ∧ n ≤ doc.length + 1 :=
  (compatible_ends.reorient ⟨rfl, hx⟩ ⟨rfl, hy⟩).2.loop c s

/-- A repetition ends if what it repeats does. -/
theorem Ends.untilStuck (hx : x.Ends) : x.untilStuck.Ends := by
  intro c s
  obtain ⟨n, r, hloop, -⟩ := hx.countedUntilStuck c s
  refine ⟨r, ?_⟩
  rw [Process.untilStuck, hloop, Part.map_some]

/-- A detour ends if both of its parts do. -/
theorem Ends.detour (hx : x.Ends) (hy : y.Ends) : (x.detour y).Ends := by
  intro c s
  obtain ⟨n, r, hloop, -⟩ := hx.countedDetour hy c s
  refine ⟨r, ?_⟩
  rw [Process.detour, hloop, Part.map_some]

end Process

/-! ## Traversals -/

/-- A traversal ends if its conditions do. -/
theorem Traversal.ends_evaluate {custom : κ → Process doc σ Bool} {t : Traversal κ}
    (h : ∀ k ∈ t.conditions, (k.ask custom).Ends) : (t.evaluate custom).Ends := by
  -- The combinators by `compatible_ends`, the loops by the bound on their rounds.
  induction t using Traversal.induction with
  | move m => exact (Process.ends_process _).attempt
  | maneuver phases ih =>
    rw [evaluate, evaluateAll_eq_map]
    have hphases := fun t ht => ih t ht (conditions_of_mem_maneuver ht h)
    exact (Process.compatible_ends.inSequence
      (forall₂_map_of_mem fun t ht => ⟨rfl, hphases t ht⟩)).2.attempt
  | circuit body times ih =>
    have hbody := ih (conditions_of_circuit h)
    cases times with
    | none => exact hbody.untilStuck.attempt
    | some n => exact (Process.compatible_ends.repeated ⟨rfl, hbody⟩ n).2.attempt
  | detour reorientation body ihr ihb =>
    obtain ⟨hr, hb⟩ := conditions_of_detour h
    exact ((ihr hr).detour (ihb hb)).attempt
  | precaution body before after ih =>
    obtain ⟨hbefore, hafter, hbody⟩ := conditions_of_precaution h
    exact (Process.compatible_ends.guarded ⟨rfl, hbefore⟩ ⟨rfl, ih hbody⟩ ⟨rfl, hafter⟩).2.attempt
  | protocol options ih =>
    rw [evaluate, evaluateAll_eq_map]
    have hoptions := fun t ht => ih t ht (conditions_of_mem_protocol ht h)
    exact (Process.compatible_ends.firstOf
      (forall₂_map_of_mem fun t ht => ⟨rfl, hoptions t ht⟩)).2.attempt

end SExprNav
