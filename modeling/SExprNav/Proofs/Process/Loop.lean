import Mathlib.Data.PFun

/-!
# Loops without a bound

A loop goes round from state to state until a round is done with a result. Nothing bounds the number
of rounds: of a loop whose rounds are never done, nothing comes.

## Key results

- `Loop.run_of_done`, `Loop.run_of_again`: a loop after its first round
- `Loop.run_invariant`: an invariant of the rounds is one of the loop, if the loop ends
-/

namespace SExprNav.Loop

variable {σ β : Type} {round : σ → Part (β ⊕ σ)} {s s' : σ} {b : β}

/-- What comes of a loop that starts in a state. -/
def run (round : σ → Part (β ⊕ σ)) (s : σ) : Part β := PFun.fix round s

/-- A loop whose first round is done ends with the result of the round. -/
theorem run_of_done (h : round s = Part.some (.inl b)) : run round s = Part.some b := by
  refine Part.eq_some_iff.mpr (PFun.fix_stop ?_)
  rw [h]
  exact Part.mem_some _

/-- A loop whose first round goes on is the loop from there. -/
theorem run_of_again (h : round s = Part.some (.inr s')) : run round s = run round s' := by
  refine PFun.fix_fwd_eq ?_
  rw [h]
  exact Part.mem_some _

/-- What each round keeps, as long as it goes on, and what it makes of this when it is done: that is
    what comes of the loop, if something does. -/
theorem run_invariant {I : σ → Prop} {Q : β → Prop}
    (hround : ∀ s, I s → ∀ r ∈ round s, r.elim Q I) (hb : b ∈ run round s) (hs : I s) : Q b := by
  -- The induction is on the rounds that lead to the result.
  refine PFun.fixInduction hb (C := fun s => I s → Q b) (fun s hb ih hs => ?_) hs
  rcases PFun.mem_fix_iff.mp hb with hdone | ⟨s', hagain, -⟩
  · exact hround s hs _ hdone
  · exact ih s' hagain (hround s hs _ hagain)

end SExprNav.Loop
