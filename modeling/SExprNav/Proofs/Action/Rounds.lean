import SExprNav.Action.Trail
import SExprNav.Proofs.Action.Outcome

/-!
# Rounds of a loop

How the rounds of a loop hang together. `Action.Linked` says of a row of kept rounds that each of
them starts where the round before it ended and decides to go on there.

## Key results

- `trail_of_mem`, `trail_of_not_mem`, `trail_of_stop`: a loop after its first round
- `linked_trail`: the kept rounds of a loop are linked
- `last_trail`: the last round is the round at the last start
- `nodup_starts`: no two rounds start at the same position
- `closed_starts`: a loop that comes back to a position has nowhere else to go
- `last_trail_fault_iff`: a loop ends in a fault exactly when one of its rounds does
-/

namespace SExprNav

variable {κ : Type} {doc : Document} {α β : Type}

namespace Trail

/-- Where the rounds started, in a loop that started at `c`. -/
def starts (t : Trail κ doc α β) (c : Cursor doc) : List (Cursor doc) :=
  c :: t.kept.map (·.2)

theorem length_starts (t : Trail κ doc α β) (c : Cursor doc) :
    (t.starts c).length = t.kept.length + 1 := by
  simp [starts]

/-- One more round in front does not change where a row of kept rounds ends. -/
theorem getLast?_kept_cons (a : α) (c d : Cursor doc) (kept : List (α × Cursor doc)) :
    ((((a, d) :: kept).getLast?.map (·.2)).getD c) = (kept.getLast?.map (·.2)).getD d := by
  rw [List.getLast?_cons]
  cases kept.getLast? <;> rfl

theorem lastStart_cons (t : Trail κ doc α β) (a : α) (c d : Cursor doc) (log : List (Event κ)) :
    lastStart { t with kept := (a, d) :: t.kept, log := log } c = t.lastStart d :=
  getLast?_kept_cons a c d t.kept

theorem lastStart_mem_starts (t : Trail κ doc α β) (c : Cursor doc) : t.lastStart c ∈ t.starts c := by
  unfold lastStart starts
  cases h : t.kept.getLast? with
  | none => exact List.mem_cons_self
  | some p =>
    exact List.mem_cons_of_mem _ (List.mem_map.mpr ⟨p, List.mem_of_getLast? h, rfl⟩)

end Trail

namespace Action

/-! ## The first round -/

section FirstRound

variable {round : Action κ doc (Verdict α β)} {visited : List (Cursor doc)} {c c' : Cursor doc}
  {a : α} {log : List (Event κ)}

/-- A loop ends with a round that comes back to a position. -/
theorem trail_of_mem (h : round c = ⟨.ok (.again a), c', log⟩) (hc' : c' ∈ visited) :
    trail round visited c = { last := ⟨.ok (.again a), c', log⟩, log := log } := by
  rw [trail, h]
  dsimp only
  rw [if_pos hc']

/-- A loop goes on after a round that leads to a new position. -/
theorem trail_of_not_mem (h : round c = ⟨.ok (.again a), c', log⟩) (hc' : c' ∉ visited) :
    trail round visited c =
      { trail round (c' :: visited) c' with
        kept := (a, c') :: (trail round (c' :: visited) c').kept
        log := log ++ (trail round (c' :: visited) c').log } := by
  rw [trail, h]
  dsimp only
  rw [if_neg hc']

/-- A loop ends with a round that does not go on. -/
theorem trail_of_stop (h : ∀ a c' log, round c ≠ ⟨.ok (.again a), c', log⟩) :
    trail round visited c = { last := round c, log := (round c).log } := by
  rw [trail]
  split
  · rename_i a c' log hr
    exact absurd hr (h a c' log)
  · rfl

end FirstRound

/-! ## All rounds -/

/-- Each of the rounds starts where the one before it ended, the first one at `c`, and decides
    to go on. -/
def Linked (round : Action κ doc (Verdict α β)) (c : Cursor doc) : List (α × Cursor doc) → Prop
  | [] => True
  | (a, d) :: rest => round.Yields c (.again a) d ∧ Linked round d rest

/-- The kept rounds of a loop are linked. -/
theorem linked_trail (round : Action κ doc (Verdict α β)) (visited : List (Cursor doc))
    (c : Cursor doc) : Linked round c (trail round visited c).kept := by
  fun_induction trail round visited c with
  | case1 | case3 => trivial
  | case2 visited c a c' log h _ _ ih => exact ⟨⟨by rw [h], by rw [h]⟩, ih⟩

/-- The last round of a loop is the round at the last start. -/
theorem last_trail (round : Action κ doc (Verdict α β)) (visited : List (Cursor doc))
    (c : Cursor doc) :
    (trail round visited c).last = round ((trail round visited c).lastStart c) := by
  fun_induction trail round visited c with
  | case1 visited c a c' log h _ => exact h.symm
  | case2 visited c a c' log h _ t ih => rw [Trail.lastStart_cons]; exact ih
  | case3 => rfl

/-- A round that is not the last one decides to go on. -/
theorem again_of_mem_starts (round : Action κ doc (Verdict α β)) (visited : List (Cursor doc))
    (c s : Cursor doc) (hs : s ∈ (trail round visited c).starts c) :
    s = (trail round visited c).lastStart c ∨ ∃ a d, round.Yields s (.again a) d := by
  fun_induction trail round visited c with
  | case1 visited c a c' log h _ => exact .inl (List.mem_singleton.mp hs)
  | case2 visited c a c' log h _ t ih =>
    rw [Trail.lastStart_cons]
    rcases List.mem_cons.mp hs with rfl | hs
    · exact .inr ⟨a, c', by rw [h], by rw [h]⟩
    · exact ih hs
  | case3 => exact .inl (List.mem_singleton.mp hs)

/-- The rounds that are kept lead to different positions, none of which was visited before. -/
theorem kept_trail_nodup (round : Action κ doc (Verdict α β)) (visited : List (Cursor doc))
    (c : Cursor doc) : ((trail round visited c).kept.map (·.2)).Nodup ∧
      ∀ d ∈ (trail round visited c).kept.map (·.2), d ∉ visited := by
  fun_induction trail round visited c with
  | case1 | case3 => exact ⟨.nil, List.forall_mem_nil _⟩
  | case2 visited c a c' log h hnew t ih =>
    obtain ⟨hnodup, hnot⟩ := ih
    constructor
    · exact List.nodup_cons.mpr ⟨fun hc' => hnot c' hc' List.mem_cons_self, hnodup⟩
    · refine List.forall_mem_cons.mpr ⟨hnew, fun d hd hvisited => ?_⟩
      exact hnot d hd (List.mem_cons_of_mem _ hvisited)

/-- No two rounds of a loop start at the same position. -/
theorem nodup_starts (round : Action κ doc (Verdict α β)) (c : Cursor doc) :
    ((trail round [c] c).starts c).Nodup := by
  obtain ⟨hnodup, hnot⟩ := kept_trail_nodup round [c] c
  exact List.nodup_cons.mpr ⟨fun hc => hnot c hc List.mem_cons_self, hnodup⟩

/-- If even the last round of a loop decides to go on, all rounds do, and they lead to where a round
    started or to what was visited before. -/
theorem again_of_last_again (round : Action κ doc (Verdict α β)) (visited : List (Cursor doc))
    (c : Cursor doc) {b : α} (hlast : (trail round visited c).last.answer = .ok (.again b)) :
    ∀ s ∈ (trail round visited c).starts c, ∃ a d, round.Yields s (.again a) d ∧
      (d ∈ visited ∨ d ∈ (trail round visited c).kept.map (·.2)) := by
  fun_induction trail round visited c with
  | case1 visited c a c' log h hc' =>
    refine List.forall_mem_singleton.mpr ⟨a, c', ⟨?_, ?_⟩, .inl hc'⟩ <;> rw [h]
  | case2 visited c a c' log h _ t ih =>
    refine List.forall_mem_cons.mpr ⟨⟨a, c', ⟨by rw [h], by rw [h]⟩, .inr List.mem_cons_self⟩, ?_⟩
    intro s hs
    obtain ⟨a', d, hround, hd⟩ := ih hlast s hs
    refine ⟨a', d, hround, ?_⟩
    -- The first round led to `c'`, which the rounds after it count as visited.
    rw [List.mem_cons, or_assoc, or_left_comm] at hd
    rwa [List.map_cons, List.mem_cons]
  | case3 visited c hstop =>
    have hround : round c = ⟨.ok (.again b), (round c).cursor, (round c).log⟩ := by rw [← hlast]
    exact (hstop _ _ _ hround).elim

/-- If even the last round of a loop decides to go on, the rounds lead from each of the positions where
    they start to another one of these. -/
theorem closed_starts {round : Action κ doc (Verdict α β)} {c s : Cursor doc} {b : α}
    (hlast : (trail round [c] c).last.answer = .ok (.again b))
    (hs : s ∈ (trail round [c] c).starts c) :
    ∃ a, ∃ d ∈ (trail round [c] c).starts c, round.Yields s (.again a) d := by
  obtain ⟨a, d, hround, hd⟩ := again_of_last_again round [c] c hlast s hs
  rw [List.mem_singleton, ← List.mem_cons] at hd
  exact ⟨a, d, hd, hround⟩

/-- A loop ends in a fault exactly when one of its rounds does. -/
theorem last_trail_fault_iff (round : Action κ doc (Verdict α β)) (visited : List (Cursor doc))
    (c : Cursor doc) (e : Fault) :
    (trail round visited c).last.answer = .error e ↔
      ∃ s ∈ (trail round visited c).starts c, round.Faults s e := by
  rw [last_trail]
  constructor
  · intro h
    exact ⟨_, Trail.lastStart_mem_starts _ _, h⟩
  · rintro ⟨s, hs, he⟩
    rcases again_of_mem_starts round visited c s hs with rfl | ⟨a, d, ha⟩
    · exact he
    · exact absurd ha (not_yields_of_faults he)

end Action

end SExprNav
