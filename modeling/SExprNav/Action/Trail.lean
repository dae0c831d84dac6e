import SExprNav.Action

/-!
# Loops that do not come back

A loop runs an action again and again, from where the run before it ended. Each round decides whether
to go on. As an action depends on the cursor alone, coming back to a position where a round has
started before would mean to go on forever, so a loop ends there. `Action.trail` is the list of its
rounds; it is as long as there are positions to go to.

* `Document.unvisited_cons_lt`   a new position leaves fewer positions to go to
-/

namespace SExprNav

namespace Document

variable {doc : Document}

/-- How many positions of a document are not among the visited ones. -/
def unvisited (visited : List (Cursor doc)) : Nat :=
  (List.range (doc.length + 1)).countP fun p => visited.all fun v => v.pos != p

/-- A strictly stronger test counts fewer elements. -/
private theorem countP_lt_of_imp {α : Type} {p q : α → Bool} {l : List α}
    (himp : ∀ x ∈ l, p x = true → q x = true) {a : α} (ha : a ∈ l) (hq : q a = true)
    (hp : p a = false) : l.countP p < l.countP q := by
  induction l with
  | nil => simp at ha
  | cons b l ih =>
    have hmono : l.countP p ≤ l.countP q :=
      List.countP_mono_left fun x hx => himp x (List.mem_cons_of_mem _ hx)
    rcases List.mem_cons.mp ha with rfl | ha
    · simp [hp, hq]; omega
    · have := ih (fun x hx => himp x (List.mem_cons_of_mem _ hx)) ha
      have hb : (if p b then 1 else 0) ≤ if q b then 1 else 0 := by
        have := himp b List.mem_cons_self
        split <;> simp_all
      simp only [List.countP_cons]
      omega

/-- A new position leaves fewer positions to go to. -/
theorem unvisited_cons_lt {visited : List (Cursor doc)} {c : Cursor doc} (h : c ∉ visited) :
    unvisited (c :: visited) < unvisited visited := by
  refine countP_lt_of_imp (fun p _ hp => ?_) (a := c.pos) ?_ ?_ ?_
  · simp_all
  · exact List.mem_range.mpr (Nat.lt_succ_of_le c.pos_le)
  · simp only [List.all_eq_true, bne_iff_ne, ne_eq]
    intro v hv e
    exact h (Cursor.ext e ▸ hv)
  · simp

theorem unvisited_le (visited : List (Cursor doc)) : unvisited visited ≤ doc.length + 1 := by
  have h : unvisited visited ≤ (List.range (doc.length + 1)).length := List.countP_le_length
  rwa [List.length_range] at h

theorem unvisited_singleton_le (c : Cursor doc) : unvisited [c] ≤ doc.length :=
  Nat.le_of_lt_succ (Nat.lt_of_lt_of_le (unvisited_cons_lt List.not_mem_nil) (unvisited_le []))

end Document

/-- What one round of a loop decides. -/
inductive Verdict (α β : Type) where
  /-- To go on, with this round's share of the result. -/
  | again (a : α)
  /-- To end with a result. -/
  | done (b : β)

/-- The rounds of a loop. -/
structure Trail (κ : Type) (doc : Document) (α β : Type) where
  /-- The shares of the rounds that led to new positions, with these positions, in order. -/
  kept : List (α × Cursor doc) := []
  /-- The round that ended the loop. If its verdict is to go on, it came back to a position. -/
  last : Run κ doc (Verdict α β)
  /-- The events of all rounds. -/
  log : List (Event κ)

namespace Trail

variable {κ : Type} {doc : Document} {α β : Type}

/-- Where the last round started, in a loop that started at `c`. -/
def lastStart (t : Trail κ doc α β) (c : Cursor doc) : Cursor doc :=
  (t.kept.getLast?.map (·.2)).getD c

/-- How many rounds there were. -/
def rounds (t : Trail κ doc α β) : Nat := t.kept.length + 1

end Trail

namespace Action

variable {κ : Type} {doc : Document} {α β : Type}

/-- The rounds of a loop that is at `c` and has been at the visited positions. -/
def trail (round : Action κ doc (Verdict α β)) (visited : List (Cursor doc)) (c : Cursor doc) :
    Trail κ doc α β :=
  match round c with
  | ⟨.ok (.again a), c', log⟩ =>
    if c' ∈ visited then { last := ⟨.ok (.again a), c', log⟩, log }
    else
      let t := trail round (c' :: visited) c'
      { t with kept := (a, c') :: t.kept, log := log ++ t.log }
  | r => { last := r, log := r.log }
termination_by Document.unvisited visited
decreasing_by exact Document.unvisited_cons_lt ‹_›

end Action

end SExprNav
