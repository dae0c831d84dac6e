import SExprNav.Proofs.Cursor.Repetition

/-!
# Where moves to the side lead

Steps forward lead from anywhere to the expressions of the level that start after the cursor, one
after another, up to the first that nothing closes. Steps backward lead to those that start before
the cursor, from the last one on. So what is achieved of a move to the side is told by the number of
expressions there, and the move leads to the start of one of them.

## Key results

- `Cursor.along_next?`, `Cursor.along_previous?`: the rows along which steps to the side lead
- `Cursor.go_sideways`: what is achieved of a move to the side, and where it leads
-/

namespace SExprNav

variable {κ : Type} {doc : Document}

/-- The expressions of a level start one after another. -/
theorem Row.start_pairwise {length : Nat} {spans : List Span} (h : Row length spans) :
    spans.Pairwise fun s t => s.start < t.start := by
  apply h.apart.imp_of_mem
  intro s t hs _ hle
  have hne := h.nonempty s hs
  omega

namespace Cursor

variable {c : Cursor doc} {rest : List Span} {s : Span}

/-- The expressions of the level that start after the cursor, in order. -/
def startingAfter (c : Cursor doc) : List Span := c.level.filter fun s => decide (c.pos < s.start)

/-- The expressions of the level that start before the cursor, in order. -/
def startingBefore (c : Cursor doc) : List Span := c.level.filter fun s => decide (s.start < c.pos)

/-! ## Forward -/

/-- From the start of the next expression, those after it are left. -/
theorem startingAfter_startOf (h : c.startingAfter = s :: rest) :
    (doc.startOf s).startingAfter = rest := by
  have hmem : s ∈ c.startingAfter := by simp [h]
  obtain ⟨hs, hlt⟩ := List.mem_filter.mp hmem
  have hpos := Document.pos_startOf_of_level hs
  have hlevel := Document.level_startOf hs
  -- What starts after `s` starts after the cursor, too.
  have hfilter : (doc.startOf s).startingAfter =
      c.startingAfter.filter fun t => decide (s.start < t.start) := by
    unfold startingAfter
    rw [hpos, hlevel, List.filter_filter]
    apply List.filter_congr
    intro t _
    simp only [decide_eq_true_eq] at hlt
    simp
    omega
  have hsorted : (s :: rest).Pairwise fun s t => s.start < t.start :=
    h ▸ c.row.start_pairwise.filter _
  have hlater := (List.pairwise_cons.mp hsorted).1
  rw [hfilter, h, List.filter_cons_of_neg (by simp), List.filter_eq_self]
  simpa using hlater

/-- Steps forward lead along the expressions that start after the cursor, up to the first that
    nothing closes. -/
theorem along_next? (c : Cursor doc) :
    Along next? (c :: (c.startingAfter.takeWhile (·.closed)).map doc.startOf) none := by
  apply along_map fun c => c.startingAfter.takeWhile (·.closed)
  · intro c
    rw [next?_eq, ← List.head?_filter]
    show c.startingAfter.head?.bind _ = _
    cases c.startingAfter with
    | nil => rfl
    | cons s rest => cases hclosed : s.closed <;> simp [Document.startOf?, Document.startOf, hclosed]
  · intro c s rest hrow
    cases hafter : c.startingAfter with
    | nil => simp [hafter] at hrow
    | cons t after =>
      cases hclosed : t.closed with
      | false => simp [hafter, hclosed] at hrow
      | true =>
        simp only [hafter, List.takeWhile_cons, hclosed, if_true, List.cons.injEq] at hrow
        obtain ⟨rfl, hrest⟩ := hrow
        rw [startingAfter_startOf hafter, hrest]

/-! ## Backward -/

/-- From the start of the previous expression, those before it are left. -/
theorem startingBefore_startOf (h : c.startingBefore.reverse = s :: rest) :
    (doc.startOf s).startingBefore.reverse = rest := by
  have hmem : s ∈ c.startingBefore := by
    rw [← List.mem_reverse, h]
    exact List.mem_cons_self
  obtain ⟨hs, hlt⟩ := List.mem_filter.mp hmem
  have hpos := Document.pos_startOf_of_level hs
  have hlevel := Document.level_startOf hs
  -- What starts before `s` starts before the cursor, too.
  have hfilter : (doc.startOf s).startingBefore =
      c.startingBefore.filter fun t => decide (t.start < s.start) := by
    unfold startingBefore
    rw [hpos, hlevel, List.filter_filter]
    apply List.filter_congr
    intro t _
    simp only [decide_eq_true_eq] at hlt
    simp
    omega
  have hsorted : (s :: rest).Pairwise fun s t => t.start < s.start := by
    rw [← h, List.pairwise_reverse]
    exact c.row.start_pairwise.filter _
  have hearlier := (List.pairwise_cons.mp hsorted).1
  rw [hfilter, ← List.filter_reverse, h, List.filter_cons_of_neg (by simp), List.filter_eq_self]
  simpa using hearlier

/-- Steps backward lead along the expressions that start before the cursor, from the last one on. -/
theorem along_previous? (c : Cursor doc) :
    Along previous? (c :: c.startingBefore.reverse.map doc.startOf) none := by
  apply along_map fun c => c.startingBefore.reverse
  · intro c
    rw [previous?_eq, ← List.head?_filter, List.filter_reverse]
    rfl
  · exact startingBefore_startOf

/-! ## Moves -/

/-- Along the starts of some expressions of the level, a move achieves as many of its steps as there
    are expressions, and leads to the start of the one with that number. -/
theorem Along.yields_go (dir : Direction) {row : List Span} (hrow : ∀ s ∈ row, s ∈ c.level)
    (h : Along (step? dir) (c :: row.map doc.startOf) none) (n : Nat) :
    let k := min n row.length
    let move : Action κ doc (Option Move) := Action.go dir n
    if k = 0 then move.Yields c none c
    else ∃ s, row[k - 1]? = some s ∧ (doc.startOf s).pos = s.start ∧
      move.Yields c (some (dir.move k)) (doc.startOf s) := by
  intro k move
  have hgo := @yields_go_map doc c dir κ Span row doc.startOf h n
  by_cases hk : k = 0
  · rw [if_pos hk] at hgo ⊢
    exact hgo
  · rw [if_neg hk] at hgo ⊢
    obtain ⟨s, hs, hyields⟩ := hgo
    have hmem : s ∈ c.level := hrow s (List.mem_of_getElem? hs)
    exact ⟨s, hs, Document.pos_startOf_of_level hmem, hyields⟩

/-- A move forward achieves as many of its steps as there are expressions after the cursor, up to the
    first that nothing closes, and leads to the start of the last one that it counts. A move backward
    achieves as many of its steps as there are expressions before the cursor, and leads to the start
    of the one with this number from the end. Without an expression to go to, the cursor stays. -/
theorem go_sideways (c : Cursor doc) (n : Nat) :
    (let k := min n (c.startingAfter.takeWhile (·.closed)).length
     let forward : Action κ doc (Option Move) := Action.go .forward n
     if k = 0 then forward.Yields c none c
     else ∃ s, c.startingAfter[k - 1]? = some s ∧ (doc.startOf s).pos = s.start ∧
       forward.Yields c (some ⟨k, 0⟩) (doc.startOf s)) ∧
    (let k := min n c.startingBefore.length
     let backward : Action κ doc (Option Move) := Action.go .backward n
     if k = 0 then backward.Yields c none c
     else ∃ s, c.startingBefore[c.startingBefore.length - k]? = some s ∧
       (doc.startOf s).pos = s.start ∧ backward.Yields c (some ⟨-k, 0⟩) (doc.startOf s)) := by
  constructor
  · intro k forward
    -- The row is the one up to the first expression that nothing closes, a prefix of what is after.
    have hinitial := List.takeWhile_prefix (l := c.startingAfter) (·.closed)
    have hlevel : ∀ s ∈ c.startingAfter.takeWhile (·.closed), s ∈ c.level :=
      fun s hs => (List.mem_filter.mp (List.IsPrefix.subset hinitial hs)).1
    have hgo := @Along.yields_go κ doc c .forward _ hlevel c.along_next? n
    by_cases hk : k = 0
    · rw [if_pos hk] at hgo ⊢
      exact hgo
    · rw [if_neg hk] at hgo ⊢
      obtain ⟨s, hs, hpos, hyields⟩ := hgo
      have hmove : Direction.forward.move k = ⟨k, 0⟩ := Direction.move_eq .forward k
      obtain ⟨rest, hrest⟩ := hinitial
      have hafter : c.startingAfter[k - 1]? = some s := by
        rw [← hrest, List.getElem?_append_left (by omega), hs]
      exact ⟨s, hafter, hpos, hmove ▸ hyields⟩
  · intro k backward
    -- A step backward does not ask what closes, so the row is all of it, the nearest one first.
    have hlevel : ∀ s ∈ c.startingBefore.reverse, s ∈ c.level :=
      fun s hs => (List.mem_filter.mp (List.mem_reverse.mp hs)).1
    have hgo := @Along.yields_go κ doc c .backward _ hlevel c.along_previous? n
    rw [List.length_reverse] at hgo
    by_cases hk : k = 0
    · rw [if_pos hk] at hgo ⊢
      exact hgo
    · rw [if_neg hk] at hgo ⊢
      obtain ⟨s, hs, hpos, hyields⟩ := hgo
      have hmove : Direction.backward.move k = ⟨-k, 0⟩ := Direction.move_eq .backward k
      have hbefore : c.startingBefore[c.startingBefore.length - k]? = some s := by
        rw [← hs, List.getElem?_reverse (by omega)]
        congr 1
        omega
      exact ⟨s, hbefore, hpos, hmove ▸ hyields⟩

end Cursor

end SExprNav
