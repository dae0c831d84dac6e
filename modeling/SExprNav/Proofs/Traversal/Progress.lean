import Mathlib.Data.List.Perm.Subperm
import SExprNav.Proofs.Cursor.Reach
import SExprNav.Proofs.Traversal.Movement

/-!
# Walks come to an end

Each of the depth-first walks has an order in which it comes to positions, so it never comes to one
twice, wherever it starts. In preorder, it is the order of the positions themselves. In postorder,
what counts is how far a cursor reaches: of two cursors that reach equally far, the outer one comes
later. Going backward in postorder, a walk may start on a comment line and go from there to anywhere
in the text; after that, each cursor reaches less far than the one before it.

## Key results

- `Cursor.pos_lt_of_preorder?`, `Cursor.pos_lt_of_preorderBackward?`: walks in preorder
- `Cursor.later_of_postorder?`, `Cursor.earlier_of_postorderBackward?`: walks in postorder
- `Action.Follows.walkEnds`: a walk that goes along a strict order comes to an end
- `Standard.walks_end`: the depth-first walks end, and never come to a position twice
-/

namespace SExprNav

variable {κ : Type} {doc : Document}

namespace Cursor

variable {b c d : Cursor doc}

/-! ## The order of a walk -/

/-- A walk in preorder goes to the right. -/
theorem pos_lt_of_preorder? (h : c.preorder? = some d) : c.pos < d.pos := by
  unfold preorder? at h
  rcases Option.or_eq_some_iff.mp h with h | ⟨-, h⟩
  · exact pos_enter?_lt h
  rcases Option.or_eq_some_iff.mp h with h | ⟨-, h⟩
  · exact pos_next?_lt h
  · -- The lists that are left all reach at least to where the walk is, and the step forward
    -- leads beyond that.
    obtain ⟨b, hb, hnext⟩ := Advance.seek_induction (P := fun b => c.pos ≤ b.reach)
      (fun ha hstep => Nat.le_trans ha (reach_le_of_leave? hstep)) c.pos_le_reach h
    exact Nat.lt_of_le_of_lt hb (reach_lt_of_next? hnext)

/-- A descent from the start of an expression ends at one, and does not reach farther. -/
theorem reach_le_of_descent (h : c.AtStart) :
    ((Advance.descent doc).farthest c).AtStart ∧
      ((Advance.descent doc).farthest c).reach ≤ c.reach := by
  refine Advance.farthest_induction (m := Advance.descent doc)
    (P := fun b => b.AtStart ∧ b.reach ≤ c.reach) ?_ ⟨h, Nat.le_refl _⟩
  rintro a b ⟨ha, hle⟩ hstep
  obtain ⟨hb, hlt⟩ := reach_lt_of_lastChild? ha.not_onCommentLine hstep
  exact ⟨hb, by omega⟩

/-- A walk backward in preorder goes to the left. -/
theorem pos_lt_of_preorderBackward? (h : c.preorderBackward? = some d) : d.pos < c.pos := by
  unfold preorderBackward? at h
  rcases Option.or_eq_some_iff.mp h with h | ⟨-, h⟩
  · obtain ⟨b, hb, rfl⟩ := Option.map_eq_some_iff.mp h
    obtain ⟨s, hs, -, hpos⟩ := exists_span_of_previous? hb
    have hlt := reach_lt_of_previous? hb
    have hle := (reach_le_of_descent (atStart_of_mem hs hpos)).2
    have hpos := ((Advance.descent doc).farthest b).pos_le_reach
    omega
  · exact pos_leave?_lt h

/-- A walk in postorder comes to `d` after it comes to `c`. -/
def Later (c d : Cursor doc) : Prop := c.reach < d.reach ∨ c.reach = d.reach ∧ d.pos < c.pos

theorem Later.trans (h : b.Later c) (h' : c.Later d) : b.Later d := by
  unfold Later at *
  omega

theorem not_later_self (c : Cursor doc) : ¬ c.Later c := by
  unfold Later
  omega

/-- A walk in postorder goes to where its cursor reaches farther, or outward. -/
theorem later_of_postorder? (h : c.postorder? = some d) : c.Later d := by
  unfold postorder? at h
  rcases Option.or_eq_some_iff.mp h with h | ⟨-, h⟩
  · obtain ⟨b, hb, rfl⟩ := Option.map_eq_some_iff.mp h
    have hlt := reach_lt_of_next? hb
    have hle := Advance.pos_le_farthest_inward b
    have hpos := ((Advance.inward doc).farthest b).pos_le_reach
    exact .inl (by omega)
  · have hle := reach_le_of_leave? h
    have hlt := pos_leave?_lt h
    rcases Nat.lt_or_eq_of_le hle with hreach | hreach
    · exact .inl hreach
    · exact .inr ⟨hreach, hlt⟩

/-- A walk backward in postorder comes to `d` after it comes to `c`. It does not come to comment
    lines, but may start at one. -/
def Earlier (c d : Cursor doc) : Prop :=
  d.onCommentLine = false ∧ (c.onCommentLine = true ∨ d.reach < c.reach)

theorem Earlier.trans (h : b.Earlier c) (h' : c.Earlier d) : b.Earlier d := by
  obtain ⟨hc, hb⟩ := h
  obtain ⟨hd, hc'⟩ := h'
  refine ⟨hd, ?_⟩
  rcases hc' with hline | hlt'
  · rw [hc] at hline
    cases hline
  · rcases hb with hline | hlt
    · exact .inl hline
    · exact .inr (by omega)

theorem not_earlier_self (c : Cursor doc) : ¬ c.Earlier c := by
  rintro ⟨hc, hline | hlt⟩
  · rw [hc] at hline
    cases hline
  · omega

/-- What a step backward leads to is no comment line, and does not reach back. -/
theorem earlier_of_previous? (hle : b.pos ≤ c.reach) (h : b.previous? = some d) : c.Earlier d := by
  obtain ⟨s, hs, -, hpos⟩ := exists_span_of_previous? h
  have hlt := reach_lt_of_previous? h
  exact ⟨(atStart_of_mem hs hpos).not_onCommentLine, .inr (by omega)⟩

/-- The next opening delimiter of the text is not a comment. -/
theorem onCommentLine_of_flow? (h : c.flow? = some d) : d.onCommentLine = false := by
  obtain ⟨t, ht, rfl⟩ := Option.map_eq_some_iff.mp h
  have hmem := List.mem_of_find?_eq_some ht
  have hb := doc.laid_tokens.bounds t hmem
  have hkind := List.find?_some ht
  simp only [Bool.and_eq_true, decide_eq_true_eq] at hkind
  apply onCommentLine_of_onOpening
  unfold onOpening
  rw [onToken_eq hmem, hkind.1]
  · rfl
  · rw [Document.pos_cursorAt]
    omega

/-- Steps forward do not lead to comment lines. -/
theorem onCommentLine_of_farthest_forward (h : c.onCommentLine = false) :
    ((Advance.forward doc).farthest c).onCommentLine = false := by
  refine Advance.farthest_induction (m := Advance.forward doc)
    (P := fun b => b.onCommentLine = false) ?_ h
  intro a b _ hstep
  obtain ⟨s, hs, -, -, hpos⟩ := exists_span_of_next? hstep
  exact (atStart_of_mem hs hpos).not_onCommentLine

/-- A walk backward in postorder goes to where its cursor reaches less far, except from comment
    lines. -/
theorem earlier_of_postorderBackward? (h : c.postorderBackward? = some d) : c.Earlier d := by
  unfold postorderBackward? at h
  rcases Option.or_eq_some_iff.mp h with h | ⟨-, h⟩
  · cases hline : c.onCommentLine with
    | false =>
      obtain ⟨hstart, hlt⟩ := reach_lt_of_lastChild? hline h
      exact ⟨hstart.not_onCommentLine, .inr hlt⟩
    | true =>
      obtain ⟨b, hb, rfl⟩ := Option.map_eq_some_iff.mp h
      rw [enter?_eq, hline, if_pos rfl] at hb
      exact ⟨onCommentLine_of_farthest_forward (onCommentLine_of_flow? hb), .inl hline⟩
  rcases Option.or_eq_some_iff.mp h with h | ⟨-, h⟩
  · exact earlier_of_previous? c.pos_le_reach h
  · -- The lists that are left open before the cursor where the walk is.
    obtain ⟨b, hb, hprevious⟩ := Advance.seek_induction (P := fun b => b.pos ≤ c.reach)
      (fun ha hstep => Nat.le_trans (Nat.le_of_lt (pos_leave?_lt hstep)) ha) c.pos_le_reach h
    exact earlier_of_previous? hb hprevious

/-! ## Paths -/

/-- The cursors that a movement comes to from `c` on when it is made up to `limit` times, and
    whether it was not possible in the end. -/
def path (f : Cursor doc → Option (Cursor doc)) :
    (limit : Nat) → Cursor doc → List (Cursor doc) × Bool
  | 0, c => ([c], false)
  | limit + 1, c =>
    match f c with
    | none => ([c], true)
    | some d => (c :: (path f limit d).1, (path f limit d).2)

variable {f : Cursor doc → Option (Cursor doc)}

theorem path_of_none (h : f c = none) (limit : Nat) : path f (limit + 1) c = ([c], true) := by
  rw [path, h]

theorem path_of_some (h : f c = some d) (limit : Nat) :
    path f (limit + 1) c = (c :: (path f limit d).1, (path f limit d).2) := by
  rw [path, h]

/-- A path that does not end is as long as it may be. -/
theorem length_path (limit : Nat) (c : Cursor doc) (h : (path f limit c).2 = false) :
    (path f limit c).1.length = limit + 1 := by
  induction limit generalizing c with
  | zero => rfl
  | succ limit ih =>
    cases hf : f c with
    | none =>
      rw [path_of_none hf] at h
      cases h
    | some d =>
      rw [path_of_some hf] at h ⊢
      rw [List.length_cons, ih d h]

/-- A path that ends is not longer with a higher limit. -/
theorem path_of_ended {limit limit' : Nat} (hle : limit ≤ limit') (c : Cursor doc)
    (h : (path f limit c).2 = true) : path f limit' c = path f limit c := by
  induction limit generalizing limit' c with
  | zero => cases h
  | succ limit ih =>
    obtain ⟨k, rfl⟩ := Nat.exists_eq_add_of_lt hle
    cases hf : f c with
    | none => rw [path_of_none hf, path_of_none hf]
    | some d =>
      rw [path_of_some hf] at h
      rw [path_of_some hf, path_of_some hf, ih (by omega) d h]

section Order

variable {R : Cursor doc → Cursor doc → Prop}

/-- A movement along an order leads along a path in that order. -/
theorem path_pairwise (htrans : ∀ {a b c : Cursor doc}, R a b → R b c → R a c)
    (hstep : ∀ {c d}, f c = some d → R c d) (limit : Nat) (c : Cursor doc) :
    (path f limit c).1.Pairwise R ∧ ∀ d ∈ (path f limit c).1, d = c ∨ R c d := by
  induction limit generalizing c with
  | zero => simp [path]
  | succ limit ih =>
    cases hf : f c with
    | none =>
      rw [path_of_none hf]
      simp
    | some d =>
      rw [path_of_some hf]
      obtain ⟨hpairwise, hafter⟩ := ih d
      have hfirst : ∀ b ∈ (path f limit d).1, R c b := by
        intro b hb
        rcases hafter b hb with rfl | hR
        · exact hstep hf
        · exact htrans (hstep hf) hR
      refine ⟨List.pairwise_cons.mpr ⟨hfirst, hpairwise⟩, ?_⟩
      exact List.forall_mem_cons.mpr ⟨.inl rfl, fun b hb => .inr (hfirst b hb)⟩

end Order

/-- There are not more cursors than positions in the text. -/
theorem length_le_of_nodup {l : List (Cursor doc)} (h : (l.map (·.pos)).Nodup) :
    l.length ≤ doc.length + 1 := by
  have hsub : l.map (·.pos) ⊆ List.range (doc.length + 1) := by
    intro p hp
    obtain ⟨c, -, rfl⟩ := List.mem_map.mp hp
    exact List.mem_range.mpr (Nat.lt_succ_of_le c.pos_le)
  have hle := (List.Nodup.subperm h hsub).length_le
  rwa [List.length_map, List.length_range] at hle

end Cursor

/-! ## Walks -/

namespace Action

open Cursor (path)

variable {x : Action κ doc Executed} {f : Cursor doc → Option (Cursor doc)}

/-- Made again and again, an action goes along the path of the movement that it follows. -/
theorem Follows.walk (hx : x.Follows f) (limit : Nat) (c : Cursor doc) :
    (x.walk limit c).answer = .ok ((path f limit c).1.map (·.pos), (path f limit c).2) := by
  suffices h : ∃ d, (x.walk limit).Yields c
      ((path f limit c).1.map (·.pos), (path f limit c).2) d by
    obtain ⟨d, h⟩ := h
    exact h.1
  induction limit generalizing c with
  | zero =>
    refine ⟨c, ?_⟩
    unfold Action.walk
    exact yields_bind_iff.mpr ⟨c.pos, c, yields_ask.mpr ⟨rfl, rfl⟩, yields_pure.mpr ⟨rfl, rfl⟩⟩
  | succ limit ih =>
    unfold Action.walk
    cases hf : f c with
    | none =>
      rw [Cursor.path_of_none hf]
      refine ⟨c, yields_bind_iff.mpr ⟨c.pos, c, yields_ask.mpr ⟨rfl, rfl⟩, ?_⟩⟩
      exact yields_bind_iff.mpr ⟨none, c, hx.failure hf, yields_pure.mpr ⟨rfl, rfl⟩⟩
    | some b =>
      rw [Cursor.path_of_some hf]
      obtain ⟨ms, hms⟩ := hx.success hf
      obtain ⟨d, hd⟩ := ih b
      refine ⟨d, yields_bind_iff.mpr ⟨c.pos, c, yields_ask.mpr ⟨rfl, rfl⟩, ?_⟩⟩
      refine yields_bind_iff.mpr ⟨some ms, b, hms, ?_⟩
      exact yields_map_iff.mpr ⟨_, hd, rfl⟩

/-- Made again and again from `c`, the action fails at some time, and does not come to a position
    twice before that. -/
def WalkEnds (x : Action κ doc Executed) (c : Cursor doc) : Prop :=
  ∃ positions : List Nat, positions.Nodup ∧
    ∀ limit, doc.length < limit → (x.walk limit c).answer = .ok (positions, true)

/-- A walk that goes along a strict order comes to an end. -/
theorem Follows.walkEnds (hx : x.Follows f) {R : Cursor doc → Cursor doc → Prop}
    (htrans : ∀ {a b c : Cursor doc}, R a b → R b c → R a c) (hirrefl : ∀ c, ¬ R c c)
    (hstep : ∀ {c d}, f c = some d → R c d) (c : Cursor doc) : x.WalkEnds c := by
  have hnodup : ∀ limit, ((path f limit c).1.map (·.pos)).Nodup := by
    intro limit
    unfold List.Nodup
    rw [List.pairwise_map]
    refine (Cursor.path_pairwise (R := R) htrans hstep limit c).1.imp ?_
    intro a b hR hpos
    obtain rfl : a = b := Cursor.ext hpos
    exact hirrefl a hR
  -- With more steps than positions the path would come to one of them twice.
  have hended : (path f (doc.length + 1) c).2 = true := by
    by_contra hne
    have hlength := Cursor.length_path _ c (Bool.eq_false_iff.mpr hne)
    have hle := Cursor.length_le_of_nodup (hnodup (doc.length + 1))
    omega
  refine ⟨_, hnodup (doc.length + 1), fun limit hlimit => ?_⟩
  rw [hx.walk limit c, Cursor.path_of_ended hlimit c hended, hended]

end Action

namespace Standard

/-- The depth-first walks, forward and backward. -/
def depthFirst : List Standard := [.preorder, .preorderBackward, .postorder, .postorderBackward]

/-- In every text and from everywhere in it, the depth-first walks come to an end, and they do not
    come to a position twice. Those in preorder go one way only. -/
theorem walks_end (meaning : κ → Action κ doc Bool) (c : Cursor doc) :
    (∀ s ∈ depthFirst, (s.traversal.execute meaning).WalkEnds c) ∧
    (∀ ms d, (Standard.preorder.traversal.execute meaning).Yields c (some ms) d → c.pos < d.pos) ∧
    (∀ ms d, (Standard.preorderBackward.traversal.execute meaning).Yields c (some ms) d →
      d.pos < c.pos) := by
  have hforth := follows_preorder meaning
  have hback := follows_preorderBackward meaning
  refine ⟨?_, ?_, ?_⟩
  · simp only [depthFirst, List.forall_mem_cons]
    refine ⟨?_, ?_, ?_, ?_, nofun⟩
    · exact hforth.walkEnds (R := fun c d => c.pos < d.pos) Nat.lt_trans
        (fun c => Nat.lt_irrefl c.pos) Cursor.pos_lt_of_preorder? c
    · exact hback.walkEnds (R := fun c d => d.pos < c.pos) (fun h h' => Nat.lt_trans h' h)
        (fun c => Nat.lt_irrefl c.pos) Cursor.pos_lt_of_preorderBackward? c
    · exact (follows_postorder meaning).walkEnds (R := Cursor.Later) Cursor.Later.trans
        Cursor.not_later_self Cursor.later_of_postorder? c
    · exact (follows_postorderBackward meaning).walkEnds (R := Cursor.Earlier) Cursor.Earlier.trans
        Cursor.not_earlier_self Cursor.earlier_of_postorderBackward? c
  · exact fun ms d h => Cursor.pos_lt_of_preorder? (hforth.eq_some_of_yields h)
  · exact fun ms d h => Cursor.pos_lt_of_preorderBackward? (hback.eq_some_of_yields h)

/-- Two lists that nothing closes, the outer one behind a quote mark, after a comment. From the
    comment, the walk backward in postorder goes to the last expression and from there outward, and
    ends on the start of the outer list, which is not where that list opens. -/
theorem walk_from_comment_ends :
    let doc := Document.ofText .lisp [';', ' ', '(', '\n', '\'', '(', 'a', ' ', '(', 'b']
    let meaning : Empty → Action Empty doc Bool := Empty.elim
    let walk := (Standard.postorderBackward.traversal.execute meaning).walk (doc.length + 1)
    let step := Standard.preorder.traversal.execute meaning
    (walk (doc.cursorAt 0)).answer = .ok ([0, 5, 6, 4], true) ∧ [0, 5, 6, 4].Nodup ∧
    step.Yields (doc.cursorAt 0) (some [⟨0, 1⟩]) (doc.cursorAt 5) ∧ 0 < 5 := by
  intro doc meaning walk step
  have hwalk : (walk (doc.cursorAt 0)).answer = .ok ([0, 5, 6, 4], true) := by decide +kernel
  have hstep : step.Yields (doc.cursorAt 0) (some [⟨0, 1⟩]) (doc.cursorAt 5) :=
    ⟨by decide +kernel, by decide +kernel⟩
  obtain ⟨hends, hright, -⟩ := walks_end meaning (doc.cursorAt 0)
  refine ⟨hwalk, ?_, hstep, hright _ _ hstep⟩
  obtain ⟨positions, hnodup, hwalks⟩ := hends .postorderBackward (by decide)
  have hsame := Except.ok.inj ((hwalks (doc.length + 1) (Nat.lt_succ_self _)).symm.trans hwalk)
  obtain ⟨rfl, -⟩ := Prod.mk.inj hsame
  exact hnodup

end Standard

end SExprNav
