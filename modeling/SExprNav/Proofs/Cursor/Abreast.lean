import SExprNav.Proofs.Cursor.Correspondence
import SExprNav.Proofs.Cursor.Landing
import SExprNav.Proofs.Forest.Alike

/-!
# Cursors abreast

Two documents may differ in their blanks, comments and delimiters and still have tokens of the same
kinds in the same order, comments apart. Two cursors are abreast when they are at the starts of
tokens with the same index. Steps keep them abreast: a step is possible for both or for none, and
where the two lead is abreast again. So cursors abreast are at the same boundaries.

## Key results

- `Document.matching`: the starts of tokens with the same index are matched in order
- `Document.alike_forest`: documents with the same kinds of tokens have forests alike
- `Cursor.Abreast.step?`: steps keep cursors abreast
- `Cursor.Abreast.go`: so do several steps, and as many of them are possible
- `Cursor.Abreast.holds_eq`: cursors abreast are at the same boundaries
-/

namespace SExprNav

namespace Document

/-- The tokens that are no comments. -/
def significant (doc : Document) : List Token := doc.tokens.filter fun t => t.kind ≠ .comment

/-- Where the token with index `k` starts, comments not counted. -/
def landmark? (doc : Document) (k : Nat) : Option Nat := doc.significant[k]?.map (·.start)

/-- The two documents have tokens of the same kinds in the same order, comments apart. -/
def SameKinds (d e : Document) : Prop :=
  d.significant.map (·.kind) = e.significant.map (·.kind)

instance (d e : Document) : Decidable (d.SameKinds e) :=
  inferInstanceAs (Decidable (_ = _))

/-- Tokens with the same index start at the two positions. -/
def Matched (d e : Document) (p q : Nat) : Prop :=
  ∃ k, d.landmark? k = some p ∧ e.landmark? k = some q

variable {d e doc : Document} {j k p q : Nat}

theorem landmark?_eq_some (h : doc.landmark? k = some p) :
    ∃ t ∈ doc.tokens, t.kind ≠ .comment ∧ t.start = p ∧ doc.significant[k]? = some t := by
  obtain ⟨t, ht, hstart⟩ := Option.map_eq_some_iff.mp h
  have hmem := List.mem_filter.mp (List.mem_of_getElem? ht)
  exact ⟨t, hmem.1, of_decide_eq_true hmem.2, hstart, ht⟩

theorem landmark?_lt (h : doc.landmark? k = some p) : p < doc.length := by
  obtain ⟨t, ht, -, hstart, -⟩ := landmark?_eq_some h
  have := doc.laid_tokens.bounds t ht
  omega

theorem landmark?_strictMono (hj : doc.landmark? j = some p) (hk : doc.landmark? k = some q)
    (hlt : j < k) : p < q := by
  obtain ⟨t, ht, -, rfl, htj⟩ := landmark?_eq_some hj
  obtain ⟨u, -, -, rfl, huk⟩ := landmark?_eq_some hk
  have hpairwise : doc.significant.Pairwise fun t u => t.stop ≤ u.start :=
    doc.laid_tokens.pairwise.filter _
  have hb := doc.laid_tokens.bounds t ht
  obtain ⟨hj', rfl⟩ := List.getElem?_eq_some_iff.mp htj
  obtain ⟨hk', rfl⟩ := List.getElem?_eq_some_iff.mp huk
  have := List.pairwise_iff_getElem.mp hpairwise j k hj' hk' hlt
  omega

/-- Tokens start in the order of their indices. -/
theorem landmark?_lt_iff (hj : doc.landmark? j = some p) (hk : doc.landmark? k = some q) :
    p < q ↔ j < k := by
  constructor
  · intro hlt
    by_contra hle
    cases Nat.lt_or_eq_of_le (Nat.le_of_not_lt hle) with
    | inl hkj =>
      have := landmark?_strictMono hk hj hkj
      omega
    | inr hkj =>
      subst hkj
      rw [hj] at hk
      cases hk
      omega
  · exact landmark?_strictMono hj hk

/-- The starts of tokens with the same index are matched in order. -/
theorem matching (d e : Document) : Matching (d.Matched e) d.length e.length := by
  constructor
  · rintro p p' q q' ⟨j, hp, hp'⟩ ⟨k, hq, hq'⟩
    rw [landmark?_lt_iff hp hq, landmark?_lt_iff hp' hq']
  · rintro p p' ⟨k, hp, hp'⟩
    exact ⟨landmark?_lt hp, landmark?_lt hp'⟩

/-- The tokens with the same index are alike. -/
theorem SameKinds.forall₂ (h : d.SameKinds e) :
    List.Forall₂ (Token.Alike (d.Matched e)) d.significant e.significant := by
  have hlength : d.significant.length = e.significant.length := by
    simpa using congrArg List.length h
  rw [List.forall₂_iff_get]
  refine ⟨hlength, fun k hk hk' => ⟨?_, k, ?_, ?_⟩⟩
  · have := congrArg (·[k]?) h
    simpa [List.getElem?_map, List.getElem?_eq_getElem hk, List.getElem?_eq_getElem hk'] using this
  · simp [landmark?, List.getElem?_eq_getElem hk]
  · simp [landmark?, List.getElem?_eq_getElem hk']

/-- Documents with the same kinds of tokens have forests alike. -/
theorem alike_forest (h : d.SameKinds e) :
    d.forest.Alike (d.Matched e) d.length e.length e.forest := by
  rw [d.forest_eq_ofTokens, e.forest_eq_ofTokens]
  exact Forest.alike_ofTokens h.forall₂

end Document

namespace Cursor

open Document (SameKinds)

variable {d e doc : Document}

/-- What is at the cursor is told by the token that starts there. -/
theorem onToken_eq {c : Cursor doc} {t : Token} (ht : t ∈ doc.tokens) (hstart : t.start = c.pos)
    (kind : Token.Kind) : c.onToken kind = decide (t.kind = kind) := by
  rw [Bool.eq_iff_iff, decide_eq_true_iff]
  constructor
  · intro h
    obtain ⟨u, hu, hkind, hstart'⟩ := exists_token_of_onToken h
    rw [doc.laid_tokens.eq_of_start_eq ht hu (by omega), hkind]
  · intro hkind
    unfold onToken
    rw [List.any_eq_true]
    exact ⟨t, ht, by simp [hkind, hstart]⟩

/-- The two cursors are at the starts of tokens with the same index. -/
def Abreast (c : Cursor d) (c' : Cursor e) : Prop := d.Matched e c.pos c'.pos

theorem abreast_biUnique : Relator.BiUnique (Abreast : Cursor d → Cursor e → Prop) := by
  constructor
  · intro c c₁ c' h h₁
    exact Cursor.ext (((d.matching e).eq_iff h h₁).mpr rfl)
  · intro c c' c₁ h h₁
    exact Cursor.ext (((d.matching e).eq_iff h h₁).mp rfl)

theorem abreast_cursorAt {p q : Nat} (h : d.Matched e p q) :
    Abreast (d.cursorAt p) (e.cursorAt q) := by
  have hlt := (d.matching e).lt_ends h
  unfold Abreast
  rw [Document.pos_cursorAt, Document.pos_cursorAt, Nat.min_eq_left (by omega),
    Nat.min_eq_left (by omega)]
  exact h

/-- Searches of related lists for related things find related things. -/
private theorem rel_find? {α β : Type} {P : α → β → Prop} {l : List α} {l' : List β}
    {f : α → Bool} {g : β → Bool} (h : List.Forall₂ P l l') (hfg : ∀ a b, P a b → f a = g b) :
    (l.find? f).Rel P (l'.find? g) := by
  induction h with
  | nil => exact .none
  | @cons a b l l' hab _ ih =>
    rw [List.find?_cons, List.find?_cons, hfg a b hab]
    cases g b with
    | true => exact .some hab
    | false => exact ih

/-- The first elements of related lists are related. -/
private theorem rel_head? {α β : Type} {P : α → β → Prop} {l : List α} {l' : List β}
    (h : List.Forall₂ P l l') : l.head?.Rel P l'.head? := by
  cases h with
  | nil => exact .none
  | cons hab _ => exact .some hab

/-- The starts of expressions alike are abreast, if the expressions can be skipped over. -/
theorem rel_bind_startOf? {x x' : Option Span} (h : x.Rel (Span.Alike (d.Matched e)) x') :
    (x.bind d.startOf?).Rel Abreast (x'.bind e.startOf?) := by
  cases h with
  | none => exact .none
  | @some s s' hs =>
    simp only [Option.bind_some, Document.startOf?, hs.closed]
    split
    · exact .some (abreast_cursorAt hs.start)
    · exact .none

namespace Abreast

variable {c : Cursor d} {c' : Cursor e}

/-- No comment starts where another token does. -/
theorem onCommentLine_eq (hc : Abreast c c') :
    c.onCommentLine = false ∧ c'.onCommentLine = false := by
  obtain ⟨k, hp, hq⟩ := hc
  obtain ⟨t, ht, hkind, hstart, -⟩ := Document.landmark?_eq_some hp
  obtain ⟨u, hu, hkind', hstart', -⟩ := Document.landmark?_eq_some hq
  unfold onCommentLine onComment
  rw [onToken_eq ht hstart, onToken_eq hu hstart']
  simp [hkind, hkind']

variable (h : d.SameKinds e) (hc : Abreast c c')

include h hc

/-- An opening delimiter is at both cursors, or at none. -/
theorem onOpening_eq : c.onOpening = c'.onOpening := by
  obtain ⟨k, hp, hq⟩ := hc
  obtain ⟨t, ht, -, hstart, htk⟩ := Document.landmark?_eq_some hp
  obtain ⟨u, hu, -, hstart', huk⟩ := Document.landmark?_eq_some hq
  have hkind : t.kind = u.kind := by
    have := congrArg (·[k]?) h
    simpa [List.getElem?_map, htk, huk] using this
  unfold onOpening
  rw [onToken_eq ht hstart, onToken_eq hu hstart', hkind]

theorem level : List.Forall₂ (Span.Alike (d.Matched e)) c.level c'.level :=
  ((Document.alike_forest h).level fun he => (d.matching e).encloses_eq he hc).spans

theorem next? : c.next?.Rel Abreast c'.next? := by
  rw [next?_eq, next?_eq]
  apply rel_bind_startOf?
  apply rel_find? (level h hc)
  intro s s' hs
  simp only [(d.matching e).lt_iff hc hs.start]

theorem previous? : c.previous?.Rel Abreast c'.previous? := by
  rw [previous?_eq, previous?_eq]
  have hfind := rel_find? (List.forall₂_reverse_iff.mpr (level h hc))
    (f := fun s => decide (s.start < c.pos)) (g := fun s => decide (s.start < c'.pos))
    fun s s' hs => by simp only [(d.matching e).lt_iff hs.start hc]
  generalize c.level.reverse.find? _ = x, c'.level.reverse.find? _ = x' at hfind
  cases hfind with
  | none => exact .none
  | some hs => exact .some (abreast_cursorAt hs.start)

theorem leave? : c.leave?.Rel Abreast c'.leave? := by
  have hin := (Document.alike_forest h).innermost? fun he => (d.matching e).encloses_eq he hc
  unfold Cursor.leave? ascend?
  generalize d.forest.innermost? c.pos = x, e.forest.innermost? c'.pos = x' at hin
  cases hin with
  | none => exact .none
  | some hx => exact .some (abreast_cursorAt hx.extent.opening)

/-- The first expressions inside the lists at the cursors are abreast. -/
theorem firstChild? : c.firstChild?.Rel Abreast c'.firstChild? := by
  have hlt := (d.matching e).lt_ends hc
  have hpos : (d.cursorAt (c.pos + 1)).pos = c.pos + 1 := Nat.min_eq_left (by omega)
  have hpos' : (e.cursorAt (c'.pos + 1)).pos = c'.pos + 1 := Nat.min_eq_left (by omega)
  have hlevel := (Document.alike_forest h).level fun he => (d.matching e).encloses_succ_eq he hc
  unfold Cursor.firstChild? Cursor.level
  rw [hpos, hpos']
  exact rel_bind_startOf? (rel_head? hlevel.spans)

theorem enter? : c.enter?.Rel Abreast c'.enter? := by
  have hcomment := onCommentLine_eq hc
  rw [enter?_eq, enter?_eq, hcomment.1, hcomment.2, onOpening_eq h hc]
  cases c'.onOpening with
  | true => exact firstChild? h hc
  | false => exact .none

/-- A step is possible for both cursors or for none, and keeps them abreast. -/
theorem step? (dir : Direction) : (step? dir c).Rel Abreast (step? dir c') := by
  cases dir with
  | forward => exact next? h hc
  | backward => exact previous? h hc
  | inward => exact enter? h hc
  | outward => exact leave? h hc

omit hc in
theorem stepsKeep : StepsKeep (Abreast : Cursor d → Cursor e → Prop) := ⟨fun hc dir => step? h hc dir⟩

/-- The same part of a move is achieved from both cursors, and keeps them abreast. -/
theorem go (dir : Direction) (n : Nat) :
    (c.go dir n).Rel (fun r r' => r.1 = r'.1 ∧ Abreast r.2 r'.2) (c'.go dir n) :=
  (stepsKeep h).go hc dir n

/-- Cursors abreast are at the same boundaries. -/
theorem holds_eq (b : Boundary) : b.holds c = b.holds c' := by
  have hcomment := onCommentLine_eq hc
  have hempty : c.onEmptyList = c'.onEmptyList := by
    rw [onEmptyList_eq, onEmptyList_eq, onOpening_eq h hc, isNone_eq (firstChild? h hc)]
  exact (stepsKeep h).holds_eq hc hempty (hcomment.1.trans hcomment.2.symm) b

end Abreast

end Cursor

end SExprNav
