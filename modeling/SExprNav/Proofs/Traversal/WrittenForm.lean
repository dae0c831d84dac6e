import SExprNav.Proofs.Traversal.Combinators

/-!
# What the written form tells

A traversal is written as the word for its kind and, in parentheses, its parts with commas between
them. Commas stand at every depth, but no written form is the beginning of another one: the word ends
at the parenthesis, a number at the comma or the parenthesis behind it, and what is inside is again
told apart part by part. So the written form tells the whole traversal, except for the conditions,
which are not shown.

The runtime may limit how many digits are written. A traversal has a written form, which is its
`text`, if each of its numbers has; without a limit, every traversal has one.

## Key results

- `Traversal.writes_render`: which traversals have a written form, and what it is
- `Traversal.toList_text`: the word for the kind, and what is in parentheses
- `Traversal.kind_eq_of_text_append`: the beginning of a text tells the kind
- `Traversal.told`: the beginning of a text tells the traversal, and where its written form ends
- `Traversal.render_forget`: conditions are not shown
- `Traversal.render_eq_iff`: traversals that are written alike are the same but for their conditions
-/

namespace SExprNav

/-! ## Numbers in a text -/

namespace Text

variable {c : Char} {x y r s : List Char}

/-- A text is cut in one way at the first place of a character. -/
theorem cut_unique (hx : c ∉ x) (hy : c ∉ y) (h : x ++ c :: r = y ++ c :: s) : x = y ∧ r = s := by
  induction x generalizing y with
  | nil =>
    cases y with
    | nil => exact ⟨rfl, (List.cons.inj h).2⟩
    | cons b y =>
      obtain ⟨rfl, -⟩ := List.cons.inj h
      exact absurd List.mem_cons_self hy
  | cons a x ih =>
    cases y with
    | nil =>
      obtain ⟨rfl, -⟩ := List.cons.inj h
      exact absurd List.mem_cons_self hx
    | cons b y =>
      obtain ⟨rfl, hrest⟩ := List.cons.inj h
      obtain ⟨rfl, hrs⟩ := ih (List.not_mem_of_not_mem_cons hx) (List.not_mem_of_not_mem_cons hy) hrest
      exact ⟨rfl, hrs⟩

/-- A number without a sign is written in digits only. -/
theorem not_mem_repr (hdigit : c.isDigit = false) (n : Nat) : c ∉ n.repr.toList := by
  intro hc
  rw [Nat.repr, String.toList_ofList] at hc
  rw [Nat.isDigit_of_mem_toDigits (by decide) (by decide) hc] at hdigit
  cases hdigit

/-- A whole number is written in digits, with a sign before them if need be. -/
theorem not_mem_repr_int (hdigit : c.isDigit = false) (hsign : c ≠ '-') (n : Int) :
    c ∉ n.repr.toList := by
  cases n with
  | ofNat m => exact not_mem_repr hdigit m
  | negSucc m =>
    show c ∉ ("-" ++ (m + 1).repr).toList
    rw [String.toList_append, List.mem_append]
    rintro (h | h)
    · exact hsign (List.mem_singleton.mp h)
    · exact not_mem_repr hdigit _ h

/-- A number without a sign can be read off its digits. -/
theorem repr_nat_inj {m n : Nat} (h : m.repr = n.repr) : m = n := by
  have hvalue := congrArg (fun w => Nat.ofDigitChars 10 w.toList 0) h
  simpa only [Nat.toList_repr, Nat.ofDigitChars_ten_toDigits] using hvalue

/-- A whole number can be read off its digits and its sign. -/
theorem repr_int_inj {m n : Int} (h : m.repr = n.repr) : m = n := by
  have hsign : ∀ a b : Nat, a.repr ≠ "-" ++ b.repr := by
    intro a b hab
    refine not_mem_repr (c := '-') rfl a ?_
    rw [hab, String.toList_append]
    exact List.mem_append_left _ (List.mem_singleton_self _)
  cases m with
  | ofNat a =>
    cases n with
    | ofNat b => exact congrArg Int.ofNat (repr_nat_inj h)
    | negSucc b => exact absurd h (hsign a (b + 1))
  | negSucc a =>
    cases n with
    | ofNat b => exact absurd h.symm (hsign b (a + 1))
    | negSucc b =>
      have hlist := congrArg String.toList h
      simp only [Int.repr, String.toList_append, List.append_cancel_left_eq] at hlist
      exact congrArg Int.negSucc (Nat.succ.inj (repr_nat_inj (String.toList_inj.mp hlist)))

/-- A number tells where it ends, if a character follows that does not belong to it. -/
theorem repr_unique (hdigit : c.isDigit = false) (hsign : c ≠ '-') {m n : Int}
    (h : m.repr.toList ++ c :: r = n.repr.toList ++ c :: s) : m = n ∧ r = s := by
  obtain ⟨hrepr, hrest⟩ :=
    cut_unique (not_mem_repr_int hdigit hsign m) (not_mem_repr_int hdigit hsign n) h
  exact ⟨repr_int_inj (String.toList_inj.mp hrepr), hrest⟩

end Text

namespace Traversal

variable {κ : Type} {t u : Traversal κ} {ts us : List (Traversal κ)} {r s : List Char}

/-! ## Numbers that can be written -/

/-- How often a circuit is repeated, in digits. -/
def timesText : Option Nat → String
  | none => "None"
  | some n => n.repr

mutual

/-- The written form of a traversal, if all numbers can be written. -/
def text : Traversal κ → String
  | .move m => "Move(x=" ++ m.x.repr ++ ", y=" ++ m.y.repr ++ ")"
  | .maneuver phases => "Maneuver(" ++ ", ".intercalate (textAll phases) ++ ")"
  | .circuit body times => "Circuit(" ++ text body ++ ", times=" ++ timesText times ++ ")"
  | .detour reorientation body => "Detour(" ++ text reorientation ++ ", " ++ text body ++ ")"
  | .precaution body _ _ => "Precaution(" ++ text body ++ ")"
  | .protocol options => "Protocol(" ++ ", ".intercalate (textAll options) ++ ")"

/-- The written forms of some traversals. -/
def textAll : List (Traversal κ) → List String
  | [] => []
  | t :: ts => text t :: textAll ts

end

/-- Traversals in a row are written one by one. -/
theorem textAll_eq_map (ts : List (Traversal κ)) : textAll ts = ts.map text := by
  induction ts with
  | nil => rfl
  | cons t ts ih => rw [textAll, ih, List.map_cons]

mutual

/-- The numbers in a traversal, in the order in which they are written. -/
def numbers : Traversal κ → List Int
  | .move m => [m.x, m.y]
  | .maneuver phases => numbersAll phases
  | .circuit body times => numbers body ++ times.toList.map Int.ofNat
  | .detour reorientation body => numbers reorientation ++ numbers body
  | .precaution body _ _ => numbers body
  | .protocol options => numbersAll options

/-- The numbers in some traversals. -/
def numbersAll : List (Traversal κ) → List Int
  | [] => []
  | t :: ts => numbers t ++ numbersAll ts

end

section Limit

variable {limit : Option Nat} {α β : Type}

/-- What is written succeeds if the numbers can be written, and this is then the result. -/
def Writes (limit : Option Nat) (x : Except Fault α) (ns : List Int) (a : α) : Prop :=
  ∀ b, x = .ok b ↔ (∀ n ∈ ns, Numeral.Fits limit n) ∧ b = a

/-- What holds no number is always written. -/
theorem writes_pure (a : α) : Writes limit (pure a) [] a := by
  intro b
  rw [and_iff_right (List.forall_mem_nil _), eq_comm (a := b)]
  exact Except.ok.injEq a b ▸ Iff.rfl

/-- A number is written if it can be. -/
theorem writes_write (n : Int) : Writes limit (Numeral.write limit n) [n] n.repr := by
  intro w
  rw [Numeral.write_eq_ok_iff, List.forall_mem_singleton]
  exact Iff.rfl

/-- One thing is written and then another: the numbers of both have to be written. -/
theorem Writes.bind {x : Except Fault α} {f : α → Except Fault β} {ms ns : List Int} {a : α} {b : β}
    (hx : Writes limit x ms a) (hf : Writes limit (f a) ns b) :
    Writes limit (x >>= f) (ms ++ ns) b := by
  intro b'
  rw [bind_eq_ok_iff, List.forall_mem_append, and_assoc, ← hf b']
  constructor
  · rintro ⟨a', ha', hb'⟩
    obtain ⟨hfits, rfl⟩ := (hx a').mp ha'
    exact ⟨hfits, hb'⟩
  · rintro ⟨hfits, hb'⟩
    exact ⟨a, (hx a).mpr ⟨hfits, rfl⟩, hb'⟩

/-- What is made of something written needs no other numbers. -/
theorem Writes.map {x : Except Fault α} {ns : List Int} {a : α} (hx : Writes limit x ns a)
    (f : α → β) : Writes limit (x >>= fun a => pure (f a)) ns (f a) := by
  simpa only [List.append_nil] using hx.bind (f := fun a => pure (f a)) (writes_pure (f a))

/-- The number of times of a circuit is written if it can be, and so is that there is none. -/
theorem writes_renderTimes (times : Option Nat) :
    Writes limit (renderTimes limit times) (times.toList.map Int.ofNat) (timesText times) := by
  cases times with
  | none => exact writes_pure _
  | some n => exact writes_write n

/-- Traversals in a row are written if all numbers in them can be. -/
theorem writes_renderAll (hts : ∀ t ∈ ts, Writes limit (t.render limit) t.numbers t.text) :
    Writes limit (renderAll limit ts) (numbersAll ts) (textAll ts) := by
  induction ts with
  | nil => exact writes_pure _
  | cons t ts ih =>
    obtain ⟨ht, hts⟩ := List.forall_mem_cons.mp hts
    exact ht.bind ((ih hts).map _)

/-- A traversal has a written form if all numbers in it can be written, and this is its text. -/
theorem writes_render (t : Traversal κ) : Writes limit (t.render limit) t.numbers t.text := by
  induction t using Traversal.induction with
  | move m => exact (writes_write m.x).bind ((writes_write m.y).map _)
  | maneuver phases ih => exact (writes_renderAll ih).map _
  | circuit body times ih => exact ih.bind ((writes_renderTimes times).map _)
  | detour reorientation body ihr ihb => exact ihr.bind (ihb.map _)
  | precaution body before after ih => exact ih.map _
  | protocol options ih => exact (writes_renderAll ih).map _

end Limit

/-! ## Words and parentheses -/

/-- The word for a kind of traversals. -/
def Kind.word : Kind → String
  | .move => "Move"
  | .maneuver => "Maneuver"
  | .circuit => "Circuit"
  | .detour => "Detour"
  | .precaution => "Precaution"
  | .protocol => "Protocol"

/-- Different kinds have different words. -/
theorem Kind.word_inj {k l : Kind} (h : k.word.toList = l.word.toList) : k = l := by
  revert h
  cases k <;> cases l <;> decide

/-- No word for a kind goes beyond an opening parenthesis. -/
theorem Kind.not_mem_word (k : Kind) : '(' ∉ k.word.toList := by
  cases k <;> decide

/-- Some written forms behind others, up to the closing parenthesis. -/
def writeMore : List String → List Char
  | [] => [')']
  | w :: ws => ',' :: ' ' :: (w.toList ++ writeMore ws)

/-- Some written forms, up to the closing parenthesis. -/
def writeRow : List String → List Char
  | [] => [')']
  | w :: ws => w.toList ++ writeMore ws

/-- What stands behind the opening parenthesis of a written form. -/
def inside : Traversal κ → List Char
  | .move m => 'x' :: '=' :: (m.x.repr.toList ++
      ',' :: ' ' :: 'y' :: '=' :: (m.y.repr.toList ++ [')']))
  | .maneuver phases => writeRow (phases.map text)
  | .circuit body times => body.text.toList ++
      ',' :: ' ' :: 't' :: 'i' :: 'm' :: 'e' :: 's' :: '=' :: ((timesText times).toList ++ [')'])
  | .detour reorientation body => reorientation.text.toList ++
      ',' :: ' ' :: (body.text.toList ++ [')'])
  | .precaution body _ _ => body.text.toList ++ [')']
  | .protocol options => writeRow (options.map text)

/-- Written forms with commas between them, up to the closing parenthesis. -/
theorem toList_intercalate_append (ws : List String) :
    (", ".intercalate ws).toList ++ [')'] = writeRow ws := by
  have hmore : ∀ w ws, (", ".intercalate (w :: ws)).toList ++ [')'] = w.toList ++ writeMore ws := by
    intro w ws
    induction ws generalizing w with
    | nil => simp [writeMore]
    | cons v ws ih =>
      rw [String.intercalate_cons_cons, String.toList_append, List.append_assoc, ih v]
      simp [writeMore]
  cases ws with
  | nil => rfl
  | cons w ws => exact hmore w ws

/-- A written form is the word for the kind, and what is in parentheses. -/
theorem toList_text (t : Traversal κ) : t.text.toList = t.kind.word.toList ++ '(' :: t.inside := by
  cases t with
  | move m => simp [text, inside, kind, Kind.word]
  | maneuver phases => simp [text, textAll_eq_map, inside, kind, Kind.word, ← toList_intercalate_append]
  | circuit body times => simp [text, inside, kind, Kind.word]
  | detour reorientation body => simp [text, inside, kind, Kind.word]
  | precaution body before after => simp [text, inside, kind, Kind.word]
  | protocol options => simp [text, textAll_eq_map, inside, kind, Kind.word, ← toList_intercalate_append]

/-- The beginning of a text tells the kind of the traversal that is written there. -/
theorem kind_eq_of_text_append (h : t.text.toList ++ r = u.text.toList ++ s) :
    t.kind = u.kind ∧ t.inside ++ r = u.inside ++ s := by
  rw [toList_text, toList_text, List.append_assoc, List.append_assoc] at h
  obtain ⟨hword, hinside⟩ := Text.cut_unique t.kind.not_mem_word u.kind.not_mem_word h
  exact ⟨Kind.word_inj hword, hinside⟩

/-- A written form does not start with a closing parenthesis. -/
theorem text_append_ne (t : Traversal κ) (r s : List Char) : t.text.toList ++ r ≠ ')' :: s := by
  rw [toList_text]
  cases t.kind <;> simp [Kind.word]

/-! ## Conditions -/

mutual

/-- The traversal with conditions that hold everywhere in the place of all conditions in it. -/
def forget : Traversal κ → Traversal κ
  | .move m => .move m
  | .maneuver phases => .maneuver (forgetAll phases)
  | .circuit body times => .circuit (forget body) times
  | .detour reorientation body => .detour (forget reorientation) (forget body)
  | .precaution body _ _ => .precaution (forget body) .always .always
  | .protocol options => .protocol (forgetAll options)

/-- Some traversals with conditions that hold everywhere. -/
def forgetAll : List (Traversal κ) → List (Traversal κ)
  | [] => []
  | t :: ts => forget t :: forgetAll ts

end

/-- In a row, conditions are forgotten one by one. -/
theorem forgetAll_eq_map (ts : List (Traversal κ)) : forgetAll ts = ts.map forget := by
  induction ts with
  | nil => rfl
  | cons t ts ih => rw [forgetAll, ih, List.map_cons]

/-- Conditions are not shown. -/
theorem render_forget (limit : Option Nat) (t : Traversal κ) :
    t.forget.render limit = t.render limit := by
  have hall : ∀ ts : List (Traversal κ), (∀ t ∈ ts, t.forget.render limit = t.render limit) →
      renderAll limit (forgetAll ts) = renderAll limit ts := by
    intro ts hts
    induction ts with
    | nil => rfl
    | cons t ts ih =>
      obtain ⟨ht, hts⟩ := List.forall_mem_cons.mp hts
      rw [forgetAll, renderAll, renderAll, ht, ih hts]
  induction t using Traversal.induction with
  | move m => rw [forget]
  | maneuver phases ih => rw [forget, render, render, hall phases ih]
  | circuit body times ih => rw [forget, render, render, ih]
  | detour reorientation body ihr ihb => rw [forget, render, render, ihr, ihb]
  | precaution body before after ih => rw [forget, render, render, ih]
  | protocol options ih => rw [forget, render, render, hall options ih]

/-! ## What is written is told -/

/-- Where the written form of the traversal stands at the beginning of a text, no other traversal is
    written, except for its conditions, and the written form ends at one place. -/
def Told (t : Traversal κ) : Prop :=
  ∀ (u : Traversal κ) (r s : List Char), t.text.toList ++ r = u.text.toList ++ s →
    t.forget = u.forget ∧ r = s

/-- Behind a written form, a row is told by its members, each after a comma. -/
theorem more_told (hts : ∀ t ∈ ts, t.Told)
    (h : writeMore (ts.map text) ++ r = writeMore (us.map text) ++ s) :
    ts.map forget = us.map forget ∧ r = s := by
  induction ts generalizing us with
  | nil =>
    cases us with
    | nil => exact ⟨rfl, (List.cons.inj h).2⟩
    | cons u us => exact absurd (List.cons.inj h).1 (by decide)
  | cons t ts ih =>
    obtain ⟨ht, hts⟩ := List.forall_mem_cons.mp hts
    cases us with
    | nil => exact absurd (List.cons.inj h).1 (by decide)
    | cons u us =>
      simp only [List.map_cons, writeMore, List.cons_append, List.append_assoc, List.cons.injEq,
        true_and] at h
      obtain ⟨hforget, hmore⟩ := ht u _ _ h
      obtain ⟨hrest, hrs⟩ := ih hts hmore
      exact ⟨by rw [List.map_cons, List.map_cons, hforget, hrest], hrs⟩

/-- A row is told by its members. -/
theorem row_told (hts : ∀ t ∈ ts, t.Told)
    (h : writeRow (ts.map text) ++ r = writeRow (us.map text) ++ s) :
    ts.map forget = us.map forget ∧ r = s := by
  cases ts with
  | nil =>
    cases us with
    | nil => exact ⟨rfl, (List.cons.inj h).2⟩
    | cons u us =>
      rw [List.map_cons, writeRow, List.append_assoc] at h
      exact absurd h.symm (u.text_append_ne _ _)
  | cons t ts =>
    obtain ⟨ht, hts⟩ := List.forall_mem_cons.mp hts
    cases us with
    | nil =>
      rw [List.map_cons, writeRow, List.append_assoc] at h
      exact absurd h (t.text_append_ne _ _)
    | cons u us =>
      rw [List.map_cons, List.map_cons, writeRow, writeRow, List.append_assoc,
        List.append_assoc] at h
      obtain ⟨hforget, hmore⟩ := ht u _ _ h
      obtain ⟨hrest, hrs⟩ := more_told hts hmore
      exact ⟨by rw [List.map_cons, List.map_cons, hforget, hrest], hrs⟩

/-- The number of times of a circuit ends before the closing parenthesis. -/
theorem not_mem_timesText (times : Option Nat) : ')' ∉ (timesText times).toList := by
  cases times with
  | none => decide
  | some n => exact Text.not_mem_repr rfl n

/-- No number is written like the word for no number. -/
theorem timesText_inj {m n : Option Nat} (h : timesText m = timesText n) : m = n := by
  have hword : ∀ n : Nat, "None" ≠ n.repr := by
    intro n hn
    have hmem : 'N' ∈ n.repr.toList := hn ▸ by decide
    exact Text.not_mem_repr rfl n hmem
  cases m with
  | none =>
    cases n with
    | none => rfl
    | some n => exact absurd h (hword n)
  | some m =>
    cases n with
    | none => exact absurd h.symm (hword m)
    | some n => rw [Text.repr_nat_inj h]

/-- The beginning of a text tells the traversal that is written there, except for its conditions. -/
theorem told (t : Traversal κ) : t.Told := by
  -- The words for the six kinds differ. Behind the word, each part is told by the induction
  -- hypothesis, which also says that the two texts go on alike after it.
  induction t using Traversal.induction with
  | move m =>
    intro u r s h
    obtain ⟨hkind, h⟩ := kind_eq_of_text_append h
    cases u with
    | move n =>
      simp only [inside, List.cons_append, List.append_assoc, List.cons.injEq, true_and] at h
      obtain ⟨hx, h⟩ := Text.repr_unique rfl (by decide) h
      simp only [List.cons.injEq, true_and, List.nil_append] at h
      obtain ⟨hy, hrs⟩ := Text.repr_unique rfl (by decide) h
      exact ⟨by rw [Move.ext hx hy], hrs⟩
    | maneuver | circuit | detour | precaution | protocol => cases hkind
  | maneuver phases ih =>
    intro u r s h
    obtain ⟨hkind, h⟩ := kind_eq_of_text_append h
    cases u with
    | maneuver others =>
      obtain ⟨hforget, hrs⟩ := row_told ih h
      exact ⟨by rw [forget, forget, forgetAll_eq_map, forgetAll_eq_map, hforget], hrs⟩
    | move | circuit | detour | precaution | protocol => cases hkind
  | circuit body times ih =>
    intro u r s h
    obtain ⟨hkind, h⟩ := kind_eq_of_text_append h
    cases u with
    | circuit other number =>
      simp only [inside, List.append_assoc] at h
      obtain ⟨hforget, h⟩ := ih other _ _ h
      simp only [List.cons_append, List.append_assoc, List.cons.injEq, true_and,
        List.nil_append] at h
      obtain ⟨htimes, hrs⟩ := Text.cut_unique (not_mem_timesText _) (not_mem_timesText _) h
      have hnumber := timesText_inj (String.toList_inj.mp htimes)
      exact ⟨by rw [forget, forget, hforget, hnumber], hrs⟩
    | move | maneuver | detour | precaution | protocol => cases hkind
  | detour reorientation body ihr ihb =>
    intro u r s h
    obtain ⟨hkind, h⟩ := kind_eq_of_text_append h
    cases u with
    | detour first second =>
      simp only [inside, List.append_assoc] at h
      obtain ⟨hfirst, h⟩ := ihr first _ _ h
      simp only [List.cons_append, List.append_assoc, List.cons.injEq, true_and] at h
      obtain ⟨hsecond, h⟩ := ihb second _ _ h
      exact ⟨by rw [forget, forget, hfirst, hsecond], (List.cons.inj h).2⟩
    | move | maneuver | circuit | precaution | protocol => cases hkind
  | precaution body before after ih =>
    intro u r s h
    obtain ⟨hkind, h⟩ := kind_eq_of_text_append h
    cases u with
    | precaution other =>
      simp only [inside, List.append_assoc] at h
      obtain ⟨hforget, h⟩ := ih other _ _ h
      exact ⟨by rw [forget, forget, hforget], (List.cons.inj h).2⟩
    | move | maneuver | circuit | detour | protocol => cases hkind
  | protocol options ih =>
    intro u r s h
    obtain ⟨hkind, h⟩ := kind_eq_of_text_append h
    cases u with
    | protocol others =>
      obtain ⟨hforget, hrs⟩ := row_told ih h
      exact ⟨by rw [forget, forget, forgetAll_eq_map, forgetAll_eq_map, hforget], hrs⟩
    | move | maneuver | circuit | detour | precaution => cases hkind

/-- A written form tells the traversal, except for its conditions. -/
theorem text_inj (h : t.text = u.text) : t.forget = u.forget := by
  have hlist : t.text.toList ++ [] = u.text.toList ++ [] := by rw [h]
  exact (t.told u [] [] hlist).1

/-- A traversal has a written form if all numbers in it can be written; without a limit, it always has.
    A traversal that is the same when the conditions are forgotten, at any depth, is written alike,
    and no other one is. In particular, traversals that are the same are written alike. -/
theorem render_eq_iff [DecidableEq κ] (limit : Option Nat) (t u : Traversal κ) :
    ((∃ w, t.render limit = .ok w) ↔ ∀ n ∈ t.numbers, Numeral.Fits limit n) ∧
    (∀ w, t.render limit = .ok w → (u.render limit = .ok w ↔ beq t.forget u.forget = true)) ∧
    (t.render none = u.render none ↔ beq t.forget u.forget = true) ∧
    (beq t u = true → t.render limit = u.render limit) := by
  have hsame : ∀ {limit}, t.forget = u.forget → t.render limit = u.render limit := by
    intro limit h
    rw [← t.render_forget, ← u.render_forget, h]
  have hwritten : ∀ {limit w}, t.render limit = .ok w →
      (u.render limit = .ok w ↔ t.forget = u.forget) := by
    intro limit w ht
    constructor
    · intro hu
      obtain ⟨-, rfl⟩ := (t.writes_render w).mp ht
      exact text_inj ((u.writes_render t.text).mp hu).2
    · intro h
      rw [← hsame h, ht]
  rw [beq_iff, beq_iff]
  refine ⟨⟨?_, ?_⟩, fun w => hwritten, ⟨?_, hsame⟩, ?_⟩
  · rintro ⟨w, h⟩
    exact ((t.writes_render w).mp h).1
  · intro hfits
    exact ⟨t.text, (t.writes_render t.text).mpr ⟨hfits, rfl⟩⟩
  · intro h
    have ht : t.render none = .ok t.text :=
      (t.writes_render t.text).mpr ⟨fun n _ => Numeral.fits_none n, rfl⟩
    exact (hwritten ht).mp (h ▸ ht)
  · rintro rfl
    rfl

/-- A condition is not shown, but it is shown that there is no number of times. -/
example :
    let loop (before : Condition Unit) (times : Option Nat) : Traversal Unit :=
      .circuit (.precaution (.step .outward) before .always) times
    (loop (.holds .top) none).text = (loop .always none).text ∧
      (loop .always none).text ≠ (loop .always (some 0)).text := by
  decide

end Traversal

end SExprNav
