import SExprNav.Proofs.Command.Reading
import SExprNav.Proofs.Cursor.Additivity
import SExprNav.Proofs.Traversal.Orbit
import SExprNav.Proofs.Traversal.Movement

/-!
# Carrying out rows of commands

All commands of a row are read before the first one is carried out, so that a command that cannot be
read or is unknown keeps the others from being carried out, wherever it stands. What the commands
stand for asks no conditions from outside, so that nothing else can end in a fault: each traversal
is executed where the one before has ended.

A count means repetition: up to as many times in a direction, all or none for a standard traversal.

## Key results

- `Traversal.settle`, `Traversal.cursor_execute`: where an execution ends
- `Action.yields_navigate`: a row of known commands leads where their traversals lead in turn
- `Action.navigate_all_or_none`: a row of commands is carried out if all of them are known, else not
- `Action.navigate_counted`: a command with a count against copies of the command
-/

namespace SExprNav

variable {κ : Type} {doc : Document}

/-! ## Where traversals lead -/

namespace Traversal

variable {meaning : κ → Action κ doc Bool} {t : Traversal κ} {c d : Cursor doc} {dir : Direction}
  {n : Nat}

/-- Where the execution of a traversal ends: where its success leads, and else where it started. -/
def settle (meaning : κ → Action κ doc Bool) (c : Cursor doc) (t : Traversal κ) : Cursor doc :=
  ((t.execute meaning).lands? c).getD c

theorem cursor_execute (meaning : κ → Action κ doc Bool) (t : Traversal κ) (c : Cursor doc) :
    (t.execute meaning c).cursor = t.settle meaning c := by
  unfold settle
  cases h : (t.execute meaning).lands? c with
  | some d =>
    obtain ⟨ms, hms⟩ := Action.lands?_eq_some_iff.mp h
    exact hms.2
  | none =>
    apply cursor_execute_of_no_success
    intro ms d hms
    rw [Action.lands?_eq_some_iff.mpr ⟨ms, hms⟩] at h
    exact Option.some_ne_none d h

/-- A move ends where the repetition of its step does. -/
theorem settle_move (meaning : κ → Action κ doc Bool) (dir : Direction) (n : Nat) (c : Cursor doc) :
    (move (dir.move n)).settle meaning c = (Cursor.repeated (Cursor.step? dir) n c).2 := by
  rw [← cursor_execute]
  obtain ⟨⟨k, d⟩, hd⟩ : ∃ r, Cursor.repeated (Cursor.step? dir) n c = r := ⟨_, rfl⟩
  have hgo := Cursor.yields_go_of_repeated (κ := κ) hd
  rw [hd]
  cases hk : dir.achieved k with
  | none =>
    rw [hk, Action.yields_go_none] at hgo
    exact (yields_move_none.mpr hgo).2
  | some m =>
    rw [hk, Action.yields_go_some] at hgo
    exact (yields_move_some.mpr ⟨m, hgo, rfl⟩).2

/-- Moves by one step, one after another, end where the repetition of the step does. -/
theorem foldl_settle_move (meaning : κ → Action κ doc Bool) (dir : Direction) (n : Nat)
    (c : Cursor doc) : (List.replicate n (move (dir.move 1))).foldl (settle meaning) c =
      (Cursor.repeated (Cursor.step? dir) n c).2 := by
  induction n generalizing c with
  | zero => rfl
  | succ n ih =>
    -- A step and then up to `n` of them are up to `n + 1` steps.
    obtain ⟨⟨j, b⟩, hfirst⟩ : ∃ r, Cursor.repeated (Cursor.step? dir) 1 c = r := ⟨_, rfl⟩
    obtain ⟨⟨k, d⟩, hrest⟩ : ∃ r, Cursor.repeated (Cursor.step? dir) n b = r := ⟨_, rfl⟩
    rw [List.replicate_succ, List.foldl_cons, ih, settle_move, hfirst, hrest, Nat.add_comm,
      Cursor.repeated_add hfirst hrest]

/-- A circuit succeeds where as many successes of its body lead. -/
theorem lands?_circuit (meaning : κ → Action κ doc Bool) (t : Traversal κ) (n : Nat)
    (c : Cursor doc) : ((circuit t (some n)).execute meaning).lands? c =
      (t.execute meaning).orbit c n := by
  ext d
  rw [Action.lands?_eq_some_iff, Action.orbit_eq_some_iff]
  exact exists_congr fun ms => yields_execute_some

/-- Successes, one after another, lead along the orbit. -/
theorem foldl_settle_of_orbit (h : (t.execute meaning).orbit c n = some d) :
    (List.replicate n t).foldl (settle meaning) c = d := by
  induction n generalizing c with
  | zero => exact Option.some.inj h
  | succ n ih =>
    obtain ⟨b, hb, hrest⟩ := Cursor.times?_succ_iff.mp h
    have hsettle : t.settle meaning c = b := by rw [settle, hb, Option.getD_some]
    rw [List.replicate_succ, List.foldl_cons, hsettle, ih hrest]

end Traversal

/-- No condition of a standard traversal comes from outside the library. -/
theorem Standard.answers (meaning : κ → Action κ doc Bool) (s : Standard) :
    s.traversal.Answers meaning := by
  intro k hk
  cases s <;>
    simp [traversal, farthest, Traversal.step, Traversal.conditions, Traversal.conditionsAll] at hk

/-! ## Reading a row -/

namespace Command

variable {command : String} {commands : List String} {ts : List (Traversal κ)} {t : Traversal κ}

/-- What commands stand for asks no conditions from outside the library. -/
theorem answers_of_traversal? (meaning : κ → Action κ doc Bool)
    (h : traversal? command = .ok (some t)) : t.Answers meaning := by
  unfold traversal? at h
  cases hsplit : split command.toList with
  | error e =>
    rw [hsplit] at h
    simp [bind, Except.bind] at h
  | ok entry =>
    obtain ⟨n, rest⟩ := entry
    rw [hsplit] at h
    simp only [bind, Except.bind] at h
    split at h
    · cases h
      intro k hk
      simp [Traversal.conditions] at hk
    · rename_i s _ _
      cases h
      have hs := s.answers meaning
      split
      · exact hs
      · exact fun k hk => hs k (by rwa [Traversal.conditions] at hk)
    · simp at h

/-- A row of commands that stand for some traversals, one each. -/
def StandFor (commands : List String) (ts : List (Traversal κ)) : Prop :=
  List.Forall₂ (fun command t => traversal? command = .ok (some t)) commands ts

theorem exists_standFor
    (h : ∀ command ∈ commands, ∃ t : Traversal κ, traversal? command = .ok (some t)) :
    ∃ ts : List (Traversal κ), StandFor commands ts := by
  induction commands with
  | nil => exact ⟨[], .nil⟩
  | cons command commands ih =>
    obtain ⟨⟨t, ht⟩, hrest⟩ := List.forall_mem_cons.mp h
    obtain ⟨ts, hts⟩ := ih hrest
    exact ⟨t :: ts, .cons ht hts⟩

theorem standFor_replicate (h : traversal? command = .ok (some t)) (n : Nat) :
    StandFor (List.replicate n command) (List.replicate n t) := by
  induction n with
  | zero => exact .nil
  | succ n ih => exact .cons h ih

theorem StandFor.readAll (h : StandFor commands ts) :
    readAll commands = .ok (commands.zip (ts.map some)) ∧
      unknown (commands.zip (ts.map some)) = [] := by
  induction h with
  | nil => exact ⟨rfl, rfl⟩
  | cons ht _ ih =>
    unfold Command.readAll
    rw [ht, ih.1]
    exact ⟨rfl, ih.2⟩

end Command

/-! ## Counts -/

/-- A number is written in decimal digits, of which the first may be zeros, and not in too many of
    them. -/
structure Numeral.Writes (digits : List Char) (n : Nat) : Prop where
  nonempty : digits ≠ []
  decimal : ∀ c ∈ digits, (Text.decimalValue? c).isSome = true
  length_le : digits.length ≤ Numeral.digitLimit
  value : Numeral.ofDigits (digits.filterMap Text.decimalValue?) = n

/-- No standard traversal has the name of a direction. -/
theorem Direction.ofLetter?_name (s : Standard) : ofLetter? s.name = none := by
  cases s <;> decide

namespace Command

open Text (isDigit)

variable {digits : List Char} {name : String} {n : Nat} {dir : Direction} {s : Standard}

theorem letter_mem_names (dir : Direction) : dir.letter ∈ names := by
  cases dir <;> decide

theorem name_mem_names (s : Standard) : s.name ∈ names := by
  cases s <;> decide

/-- A name has no count. -/
theorem split_name (h : name ∈ names) : split name.toList = .ok (1, name.toList) :=
  split_eq_self (isDigit_of_mem_names h)

/-- A number is the count of what stands behind it, if no digit does at once. -/
theorem split_append {rest : List Char} (hdigits : Numeral.Writes digits n)
    (h : ∀ c ∈ rest.head?, isDigit c = false) : split (digits ++ rest) = .ok (n, rest) := by
  have hall : ∀ c ∈ digits, isDigit c = true := fun c hc =>
    Text.isDigit_of_isSome (hdigits.decimal c hc)
  obtain ⟨hcount, hrest⟩ := digits_append hall h
  have hread := Numeral.readNat_digits hdigits.nonempty hdigits.decimal hdigits.length_le
  rw [hdigits.value] at hread
  unfold split
  rw [hcount, hrest]
  obtain ⟨d, ds, rfl⟩ := List.exists_cons_of_ne_nil hdigits.nonempty
  simp only [hread]

/-- A number in front of a name is its count. -/
theorem split_append_name (hdigits : Numeral.Writes digits n) (h : name ∈ names) :
    split (digits ++ name.toList) = .ok (n, name.toList) :=
  split_append hdigits (isDigit_of_mem_names h)

theorem traversal?_letter {command : String}
    (h : split command.toList = .ok (n, dir.letter.toList)) :
    (traversal? command : Except Fault (Option (Traversal κ))) =
      .ok (some (.move (dir.move n))) := by
  unfold traversal?
  rw [h]
  simp only [bind, Except.bind, String.ofList_toList, Direction.ofLetter?_letter]

theorem traversal?_name {command : String} (h : split command.toList = .ok (n, s.name.toList)) :
    (traversal? command : Except Fault (Option (Traversal κ))) =
      .ok (some (if n = 1 then s.traversal else .circuit s.traversal (some n))) := by
  unfold traversal?
  rw [h]
  simp only [bind, Except.bind, String.ofList_toList, Direction.ofLetter?_name,
    Standard.ofName?_name]

end Command

/-! ## All or none -/

namespace Action

open Command (StandFor isUnknown traversal?)

variable {meaning : κ → Action κ doc Bool} {commands more : List String}
  {ts us : List (Traversal κ)} {c : Cursor doc}

theorem ofExcept_ok {α : Type} (a : α) (c : Cursor doc) :
    (ofExcept (.ok a) : Action κ doc α) c = ⟨.ok a, c, []⟩ := rfl

/-- A traversal whose conditions answer is carried out for a command to where it leads. -/
theorem yields_perform {t : Traversal κ} (h : t.Answers meaning) (command : String)
    (c : Cursor doc) : (perform meaning command t).Yields c () (t.settle meaning c) := by
  have hanswer : ∃ executed, (t.execute meaning).Yields c executed (t.settle meaning c) := by
    rcases yields_or_faults (t.execute meaning) c with ⟨executed, d, hd⟩ | ⟨e, he⟩
    · exact ⟨executed, hd.1, Traversal.cursor_execute meaning t c⟩
    · exact absurd he (Traversal.not_faults_execute h)
  obtain ⟨executed, hexecuted⟩ := hanswer
  refine yields_bind_iff.mpr ⟨executed, _, hexecuted, ?_⟩
  cases executed <;> exact ⟨rfl, rfl⟩

theorem yields_performAll (h : StandFor commands ts) (c : Cursor doc) :
    (performAll meaning (commands.zip (ts.map some))).Yields c ()
      (ts.foldl (Traversal.settle meaning) c) := by
  induction h generalizing c with
  | nil => exact ⟨rfl, rfl⟩
  | @cons command t _ _ ht _ ih =>
    have hfirst := yields_perform (Command.answers_of_traversal? meaning ht) command c
    exact yields_bind_iff.mpr ⟨(), _, hfirst, ih _⟩

/-- A row of known commands leads where their traversals lead in turn. -/
theorem yields_navigate (h : StandFor commands ts) (c : Cursor doc) :
    (navigate meaning commands).Yields c [] (ts.foldl (Traversal.settle meaning) c) := by
  obtain ⟨hread, hunknown⟩ := h.readAll
  unfold navigate
  refine yields_bind_iff.mpr ⟨_, c, yields_ofExcept.mpr ⟨hread, rfl⟩, ?_⟩
  rw [hunknown]
  exact yields_bind_iff.mpr ⟨(), _, yields_performAll h c, yields_pure.mpr ⟨rfl, rfl⟩⟩

/-- A row of commands and another one lead where the second row does from where the first one has
    led. -/
theorem cursor_navigate_append (h : StandFor commands ts) (h' : StandFor more us) (c : Cursor doc) :
    (navigate meaning (commands ++ more) c).cursor =
      (navigate meaning more (navigate meaning commands c).cursor).cursor := by
  have hall : StandFor (commands ++ more) (ts ++ us) := List.rel_append h h'
  rw [(yields_navigate hall c).2, (yields_navigate h c).2, (yields_navigate h' _).2,
    List.foldl_append]

/-- All commands of a row are carried out, or none. If some command cannot be read, the fault of the
    first such command is that of the row. If all can be read, but some stand for no traversal, these
    are the answer. In both cases the cursor stays and nothing is recorded. If each command stands
    for a traversal, the cursor ends where executing these in turn does, a traversal without success
    leaving it in place; so a row of such commands may be cut in two. -/
theorem navigate_all_or_none (meaning : κ → Action κ doc Bool) (commands more : List String)
    (c : Cursor doc) :
    let read (command : String) : Except Fault (Option (Traversal κ)) := traversal? command
    ((∃ command ∈ commands, ∃ e, read command = .error e) →
      ∃ before command after e, commands = before ++ command :: after ∧
        (∀ other ∈ before, ∃ t, read other = .ok t) ∧ read command = .error e ∧
        navigate meaning commands c = ⟨.error e, c, []⟩) ∧
    ((∀ command ∈ commands, ∃ t, read command = .ok t) →
      (∃ command ∈ commands, read command = .ok none) →
        navigate meaning commands c = ⟨.ok (commands.filter (isUnknown κ)), c, []⟩) ∧
    ((∀ command ∈ commands, ∃ t, read command = .ok (some t)) →
      ∃ ts : List (Traversal κ),
        List.Forall₂ (fun command t => read command = .ok (some t)) commands ts ∧
        (navigate meaning commands).Yields c [] (ts.foldl (Traversal.settle meaning) c)) ∧
    ((∀ command ∈ commands ++ more, ∃ t, read command = .ok (some t)) →
      (navigate meaning (commands ++ more) c).cursor =
        (navigate meaning more (navigate meaning commands c).cursor).cursor) := by
  intro read
  refine ⟨fun h => ?_, fun hread hunknown => ?_, fun h => ?_, fun h => ?_⟩
  · obtain ⟨before, command, after, e, hcommands, hbefore, hcommand, hrow⟩ :=
      Command.readAll_of_error h
    refine ⟨before, command, after, e, hcommands, hbefore, hcommand, ?_⟩
    unfold navigate
    rw [hrow]
    rfl
  · -- All commands are read before the unknown ones are looked for.
    obtain ⟨row, hrow, hfilter⟩ := Command.readAll_of_ok hread
    have hnonempty : commands.filter (isUnknown κ) ≠ [] := by
      obtain ⟨command, hmem, hcommand⟩ := hunknown
      exact List.ne_nil_of_mem
        (List.mem_filter.mpr ⟨hmem, Command.isUnknown_iff.mpr hcommand⟩)
    obtain ⟨command, rest, hrest⟩ := List.exists_cons_of_ne_nil hnonempty
    unfold navigate
    rw [hrow, bind_of_ok (ofExcept_ok row c), hfilter, hrest]
    rfl
  · obtain ⟨ts, hts⟩ := Command.exists_standFor h
    exact ⟨ts, hts, yields_navigate hts c⟩
  · obtain ⟨hcommands, hmore⟩ := List.forall_mem_append.mp h
    obtain ⟨ts, hts⟩ := Command.exists_standFor hcommands
    obtain ⟨us, hus⟩ := Command.exists_standFor hmore
    exact cursor_navigate_append hts hus c

/-- In `(a b)`, `²f` has a count that cannot be read and `sideways` is unknown. Either of them keeps
    `i` from being carried out. -/
theorem navigate_all_or_none_in_list :
    let doc := Document.ofText .lisp ['(', 'a', ' ', 'b', ')']
    let meaning : Empty → Action Empty doc Bool := Empty.elim
    let c := doc.cursorAt 0
    (∃ e, navigate meaning ["i", "²f", "sideways"] c = ⟨.error e, c, []⟩) ∧
    navigate meaning ["i", "sideways"] c = ⟨.ok ["sideways"], c, []⟩ ∧
    (navigate meaning ["i", "f"]).Yields c [] (doc.cursorAt 3) ∧
    (navigate meaning (["i"] ++ ["f"]) c).cursor =
      (navigate meaning ["f"] (navigate meaning ["i"] c).cursor).cursor := by
  intro doc meaning c
  have hi : (traversal? "i" : Except Fault (Option (Traversal Empty))) =
      .ok (some (.step .inward)) := by rfl
  have hf : (traversal? "f" : Except Fault (Option (Traversal Empty))) =
      .ok (some (.step .forward)) := by rfl
  have hsideways : (traversal? "sideways" : Except Fault (Option (Traversal Empty))) =
      .ok none := by rfl
  have hsquare : (traversal? "²f" : Except Fault (Option (Traversal Empty))) =
      .error (.badCount ['²'] .malformed) := by rfl
  refine ⟨?_, ?_, ?_, ?_⟩
  · obtain ⟨-, -, -, e, -, -, -, h⟩ := (navigate_all_or_none meaning ["i", "²f", "sideways"] [] c).1
      ⟨"²f", by simp, _, hsquare⟩
    exact ⟨e, h⟩
  · have h := (navigate_all_or_none meaning ["i", "sideways"] [] c).2.1
      (by simp [hi, hsideways]) ⟨"sideways", by simp, hsideways⟩
    have hfilter : ["i", "sideways"].filter (isUnknown Empty) = ["sideways"] := by rfl
    rwa [hfilter] at h
  · obtain ⟨ts, hts, h⟩ := (navigate_all_or_none meaning ["i", "f"] [] c).2.2.1 (by simp [hi, hf])
    rcases hts with _ | ⟨ht, _ | ⟨hu, _ | _⟩⟩
    cases hi.symm.trans ht
    cases hf.symm.trans hu
    have hd : [Traversal.step .inward, .step .forward].foldl (Traversal.settle meaning) c =
        doc.cursorAt 3 := by decide +kernel
    rwa [hd] at h
  · exact (navigate_all_or_none meaning ["i"] ["f"] c).2.2.2 (by simp [hi, hf])

/-- A count in front of a direction takes as many steps in it as copies of the direction do, as far
    as there are steps. In front of a standard traversal it does what as many copies do, if each of
    them succeeds, and else nothing. -/
theorem navigate_counted {digits : List Char} {n : Nat} (h : Numeral.Writes digits n)
    (meaning : κ → Action κ doc Bool) (c : Cursor doc) :
    let counted (name : String) := navigate meaning [String.ofList (digits ++ name.toList)]
    let copies (name : String) := navigate meaning (List.replicate n name)
    (∀ dir : Direction, ∃ d, (counted dir.letter).Yields c [] d ∧
      (copies dir.letter).Yields c [] d) ∧
    ∀ s : Standard,
      let x := s.traversal.execute meaning
      (∀ d, x.orbit c n = some d →
        (counted s.name).Yields c [] d ∧ (copies s.name).Yields c [] d) ∧
      (x.orbit c n = none → (counted s.name).Yields c [] c) := by
  intro counted copies
  have hcounted : ∀ {name : String} {t : Traversal κ},
      traversal? (String.ofList (digits ++ name.toList)) = .ok (some t) →
      (counted name).Yields c [] (t.settle meaning c) := fun ht =>
    yields_navigate (Command.standFor_replicate ht 1) c
  have hcopies : ∀ {name : String} {t : Traversal κ}, traversal? name = .ok (some t) →
      (copies name).Yields c [] ((List.replicate n t).foldl (Traversal.settle meaning) c) :=
    fun ht => yields_navigate (Command.standFor_replicate ht n) c
  have hsplit : ∀ {name : String}, name ∈ Command.names →
      Command.split (String.ofList (digits ++ name.toList)).toList = .ok (n, name.toList) := by
    intro name hname
    rw [String.toList_ofList]
    exact Command.split_append_name h hname
  constructor
  · intro dir
    have hname := Command.letter_mem_names dir
    have hmany := hcounted (Command.traversal?_letter (hsplit hname))
    have hsteps := hcopies (Command.traversal?_letter (Command.split_name hname))
    rw [Traversal.settle_move] at hmany
    rw [Traversal.foldl_settle_move] at hsteps
    exact ⟨_, hmany, hsteps⟩
  · intro s x
    have hname := Command.name_mem_names s
    have hmany := hcounted (Command.traversal?_name (hsplit hname))
    -- With a count of one the traversal itself is executed, and not a circuit of it.
    have hsettle : (if n = 1 then s.traversal else .circuit s.traversal (some n)).settle meaning c =
        (x.orbit c n).getD c := by
      unfold Traversal.settle
      split
      · subst n
        exact congrArg (·.getD c) (Cursor.times?_one c).symm
      · rw [Traversal.lands?_circuit]
    rw [hsettle] at hmany
    refine ⟨fun d hd => ⟨?_, ?_⟩, fun hnone => ?_⟩
    · rwa [hd] at hmany
    · have hsteps := hcopies (Command.traversal?_name (Command.split_name hname))
      rwa [if_pos rfl, Traversal.foldl_settle_of_orbit hd] at hsteps
    · rwa [hnone] at hmany

/-- In `(a b)`, there is one step forward from `a`: `02f` takes it, as `f f` does. The second
    `preorder` does not succeed, so that `02preorder` stays, and `02first` succeeds where it is. -/
theorem navigate_counted_in_list :
    let doc := Document.ofText .lisp ['(', 'a', ' ', 'b', ')']
    let meaning : Empty → Action Empty doc Bool := Empty.elim
    let c := doc.cursorAt 1
    (∃ d, (navigate meaning ["02f"]).Yields c [] d ∧ (navigate meaning ["f", "f"]).Yields c [] d) ∧
    (navigate meaning ["02preorder"]).Yields c [] c ∧
    (navigate meaning ["02first"]).Yields c [] c ∧
    (navigate meaning ["first", "first"]).Yields c [] c := by
  intro doc meaning c
  have hdigits : Numeral.Writes ['0', '2'] 2 :=
    ⟨by decide, List.forall_mem_iff_getElem.mpr (by decide), by decide, by decide⟩
  have h := navigate_counted hdigits meaning c
  exact ⟨h.1 .forward, (h.2 .preorder).2 (by decide +kernel), (h.2 .first).1 c (by decide +kernel)⟩

end Action

end SExprNav
