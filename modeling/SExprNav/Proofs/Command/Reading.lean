import Mathlib.Data.List.TakeWhile
import SExprNav.Command
import SExprNav.Proofs.Traversal.Rollback

/-!
# Reading commands

A command is split into the digits at its start and a name. The split takes all digits, decimal or
not, for the count, but only decimal digits can be read, and not too many of them. `Command.Counted`
says when the count of a command can be read, `Command.Valid` which commands there are.

## Key results

- `Command.split_of_counted`, `Command.split_of_not_counted`: when the count of a command can be read
- `Command.traversal?_of_counted`: the commands with a traversal are the valid ones
- `Command.readAll_of_ok`, `Command.readAll_of_error`: when a row of commands can be read
- `Action.navigate_of_counted`, `Action.navigate_of_not_counted`: what a row of commands answers
-/

namespace SExprNav

open Text (isBlank isDigit decimalValue?)
open Numeral (digitLimit isRunChar isPadding readNat wellSpaced)

/-! ## Digits -/

namespace Text

variable {c : Char}

theorem isDigit_of_isSome (h : (decimalValue? c).isSome = true) : isDigit c = true := by
  obtain ⟨n, hn⟩ := Option.isSome_iff_exists.mp h
  exact isDigit_of_decimalValue? hn

/-- The code points of all digits. -/
def digitRanges : CodePoints := decimalZeros.map (fun z => (z, z + 9)) ++ otherDigits

theorem mem_digitRanges_of_isDigit (h : isDigit c = true) : digitRanges.contains c = true := by
  rw [CodePoints.contains_iff]
  unfold isDigit at h
  cases Bool.or_eq_true_iff.mp h with
  | inl hdecimal =>
    obtain ⟨n, hn⟩ := Option.isSome_iff_exists.mp hdecimal
    obtain ⟨z, hz, -⟩ := Option.map_eq_some_iff.mp hn
    have hrange := List.find?_some hz
    simp only [Bool.and_eq_true, decide_eq_true_eq] at hrange
    exact ⟨(z, z + 9), List.mem_append_left _ (List.mem_map_of_mem (List.mem_of_find?_eq_some hz)),
      hrange.1, by omega⟩
  | inr hother =>
    obtain ⟨r, hr, hb⟩ := CodePoints.contains_iff.mp hother
    exact ⟨r, List.mem_append_right _ hr, hb⟩

/-- A digit is not blank. -/
theorem isBlank_of_isDigit (h : isDigit c = true) : isBlank c = false := by
  have hapart : ∀ r ∈ blanks, ∀ s ∈ digitRanges, r.2 < s.1 ∨ s.2 < r.1 := by decide
  obtain ⟨s, hs, hdigit⟩ := CodePoints.contains_iff.mp (mem_digitRanges_of_isDigit h)
  cases hblank : isBlank c with
  | false => rfl
  | true =>
    obtain ⟨r, hr, hb⟩ := CodePoints.contains_iff.mp hblank
    have := hapart r hr s hs
    omega

end Text

namespace Numeral

/-- Nothing but digits and underscores is read from a text without blanks. -/
theorem isRunChar_of_readNat {cs : List Char} {n : Nat} (hblank : ∀ c ∈ cs, isBlank c = false)
    (h : readNat cs = .ok n) :
    (∀ c ∈ cs, isRunChar c = true) ∧ (cs.filterMap decimalValue?).length ≤ digitLimit := by
  unfold readNat at h
  simp only at h
  split at h
  · exact nomatch h
  split at h
  · exact nomatch h
  rename_i hlimit
  split at h
  case isFalse => exact nomatch h
  case isTrue hspare =>
    have hrest : cs.dropWhile isRunChar = [] := by
      rw [List.eq_nil_iff_forall_not_mem]
      intro c hc
      have hpadding := List.all_eq_true.mp hspare c hc
      unfold isPadding at hpadding
      rw [hblank c ((List.dropWhile_sublist _).mem hc)] at hpadding
      exact nomatch hpadding
    have hrun := List.dropWhile_eq_nil_iff.mp hrest
    rw [List.takeWhile_eq_self_iff.mpr hrun] at hlimit
    exact ⟨hrun, Nat.le_of_not_lt hlimit⟩

/-- A run of digits is read exactly if all of them are decimal and there are not too many. -/
theorem readNat_of_isDigit {cs : List Char} (hne : cs ≠ []) (hdigits : ∀ c ∈ cs, isDigit c = true) :
    (∃ n, readNat cs = .ok n) ↔
      (∀ c ∈ cs, (decimalValue? c).isSome = true) ∧ cs.length ≤ digitLimit := by
  constructor
  · rintro ⟨n, hn⟩
    obtain ⟨hrun, hlength⟩ :=
      isRunChar_of_readNat (fun c hc => Text.isBlank_of_isDigit (hdigits c hc)) hn
    have hdecimal : ∀ c ∈ cs, (decimalValue? c).isSome = true := by
      intro c hc
      cases Bool.or_eq_true_iff.mp (hrun c hc) with
      | inl h => exact h
      | inr h =>
        -- An underscore is not a digit.
        obtain rfl := eq_of_beq h
        exact absurd (hdigits _ hc) (by decide)
    rw [List.length_filterMap_eq_countP, List.countP_eq_length.mpr hdecimal] at hlength
    exact ⟨hdecimal, hlength⟩
  · rintro ⟨hdecimal, hlength⟩
    exact ⟨_, readNat_digits hne hdecimal hlength⟩

end Numeral

/-! ## Counts -/

namespace Command

/-- The digits at the start of a text can be read: all of them are decimal, and there are not too
    many. -/
def Counted (cs : List Char) : Prop :=
  (∀ c ∈ cs.takeWhile isDigit, (decimalValue? c).isSome = true) ∧
    (cs.takeWhile isDigit).length ≤ digitLimit

/-- The names of directions and of standard traversals. -/
def names : List String := Direction.all.map (·.letter) ++ Standard.all.map (·.name)

/-- Whether a command is a name, with or without a count in decimal digits before it. -/
def Valid (command : String) : Prop :=
  ∃ (count : List Char) (name : String), name ∈ names ∧
    (∀ c ∈ count, (decimalValue? c).isSome = true) ∧ command.toList = count ++ name.toList

variable {cs digits rest : List Char} {command : String} {commands : List String}

/-- The digits at the start of a text end where no digit follows. -/
theorem digits_append (hdigits : ∀ c ∈ digits, isDigit c = true)
    (hrest : ∀ c ∈ rest.head?, isDigit c = false) :
    (digits ++ rest).takeWhile isDigit = digits ∧ (digits ++ rest).dropWhile isDigit = rest := by
  rw [List.takeWhile_append_of_pos hdigits, List.dropWhile_append_of_pos hdigits]
  cases rest with
  | nil => exact ⟨List.append_nil digits, rfl⟩
  | cons c cs => simp [hrest c rfl]

/-- The digits at the start of a text, if any, are read exactly if they are fit for a count. -/
theorem readNat_digits_iff (hne : cs.takeWhile isDigit ≠ []) :
    (∃ n, readNat (cs.takeWhile isDigit) = .ok n) ↔ Counted cs :=
  Numeral.readNat_of_isDigit hne fun _ => List.mem_takeWhile_imp

theorem split_of_counted (h : Counted cs) : ∃ n, split cs = .ok (n, cs.dropWhile isDigit) := by
  have hparts := @List.takeWhile_append_dropWhile _ isDigit cs
  have hread := @readNat_digits_iff cs
  unfold split
  cases hdigits : cs.takeWhile isDigit with
  | nil =>
    -- Without digits the count is 1, and all of the text is left.
    rw [hdigits, List.nil_append] at hparts
    exact ⟨1, by rw [hparts]⟩
  | cons c digits =>
    rw [hdigits] at hread
    obtain ⟨n, hn⟩ := (hread (List.cons_ne_nil c digits)).mpr h
    exact ⟨n, by simp only [hn]⟩

theorem split_of_not_counted (h : ¬ Counted cs) :
    ∃ problem, split cs = .error (.badCount (cs.takeWhile isDigit) problem) := by
  have hread := @readNat_digits_iff cs
  unfold split
  cases hdigits : cs.takeWhile isDigit with
  | nil =>
    unfold Counted at h
    rw [hdigits] at h
    exact absurd ⟨nofun, Nat.zero_le _⟩ h
  | cons c digits =>
    rw [hdigits] at hread
    cases hn : readNat (c :: digits) with
    | error problem => exact ⟨problem, by simp only [hn]⟩
    | ok n => exact absurd ((hread (List.cons_ne_nil c digits)).mp ⟨n, hn⟩) h

/-! ## Names -/

/-- No name starts with a digit. -/
theorem isDigit_of_mem_names {name : String} (h : name ∈ names) :
    ∀ c ∈ name.toList.head?, isDigit c = false := by
  have hheads : ∀ name ∈ names, name.toList.head?.map isDigit = some false := by decide
  intro c hc
  have hhead := hheads name h
  rw [Option.mem_def.mp hc] at hhead
  exact Option.some.inj hhead

/-- What stands after the digits of a valid command is its name. -/
theorem valid_iff (h : Counted command.toList) :
    Valid command ↔ String.ofList (command.toList.dropWhile isDigit) ∈ names := by
  constructor
  · rintro ⟨count, name, hname, hcount, hcommand⟩
    have hdigits : ∀ c ∈ count, isDigit c = true := fun c hc => Text.isDigit_of_isSome (hcount c hc)
    -- The digits end where the name starts, as no name starts with a digit.
    have hrest := (digits_append hdigits (isDigit_of_mem_names hname)).2
    rw [hcommand, hrest, String.ofList_toList]
    exact hname
  · intro hname
    exact ⟨_, _, hname, h.1, by rw [String.toList_ofList, List.takeWhile_append_dropWhile]⟩

/-- A name is that of a direction or of a standard traversal. -/
theorem mem_names_iff {name : String} :
    name ∈ names ↔ (Direction.ofLetter? name).isSome = true ∨
      (Standard.ofName? name).isSome = true := by
  unfold names Direction.ofLetter? Standard.ofName?
  simp [List.find?_isSome]

section Reading

variable {κ : Type}

/-- A command whose count can be read has a traversal exactly if it is valid. -/
theorem traversal?_of_counted (h : Counted command.toList) :
    ∃ t : Option (Traversal κ), traversal? command = .ok t ∧ (t.isSome = true ↔ Valid command) := by
  obtain ⟨n, hsplit⟩ := split_of_counted h
  rw [valid_iff h, mem_names_iff]
  unfold traversal?
  rw [hsplit]
  simp only [bind, Except.bind]
  cases Direction.ofLetter? (String.ofList (command.toList.dropWhile isDigit)) with
  | some d => exact ⟨_, rfl, by simp⟩
  | none =>
    cases Standard.ofName? (String.ofList (command.toList.dropWhile isDigit)) with
    | some s => exact ⟨_, rfl, by simp⟩
    | none => exact ⟨_, rfl, by simp⟩

theorem traversal?_of_not_counted (h : ¬ Counted command.toList) :
    ∃ digits problem, (traversal? command : Except Fault (Option (Traversal κ))) =
      .error (.badCount digits problem) := by
  obtain ⟨problem, hsplit⟩ := split_of_not_counted h
  unfold traversal?
  rw [hsplit]
  exact ⟨_, problem, rfl⟩

/-- Whether a command can be read, but stands for no traversal. -/
def isUnknown (κ : Type) (command : String) : Bool :=
  match (traversal? command : Except Fault (Option (Traversal κ))) with
  | .ok none => true
  | _ => false

theorem isUnknown_iff : isUnknown κ command = true ↔
    (traversal? command : Except Fault (Option (Traversal κ))) = .ok none := by
  unfold isUnknown
  rcases (traversal? command : Except Fault (Option (Traversal κ))) with e | _ | t <;> simp

/-- The first command that cannot be read keeps the row from being read. -/
theorem readAll_of_error
    (h : ∃ command ∈ commands, ∃ e,
      (traversal? command : Except Fault (Option (Traversal κ))) = .error e) :
    ∃ before command after e, commands = before ++ command :: after ∧
      (∀ other ∈ before, ∃ t : Option (Traversal κ), traversal? other = .ok t) ∧
      (traversal? command : Except Fault (Option (Traversal κ))) = .error e ∧
      (readAll commands : Except Fault (List (String × Option (Traversal κ)))) = .error e := by
  induction commands with
  | nil => simp at h
  | cons first commands ih =>
    unfold readAll
    cases hfirst : (traversal? first : Except Fault (Option (Traversal κ))) with
    | error e => exact ⟨[], first, commands, e, rfl, by simp, hfirst, rfl⟩
    | ok t =>
      obtain ⟨before, command, after, e, rfl, hbefore, hcommand, hread⟩ :=
        ih (by simpa [hfirst] using h)
      exact ⟨first :: before, command, after, e, rfl,
        List.forall_mem_cons.mpr ⟨⟨t, hfirst⟩, hbefore⟩, hcommand, by rw [hread]; rfl⟩

/-- If all commands can be read, the unknown ones are those that stand for no traversal. -/
theorem readAll_of_ok
    (h : ∀ command ∈ commands, ∃ t : Option (Traversal κ), traversal? command = .ok t) :
    ∃ read : List (String × Option (Traversal κ)), readAll commands = .ok read ∧
      unknown read = commands.filter (isUnknown κ) := by
  induction commands with
  | nil => exact ⟨[], rfl, rfl⟩
  | cons command commands ih =>
    obtain ⟨⟨t, ht⟩, hrest⟩ := List.forall_mem_cons.mp h
    obtain ⟨read, hread, hunknown⟩ := ih hrest
    refine ⟨(command, t) :: read, ?_, ?_⟩
    · unfold readAll
      rw [ht, hread]
      rfl
    · have hcommand : isUnknown κ command = t.isNone := by
        unfold isUnknown
        rw [ht]
        cases t <;> rfl
      rw [List.filter_cons, ← hunknown, hcommand]
      unfold unknown
      rw [List.filter_cons]
      cases t <;> rfl

/-- If all counts can be read, the commands without a traversal are those that are not valid. -/
theorem readAll_of_counted (h : ∀ command ∈ commands, Counted command.toList) :
    ∃ read : List (String × Option (Traversal κ)), readAll commands = .ok read ∧
      ∀ command, command ∈ unknown read ↔ command ∈ commands ∧ ¬ Valid command := by
  have hok : ∀ command ∈ commands, ∃ t : Option (Traversal κ), traversal? command = .ok t :=
    fun command hmem => (traversal?_of_counted (h command hmem)).imp fun _ ht => ht.1
  obtain ⟨read, hread, hunknown⟩ := readAll_of_ok hok
  refine ⟨read, hread, fun command => ?_⟩
  rw [hunknown, List.mem_filter]
  refine and_congr_right fun hmem => ?_
  obtain ⟨t, ht, hvalid⟩ := traversal?_of_counted (κ := κ) (h command hmem)
  rw [isUnknown_iff, ht, Except.ok.injEq, ← hvalid, Option.not_isSome_iff_eq_none]

/-- If some count cannot be read, no command is. -/
theorem readAll_of_not_counted (h : ∃ command ∈ commands, ¬ Counted command.toList) :
    ∃ digits problem, (readAll commands : Except Fault (List (String × Option (Traversal κ)))) =
      .error (.badCount digits problem) := by
  have herror : ∃ command ∈ commands, ∃ e,
      (traversal? command : Except Fault (Option (Traversal κ))) = .error e := by
    obtain ⟨command, hmem, hcounted⟩ := h
    obtain ⟨digits, problem, ht⟩ := traversal?_of_not_counted (κ := κ) hcounted
    exact ⟨command, hmem, _, ht⟩
  obtain ⟨-, command, -, e, -, -, hcommand, hread⟩ := readAll_of_error herror
  -- The command that keeps the row from being read is one whose count cannot be read.
  have hcounted : ¬ Counted command.toList := by
    intro hcounted
    obtain ⟨t, ht, -⟩ := traversal?_of_counted (κ := κ) hcounted
    rw [ht] at hcommand
    cases hcommand
  obtain ⟨digits, problem, ht⟩ := traversal?_of_not_counted (κ := κ) hcounted
  obtain rfl := Except.error.inj (hcommand.symm.trans ht)
  exact ⟨digits, problem, hread⟩

end Reading

end Command

/-! ## Rows of commands -/

namespace Action

open Command (Counted Valid)

variable {κ : Type} {doc : Document} {meaning : κ → Action κ doc Bool} {commands : List String}
  {c : Cursor doc}

section Conditions

variable (hmeaning : ∀ k d e, ¬ (meaning k).Faults d e)

include hmeaning

/-- If the conditions do not end in faults, neither does a traversal for a command. -/
theorem not_faults_perform {command : String} {t : Traversal κ} {e : Fault} :
    ¬ (perform meaning command t).Faults c e := by
  unfold perform
  rw [faults_bind_iff]
  rintro (h | ⟨_ | ms, d, -, h⟩)
  · obtain ⟨k, d, -, hk⟩ := Traversal.exists_custom_of_faults h
    exact hmeaning k d e hk
  · simp at h
  · simp [faults_bind_iff] at h

theorem not_faults_performAll {read : List (String × Option (Traversal κ))} {e : Fault} :
    ¬ (performAll meaning read).Faults c e := by
  induction read generalizing c with
  | nil => exact not_faults_pure
  | cons entry read ih =>
    obtain ⟨command, _ | t⟩ := entry
    · exact ih
    · unfold performAll
      rw [faults_bind_iff]
      rintro (h | ⟨_, d, -, h⟩)
      · exact not_faults_perform hmeaning h
      · exact ih h

/-- If all counts can be read, the answer is the commands that are not valid. -/
theorem navigate_of_counted (h : ∀ command ∈ commands, Counted command.toList) :
    ∃ unknown d, (navigate meaning commands).Yields c unknown d ∧
      ∀ command, command ∈ unknown ↔ command ∈ commands ∧ ¬ Valid command := by
  obtain ⟨read, hread, hunknown⟩ := Command.readAll_of_counted (κ := κ) h
  have hok : (ofExcept (Command.readAll commands) : Action κ doc _).Yields c read c :=
    yields_ofExcept.mpr ⟨hread, rfl⟩
  suffices ∃ d, (navigate meaning commands).Yields c (Command.unknown read) d from
    this.elim fun d hd => ⟨_, d, hd, hunknown⟩
  unfold navigate
  cases hu : Command.unknown read with
  | nil =>
    rcases yields_or_faults (performAll meaning read) c with ⟨_, d, hd⟩ | ⟨e, he⟩
    · refine ⟨d, yields_bind_iff.mpr ⟨read, c, hok, ?_⟩⟩
      rw [hu]
      exact yields_bind_iff.mpr ⟨_, d, hd, yields_pure.mpr ⟨rfl, rfl⟩⟩
    · exact absurd he (not_faults_performAll hmeaning)
  | cons command unknown =>
    refine ⟨c, yields_bind_iff.mpr ⟨read, c, hok, ?_⟩⟩
    rw [hu]
    exact yields_pure.mpr ⟨rfl, rfl⟩

/-- If all counts can be read, there is no fault. -/
theorem not_faults_navigate (h : ∀ command ∈ commands, Counted command.toList) {e : Fault} :
    ¬ (navigate meaning commands).Faults c e := by
  obtain ⟨unknown, d, hd, -⟩ := navigate_of_counted hmeaning (c := c) h
  exact fun hf => not_yields_of_faults hf hd

theorem mem_of_yields_navigate (h : ∀ command ∈ commands, Counted command.toList)
    {unknown : List String} {d : Cursor doc} (hy : (navigate meaning commands).Yields c unknown d)
    (command : String) : command ∈ unknown ↔ command ∈ commands ∧ ¬ Valid command := by
  obtain ⟨unknown', d', hd, hmem⟩ := navigate_of_counted hmeaning (c := c) h
  obtain rfl : unknown = unknown' := Except.ok.inj (hy.1.symm.trans hd.1)
  exact hmem command

end Conditions

/-- If some count cannot be read, no command is carried out. -/
theorem navigate_of_not_counted (h : ∃ command ∈ commands, ¬ Counted command.toList) :
    ∃ digits problem, (navigate meaning commands).Faults c (.badCount digits problem) := by
  obtain ⟨digits, problem, hread⟩ := Command.readAll_of_not_counted (κ := κ) h
  refine ⟨digits, problem, ?_⟩
  unfold navigate
  rw [faults_bind_iff]
  exact .inl (faults_ofExcept.mpr hread)

theorem not_yields_navigate (h : ∃ command ∈ commands, ¬ Counted command.toList)
    {unknown : List String} {d : Cursor doc} :
    ¬ (navigate meaning commands).Yields c unknown d := by
  obtain ⟨digits, problem, hf⟩ := navigate_of_not_counted h
  exact not_yields_of_faults hf

theorem eq_badCount_of_faults_navigate (h : ∃ command ∈ commands, ¬ Counted command.toList)
    {e : Fault} (he : (navigate meaning commands).Faults c e) :
    ∃ digits problem, e = .badCount digits problem := by
  obtain ⟨digits, problem, hf⟩ := navigate_of_not_counted h
  exact ⟨digits, problem, Except.error.inj (he.symm.trans hf)⟩

end Action

end SExprNav
