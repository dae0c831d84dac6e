import SExprNav.CommandLine.Report
import SExprNav.Proofs.Command.Reading
import SExprNav.Proofs.CommandLine.Position

/-!
# Exit statuses

A run of the command line says by its exit status what came of it: 1 if there is no such file, 2 if
the position is outside the text or a command is not valid, and 0 if the commands have been carried
out, in which case alone there is output. Two kinds of bad input are not met with an exit status. The
run ends in a fault if the file is not in UTF-8, or if the count of a command cannot be read, which
is so for digits that are not decimal and for too many digits.

## Key results

- `Report.ofDocument_of_outside`, `Report.ofDocument_of_counted`, `Report.ofDocument_of_not_counted`:
  what comes of commands in a document
- `Report.ofStrings_exits`: when there is a report, and the exit status that it has
-/

namespace SExprNav

open Command (Counted Valid)
open Numeral (Fits digitLimit)

namespace Arguments

/-- The position that the command line asks for is one of the text. -/
def InText (args : Arguments) (text : List Char) : Prop :=
  0 ≤ args.position ∧ args.position ≤ text.length

/-- The file can be decoded, if there is one, and the counts of the commands can be read. Nothing is
    asked of the counts if the position is outside the text. -/
def Readable (args : Arguments) (contents : Option ByteArray) : Prop :=
  ∀ bytes ∈ contents, ∃ text, Document.decode? bytes = some text ∧
    (args.InText text → ∀ command ∈ args.commands, Counted command.toList)

end Arguments

namespace Report

open Arguments (Lettering)

/-- What the exit status of a report says of the file and the commands. -/
structure Exits (args : Arguments) (contents : Option ByteArray) (r : Report) : Prop where
  missing : r.status = 1 ↔ contents = none
  rejected : r.status = 2 ↔ ∃ text ∈ contents.bind Document.decode?,
    ¬ args.InText text ∨ ∃ command ∈ args.commands, ¬ Valid command
  status_le : r.status ≤ 2
  /-- There is no output without success. -/
  silent : r.status ≠ 0 → r.output = ""

variable {args : Arguments} {contents : Option ByteArray} {read : String → Option ByteArray}
  {r : Report}

/-! ## Commands in a document -/

section Document

variable (doc : Document) {p : Int} {commands : List String}

/-- Outside the text, and if the position can be named, this is reported. -/
theorem ofDocument_of_outside (commands : List String) (h : ¬ (0 ≤ p ∧ p ≤ doc.length))
    (hfits : Fits (some digitLimit) p) :
    ∃ r, ofDocument doc p commands = .ok r ∧ r.status = 2 ∧ r.output = "" := by
  unfold ofDocument Document.place
  rw [dif_neg h, Fault.naming_of_fits hfits]
  exact ⟨_, rfl, rfl, rfl⟩

/-- Inside the text, and if all counts can be read, the exit status says whether all commands are
    valid. -/
theorem ofDocument_of_counted (h : 0 ≤ p ∧ p ≤ doc.length)
    (hcounted : ∀ command ∈ commands, Counted command.toList) :
    ∃ r, ofDocument doc p commands = .ok r ∧
      ((r.status = 0 ∧ ∀ command ∈ commands, Valid command) ∨
        (r.status = 2 ∧ r.output = "" ∧ ∃ command ∈ commands, ¬ Valid command)) := by
  unfold ofDocument Document.place
  rw [dif_pos h]
  dsimp only
  split
  case h_1 e he => exact absurd he (Action.not_faults_navigate nofun hcounted)
  case h_2 he =>
    have hunknown := Action.mem_of_yields_navigate nofun hcounted ⟨he, rfl⟩
    refine ⟨_, rfl, .inl ⟨rfl, fun command hc => ?_⟩⟩
    by_contra hinvalid
    exact nomatch (hunknown command).mpr ⟨hc, hinvalid⟩
  case h_3 unknown hne he =>
    have hunknown := Action.mem_of_yields_navigate nofun hcounted ⟨he, rfl⟩
    obtain ⟨command, hc⟩ := List.exists_mem_of_ne_nil unknown hne
    exact ⟨_, rfl, .inr ⟨rfl, rfl, command, (hunknown command).mp hc⟩⟩

/-- Inside the text, a count that cannot be read ends the run. -/
theorem ofDocument_of_not_counted (h : 0 ≤ p ∧ p ≤ doc.length)
    (hcounted : ∃ command ∈ commands, ¬ Counted command.toList) :
    ∃ digits problem, ofDocument doc p commands = .error (.badCount digits problem) := by
  unfold ofDocument Document.place
  rw [dif_pos h]
  dsimp only
  split
  case h_1 e he =>
    obtain ⟨digits, problem, rfl⟩ := Action.eq_badCount_of_faults_navigate hcounted he
    exact ⟨digits, problem, rfl⟩
  case h_2 he => exact absurd ⟨he, rfl⟩ (Action.not_yields_navigate hcounted)
  case h_3 unknown hne he => exact absurd ⟨he, rfl⟩ (Action.not_yields_navigate hcounted)

end Document

/-! ## Whole runs -/

theorem exits_noSuchFile : Exits args none { status := 1, log := [.noSuchFile args.file] } where
  missing := by simp
  rejected := by simp
  status_le := by simp
  silent _ := rfl

/-- Commands in a document are rejected, or they are carried out if all are valid. -/
theorem exits_of_decode {bytes : ByteArray} {text : List Char}
    (htext : Document.decode? bytes = some text)
    (h : (r.status = 2 ∧ r.output = "" ∧
        (¬ args.InText text ∨ ∃ command ∈ args.commands, ¬ Valid command)) ∨
      (r.status = 0 ∧ args.InText text ∧ ∀ command ∈ args.commands, Valid command)) :
    r.Exits args (some bytes) := by
  rcases h with ⟨hstatus, houtput, hbad⟩ | ⟨hstatus, hin, hvalid⟩
  · exact ⟨by simp [hstatus], by simpa [hstatus, htext] using hbad, by omega, fun _ => houtput⟩
  · refine ⟨by simp [hstatus], ?_, by omega, fun h => absurd hstatus h⟩
    simpa [hstatus, htext] using ⟨hin, hvalid⟩

/-- There is a report, and with the exit status that it should have, unless something cannot be
    read. -/
theorem ofContents_cases (hfits : Fits (some digitLimit) args.position)
    (contents : Option ByteArray) :
    (args.Readable contents ∧ ∃ r, ofContents args contents = .ok r ∧ r.Exits args contents) ∨
      (¬ args.Readable contents ∧ ∃ e, ofContents args contents = .error e) := by
  cases contents with
  | none => exact .inl ⟨nofun, _, rfl, exits_noSuchFile⟩
  | some bytes =>
    unfold ofContents Arguments.Readable
    simp only [Option.mem_def, Option.some.injEq, forall_eq']
    cases htext : Document.decode? bytes with
    | none => exact .inr ⟨by simp, _, rfl⟩
    | some text =>
      simp only [Option.some.injEq, exists_eq_left']
      -- The position is checked first: outside the text, nothing is read of the commands.
      by_cases hin : args.InText text
      · by_cases hcounted : ∀ command ∈ args.commands, Counted command.toList
        · obtain ⟨r, hr, hstatus⟩ :=
            ofDocument_of_counted (.ofText .lisp text) hin hcounted
          refine .inl ⟨fun _ => hcounted, r, hr, exits_of_decode htext ?_⟩
          rcases hstatus with ⟨hzero, hvalid⟩ | ⟨htwo, houtput, hinvalid⟩
          · exact .inr ⟨hzero, hin, hvalid⟩
          · exact .inl ⟨htwo, houtput, .inr hinvalid⟩
        · obtain ⟨digits, problem, hfault⟩ :=
            ofDocument_of_not_counted (.ofText .lisp text) hin (by simpa using hcounted)
          exact .inr ⟨fun h => hcounted (h hin), _, hfault⟩
      · obtain ⟨r, hr, htwo, houtput⟩ :=
          ofDocument_of_outside (.ofText .lisp text) args.commands hin hfits
        refine .inl ⟨fun h => absurd h hin, r, hr, exits_of_decode htext ?_⟩
        exact .inl ⟨htwo, houtput, .inl hin⟩

/-- A run whose command line is understood is that of its file and its commands, with fewer
    events. -/
theorem ofStrings_cases {l : Lettering} (read : String → Option ByteArray) {words : List String}
    (h : Arguments.ofStrings l words = .ok args) :
    (args.Readable (read args.file) ∧
        ∃ r, ofStrings l read words = .ok r ∧ r.Exits args (read args.file)) ∨
      (¬ args.Readable (read args.file) ∧ ∃ e, ofStrings l read words = .error e) := by
  have hrun : ofStrings l read words =
      (ofContents args (read args.file)).map (shown args.verbose) := by
    unfold ofStrings
    rw [h]
    rfl
  rw [hrun]
  have hfits := Arguments.fits_position h
  rcases ofContents_cases hfits (read args.file) with ⟨hreadable, r, hr, hexits⟩ | ⟨hnot, e, he⟩
  · rw [hr]
    exact .inl ⟨hreadable, _, rfl,
      hexits.missing, hexits.rejected, hexits.status_le, hexits.silent⟩
  · rw [he]
    exact .inr ⟨hnot, e, rfl⟩

/-- If the command line is understood, however its letters are read, there is a report exactly if the
    file and the counts can be read, and its exit status says what came of the run. -/
theorem ofStrings_exits (l : Lettering) (read : String → Option ByteArray) {words : List String}
    (h : Arguments.ofStrings l words = .ok args) :
    ((∃ r, ofStrings l read words = .ok r) ↔ args.Readable (read args.file)) ∧
      ∀ r, ofStrings l read words = .ok r → r.Exits args (read args.file) := by
  rcases ofStrings_cases read h with ⟨hreadable, r, hr, hexits⟩ | ⟨hnot, e, he⟩
  · rw [hr]
    refine ⟨iff_of_true ⟨r, rfl⟩ hreadable, ?_⟩
    rintro _ ⟨⟩
    exact hexits
  · rw [he]
    exact ⟨iff_of_false nofun hnot, nofun⟩

/-- Outside the text, a count that cannot be read does not matter: the exit status is 2. Of the word
    `-v1`, the letter is an option, and the digit is a command. -/
theorem ofStrings_exits_outside :
    let read : String → Option ByteArray := fun _ => some "(a b)".toUTF8
    let words := ["f.scm", "²f", "-v1", "--position", "9"]
    let args : Arguments := ⟨"f.scm", ["²f", "-1"], 9, true⟩
    Arguments.ofStrings .leading words = .ok args ∧ args.Readable (read args.file) ∧
      ∃ r, ofStrings .leading read words = .ok r ∧ r.Exits args (read args.file) ∧ r.status = 2 := by
  intro read words args
  have hargs : Arguments.ofStrings .leading words = .ok args := by decide +kernel
  have htext : Document.decode? "(a b)".toUTF8 = some ['(', 'a', ' ', 'b', ')'] := by decide +kernel
  have houtside : ¬ args.InText ['(', 'a', ' ', 'b', ')'] := by
    rintro ⟨-, hle⟩
    exact absurd hle (by decide)
  have hreadable : args.Readable (read args.file) := by
    rintro _ ⟨⟩
    exact ⟨_, htext, fun h => absurd h houtside⟩
  obtain ⟨hsome, hexits⟩ := ofStrings_exits .leading read hargs
  obtain ⟨r, hr⟩ := hsome.mpr hreadable
  exact ⟨hargs, hreadable, r, hr, hexits r hr,
    (hexits r hr).rejected.mpr ⟨_, htext, .inl houtside⟩⟩

/-- A superscript digit before the letter of a direction ends the run in a fault, and so does a file
    that is not in UTF-8, however letters are read. -/
theorem ofStrings_without_status :
    let read : String → Option ByteArray := fun file =>
      if file = "f.scm" then some "(a b)".toUTF8 else some ⟨#[0xff]⟩
    ∀ l : Lettering, (Arguments.ofStrings l ["f.scm", "²f"] = .ok ⟨"f.scm", ["²f"], 0, false⟩ ∧
      ¬ ∃ r, ofStrings l read ["f.scm", "²f"] = .ok r) ∧
    Arguments.ofStrings l ["g.scm", "f"] = .ok ⟨"g.scm", ["f"], 0, false⟩ ∧
      ¬ ∃ r, ofStrings l read ["g.scm", "f"] = .ok r := by
  intro read l
  have hcount : Arguments.ofStrings l ["f.scm", "²f"] = .ok ⟨"f.scm", ["²f"], 0, false⟩ := by
    cases l <;> decide +kernel
  have hbytes : Arguments.ofStrings l ["g.scm", "f"] = .ok ⟨"g.scm", ["f"], 0, false⟩ := by
    cases l <;> decide +kernel
  refine ⟨⟨hcount, ?_⟩, hbytes, ?_⟩
  · rcases ofStrings_cases read hcount with ⟨hreadable, -⟩ | ⟨-, e, he⟩
    · -- The superscript digit would have to be decimal.
      have htext : Document.decode? "(a b)".toUTF8 = some ['(', 'a', ' ', 'b', ')'] := by
        decide +kernel
      obtain ⟨text, hsome, hcounted⟩ := hreadable _ rfl
      obtain rfl := Option.some.inj (htext.symm.trans hsome)
      have hdecimal := (hcounted ⟨by decide, by decide⟩ "²f" List.mem_cons_self).1 '²' (by decide)
      exact absurd hdecimal (by decide)
    · rw [he]
      exact nofun
  · rcases ofStrings_cases read hbytes with ⟨hreadable, -⟩ | ⟨-, e, he⟩
    · have htext : Document.decode? ⟨#[0xff]⟩ = none := by decide +kernel
      obtain ⟨text, hsome, -⟩ := hreadable _ rfl
      exact nomatch htext.symm.trans hsome
    · rw [he]
      exact nofun

end Report

end SExprNav
