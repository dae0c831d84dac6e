import SExprNav.Command
import SExprNav.CommandLine.Arguments
import SExprNav.Text.Line

/-!
# Runs of the command line

A run reads a file, puts the cursor where it is asked to, carries out the commands and shows the line
that the cursor is then on. `Report.ofArguments` is the whole run, given what the file holds; a fault
means that the run ends without a report.
-/

namespace SExprNav

/-- What comes of a run. -/
structure Report where
  /-- The exit status. -/
  status : Nat
  /-- The text on standard output. -/
  output : String := ""
  log : List (Event Empty)

/-- The text of a file: its characters in UTF-8, with one kind of line end. -/
def Document.decode? (bytes : ByteArray) : Option (List Char) :=
  (String.fromUTF8? bytes).map fun s => Line.normalize s.toList

/-- The position of a cursor and the line it is on, with a caret below it. -/
def Cursor.show {doc : Document} (c : Cursor doc) : String :=
  toString c.pos ++ "\n" ++ Line.withCaret doc.text c.pos ++ "\n"

namespace Report

/-- Carries out commands in a document from a position. A position outside the text is reported; any
other fault ends the run. -/
def ofDocument (doc : Document) (position : Int) (commands : List String) : Except Fault Report :=
  match doc.place (some Numeral.digitLimit) position with
  | .error (.outOfBounds p) =>
    .ok { status := 2, log := doc.events ++ [.badPosition (.outOfBounds p)] }
  | .error e => .error e
  | .ok c =>
    let r := Action.navigate nofun commands c
    match r.answer with
    | .error e => .error e
    | .ok [] => .ok { status := 0, output := r.cursor.show, log := doc.events ++ r.log }
    | .ok unknown => .ok { status := 2, log := doc.events ++ r.log ++ [.unknownCommands unknown] }

/-- Carries out the commands of a command line on the contents of its file, if there is such a
file. -/
def ofContents (args : Arguments) : Option ByteArray → Except Fault Report
  | none => .ok { status := 1, log := [.noSuchFile args.file] }
  | some bytes =>
    match Document.decode? bytes with
    | none => .error .undecodable
    | some text => ofDocument (.ofText .lisp text) args.position args.commands

/-- The events of a report that are shown. -/
def shown (verbose : Bool) (r : Report) : Report :=
  { r with log := Event.atLeast (if verbose then .debug else .info) r.log }

/-- Carries out the commands of a command line; `read` gives the contents of files. -/
def ofArguments (read : String → Option ByteArray) (args : Arguments) : Except Fault Report :=
  (ofContents args (read args.file)).map (shown args.verbose)

/-- A whole run, from the words of the command line. -/
def ofStrings (l : Arguments.Lettering) (read : String → Option ByteArray) (words : List String) :
    Except Fault Report := do
  ofArguments read (← Arguments.ofStrings l words)

end Report

end SExprNav
