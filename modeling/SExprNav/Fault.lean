import SExprNav.Text.Numeral
import SExprNav.Text.Quoted
import SExprNav.Value

/-!
# Faults

What can go wrong other than a movement that is not possible. Each cause is a constructor and
`Fault.message` is its wording. Being stuck is not a fault: a movement that is not possible has no
result, and says so in its type.

Some wordings hold a number. It has to be written before there is such a fault, and if it has more
digits than may be written, that is the fault (`Fault.naming`).

* `Numeral.write_eq_ok_iff`   when a number can be written, and how
* `Fault.naming_of_fits`      the fault is the one to be expected if its number can be written
-/

namespace SExprNav

/-- The cause of an error. -/
inductive Fault where
  /-- A cursor was put outside the text. -/
  | outOfBounds (position : Int)
  /-- The delimiters do not come in pairs. -/
  | unpairedDelimiters (delimiters : List Char)
  /-- The comment marker is empty. -/
  | emptyMarker
  /-- A value stands where a whole number is expected. -/
  | notInteger (found : Value.Kind)
  /-- A value stands where a traversal is expected. -/
  | notTraversal (found : Value.Kind)
  /-- A value stands where a condition is expected. -/
  | notCondition (found : Value.Kind)
  /-- A circuit is to be repeated a negative number of times. -/
  | negativeTimes (times : Int)
  /-- A value that is no traversal is to be executed. -/
  | unknownTraversal (found : Value.Kind)
  /-- The count of a command is not written in decimal digits, or in too many. -/
  | badCount (digits : List Char) (problem : Numeral.Problem)
  /-- A number has more digits than may be written. -/
  | unwritable (limit : Nat)
  /-- A condition failed to answer. -/
  | conditionFailed (message : String)
  /-- A file is not in UTF-8. -/
  | undecodable
  /-- The command line ends the program with this status before anything is read. -/
  | exit (status : Nat)
deriving DecidableEq, Repr

namespace Fault

/-- How many characters of a bad count are shown, quotes and escapes counted in. -/
def shownDigits : Nat := 200

/-- The wording of a fault. -/
def message : Fault → String
  | .outOfBounds position => "position out of bounds: " ++ toString position
  | .unpairedDelimiters delimiters => "Delimiters come in pairs: " ++ Text.quoted delimiters
  | .emptyMarker => "A comment marker cannot be empty"
  | .notInteger found => "Expected value of type 'int' but is type '" ++ found.word ++ "'"
  | .notTraversal found =>
    "Expected value of type 'Move or Maneuver or Circuit or Detour or Precaution or Protocol'" ++
      " but is type '" ++ found.word ++ "'"
  | .notCondition found => "Expected a callable but got type '" ++ found.word ++ "'"
  | .negativeTimes times =>
    "A circuit can't be repeated a negative number of times: " ++ toString times
  | .unknownTraversal found => "Unknown traversal: <class '" ++ found.word ++ "'>"
  | .badCount digits .malformed =>
    "invalid literal for int() with base 10: " ++ Text.quotedUpTo shownDigits digits
  | .badCount _ (.tooLong digits) =>
    "Exceeds the limit (" ++ toString Numeral.digitLimit ++
      " digits) for integer string conversion: value has " ++ toString digits ++
      " digits; use sys.set_int_max_str_digits() to increase the limit"
  | .unwritable limit =>
    "Exceeds the limit (" ++ toString limit ++
      " digits) for integer string conversion; use sys.set_int_max_str_digits() to increase the limit"
  | .conditionFailed message => message
  | .undecodable => ""
  | .exit status => toString status

end Fault

/-- One thing and then another that depends on it succeed if both do. -/
theorem bind_eq_ok_iff {ε α β : Type} {x : Except ε α} {f : α → Except ε β} {b : β} :
    (x >>= f) = .ok b ↔ ∃ a, x = .ok a ∧ f a = .ok b := by
  cases x <;> simp [bind, Except.bind]

theorem map_eq_ok_iff {ε α β : Type} {x : Except ε α} {f : α → β} {b : β} :
    x.map f = .ok b ↔ ∃ a, x = .ok a ∧ f a = b := by
  cases x <;> simp [Except.map]

/-! ## Numbers in wordings -/

/-- A number in digits, if it has no more of them than may be written. -/
def Numeral.write (limit : Option Nat) (n : Int) : Except Fault String :=
  match limit with
  | none => .ok (toString n)
  | some k => if Fits (some k) n then .ok (toString n) else .error (.unwritable k)

theorem Numeral.write_eq_ok_iff {limit : Option Nat} {n : Int} {s : String} :
    write limit n = .ok s ↔ Fits limit n ∧ s = toString n := by
  unfold write
  cases limit with
  | none => simp [eq_comm]
  | some k => by_cases h : Fits (some k) n <;> simp [h, eq_comm]

/-- A fault whose wording holds a number: if the number cannot be written, that is the fault. -/
def Fault.naming (limit : Option Nat) (n : Int) (e : Fault) : Fault :=
  match Numeral.write limit n with
  | .ok _ => e
  | .error e' => e'

theorem Fault.naming_of_fits {limit : Option Nat} {n : Int} (h : Numeral.Fits limit n) (e : Fault) :
    naming limit n e = e := by
  rw [naming, Numeral.write_eq_ok_iff.mpr ⟨h, rfl⟩]

end SExprNav
