import SExprNav.Text.Blank
import SExprNav.Text.Digit

/-!
# Whole numbers in digits

A number is read from decimal digits of any scripts. Single underscores may stand between digits,
blanks around the number, and a sign before it. At most `digitLimit` digits are read.

How many digits may be written is a setting of the runtime. It is `digitLimit` unless it has been
changed, and it may be that there is no limit.

* `ofDigits_concat`   what one more digit makes of a number
* `readNat_digits`    what a run of digits is worth
* `fits_none`         without a limit, every number can be written
-/

namespace SExprNav.Numeral

open Text (isBlank decimalValue?)

/-- Why a text is not read as a number. -/
inductive Problem where
  | malformed
  /-- There are more digits than `digitLimit`. -/
  | tooLong (digits : Nat)
deriving DecidableEq, Repr

/-- The largest number of digits that is read, and that is written unless the limit is changed. -/
def digitLimit : Nat := 4300

/-- The number with the given digits, the most significant one first. -/
def ofDigits (ds : List Nat) : Nat :=
  ds.foldl (fun n d => 10 * n + d) 0

/-- One more digit makes ten times the number and the digit. -/
theorem ofDigits_concat (ds : List Nat) (d : Nat) :
    ofDigits (ds ++ [d]) = 10 * ofDigits ds + d := by
  simp [ofDigits]

/-- The blanks that may stand around a number: all but the four information separators. -/
def isPadding (c : Char) : Bool :=
  isBlank c && !(decide (0x1c ≤ c.toNat) && decide (c.toNat ≤ 0x1f))

/-- Whether each underscore of a run of digits and underscores stands between two digits, and there
is a digit at all. -/
def wellSpaced : List Char → Bool
  | [] => false
  | '_' :: _ => false
  | [_] => true
  | _ :: '_' :: cs => wellSpaced cs
  | _ :: c :: cs => wellSpaced (c :: cs)

/-- Whether a character may stand in the run of digits of a number. -/
def isRunChar (c : Char) : Bool := (decimalValue? c).isSome || c == '_'

/-- Reads a number without a sign; blanks may follow it. -/
def readNat (cs : List Char) : Except Problem Nat :=
  let run := cs.takeWhile isRunChar
  let digits := run.filterMap decimalValue?
  if !wellSpaced run then .error .malformed
  else if digitLimit < digits.length then .error (.tooLong digits.length)
  else if (cs.dropWhile isRunChar).all isPadding then .ok (ofDigits digits)
  else .error .malformed

/-- Reads a number with or without a sign; blanks may stand around it. -/
def readInt (cs : List Char) : Except Problem Int :=
  match cs.dropWhile isPadding with
  | '-' :: rest => (readNat rest).map fun (n : Nat) => -(n : Int)
  | '+' :: rest => (readNat rest).map fun (n : Nat) => (n : Int)
  | rest => (readNat rest).map fun (n : Nat) => (n : Int)

/-- A run of at most `digitLimit` decimal digits is worth what its digits are. -/
theorem readNat_digits {cs : List Char} (hne : cs ≠ []) (hd : ∀ c ∈ cs, (decimalValue? c).isSome)
    (hl : cs.length ≤ digitLimit) :
    readNat cs = .ok (ofDigits (cs.filterMap decimalValue?)) := by
  have hrun : ∀ c ∈ cs, isRunChar c = true := fun c hc => by simp [isRunChar, hd c hc]
  have htake : cs.takeWhile isRunChar = cs := by
    simpa only [List.append_nil, List.takeWhile_nil] using
      @List.takeWhile_append_of_pos _ isRunChar cs [] hrun
  have hdrop : cs.dropWhile isRunChar = [] := by
    simpa only [List.append_nil, List.dropWhile_nil] using
      @List.dropWhile_append_of_pos _ isRunChar cs [] hrun
  have hus : ∀ c ∈ cs, c ≠ '_' := by
    rintro c hc rfl
    exact absurd (hd _ hc) (by decide)
  have hspaced : wellSpaced cs = true := by
    clear hrun htake hdrop hl hd
    fun_induction wellSpaced cs <;> simp_all
  have hlen : (cs.filterMap decimalValue?).length ≤ digitLimit :=
    Nat.le_trans (List.length_filterMap_le _ _) hl
  simp [readNat, htake, hdrop, hspaced, Nat.not_lt.mpr hlen]

/-! ## Writing -/

/-- A number has no more digits than may be written. Its sign is not counted. -/
def Fits (limit : Option Nat) (n : Int) : Prop :=
  ∀ k ∈ limit, (Nat.toDigits 10 n.natAbs).length ≤ k

instance (limit : Option Nat) (n : Int) : Decidable (Fits limit n) :=
  inferInstanceAs (Decidable (∀ k ∈ limit, (Nat.toDigits 10 n.natAbs).length ≤ k))

/-- Without a limit, every number can be written. -/
@[simp] theorem fits_none (n : Int) : Fits none n := nofun

end SExprNav.Numeral
