import Mathlib.Data.List.Induction
import SExprNav.Proofs.Command.Navigation

/-!
# Counts and the numbers that they write

A number is written in its decimal digits, each of which may be taken from any script, with any number
of zeros in front of them. One more digit makes ten times the number and the digit, in the written
form (`Numeral.Spells.concat`) as in the value that is read (`Numeral.ofDigits_concat`). So what is
read from digits is the number that they write, and a count that is not too long is split off a text
as that number.

## Key results

- `Numeral.Spells.value`: digits that write a number are worth it
- `Numeral.spells_ofDigits`: digits write the number that they are worth
- `Command.cases_of_split`: what is split off a text
- `Command.split_decodes`: a count is the number that it writes
-/

namespace SExprNav

open Text (isDigit decimalValue?)

/-! ## Written numbers -/

namespace Numeral

variable {digits : List Char} {c : Char} {d n : Nat}

/-- Some characters are the decimal digits of a number behind any number of zeros, each of them taken
    from any script. -/
def Spells (digits : List Char) (n : Nat) : Prop :=
  ∃ zeros, digits.map decimalValue? =
    (List.replicate zeros '0' ++ Nat.toDigits 10 n).map decimalValue?

theorem decimalValue?_of_isDigit (h : c.isDigit = true) :
    decimalValue? c = some (c.toNat - '0'.toNat) := by
  obtain ⟨hle, hge⟩ := Char.isDigit_iff_toNat.mp h
  have hzeros : Text.decimalZeros = '0'.toNat :: Text.decimalZeros.tail := rfl
  unfold Text.decimalValue?
  rw [hzeros, List.find?_cons_of_pos]
  · rfl
  · simp only [Bool.and_eq_true, decide_eq_true_eq]
    exact ⟨hle, Nat.lt_succ_of_le hge⟩

theorem decimalValue?_digitChar (h : d < 10) : decimalValue? (Nat.digitChar d) = some d := by
  have hall : ∀ d < 10, decimalValue? (Nat.digitChar d) = some d := by decide
  exact hall d h

/-- Of the digits of one script, both ways to read a number make the same. -/
theorem ofDigits_eq_ofDigitChars (h : ∀ c ∈ digits, c.isDigit = true) :
    ofDigits (digits.filterMap decimalValue?) = Nat.ofDigitChars 10 digits 0 := by
  induction digits using List.reverseRecOn with
  | nil => rfl
  | append_singleton digits c ih =>
    obtain ⟨hdigits, hlast⟩ := List.forall_mem_append.mp h
    have hc := decimalValue?_of_isDigit (hlast c (List.mem_singleton_self c))
    rw [List.filterMap_append, List.filterMap_cons_some hc, List.filterMap_nil, ofDigits_concat,
      ih hdigits, Nat.ofDigitChars_append, Nat.ofDigitChars_cons, Nat.ofDigitChars_nil]

/-- The digits of a number, with zeros in front, can be read and are worth that number. -/
theorem Spells.value (h : Spells digits n) :
    (∀ c ∈ digits, (decimalValue? c).isSome = true) ∧
      ofDigits (digits.filterMap decimalValue?) = n := by
  obtain ⟨zeros, hdigits⟩ := h
  have hplain : ∀ c ∈ List.replicate zeros '0' ++ Nat.toDigits 10 n, c.isDigit = true := by
    intro c hc
    rcases List.mem_append.mp hc with hc | hc
    · obtain rfl := List.eq_of_mem_replicate hc
      decide
    · exact Nat.isDigit_of_mem_toDigits (by decide) (by decide) hc
  -- Each digit has the value of the one in its place in the plain form.
  constructor
  · intro c hc
    have hmem : decimalValue? c ∈ digits.map decimalValue? := List.mem_map_of_mem hc
    rw [hdigits] at hmem
    obtain ⟨e, he, heq⟩ := List.mem_map.mp hmem
    rw [← heq, decimalValue?_of_isDigit (hplain e he)]
    rfl
  · have hvalues := congrArg (List.filterMap id) hdigits
    rw [List.filterMap_map, List.filterMap_map, Function.id_comp] at hvalues
    rw [hvalues, ofDigits_eq_ofDigitChars hplain, Nat.ofDigitChars_append,
      Nat.ofDigitChars_replicate_zero, Nat.mul_zero, Nat.ofDigitChars_ten_toDigits]

theorem Spells.ne_nil (h : Spells digits n) : digits ≠ [] := by
  rintro rfl
  obtain ⟨zeros, hdigits⟩ := h
  simp [Nat.toDigits_ne_nil] at hdigits

theorem Spells.singleton (h : decimalValue? c = some d) : Spells [c] d := by
  have hd := Text.decimalValue?_lt h
  refine ⟨0, ?_⟩
  rw [Nat.toDigits_of_lt_base hd]
  simp [h, decimalValue?_digitChar hd]

/-- One more digit makes ten times the number and the digit. -/
theorem Spells.concat (hn : Spells digits n) (hc : decimalValue? c = some d) :
    Spells (digits ++ [c]) (10 * n + d) := by
  have hd := Text.decimalValue?_lt hc
  have hlast : [c].map decimalValue? = (Nat.toDigits 10 d).map decimalValue? := by
    rw [Nat.toDigits_of_lt_base hd]
    simp [hc, decimalValue?_digitChar hd]
  obtain ⟨zeros, hdigits⟩ := hn
  by_cases hzero : n = 0
  · -- The number zero has a digit of its own, which is now one of the zeros in front.
    subst hzero
    refine ⟨zeros + 1, ?_⟩
    rw [List.map_append, hdigits, hlast, ← List.map_append, Nat.toDigits_zero,
      ← List.replicate_succ', Nat.mul_zero, Nat.zero_add]
  · refine ⟨zeros, ?_⟩
    rw [List.map_append, hdigits, hlast, ← List.map_append, List.append_assoc,
      Nat.toDigits_append_toDigits (by decide) (by omega) hd]

/-- Decimal digits write the number that they are worth. -/
theorem spells_ofDigits (hne : digits ≠ [])
    (h : ∀ c ∈ digits, (decimalValue? c).isSome = true) :
    Spells digits (ofDigits (digits.filterMap decimalValue?)) := by
  induction digits using List.reverseRecOn with
  | nil => exact absurd rfl hne
  | append_singleton digits c ih =>
    obtain ⟨hdigits, hlast⟩ := List.forall_mem_append.mp h
    obtain ⟨d, hd⟩ := Option.isSome_iff_exists.mp (hlast c (List.mem_singleton_self c))
    rw [List.filterMap_append, List.filterMap_cons_some hd, List.filterMap_nil, ofDigits_concat]
    by_cases hnil : digits = []
    · subst hnil
      simpa [ofDigits] using Spells.singleton hd
    · exact (ih hnil hdigits).concat hd

/-- The digits from which a number can be read are those that write it and are not too many. -/
theorem writes_iff_spells :
    Writes digits n ↔ Spells digits n ∧ digits.length ≤ digitLimit := by
  constructor
  · intro h
    have hspells := spells_ofDigits h.nonempty h.decimal
    rw [h.value] at hspells
    exact ⟨hspells, h.length_le⟩
  · rintro ⟨hspells, hlength⟩
    obtain ⟨hdecimal, hvalue⟩ := hspells.value
    exact ⟨hspells.ne_nil, hdecimal, hlength, hvalue⟩

/-- What is read from digits is the number that they write. -/
theorem writes_of_readNat (hne : digits ≠ []) (hdigits : ∀ c ∈ digits, isDigit c = true)
    (h : readNat digits = .ok n) : Writes digits n := by
  obtain ⟨hdecimal, hlength⟩ := (readNat_of_isDigit hne hdigits).mp ⟨n, h⟩
  have hvalue := readNat_digits hne hdecimal hlength
  exact ⟨hne, hdecimal, hlength, Except.ok.inj (hvalue.symm.trans h)⟩

end Numeral

/-! ## Counts in front of a text -/

namespace Command

open Numeral (Spells Writes)

variable {cs rest : List Char} {n : Nat}

/-- All digits at the start of a text are split off: there are none, or they write the count. -/
theorem cases_of_split (h : split cs = .ok (n, rest)) :
    rest = cs.dropWhile isDigit ∧
      (cs.takeWhile isDigit = [] ∧ n = 1 ∨ Writes (cs.takeWhile isDigit) n) := by
  have hparts := @List.takeWhile_append_dropWhile _ isDigit cs
  have hdigits : ∀ c ∈ cs.takeWhile isDigit, isDigit c = true := fun c => List.mem_takeWhile_imp
  unfold split at h
  cases hcount : cs.takeWhile isDigit with
  | nil =>
    simp only [hcount] at h
    cases h
    rw [hcount, List.nil_append] at hparts
    exact ⟨hparts.symm, .inl ⟨rfl, rfl⟩⟩
  | cons d digits =>
    simp only [hcount] at h
    rw [hcount] at hdigits
    cases hread : Numeral.readNat (d :: digits) with
    | error problem => simp [hread] at h
    | ok m =>
      simp only [hread] at h
      cases h
      exact ⟨rfl, .inr (Numeral.writes_of_readNat (List.cons_ne_nil d digits) hdigits hread)⟩

/-- A number in at most `digitLimit` digits of any scripts, with zeros in front or not, is split off
    what stands behind it, if no digit does at once. What is split off a text leaves an end of it
    without a digit in front; the count is the number that is written before this end, or 1 if
    nothing is. -/
theorem split_decodes (digits cs rest : List Char) (n : Nat) :
    (Spells digits n → digits.length ≤ Numeral.digitLimit →
      (∀ c ∈ rest.head?, isDigit c = false) → split (digits ++ rest) = .ok (n, rest)) ∧
    (split cs = .ok (n, rest) →
      rest <:+ cs ∧ (∀ c ∈ rest.head?, isDigit c = false) ∧ (rest = cs → n = 1) ∧
        (rest ≠ cs → ∃ written, Spells written n ∧ cs = written ++ rest)) := by
  constructor
  · intro hspells hlength hrest
    exact split_append (Numeral.writes_iff_spells.mpr ⟨hspells, hlength⟩) hrest
  · intro h
    have hparts := @List.takeWhile_append_dropWhile _ isDigit cs
    obtain ⟨rfl, hcount⟩ := cases_of_split h
    refine ⟨List.dropWhile_suffix _, ?_, ?_, ?_⟩
    · intro c hc
      have hhead := List.head?_dropWhile_not isDigit cs
      rwa [Option.mem_def.mp hc] at hhead
    · intro hself
      rcases hcount with ⟨-, hone⟩ | hwrites
      · exact hone
      · -- Digits that write a number are not nothing, but nothing has been split off.
        rw [hself, List.append_left_eq_self] at hparts
        exact absurd hparts hwrites.nonempty
    · intro hne
      rcases hcount with ⟨hnil, -⟩ | hwrites
      · rw [hnil, List.nil_append] at hparts
        exact absurd hparts hne
      · exact ⟨_, (Numeral.writes_iff_spells.mp hwrites).1, hparts.symm⟩

/-- The digits of 37 in two scripts, behind a zero and before an underscore, which is not part of the
    count although it may stand between the digits of a number. -/
theorem split_decodes_two_scripts :
    let digits := ['0', '٣', '७']
    let rest := ['_', '1']
    Spells digits 37 ∧ digits.length ≤ Numeral.digitLimit ∧
      (∀ c ∈ rest.head?, isDigit c = false) ∧ split (digits ++ rest) = .ok (37, rest) ∧
      ∃ written, Spells written 37 ∧ digits ++ rest = written ++ rest := by
  intro digits rest
  have hspells : Spells digits 37 := ⟨1, by decide⟩
  have hlength : digits.length ≤ Numeral.digitLimit := by decide
  have hrest : ∀ c ∈ rest.head?, isDigit c = false := by
    rintro c ⟨⟩
    decide
  obtain ⟨hsplit, hback⟩ := split_decodes digits (digits ++ rest) rest 37
  have h := hsplit hspells hlength hrest
  exact ⟨hspells, hlength, hrest, h, (hback h).2.2.2 (by decide)⟩

end Command

end SExprNav
