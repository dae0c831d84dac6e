import Mathlib.Data.List.Induction
import SExprNav.CommandLine.Arguments

/-!
# The position that the command line asks for

A number that has been read from a text can be written again: no more digits are read than may be
written. So the position of a command line can be named if it is outside the text, whatever the
options are and wherever they stand.

## Key results

- `Numeral.fits_of_readInt`: a number that has been read can be written
- `Arguments.writable_takeOptions`: options keep it so that the position can be written
- `Arguments.fits_position`: the position of a command line can be written
-/

namespace SExprNav

/-! ## Numbers that are read -/

namespace Numeral

open Text (decimalValue?)

/-- A number in digits is less than the power of ten with as many zeros. -/
theorem ofDigits_lt {ds : List Nat} (h : ∀ d ∈ ds, d < 10) : ofDigits ds < Nat.pow 10 ds.length := by
  induction ds using List.reverseRecOn with
  | nil => exact Nat.one_pos
  | append_singleton ds d ih =>
    obtain ⟨hds, hd⟩ := List.forall_mem_append.mp h
    have hlast := hd d (List.mem_singleton_self d)
    have hlt := ih hds
    rw [ofDigits_concat, List.length_append, List.length_singleton]
    show _ < Nat.pow 10 ds.length * 10
    omega

/-- A number in as many digits as may be written can be written. -/
theorem fits_ofDigits {ds : List Nat} {k : Nat} (hk : 0 < k) (h : ∀ d ∈ ds, d < 10)
    (hlength : ds.length ≤ k) : Fits (some k) (ofDigits ds : Nat) := by
  rintro _ ⟨⟩
  refine (Nat.length_toDigits_le_iff (by decide) hk).mpr ?_
  exact Nat.lt_of_lt_of_le (ofDigits_lt h) (Nat.pow_le_pow_right (by decide) hlength)

/-- A number without a sign that has been read can be written. -/
theorem fits_of_readNat {cs : List Char} {n : Nat} (h : readNat cs = .ok n) :
    Fits (some digitLimit) n := by
  unfold readNat at h
  dsimp only at h
  split at h
  · cases h
  split at h
  · cases h
  split at h
  · rename_i hlength _
    cases h
    refine fits_ofDigits (by decide) (fun d hd => ?_) (Nat.le_of_not_lt hlength)
    obtain ⟨c, -, hc⟩ := List.mem_filterMap.mp hd
    exact Text.decimalValue?_lt hc
  · cases h

/-- A number that has been read can be written; its sign is not counted. -/
theorem fits_of_readInt {cs : List Char} {i : Int} (h : readInt cs = .ok i) :
    Fits (some digitLimit) i := by
  unfold readInt at h
  split at h
  · obtain ⟨n, hn, rfl⟩ := map_eq_ok_iff.mp h
    unfold Fits
    rw [Int.natAbs_neg]
    exact fits_of_readNat hn
  · obtain ⟨n, hn, rfl⟩ := map_eq_ok_iff.mp h
    exact fits_of_readNat hn
  · obtain ⟨n, hn, rfl⟩ := map_eq_ok_iff.mp h
    exact fits_of_readNat hn

end Numeral

/-! ## Options -/

namespace Arguments

variable {l : Lettering} {s s' : Settings}

namespace Settings

/-- The position that the options ask for can be written. -/
def Writable (s : Settings) : Prop := Numeral.Fits (some Numeral.digitLimit) s.position

/-- An option without a value leaves the position as it is. -/
theorem Writable.heed {f : Flag} (hs : s.Writable) (h : s.heed f = .ok s') : s'.Writable := by
  cases f with
  | help => cases h
  | verbose => cases h; exact hs
  | position => cases h

/-- So do several of them. -/
theorem Writable.heedAll {fs : List Flag} (hs : s.Writable) (h : s.heedAll fs = .ok s') :
    s'.Writable := by
  induction fs generalizing s with
  | nil => cases h; exact hs
  | cons f fs ih =>
    obtain ⟨s₁, hf, hfs⟩ := bind_eq_ok_iff.mp h
    exact ih (hs.heed hf) hfs

/-- Only a position that can be read is heeded. -/
theorem writable_place {value : String} (h : s.place value = .ok s') : s'.Writable := by
  unfold place at h
  split at h
  · rename_i n hn
    cases h
    exact Numeral.fits_of_readInt hn
  · cases h

end Settings

/-- Taking options out keeps it so that the position can be written. -/
theorem writable_takeOptions {ws : List Word} {rs : List Remnant} (hs : s.Writable)
    (h : takeOptions l s ws = .ok (s', rs)) : s'.Writable := by
  fun_induction takeOptions l s ws generalizing rs with
  | case1 => cases h; exact hs
  | case2 s _ ws ih | case3 s _ ws ih | case4 s ws ih =>
    obtain ⟨⟨s₁, rs₁⟩, hrest, hpair⟩ := bind_eq_ok_iff.mp h
    cases hpair
    exact ih hs hrest
  | case5 s cs ws ih =>
    obtain ⟨⟨fs, rest⟩, -, h⟩ := bind_eq_ok_iff.mp h
    obtain ⟨s₁, hheed, h⟩ := bind_eq_ok_iff.mp h
    obtain ⟨⟨s₂, rs₂⟩, hrest, hpair⟩ := bind_eq_ok_iff.mp h
    cases hpair
    exact ih s₁ (hs.heedAll hheed) hrest
  | case6 s value ws ih | case7 s value ws ih =>
    obtain ⟨s₁, hplace, h⟩ := bind_eq_ok_iff.mp h
    obtain ⟨⟨s₂, rs₂⟩, hrest, hpair⟩ := bind_eq_ok_iff.mp h
    cases hpair
    exact ih s₁ (Settings.writable_place hplace) hrest
  | case8 | case9 => cases h
  | case10 s f ws _ _ ih =>
    obtain ⟨s₁, hheed, h⟩ := bind_eq_ok_iff.mp h
    obtain ⟨⟨s₂, rs₂⟩, hrest, hpair⟩ := bind_eq_ok_iff.mp h
    cases hpair
    exact ih s₁ (hs.heed hheed) hrest

/-- The options say what the position is, and what is left of the words does not. -/
theorem position_ofRemnants {rs : List Remnant} {args : Arguments}
    (h : ofRemnants s rs = .ok args) : args.position = s.position := by
  have hshare : ∀ {file rest}, share s file rest = .ok args → args.position = s.position := by
    intro file rest h
    unfold share at h
    dsimp only at h
    split at h
    · cases h
      rfl
    · cases h
  unfold ofRemnants at h
  split at h
  · exact hshare h
  · exact hshare h
  · exact hshare h
  · cases h

/-- The position that a command line asks for can be written. -/
theorem fits_position {words : List String} {args : Arguments} (h : ofStrings l words = .ok args) :
    Numeral.Fits (some Numeral.digitLimit) args.position := by
  obtain ⟨ws, -, h⟩ := bind_eq_ok_iff.mp h
  obtain ⟨⟨s₁, first⟩, hfirst, h⟩ := bind_eq_ok_iff.mp h
  obtain ⟨ws₁, -, h⟩ := bind_eq_ok_iff.mp h
  obtain ⟨⟨s₂, second⟩, hsecond, h⟩ := bind_eq_ok_iff.mp h
  have hzero : ({} : Settings).Writable := by
    unfold Settings.Writable
    decide
  rw [position_ofRemnants h]
  exact writable_takeOptions (writable_takeOptions hzero hfirst) hsecond

end Arguments

end SExprNav
