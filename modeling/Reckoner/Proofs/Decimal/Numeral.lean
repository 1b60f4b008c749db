import Reckoner.Decimal.Numeral
import Reckoner.Proofs.Decimal.Digits
import Mathlib.Algebra.Order.Field.Power
import Mathlib.Algebra.Order.Field.Rat

/-!
# Reading numerals

A text of digits, maybe with a point or an exponent, is read as one numeral, whose
size is the number that its digits and its exponent give.
-/

namespace Reckoner
namespace Decimal

/-!
# Runs of characters
-/

section Runs

variable {p : Char -> Bool} {run rest : List Char}

theorem takeWhile_run (hrun : ∀ c ∈ run, p c = true) (hrest : rest.takeWhile p = []) :
    (run ++ rest).takeWhile p = run := by
  rw [List.takeWhile_append_of_pos hrun, hrest, List.append_nil]

theorem dropWhile_run (hrun : ∀ c ∈ run, p c = true) (hrest : rest.takeWhile p = []) :
    (run ++ rest).dropWhile p = rest := by
  have hsplit := List.takeWhile_append_dropWhile (p := p) (l := rest)
  rw [hrest, List.nil_append] at hsplit
  rw [List.dropWhile_append_of_pos hrun, hsplit]

end Runs

namespace Numeral

def size (n : Numeral) : ℚ :=
  n.coefficient * 10 ^ n.scale

def ofText? (text : List Char) : Option Numeral :=
  afterWhole? false (text.takeWhile isDigit) (text.dropWhile isDigit)

def powerChars (power : Int) : List Char :=
  'e' :: (if power < 0 then '-' else '+') :: Nat.toDigits 10 power.natAbs

theorem exponent?_powerChars (power : Int) :
    exponent? ((if power < 0 then '-' else '+') :: Nat.toDigits 10 power.natAbs) =
      some power := by
  have hrun : exponent?.run (Nat.toDigits 10 power.natAbs) = true := by
    unfold exponent?.run
    rw [Bool.and_eq_true, List.all_eq_true]
    constructor
    · cases hdigits : Nat.toDigits 10 power.natAbs with
      | nil => exact absurd hdigits Nat.toDigits_ne_nil
      | cons d more => rfl
    · intro c hc
      exact isDigit_of_mem_toDigits hc
  rcases Int.lt_or_le power 0 with hneg | hnonneg
  · rw [if_pos hneg]
    show (if exponent?.run (Nat.toDigits 10 power.natAbs) then
      some (-(digitsValue 0 (Nat.toDigits 10 power.natAbs) : Int)) else none) = some power
    rw [if_pos hrun, digitsValue_toDigits]
    congr 1
    omega
  · rw [if_neg (by omega)]
    show (if exponent?.run (Nat.toDigits 10 power.natAbs) then
      some (digitsValue 0 (Nat.toDigits 10 power.natAbs) : Int) else none) = some power
    rw [if_pos hrun, digitsValue_toDigits]
    congr 1
    omega

variable {whole fraction : List Char}

/-!
# What follows the digits before the point
-/

theorem afterWhole?_point (hne : whole ≠ []) (hfraction : ∀ c ∈ fraction, isDigit c = true) :
    afterWhole? false whole ('.' :: fraction) =
      some { negative := false, whole, fraction, exponent := 0 } := by
  have htake : (fraction ++ []).takeWhile isDigit = fraction := takeWhile_run hfraction rfl
  have hdrop : (fraction ++ []).dropWhile isDigit = [] := dropWhile_run hfraction rfl
  rw [List.append_nil] at htake hdrop
  unfold afterWhole?
  simp only [htake, hdrop, List.isEmpty_eq_false_iff.mpr hne, Bool.false_and,
    Bool.false_eq_true, if_false]

theorem afterWhole?_power (hne : whole ≠ []) (power : Int) :
    afterWhole? false whole (powerChars power) =
      some { negative := false, whole, fraction := [], exponent := power } := by
  have hmark : afterWhole? false whole (powerChars power) =
      if whole.isEmpty && true then none
      else
        (exponent? ((if power < 0 then '-' else '+') :: Nat.toDigits 10 power.natAbs)).map
          fun exponent => { negative := false, whole, fraction := [], exponent } := rfl
  rw [hmark, exponent?_powerChars, List.isEmpty_eq_false_iff.mpr hne]
  rfl

theorem afterWhole?_point_power (hne : whole ≠ [])
    (hfraction : ∀ c ∈ fraction, isDigit c = true) (power : Int) :
    afterWhole? false whole ('.' :: (fraction ++ powerChars power)) =
      some { negative := false, whole, fraction, exponent := power } := by
  have htake : (fraction ++ powerChars power).takeWhile isDigit = fraction :=
    takeWhile_run hfraction rfl
  have hdrop : (fraction ++ powerChars power).dropWhile isDigit = powerChars power :=
    dropWhile_run hfraction rfl
  unfold afterWhole?
  simp only [htake, hdrop, List.isEmpty_eq_false_iff.mpr hne, Bool.false_and,
    Bool.false_eq_true, if_false]
  unfold powerChars
  simp only [exponent?_powerChars]
  rfl

theorem ofText?_append {rest : List Char} (hwhole : ∀ c ∈ whole, isDigit c = true)
    (hrest : rest.takeWhile isDigit = []) :
    ofText? (whole ++ rest) = afterWhole? false whole rest := by
  unfold ofText?
  rw [takeWhile_run hwhole hrest, dropWhile_run hwhole hrest]

/-!
# Sizes
-/

def Reads (text : List Char) (v : ℚ) : Prop :=
  ∃ n, ofText? text = some n ∧ n.size = v

theorem Reads.unique {text : List Char} {v w : ℚ} (hv : Reads text v) (hw : Reads text w) :
    v = w := by
  rcases hv with ⟨n, hn, hsize⟩
  rcases hw with ⟨n', hn', hsize'⟩
  have hsame : n = n' := Option.some.inj (hn.symm.trans hn')
  rw [← hsize, ← hsize', hsame]

theorem reads_point (hwhole : ∀ c ∈ whole, isDigit c = true) (hne : whole ≠ [])
    (hfraction : ∀ c ∈ fraction, isDigit c = true) :
    Reads (whole ++ '.' :: fraction)
      (digitsValue 0 (whole ++ fraction) * 10 ^ (-(fraction.length : Int))) := by
  refine ⟨{ negative := false, whole, fraction, exponent := 0 }, ?_, ?_⟩
  · rw [ofText?_append hwhole rfl]
    exact afterWhole?_point hne hfraction
  · show (digitsValue 0 (whole ++ fraction) * 10 ^ (0 - (fraction.length : Int)) : ℚ) = _
    rw [zero_sub]

theorem reads_power (hwhole : ∀ c ∈ whole, isDigit c = true) (hne : whole ≠ [])
    (power : Int) :
    Reads (whole ++ powerChars power) (digitsValue 0 whole * 10 ^ power) := by
  refine ⟨{ negative := false, whole, fraction := [], exponent := power }, ?_, ?_⟩
  · rw [ofText?_append hwhole rfl]
    exact afterWhole?_power hne power
  · show (digitsValue 0 (whole ++ []) * 10 ^ (power - 0) : ℚ) = _
    rw [List.append_nil, sub_zero]

theorem reads_point_power (hwhole : ∀ c ∈ whole, isDigit c = true) (hne : whole ≠ [])
    (hfraction : ∀ c ∈ fraction, isDigit c = true) (power : Int) :
    Reads (whole ++ '.' :: (fraction ++ powerChars power))
      (digitsValue 0 (whole ++ fraction) * 10 ^ (power - fraction.length)) := by
  refine ⟨{ negative := false, whole, fraction, exponent := power }, ?_, rfl⟩
  rw [ofText?_append hwhole rfl]
  exact afterWhole?_point_power hne hfraction power

end Numeral

end Decimal
end Reckoner
