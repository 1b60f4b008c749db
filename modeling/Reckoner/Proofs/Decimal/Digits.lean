import Reckoner.Decimal.Digits
import Mathlib.Algebra.Order.Field.Rat
import Mathlib.Data.List.Induction

/-!
# Runs of digits

The digits of a number read back as the number, zeros at either end of a run of digits
do what they should, and the length of a number in digits tells its size.
-/

namespace Reckoner
namespace Decimal

theorem isDigit_of_mem_toDigits {n : Nat} {c : Char} (h : c ∈ Nat.toDigits 10 n) :
    isDigit c = true :=
  Nat.isDigit_of_mem_toDigits (by decide) (by decide) h

theorem digitsValue_eq_ofDigitChars (read : Nat) (digits : List Char) :
    digitsValue read digits = Nat.ofDigitChars 10 digits read := by
  rfl

theorem digitsValue_toDigits (n : Nat) : digitsValue 0 (Nat.toDigits 10 n) = n := by
  rw [digitsValue_eq_ofDigitChars]
  exact Nat.ofDigitChars_ten_toDigits

theorem toDigits_injective {m n : Nat} (h : Nat.toDigits 10 m = Nat.toDigits 10 n) : m = n := by
  calc
    m = digitsValue 0 (Nat.toDigits 10 m) := (digitsValue_toDigits m).symm
    _ = digitsValue 0 (Nat.toDigits 10 n) := by rw [h]
    _ = n := digitsValue_toDigits n

theorem digitsValue_zeros (read zeros : Nat) :
    digitsValue read (List.replicate zeros '0') = 10 ^ zeros * read := by
  rw [digitsValue_eq_ofDigitChars]
  exact Nat.ofDigitChars_replicate_zero

theorem digitsValue_zeros_append (zeros : Nat) (digits : List Char) :
    digitsValue 0 (List.replicate zeros '0' ++ digits) = digitsValue 0 digits := by
  rw [digitsValue_append, digitsValue_zeros, Nat.mul_zero]

theorem digitChar_digitValue {c : Char} (hc : isDigit c = true) :
    (digitValue c).digitChar = c := by
  rcases Bool.and_eq_true_iff.mp hc with ⟨hlow, hhigh⟩
  have hleast : 48 ≤ c.toNat := of_decide_eq_true hlow
  have hmost : c.toNat ≤ 57 := of_decide_eq_true hhigh
  have hvalue : digitValue c = c.toNat - 48 := rfl
  rw [← Char.toNat_inj, Nat.toNat_digitChar_of_lt_ten (by omega)]
  omega

/-- A run of digits is the text of its number, with zeros before it. -/
theorem exists_zeros_toDigits {digits : List Char} (hne : digits ≠ [])
    (hdigits : ∀ c ∈ digits, isDigit c = true) :
    ∃ zeros, digits = List.replicate zeros '0' ++ Nat.toDigits 10 (digitsValue 0 digits) := by
  induction digits using List.reverseRecOn with
  | nil => exact absurd rfl hne
  | append_singleton before c ih =>
      rcases List.forall_mem_append.mp hdigits with ⟨hbefore, hlast⟩
      have hc := hlast c (List.mem_singleton_self c)
      have hsmall : digitValue c < 10 := by
        have hmost : c.toNat ≤ 57 := of_decide_eq_true (Bool.and_eq_true_iff.mp hc).2
        have hvalue : digitValue c = c.toNat - 48 := rfl
        omega
      have hdigit : Nat.toDigits 10 (digitValue c) = [c] := by
        rw [Nat.toDigits_of_lt_base hsmall, digitChar_digitValue hc]
      have hvalue : digitsValue 0 (before ++ [c]) = 10 * digitsValue 0 before + digitValue c :=
        digitsValue_append 0 before [c]
      rw [hvalue]
      rcases Nat.eq_zero_or_pos (digitsValue 0 before) with hzero | hpos
      · -- all digits so far are zeros, and the text of the number is the last one alone
        rw [hzero, Nat.mul_zero, Nat.zero_add, hdigit]
        by_cases hempty : before = []
        · exact ⟨0, by rw [hempty]; rfl⟩
        · rcases ih hempty hbefore with ⟨zeros, hrun⟩
          rw [hzero, Nat.toDigits_zero, ← List.replicate_succ'] at hrun
          exact ⟨zeros + 1, by rw [← hrun]⟩
      · have hempty : before ≠ [] := by
          rintro rfl
          exact Nat.lt_irrefl 0 hpos
        rcases ih hempty hbefore with ⟨zeros, hrun⟩
        refine ⟨zeros, ?_⟩
        rw [← Nat.toDigits_append_toDigits (by decide) hpos hsmall, hdigit, ← List.append_assoc,
          ← hrun]

theorem digitsValue_append_zeros (digits : List Char) (zeros : Nat) :
    digitsValue 0 (digits ++ List.replicate zeros '0') = 10 ^ zeros * digitsValue 0 digits := by
  rw [digitsValue_append, digitsValue_zeros]

theorem lt_pow_length_toDigits (n : Nat) : n < 10 ^ (Nat.toDigits 10 n).length :=
  (Nat.length_toDigits_le_iff (by decide) Nat.length_toDigits_pos).mp (Nat.le_refl _)

theorem pow_length_toDigits_le {n : Nat} (hn : 0 < n) :
    10 ^ ((Nat.toDigits 10 n).length - 1) ≤ n := by
  rcases Nat.eq_zero_or_pos ((Nat.toDigits 10 n).length - 1) with hone | hmore
  · rw [hone]
    exact hn
  · apply Nat.le_of_not_lt
    intro hlt
    have hlength := (Nat.length_toDigits_le_iff (by decide) hmore).mpr hlt
    omega

end Decimal
end Reckoner
