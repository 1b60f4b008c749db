import Reckoner.Decimal.Notation
import Reckoner.Proofs.Decimal.Numeral
import Reckoner.Proofs.Decimal.Shortest

/-!
# The text of a double names it

The text of a double is a numeral, in either layout, and its size is that of the
shortest decimal.  That decimal rounds to the double and to no other one, so different
doubles have different texts.
-/

namespace Reckoner
namespace Decimal

/-!
# Characters
-/

def isNumeralChar (c : Char) : Bool :=
  isDigit c || c = '-' || c = '+' || c = '.' || c = 'e'

def isMark (c : Char) : Bool :=
  c = '.' || c = 'e'

theorem isNumeralChar_of_isDigit {c : Char} (h : isDigit c = true) : isNumeralChar c = true := by
  unfold isNumeralChar
  rw [h]
  rfl

namespace Style

open Numeral

variable {digits : List Char} {p : Int}

/-!
# Layouts
-/

theorem isDigit_of_mem_zeros {zeros : Nat} {c : Char} (h : c ∈ List.replicate zeros '0') :
    isDigit c = true := by
  rw [List.eq_of_mem_replicate h]
  rfl

theorem reads_positional_of_nonpos (hdigits : ∀ c ∈ digits, isDigit c = true) (hp : p ≤ 0) :
    Reads (positional digits p) (digitsValue 0 digits * 10 ^ (p - digits.length)) := by
  have hfraction : ∀ c ∈ List.replicate (-p).toNat '0' ++ digits, isDigit c = true := by
    intro c hc
    rcases List.mem_append.mp hc with hzero | hdigit
    · exact isDigit_of_mem_zeros hzero
    · exact hdigits c hdigit
  have hwhole : ∀ c ∈ ['0'], isDigit c = true := List.all_eq_true.mp rfl
  have hread := reads_point hwhole (List.cons_ne_nil _ _) hfraction
  have hvalue : digitsValue 0 (['0'] ++ (List.replicate (-p).toNat '0' ++ digits)) =
      digitsValue 0 digits := digitsValue_zeros_append ((-p).toNat + 1) digits
  have hscale : -((List.replicate (-p).toNat '0' ++ digits).length : Int) =
      p - digits.length := by
    rw [List.length_append, List.length_replicate]
    omega
  rw [hvalue, hscale] at hread
  unfold positional
  rw [if_pos hp]
  exact hread

theorem reads_positional_of_long (hdigits : ∀ c ∈ digits, isDigit c = true) (hp : 0 < p)
    (hlong : p < digits.length) :
    Reads (positional digits p) (digitsValue 0 digits * 10 ^ (p - digits.length)) := by
  have hwhole : ∀ c ∈ digits.take p.toNat, isDigit c = true := by
    intro c hc
    exact hdigits c (List.mem_of_mem_take hc)
  have hfraction : ∀ c ∈ digits.drop p.toNat, isDigit c = true := by
    intro c hc
    exact hdigits c (List.mem_of_mem_drop hc)
  have hsome : digits.take p.toNat ≠ [] := by
    rw [← List.length_pos_iff, List.length_take]
    omega
  have hmore : digits.drop p.toNat ≠ [] := by
    rw [← List.length_pos_iff, List.length_drop]
    omega
  have hread := reads_point hwhole hsome hfraction
  have hscale : -((digits.drop p.toNat).length : Int) = p - digits.length := by
    rw [List.length_drop]
    omega
  have hzeros : p.toNat - digits.length = 0 := by omega
  rw [List.take_append_drop, hscale] at hread
  unfold positional
  rw [if_neg (by omega)]
  simp only [hzeros, List.replicate_zero, List.append_nil, List.isEmpty_eq_false_iff.mpr hmore,
    Bool.false_eq_true, if_false]
  exact hread

theorem reads_positional_of_short (hdigits : ∀ c ∈ digits, isDigit c = true) (hp : 0 < p)
    (hne : digits ≠ []) (hshort : digits.length ≤ p) :
    Reads (positional digits p) (digitsValue 0 digits * 10 ^ (p - digits.length)) := by
  have hwhole : ∀ c ∈ digits ++ List.replicate (p.toNat - digits.length) '0',
      isDigit c = true := by
    intro c hc
    rcases List.mem_append.mp hc with hdigit | hzero
    · exact hdigits c hdigit
    · exact isDigit_of_mem_zeros hzero
  have hfraction : ∀ c ∈ ['0'], isDigit c = true := List.all_eq_true.mp rfl
  have hread := reads_point hwhole (List.append_ne_nil_of_left_ne_nil hne _) hfraction
  have hvalue : digitsValue 0 (digits ++ List.replicate (p.toNat - digits.length) '0' ++ ['0']) =
      10 ^ (p.toNat - digits.length + 1) * digitsValue 0 digits := by
    rw [List.append_assoc, ← List.replicate_succ', digitsValue_append_zeros]
  have hpower : (10 : ℚ) ^ (p - digits.length) =
      10 ^ (p.toNat - digits.length + 1) * 10 ^ (-1 : Int) := by
    rw [← zpow_natCast, ← zpow_add₀ (by norm_num)]
    congr 1
    omega
  rw [hvalue] at hread
  push_cast at hread
  unfold positional
  rw [if_neg (by omega)]
  simp only [List.take_of_length_le (show digits.length ≤ p.toNat by omega),
    List.drop_eq_nil_of_le (show digits.length ≤ p.toNat by omega), List.isEmpty_nil, if_true]
  rw [hpower, ← mul_assoc, mul_comm (digitsValue 0 digits : ℚ)]
  exact hread

theorem reads_positional (hdigits : ∀ c ∈ digits, isDigit c = true) (hne : digits ≠ [])
    (p : Int) : Reads (positional digits p) (digitsValue 0 digits * 10 ^ (p - digits.length)) := by
  rcases Int.lt_or_le 0 p with hpos | hnonpos
  · rcases Int.lt_or_le p digits.length with hlong | hshort
    · exact reads_positional_of_long hdigits hpos hlong
    · exact reads_positional_of_short hdigits hpos hne hshort
  · exact reads_positional_of_nonpos hdigits hnonpos

theorem reads_scientific (hdigits : ∀ c ∈ digits, isDigit c = true) (hne : digits ≠ [])
    (p : Int) : Reads (scientific digits p) (digitsValue 0 digits * 10 ^ (p - digits.length)) := by
  cases digits with
  | nil => exact absurd rfl hne
  | cons d more =>
      cases more with
      | nil => exact reads_power hdigits hne (p - 1)
      | cons e more =>
          have hwhole : ∀ c ∈ [d], isDigit c = true := by
            intro c hc
            rw [List.mem_singleton.mp hc]
            exact hdigits d List.mem_cons_self
          have hfraction : ∀ c ∈ e :: more, isDigit c = true := by
            intro c hc
            exact hdigits c (List.mem_cons_of_mem d hc)
          have hread := reads_point_power hwhole (List.cons_ne_nil _ _) hfraction (p - 1)
          have hscale : p - 1 - ((e :: more).length : Int) = p - (d :: e :: more).length := by
            rw [List.length_cons (a := d)]
            omega
          rw [hscale] at hread
          exact hread

theorem reads_magnitude (style : Style) (m : Nat) (q : Int) :
    Reads (style.magnitude m q) ((shortest m q).1 * 10 ^ (shortest m q).2) := by
  have hdigits : ∀ c ∈ Nat.toDigits 10 (shortest m q).1, isDigit c = true := by
    intro c hc
    exact isDigit_of_mem_toDigits hc
  have hscale (length : Nat) : (shortest m q).2 + length - length = (shortest m q).2 := by
    omega
  unfold magnitude
  simp only
  split
  · have hread := reads_positional hdigits Nat.toDigits_ne_nil
      ((shortest m q).2 + (Nat.toDigits 10 (shortest m q).1).length)
    rw [hscale, digitsValue_toDigits] at hread
    exact hread
  · have hread := reads_scientific hdigits Nat.toDigits_ne_nil
      ((shortest m q).2 + (Nat.toDigits 10 (shortest m q).1).length)
    rw [hscale, digitsValue_toDigits] at hread
    exact hread

/-!
# Their characters
-/

theorem isNumeralChar_of_mem_positional {digits : List Char} {p : Int}
    (hdigits : ∀ c ∈ digits, isDigit c = true) :
    ∀ c ∈ positional digits p, isNumeralChar c = true := by
  intro c hc
  unfold positional at hc
  split at hc
  · rcases List.mem_append.mp hc with hzero | hdigit
    · rcases List.mem_cons.mp hzero with rfl | hzero
      · rfl
      · rcases List.mem_cons.mp hzero with rfl | hzero
        · rfl
        · exact isNumeralChar_of_isDigit (isDigit_of_mem_zeros hzero)
    · exact isNumeralChar_of_isDigit (hdigits c hdigit)
  · rcases List.mem_append.mp hc with hwhole | hfraction
    · rcases List.mem_append.mp hwhole with hdigit | hzero
      · exact isNumeralChar_of_isDigit (hdigits c (List.mem_of_mem_take hdigit))
      · exact isNumeralChar_of_isDigit (isDigit_of_mem_zeros hzero)
    · rcases List.mem_cons.mp hfraction with rfl | hfraction
      · rfl
      · split at hfraction
        · rw [List.mem_singleton.mp hfraction]
          rfl
        · exact isNumeralChar_of_isDigit (hdigits c (List.mem_of_mem_drop hfraction))

theorem isNumeralChar_of_mem_powerChars {power : Int} :
    ∀ c ∈ Numeral.powerChars power, isNumeralChar c = true := by
  intro c hc
  unfold Numeral.powerChars at hc
  rcases List.mem_cons.mp hc with rfl | hc
  · rfl
  · rcases List.mem_cons.mp hc with rfl | hc
    · split <;> rfl
    · exact isNumeralChar_of_isDigit (isDigit_of_mem_toDigits hc)

theorem isNumeralChar_of_mem_scientific {digits : List Char} {p : Int}
    (hdigits : ∀ c ∈ digits, isDigit c = true) :
    ∀ c ∈ scientific digits p, isNumeralChar c = true := by
  intro c hc
  rcases List.mem_append.mp hc with hmantissa | hpower
  · split at hmantissa
    · rw [List.mem_singleton.mp hmantissa]
      rfl
    · exact isNumeralChar_of_isDigit (hdigits c hmantissa)
    · rcases List.mem_cons.mp hmantissa with rfl | hmore
      · exact isNumeralChar_of_isDigit (hdigits _ List.mem_cons_self)
      · rcases List.mem_cons.mp hmore with rfl | hmore
        · rfl
        · exact isNumeralChar_of_isDigit (hdigits c (List.mem_cons_of_mem _ hmore))
  · exact isNumeralChar_of_mem_powerChars c hpower

theorem isNumeralChar_of_mem_magnitude {style : Style} {m : Nat} {q : Int} :
    ∀ c ∈ style.magnitude m q, isNumeralChar c = true := by
  have hdigits : ∀ c ∈ Nat.toDigits 10 (shortest m q).1, isDigit c = true := by
    intro c hc
    exact isDigit_of_mem_toDigits hc
  unfold magnitude
  simp only
  split
  · exact isNumeralChar_of_mem_positional hdigits
  · exact isNumeralChar_of_mem_scientific hdigits

theorem exists_mark_magnitude (style : Style) (m : Nat) (q : Int) :
    ∃ c ∈ style.magnitude m q, isMark c = true := by
  unfold magnitude
  simp only
  split
  · refine ⟨'.', ?_, rfl⟩
    unfold positional
    split <;> simp
  · refine ⟨'e', ?_, rfl⟩
    unfold scientific
    simp

/-!
# Texts of positive doubles
-/

structure Spells (text : List Char) (v : ℚ) : Prop where
  reads : Reads text v
  chars : ∀ c ∈ text, isNumeralChar c = true
  marked : ∃ c ∈ text, isMark c = true

theorem spells_zero : Spells ['0', '.', '0'] 0 := by
  constructor
  · refine ⟨⟨false, ['0'], ['0'], 0⟩, rfl, ?_⟩
    show ((0 : Nat) : ℚ) * 10 ^ (0 - ((1 : Nat) : Int)) = 0
    rw [Nat.cast_zero, zero_mul]
  · exact List.all_eq_true.mp rfl
  · exact ⟨'.', by decide, rfl⟩

theorem spells_magnitude (style : Style) (m : Nat) (q : Int) :
    Spells (style.magnitude m q) ((shortest m q).1 * 10 ^ (shortest m q).2) := by
  constructor
  · exact reads_magnitude style m q
  · exact isNumeralChar_of_mem_magnitude
  · exact exists_mark_magnitude style m q

/-!
# Signs
-/

theorem not_reads_minus {text : List Char} {v : ℚ} : ¬ Reads ('-' :: text) v := by
  rintro ⟨n, hn, _⟩
  have hnone : ofText? ('-' :: text) = none := rfl
  rw [hnone] at hn
  cases hn

theorem signed_injective {s t : Bool} {xs ys : List Char} {v w : ℚ} (hxs : Reads xs v)
    (hys : Reads ys w) (h : signed s xs = signed t ys) : s = t ∧ xs = ys := by
  have hchars := String.ofList_injective h
  cases s <;> cases t
  · exact ⟨rfl, hchars⟩
  · subst hchars
    exact absurd hxs not_reads_minus
  · subst hchars
    exact absurd hys not_reads_minus
  · exact ⟨rfl, List.tail_eq_of_cons_eq hchars⟩

theorem render_eq_signed (style : Style) {x : Float} (hx : x.isFinite = true) :
    ∃ negative text v,
      style.render x = signed negative text ∧ Spells text v ∧ RoundsTo negative v x := by
  have hunpacked : x.toModel.unpack.isFinite = true := hx
  unfold render RoundsTo
  cases hunpack : x.toModel.unpack with
  | notANumber =>
      rw [hunpack] at hunpacked
      cases hunpacked
  | infinity sign =>
      rw [hunpack] at hunpacked
      cases hunpacked
  | zero sign =>
      exact ⟨_, _, _, rfl, spells_zero, rfl, rfl⟩
  | finite sign m q hm =>
      exact ⟨_, _, _, rfl, spells_magnitude style m q, rfl,
        covers_shortest (canonical_of_unpack hunpack)⟩

theorem render_injective (style : Style) {x y : Float} (hx : x.isFinite = true)
    (hy : y.isFinite = true) (h : style.render x = style.render y) : x = y := by
  obtain ⟨s, xs, v, hrender, hspells, hrounds⟩ := style.render_eq_signed hx
  obtain ⟨t, ys, w, hrender', hspells', hrounds'⟩ := style.render_eq_signed hy
  rw [hrender, hrender'] at h
  obtain ⟨hsign, htext⟩ := signed_injective hspells.reads hspells'.reads h
  subst hsign htext
  rw [hspells.reads.unique hspells'.reads] at hrounds
  exact eq_of_roundsTo hrounds hrounds'

theorem toList_signed (negative : Bool) (text : List Char) :
    (signed negative text).toList = if negative then '-' :: text else text :=
  String.toList_ofList

theorem isNumeralChar_of_mem_render {style : Style} {x : Float} (hx : x.isFinite = true) :
    ∀ c ∈ (style.render x).toList, isNumeralChar c = true := by
  obtain ⟨negative, text, v, hrender, hspells, -⟩ := style.render_eq_signed hx
  intro c hc
  rw [hrender, toList_signed] at hc
  cases negative with
  | true =>
      rcases List.mem_cons.mp hc with rfl | hc
      · rfl
      · exact hspells.chars c hc
  | false => exact hspells.chars c hc

theorem exists_mark_render (style : Style) {x : Float} (hx : x.isFinite = true) :
    ∃ c ∈ (style.render x).toList, isMark c = true := by
  obtain ⟨negative, text, v, hrender, hspells, -⟩ := style.render_eq_signed hx
  obtain ⟨c, hc, hmark⟩ := hspells.marked
  refine ⟨c, ?_, hmark⟩
  rw [hrender, toList_signed]
  cases negative with
  | true => exact List.mem_cons_of_mem _ hc
  | false => exact hc

end Style
end Decimal
end Reckoner
