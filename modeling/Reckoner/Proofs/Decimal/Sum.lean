import Reckoner.Proofs.Decimal.Rounding

/-!
# Sums of doubles

The sum of two finite doubles is finite as long as their exact sum is in range, and an
infinity from there on.  An infinity stays as it is whatever is added to it that is
finite.  So a sum of many doubles, taken from left to right, is finite if and only if no
addition on the way leaves the range, and it is always a number.
-/

namespace Reckoner

open Float.Model UnpackedFloat Decimal

namespace Number

def exact (x : Float) : ℚ :=
  match x.toModel.unpack with
  | .finite sign m q _ => (sign.apply m : ℤ) * 2 ^ q
  | _ => 0

/-- One of the additions of a sum, taken from left to right, leaves the range. -/
inductive Overflows : Float -> List Float -> Prop where
  | here {x n : Float} {rest : List Float} :
      overflowSize ≤ |exact x + exact n| ->
        Overflows x (n :: rest)
  | later {x n : Float} {rest : List Float} :
      Overflows (x + n) rest ->
        Overflows x (n :: rest)

theorem overflows_cons_iff {x n : Float} {rest : List Float} :
    Overflows x (n :: rest) ↔ overflowSize ≤ |exact x + exact n| ∨ Overflows (x + n) rest := by
  constructor
  · intro h
    cases h with
    | here hlarge => exact .inl hlarge
    | later hrest => exact .inr hrest
  · rintro (hlarge | hrest)
    · exact .here hlarge
    · exact .later hrest

theorem exact_of_zero {x : Float} {sign : Sign} (h : x.toModel.unpack = .zero sign) :
    exact x = 0 := by
  unfold exact
  rw [h]

theorem exact_of_finite {x : Float} {sign : Sign} {m : Nat} {q : Int} {hm : 0 < m}
    (h : x.toModel.unpack = .finite sign m q hm) : exact x = (sign.apply m : ℤ) * 2 ^ q := by
  unfold exact
  rw [h]

theorem unpack_cases {x : Float} (hx : x.isFinite = true) :
    (∃ sign, x.toModel.unpack = .zero sign) ∨
      ∃ sign m q hm, x.toModel.unpack = .finite sign m q hm := by
  change x.toModel.unpack.isFinite = true at hx
  cases hunpack : x.toModel.unpack with
  | notANumber =>
      rw [hunpack] at hx
      cases hx
  | infinity sign =>
      rw [hunpack] at hx
      cases hx
  | zero sign => exact .inl ⟨sign, rfl⟩
  | finite sign m q hm => exact .inr ⟨sign, m, q, hm, rfl⟩

variable {x y : Float}

theorem rounds_unpack (hx : x.isFinite = true) : Rounds (exact x) x.toModel.unpack := by
  rcases unpack_cases hx with ⟨sign, hunpack⟩ | ⟨sign, m, q, hm, hunpack⟩
  · rw [exact_of_zero hunpack, hunpack]
    exact rounds_zero sign
  · rw [exact_of_finite hunpack, apply_mul, hunpack]
    exact rounds_canonical (canonical_of_unpack hunpack) sign

theorem abs_exact_lt (hx : x.isFinite = true) : |exact x| < overflowSize := by
  apply (rounds_unpack hx).isFinite_iff.mp
  show (Float.ofBits x.toBits).isFinite = true
  rw [Float.ofBits_toBits]
  exact hx

/-!
# One addition
-/

theorem apply_decreaseExponent (sign : Sign) (m : Nat) {e least : Int} (h : least ≤ e) :
    ((sign.apply (decreaseExponent m e least).1 : ℤ) * 2 ^ least : ℚ) =
      (sign.apply m : ℤ) * 2 ^ e := by
  have hshift : ((m <<< (e - least).toNat : Nat) * 2 ^ least : ℚ) = m * 2 ^ e := by
    rw [Nat.shiftLeft_eq, Nat.cast_mul, Nat.cast_pow, Nat.cast_ofNat, mul_assoc,
      ← zpow_natCast, ← zpow_add₀ (by norm_num)]
    congr 2
    omega
  cases sign with
  | positive => exact hshift
  | negative =>
      show ((-((m <<< (e - least).toNat : Nat) : ℤ) : ℤ) * 2 ^ least : ℚ) =
        (-(m : ℤ) : ℤ) * 2 ^ e
      rw [Int.cast_neg, Int.cast_neg, neg_mul, neg_mul]
      exact congrArg Neg.neg hshift

theorem unpack_add (x y : Float) :
    (x + y).toModel.unpack =
      (Float.Model.pack (UnpackedFloat.add Format.binary64 x.toModel.unpack
        y.toModel.unpack)).unpack := rfl

/-- The sum of finite numbers is their exact sum, rounded. -/
theorem rounds_add (hx : x.isFinite = true) (hy : y.isFinite = true) :
    Rounds (exact x + exact y)
      (UnpackedFloat.add Format.binary64 x.toModel.unpack y.toModel.unpack) := by
  rcases unpack_cases hx with ⟨sign, hunpack⟩ | ⟨sign, m, q, hm, hunpack⟩
  · rw [exact_of_zero hunpack, zero_add]
    rcases unpack_cases hy with ⟨sign', hunpack'⟩ | ⟨sign', m', q', hm', hunpack'⟩
    · rw [exact_of_zero hunpack', hunpack, hunpack']
      cases sign <;> cases sign' <;> exact rounds_zero _
    · have hsum := rounds_unpack hy
      rw [hunpack'] at hsum
      rw [hunpack, hunpack']
      exact hsum
  · rcases unpack_cases hy with ⟨sign', hunpack'⟩ | ⟨sign', m', q', hm', hunpack'⟩
    · have hsum := rounds_unpack hx
      rw [hunpack] at hsum
      rw [exact_of_zero hunpack', add_zero, hunpack, hunpack']
      exact hsum
    · rw [hunpack, hunpack', exact_of_finite hunpack, exact_of_finite hunpack',
        ← apply_decreaseExponent sign m (min_le_left q q'),
        ← apply_decreaseExponent sign' m' (min_le_right q q'), ← add_mul, ← Int.cast_add]
      exact rounds_normalize _ _

/-- The sum of finite numbers is finite if and only if their exact sum is in range. -/
theorem isFinite_add_iff (hx : x.isFinite = true) (hy : y.isFinite = true) :
    (x + y).isFinite = true ↔ |exact x + exact y| < overflowSize :=
  (rounds_add hx hy).isFinite_iff

theorem isNaN_add (hx : x.isFinite = true) (hy : y.isFinite = true) : (x + y).isNaN = false :=
  (rounds_add hx hy).isNaN

theorem add_of_infinite (hnan : x.isNaN = false) (hx : x.isFinite = false)
    (hy : y.isFinite = true) : x + y = x := by
  change x.toModel.unpack.isNaN = false at hnan
  change x.toModel.unpack.isFinite = false at hx
  cases hunpack : x.toModel.unpack with
  | notANumber =>
      rw [hunpack] at hnan
      cases hnan
  | zero sign =>
      rw [hunpack] at hx
      cases hx
  | finite sign m q hm =>
      rw [hunpack] at hx
      cases hx
  | infinity sign =>
      apply eq_of_unpack
      rw [unpack_add, hunpack]
      rcases unpack_cases hy with ⟨sign', hunpack'⟩ | ⟨sign', m', q', hm', hunpack'⟩
      · rw [hunpack']
        exact unpack_pack_infinity sign
      · rw [hunpack']
        exact unpack_pack_infinity sign

theorem isNaN_add_of_left (hx : x.isNaN = true) (y : Float) : (x + y).isNaN = true := by
  have hsum : UnpackedFloat.add Format.binary64 x.toModel.unpack y.toModel.unpack =
      .notANumber := by
    rw [isNaN_iff.mp hx]
    rfl
  show (x + y).toModel.unpack.isNaN = true
  rw [unpack_add, hsum]
  rfl

theorem isNaN_add_of_right (x : Float) (hy : y.isNaN = true) : (x + y).isNaN = true := by
  have hsum : UnpackedFloat.add Format.binary64 x.toModel.unpack y.toModel.unpack =
      .notANumber := by
    rw [isNaN_iff.mp hy]
    cases x.toModel.unpack <;> rfl
  show (x + y).toModel.unpack.isNaN = true
  rw [unpack_add, hsum]
  rfl

/-!
# Sums from left to right
-/

/-- A sum is no number as soon as one of what is added is none. -/
theorem isNaN_foldl_add {numbers : List Float}
    (h : x.isNaN = true ∨ ∃ n ∈ numbers, n.isNaN = true) :
    (numbers.foldl (· + ·) x).isNaN = true := by
  induction numbers generalizing x with
  | nil =>
      rcases h with hx | ⟨n, hn, _⟩
      · exact hx
      · cases hn
  | cons n rest ih =>
      apply ih
      rcases h with hx | ⟨m, hm, hnan⟩
      · exact .inl (isNaN_add_of_left hx n)
      · rcases List.mem_cons.mp hm with rfl | hrest
        · exact .inl (isNaN_add_of_right x hnan)
        · exact .inr ⟨m, hrest, hnan⟩

theorem foldl_add_of_infinite {numbers : List Float} (hnan : x.isNaN = false)
    (hx : x.isFinite = false) (hnumbers : ∀ n ∈ numbers, n.isFinite = true) :
    numbers.foldl (· + ·) x = x := by
  induction numbers with
  | nil => rfl
  | cons n rest ih =>
      obtain ⟨hn, hrest⟩ := List.forall_mem_cons.mp hnumbers
      rw [List.foldl_cons, add_of_infinite hnan hx hn]
      exact ih hrest

/-- A sum of finite numbers is a number, which is finite if and only if no addition leaves the
range. -/
theorem isFinite_foldl_add {numbers : List Float} (hx : x.isFinite = true)
    (hnumbers : ∀ n ∈ numbers, n.isFinite = true) :
    (numbers.foldl (· + ·) x).isNaN = false ∧
      ((numbers.foldl (· + ·) x).isFinite = true ↔ ¬ Overflows x numbers) := by
  induction numbers generalizing x with
  | nil =>
      have hnone : ¬ Overflows x [] := by
        intro h
        cases h
      exact ⟨isNaN_of_isFinite hx, iff_of_true hx hnone⟩
  | cons n rest ih =>
      obtain ⟨hn, hrest⟩ := List.forall_mem_cons.mp hnumbers
      rw [List.foldl_cons, overflows_cons_iff]
      rcases lt_or_ge |exact x + exact n| overflowSize with hsmall | hlarge
      · obtain ⟨hnumber, hfinite⟩ := ih ((isFinite_add_iff hx hn).mpr hsmall) hrest
        refine ⟨hnumber, ?_⟩
        rw [hfinite, or_iff_right (not_le_of_gt hsmall)]
      · have hinfinite : (x + n).isFinite = false := by
          rw [Bool.eq_false_iff, Ne, isFinite_add_iff hx hn]
          exact not_lt_of_ge hlarge
        have hnumber := isNaN_add hx hn
        rw [foldl_add_of_infinite hnumber hinfinite hrest, hinfinite]
        exact ⟨hnumber, iff_of_false Bool.false_ne_true (fun hnone => hnone (.inl hlarge))⟩

end Number
end Reckoner
