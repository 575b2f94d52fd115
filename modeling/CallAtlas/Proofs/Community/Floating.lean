import CallAtlas.Community.Weight
import Mathlib

/-!
# Floating-point weights

A float is read as its form: not a number, infinite, zero, or a sign with a mantissa and an
exponent. An operation computes with forms and stores the result, which may lose digits and may
overflow. Two facts about resolutions follow from this.

A finite float counts some units, multiples of the smallest positive float, and doubling loses no
digit: it doubles the units, or the result is infinite. Units are bounded, so every float other than
zero is no longer finite after `span` doublings. Zero stays zero.

And what is not finite spoils products. Multiplied with a difference of equal numbers it gives no
number, which every further operation passes on, and nothing is above what is not a number.
-/

open Float.Model (Format UnpackedFloat totalExponent)
open Float.Model.UnpackedFloat

namespace CallAtlas.Floating

variable {x y : Float} {s : Sign} {m : Nat} {e : Int}

/-- What the bits of a float stand for. -/
def form (x : Float) : UnpackedFloat := x.toModel.unpack

/-- What is found where a result was stored. -/
def stored (u : UnpackedFloat) : UnpackedFloat := unpack .binary64 (pack .binary64 u)

theorem form_add (x y : Float) : form (x + y) = stored (add .binary64 (form x) (form y)) := rfl

theorem form_sub (x y : Float) : form (x - y) = stored (sub .binary64 (form x) (form y)) := rfl

theorem form_mul (x y : Float) : form (x * y) = stored (mul .binary64 (form x) (form y)) := rfl

theorem form_div (x y : Float) : form (x / y) = stored (div .binary64 (form x) (form y)) := rfl

theorem form_two : form (Weight.ofNat 2) = .finite .positive (2 ^ 52) (-51) (by decide) := rfl

theorem isFinite_eq (x : Float) : x.isFinite = (form x).isFinite := rfl

theorem isNaN_iff : x.isNaN = true ↔ form x = .notANumber := UnpackedFloat.isNaN_iff

theorem eq_zero_iff : (x == 0) = true ↔ ∃ s, form x = .zero s := by
  show (form x).beq (.zero .positive) = true ↔ _
  cases form x with
  | notANumber => simp [UnpackedFloat.beq, UnpackedFloat.compare]
  | infinity s => cases s <;> simp [UnpackedFloat.beq, UnpackedFloat.compare]
  | zero s => simp [UnpackedFloat.beq, UnpackedFloat.compare]
  | finite s m e h => cases s <;> simp [UnpackedFloat.beq, UnpackedFloat.compare]

/-! ### Bits -/

theorem bias_eq : ((Format.binary64.exponentBias : Nat) : Int) = 1023 := rfl

theorem toNat_one_append {w : Nat} (v : BitVec w) : (1#1 ++ v).toNat = 2 ^ w + v.toNat := by
  have disjoint := Nat.two_pow_add_eq_or_of_lt v.isLt 1
  rw [mul_one] at disjoint
  rw [BitVec.toNat_append, disjoint]
  simp [Nat.shiftLeft_eq]

/-- The bits of a float are those of its form. -/
theorem pack_form (x : Float) : pack .binary64 (form x) = x.toModel.toBits.toBitVec :=
  pack_unpack_of_valid x.toModel.valid

/-- A mantissa and an exponent as they are stored, up to an overflow: all 53 digits are used, unless
the exponent is the least. -/
structure Fits (m : Nat) (e : Int) : Prop where
  lt : m < 2 ^ 53
  least : -1074 ≤ e
  full : 2 ^ 52 ≤ m ∨ e = -1074

theorem fits_of_unpack {b : BitVec Format.binary64.numBits} {h : 0 < m}
    (read : unpack .binary64 b = .finite s m e h) : Fits m e ∧ e ≤ 971 := by
  have mantissa : (unpackMantissa b).toNat < 2 ^ 52 := (unpackMantissa b).isLt
  have exponent : (unpackExponent b).toNat < 2048 := (unpackExponent b).isLt
  rw [unpack] at read
  simp only [bias_eq] at read
  split at read
  · split at read <;> cases read
  · next notSpecial =>
    split at read
    · next subnormal =>
      split at read
      · cases read
      · rw [UnpackedFloat.finite.injEq] at read
        obtain ⟨-, rfl, rfl⟩ := read
        rw [subnormal]
        exact ⟨⟨by omega, by decide, .inr (by decide)⟩, by decide⟩
    · next normal =>
      rw [UnpackedFloat.finite.injEq] at read
      obtain ⟨-, rfl, rfl⟩ := read
      have large : (1#1 ++ unpackMantissa b).toNat = 2 ^ 52 + (unpackMantissa b).toNat :=
        toNat_one_append _
      simp [BitVec.toNat_eq] at notSpecial normal
      refine ⟨⟨?_, ?_, ?_⟩, ?_⟩ <;> omega

theorem fits_form {h : 0 < m} (eq : form x = .finite s m e h) : Fits m e ∧ e ≤ 971 :=
  fits_of_unpack eq

theorem log2_eq {k : Nat} (low : 2 ^ k ≤ m) (high : m < 2 ^ (k + 1)) : m.log2 = k := by
  have pos : m ≠ 0 := by
    have := Nat.two_pow_pos k
    omega
  exact (Nat.log2_eq_iff pos).mpr ⟨low, high⟩

/-! ### Storing -/

@[simp] theorem stored_notANumber : stored .notANumber = .notANumber := rfl

@[simp] theorem stored_infinity (s : Sign) : stored (.infinity s) = .infinity s := by
  cases s <;> rfl

@[simp] theorem stored_zero (s : Sign) : stored (.zero s) = .zero s := by
  cases s <;> rfl

theorem stored_overflow (h : 0 < m) (large : 971 < e) :
    stored (.finite s m e h) = .infinity s := by
  have beyond : 2 ^ Format.binary64.exponentBits ≤ (e + Format.binary64.exponentBias +
      Format.binary64.mantissaBitsWithoutImplicit).toNat + 1 := by
    rw [bias_eq]
    show 2 ^ 11 ≤ (e + 1023 + 52).toNat + 1
    omega
  rw [stored, pack, if_pos beyond]
  exact stored_infinity s

theorem stored_normal (h : 0 < m) (low : 2 ^ 52 ≤ m) (high : m < 2 ^ 53) (least : -1074 ≤ e)
    (greatest : e ≤ 971) : stored (.finite s m e h) = .finite s m e h := by
  have biased : (e + Format.binary64.exponentBias +
      Format.binary64.mantissaBitsWithoutImplicit).toNat = (e + 1075).toNat := by
    rw [bias_eq]
    show (e + 1023 + 52).toNat = _
    omega
  have mantissa : (1#1 ++ BitVec.ofNat 52 m).toNat = m := by
    rw [toNat_one_append, BitVec.toNat_ofNat]
    omega
  have exponent : (BitVec.ofNat 11 (e + 1075).toNat).toNat = (e + 1075).toNat := by
    rw [BitVec.toNat_ofNat]
    omega
  have notSpecial : BitVec.ofNat 11 (e + 1075).toNat ≠ -1#11 := by
    intro same
    have ones : (e + 1075).toNat = 2047 := exponent ▸ congrArg BitVec.toNat same
    omega
  have notLeast : BitVec.ofNat 11 (e + 1075).toNat ≠ 0#11 := by
    intro same
    have zeros : (e + 1075).toNat = 0 := exponent ▸ congrArg BitVec.toNat same
    omega
  have inside : ¬ 2 ^ Format.binary64.exponentBits ≤ (e + 1075).toNat + 1 := by
    show ¬ 2 ^ 11 ≤ _
    omega
  rw [stored, pack]
  simp only [biased, log2_eq low high]
  rw [if_neg inside, if_pos (show 52 + 1 = Format.binary64.mantissaBits from rfl), unpack]
  simp only [unpackMantissa_packComponents, unpackExponent_packComponents,
    unpackSign_packComponents, Sign.ofBitVec_toBitVec,
    if_neg notSpecial, if_neg notLeast, mantissa, exponent, bias_eq]
  rw [UnpackedFloat.finite.injEq]
  refine ⟨rfl, rfl, ?_⟩
  show ((e + 1075).toNat : Int) - (1023 + 52) = e
  omega

theorem stored_subnormal (h : 0 < m) (high : m < 2 ^ 52) :
    stored (.finite s m (-1074) h) = .finite s m (-1074) h := by
  have short : ¬ m.log2 + 1 = Format.binary64.mantissaBits := by
    have digits := (Nat.log2_lt h.ne').mpr high
    show ¬ m.log2 + 1 = 53
    omega
  have mantissa : (BitVec.ofNat 52 m).toNat = m := by
    rw [BitVec.toNat_ofNat]
    omega
  have filled : BitVec.ofNat 52 m ≠ 0#52 := by
    intro same
    exact h.ne' (mantissa ▸ congrArg BitVec.toNat same)
  rw [stored, pack]
  simp only [if_neg short]
  rw [if_neg (by decide), unpack]
  simp only [unpackMantissa_packComponents, unpackExponent_packComponents,
    unpackSign_packComponents, Sign.ofBitVec_toBitVec, mantissa]
  rw [if_neg (by decide), if_pos trivial, dif_neg filled]
  rfl

theorem Fits.stored_eq (fits : Fits m e) (h : 0 < m) (s : Sign) :
    stored (.finite s m e h) = if e ≤ 971 then .finite s m e h else .infinity s := by
  split
  · next small =>
    by_cases large : 2 ^ 52 ≤ m
    · exact stored_normal h large fits.lt fits.least small
    · obtain rfl := fits.full.resolve_left large
      exact stored_subnormal h (Nat.lt_of_not_le large)
  · next large => exact stored_overflow h (Int.lt_of_not_ge large)

/-- The form of a float is stored as it is. -/
theorem stored_form (x : Float) : stored (form x) = form x :=
  congrArg (unpack .binary64) (pack_form x)

/-! ### Rounding without a loss -/

/-- Digits that are zero are shifted out without a trace. -/
theorem shiftRight_exact (m k : Nat) :
    (⟨m * 2 ^ k, false, false⟩ : ExtendedMantissa) >>> k = ⟨m, false, false⟩ := by
  induction k generalizing m with
  | zero => simp [HShiftRight.hShiftRight, Nat.repeat]
  | succ k ih =>
      show ExtendedMantissa.shiftRightOne
        ((⟨m * 2 ^ (k + 1), false, false⟩ : ExtendedMantissa) >>> k) = _
      have regrouped : m * 2 ^ (k + 1) = m * 2 * 2 ^ k := by ring
      rw [regrouped, ih]
      simp [ExtendedMantissa.shiftRightOne]

theorem log2_mul_two_pow (h : 0 < m) (k : Nat) : (m * 2 ^ k).log2 = m.log2 + k := by
  induction k with
  | zero => simp
  | succ k ih =>
      have regrouped : m * 2 ^ (k + 1) = 2 * (m * 2 ^ k) := by ring
      have pos : m * 2 ^ k ≠ 0 := (Nat.mul_pos h (Nat.two_pow_pos k)).ne'
      rw [regrouped, Nat.log2_two_mul pos, ih, Nat.add_assoc]

namespace Fits

variable (fits : Fits m e) (h : 0 < m)

include fits h

/-- A mantissa that fits keeps its exponent. -/
theorem targetExponent_eq : Format.binary64.targetExponent (totalExponent m e) = e := by
  have digits : m.log2 < 53 := (Nat.log2_lt h.ne').mpr fits.lt
  have least := fits.least
  have full : m.log2 = 52 ∨ e = -1074 := fits.full.imp_left fun large => log2_eq large fits.lt
  show max ((m.log2 : Int) + 1 + e - 53) (3 - 2 ^ (11 - 1) - 53) = e
  omega

theorem shift_eq (k : Nat) :
    shiftToTargetExponent .binary64 (m * 2 ^ k) (e - k) .exact = (⟨m, false, false⟩, e) := by
  have total : totalExponent (m * 2 ^ k) (e - k) = totalExponent m e := by
    rw [totalExponent, totalExponent, log2_mul_two_pow h]
    omega
  have amount : (e - (e - k)).toNat = k := by omega
  rw [shiftToTargetExponent, total, fits.targetExponent_eq h, shiftToExponent]
  simp only [amount]
  rw [ExtendedMantissa.ofMantissaAndAccuracy, shiftRight_exact, sub_add_cancel]

/-- A number that fits is found again when it is written with more digits and rounded. -/
theorem round_eq (s : Sign) (k : Nat) :
    roundWithAccuracy .binary64 s (m * 2 ^ k) (e - k) .exact = .finite s m e h := by
  have first := fits.shift_eq h k
  have second := fits.shift_eq h 0
  rw [pow_zero, mul_one, Nat.cast_zero, sub_zero] at second
  have kept : ExtendedMantissa.roundedMantissa ⟨m, false, false⟩ = m := rfl
  rw [roundWithAccuracy, first]
  simp only [kept, second]
  rw [dif_neg h.ne']

end Fits

/-! ### Doubling -/

/-- A number times two, before it is stored. -/
theorem mul_form_two (h : 0 < m) (fits : Fits m e) :
    ∃ m' e', ∃ h' : 0 < m', Fits m' e' ∧
      m' * 2 ^ (e' + 1074).toNat = 2 * (m * 2 ^ (e + 1074).toNat) ∧
      mul .binary64 (.finite s m e h) (form (Weight.ofNat 2)) = .finite s m' e' h' := by
  have least := fits.least
  have sign : s * .positive = s := by cases s <;> rfl
  have product : mul .binary64 (.finite s m e h) (form (Weight.ofNat 2)) =
      roundWithAccuracy .binary64 s (m * 2 ^ 52) (e + -51) .exact := by
    rw [form_two, mul, sign]
  rw [product]
  -- With all digits in use the exponent grows. Below that, the mantissa does.
  by_cases large : 2 ^ 52 ≤ m
  · have next : Fits m (e + 1) := ⟨fits.lt, by omega, .inl large⟩
    refine ⟨m, e + 1, h, next, ?_, ?_⟩
    · have exponent : (e + 1 + 1074).toNat = (e + 1074).toNat + 1 := by omega
      rw [exponent]
      ring
    · have rounded := next.round_eq h s 52
      have exponent : e + 1 - ((52 : Nat) : Int) = e + -51 := by omega
      rwa [exponent] at rounded
  · have bottom : e = -1074 := fits.full.resolve_left large
    have next : Fits (m * 2) e := ⟨by omega, fits.least, .inr bottom⟩
    refine ⟨m * 2, e, by omega, next, by ring, ?_⟩
    have rounded := next.round_eq (by omega) s 51
    have mantissa : m * 2 * 2 ^ 51 = m * 2 ^ 52 := by ring
    have exponent : e - ((51 : Nat) : Int) = e + -51 := by omega
    rwa [mantissa, exponent] at rounded

/-- A float in multiples of the smallest positive one, without its sign. -/
def units (x : Float) : Nat :=
  match form x with
  | .finite _ m e _ => m * 2 ^ (e + 1074).toNat
  | _ => 0

/-- How many doublings lie between the smallest positive float and the infinite ones. -/
def span : Nat := 53 + 2045

theorem mul_two_pow_lt {a k n : Nat} (hm : m < 2 ^ a) (hk : k ≤ n) : m * 2 ^ k < 2 ^ (a + n) := by
  rw [Nat.pow_add]
  calc m * 2 ^ k < 2 ^ a * 2 ^ k := Nat.mul_lt_mul_of_pos_right hm (Nat.two_pow_pos k)
    _ ≤ 2 ^ a * 2 ^ n := Nat.mul_le_mul_left _ (Nat.pow_le_pow_right (by decide) hk)

theorem units_lt (x : Float) : units x < 2 ^ span := by
  rw [units]
  split
  · next s m e h eq =>
    obtain ⟨fits, greatest⟩ := fits_form eq
    rw [span]
    apply mul_two_pow_lt fits.lt
    omega
  · exact Nat.two_pow_pos _

theorem units_pos (finite : x.isFinite = true) (filled : (x == 0) = false) : 0 < units x := by
  rw [isFinite_eq] at finite
  rw [units]
  cases eq : form x with
  | notANumber =>
      rw [eq] at finite
      cases finite
  | infinity s =>
      rw [eq] at finite
      cases finite
  | zero s =>
      rw [eq_zero_iff.mpr ⟨s, eq⟩] at filled
      cases filled
  | finite s m e h => exact Nat.mul_pos h (Nat.two_pow_pos _)

/-- Doubling a finite float doubles its units, unless the result is not finite. -/
theorem units_double (finite : x.isFinite = true) :
    (x * Weight.ofNat 2).isFinite = false ∨ units (x * Weight.ofNat 2) = 2 * units x := by
  rw [isFinite_eq] at finite
  rw [isFinite_eq, units, units, form_mul]
  cases eq : form x with
  | notANumber =>
      rw [eq] at finite
      cases finite
  | infinity s =>
      rw [eq] at finite
      cases finite
  | zero s =>
      rw [form_two, mul, stored_zero]
      exact .inr rfl
  | finite s m e h =>
      obtain ⟨m', e', h', fits, doubled, product⟩ := mul_form_two (s := s) h (fits_form eq).1
      rw [product, fits.stored_eq h' s]
      by_cases small : e' ≤ 971
      · rw [if_pos small]
        exact .inr doubled
      · rw [if_neg small]
        exact .inl rfl

/-- A float other than zero is no longer finite after at most `span` doublings. -/
theorem exists_double_not_finite (filled : (x == 0) = false) :
    ∃ k ≤ span, ((· * Weight.ofNat 2)^[k] x).isFinite = false := by
  by_contra bounded
  push Not at bounded
  have finite : ∀ k ≤ span, ((· * Weight.ofNat 2)^[k] x).isFinite = true := by
    intro k hk
    simpa using bounded k hk
  have grown : ∀ k ≤ span, units ((· * Weight.ofNat 2)^[k] x) = 2 ^ k * units x := by
    intro k
    induction k with
    | zero => simp
    | succ k ih =>
        intro hk
        have doubled := units_double (finite k (by omega))
        rw [← Function.iterate_succ_apply' (· * Weight.ofNat 2) k x, finite (k + 1) hk] at doubled
        rw [doubled.resolve_left (by decide), ih (by omega)]
        ring
  have reached := units_lt ((· * Weight.ofNat 2)^[span] x)
  rw [grown span le_rfl] at reached
  have positive := units_pos (finite 0 (Nat.zero_le _)) filled
  exact absurd reached (Nat.not_lt.mpr (Nat.le_mul_of_pos_right _ positive))

/-- Twice zero is zero, with the same sign. -/
theorem double_zero (zero : (x == 0) = true) : x * Weight.ofNat 2 = x := by
  obtain ⟨s, eq⟩ := eq_zero_iff.mp zero
  have sign : s * .positive = s := by cases s <;> rfl
  have product : mul .binary64 (form x) (form (Weight.ofNat 2)) = .zero s := by
    rw [eq, form_two, mul, sign]
  have bits : UInt64.ofBitVec (pack .binary64 (.zero s)) = x.toModel.toBits := by
    rw [← eq, pack_form]
  show Float.ofModel ⟨UInt64.ofBitVec (pack .binary64
    (mul .binary64 (form x) (form (Weight.ofNat 2)))), _⟩ = Float.ofModel ⟨x.toModel.toBits, _⟩
  congr 2
  rw [product, bits]

theorem zero_lt_ten (zero : (x == 0) = true) : Weight.lt x (Weight.ofNat 10) = true := by
  obtain ⟨s, eq⟩ := eq_zero_iff.mp zero
  show decide (decide ((form x).lt (form (Weight.ofNat 10)) = true) = true) = true
  rw [eq]
  rfl

/-! ### What is not a number -/

theorem isNaN_mul (h : x.isNaN = true) (y : Float) : (x * y).isNaN = true := by
  rw [isNaN_iff] at h ⊢
  rw [form_mul, h, mul, stored_notANumber]

theorem isNaN_div (h : x.isNaN = true) (y : Float) : (x / y).isNaN = true := by
  rw [isNaN_iff] at h ⊢
  rw [form_div, h, div, stored_notANumber]

theorem isNaN_sub (h : y.isNaN = true) (x : Float) : (x - y).isNaN = true := by
  rw [isNaN_iff] at h ⊢
  have undefined : sub .binary64 (form x) .notANumber = .notANumber := by cases form x <;> rfl
  rw [form_sub, h, undefined, stored_notANumber]

/-- Nothing is below what is not a number. -/
theorem lt_isNaN (h : y.isNaN = true) (x : Float) : Weight.lt x y = false := by
  rw [isNaN_iff] at h
  show decide (decide ((form x).lt (form y) = true) = true) = false
  rw [h]
  cases form x <;> rfl

/-- Zero, or not a number. -/
def Vanishes (x : Float) : Prop := x.isNaN = true ∨ (x == 0) = true

theorem vanishes_iff : Vanishes x ↔ form x = .notANumber ∨ ∃ s, form x = .zero s := by
  rw [Vanishes, isNaN_iff, eq_zero_iff]

theorem isNaN_mul_of_vanishes (infinite : x.isFinite = false) (h : Vanishes y) :
    (x * y).isNaN = true := by
  rw [vanishes_iff] at h
  rw [isFinite_eq] at infinite
  rw [isNaN_iff, form_mul]
  cases eq : form x with
  | notANumber => rw [mul, stored_notANumber]
  | infinity s =>
      obtain h | ⟨t, h⟩ := h
      · rw [h, show mul .binary64 (.infinity s) .notANumber = .notANumber from rfl,
          stored_notANumber]
      · rw [h, mul, stored_notANumber]
  | zero s =>
      rw [eq] at infinite
      cases infinite
  | finite s m e h =>
      rw [eq] at infinite
      cases infinite

theorem sub_self_cases (u : UnpackedFloat) :
    sub .binary64 u u = .notANumber ∨ ∃ s, sub .binary64 u u = .zero s := by
  cases u with
  | notANumber => exact .inl rfl
  | infinity s => cases s <;> exact .inl rfl
  | zero s => cases s <;> exact .inr ⟨_, rfl⟩
  | finite s m e h =>
      refine .inr ⟨.positive, ?_⟩
      simp [sub, UnpackedFloat.normalize]

/-- The difference of equal numbers vanishes. -/
theorem vanishes_sub (same : form x = form y) : Vanishes (x - y) := by
  rw [vanishes_iff, form_sub, same]
  obtain h | ⟨s, h⟩ := sub_self_cases (form y)
  · rw [h]
    exact .inl stored_notANumber
  · rw [h]
    exact .inr ⟨s, stored_zero s⟩

/-- What vanishes still does when something is added to it and taken away again. -/
theorem Vanishes.add_sub (h : Vanishes x) (y : Float) : Vanishes (x + y - y) := by
  obtain h | ⟨s, h⟩ := vanishes_iff.mp h
  · rw [vanishes_iff, form_sub, form_add, h, add, stored_notANumber, sub, stored_notANumber]
    exact .inl rfl
  · cases eq : form y with
    | zero t =>
        rw [vanishes_iff, form_sub, form_add, h, eq]
        cases s <;> cases t <;> exact .inr ⟨.positive, rfl⟩
    | _ =>
        apply vanishes_sub
        have sum : add .binary64 (form x) (form y) = form y := by
          rw [h, eq]
          rfl
        rw [form_add, sum, stored_form]

end CallAtlas.Floating
