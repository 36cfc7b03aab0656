import Mathlib
import StatusEffects.Number.Single

/-!
Single precision numbers survive the way to double precision and back.

A word of a format stands for zero, for a number with a mantissa that fills the format, or for one
with the least exponent. Such a number is rounded to itself, so widening only appends zeros to the
mantissa, and narrowing shifts them out again.
-/

set_option autoImplicit false

namespace StatusEffects.Single

open Float.Model (UnpackedFloat Format totalExponent)
open Float.Model.UnpackedFloat

/-! ### Formats -/

section

variable (format : Format)

theorem minExponent_eq : format.minExponent =
    1 - (format.exponentBias : Int) - format.mantissaBitsWithoutImplicit := by
  have positive : 1 ≤ 2 ^ (format.exponentBits - 1) := Nat.one_le_two_pow
  unfold Format.minExponent Format.exponentBias Format.mantissaBits
  rw [Nat.cast_sub positive]
  push_cast
  ring

theorem exponents_eq : 2 ^ format.exponentBits = 2 * format.exponentBias + 2 := by
  have positive : 1 ≤ 2 ^ (format.exponentBits - 1) := Nat.one_le_two_pow
  have bits : format.exponentBits = (format.exponentBits - 1) + 1 := by
    have := format.he
    omega
  unfold Format.exponentBias
  rw [bits, Nat.pow_succ, Nat.add_sub_cancel]
  omega

end

/-- What a word of a format stands for: a mantissa that fills the format, or one at the least
exponent, with an exponent in range. -/
structure Fits (format : Format) (mantissa : Nat) (exponent : Int) : Prop where
  positive : 0 < mantissa
  short : mantissa < 2 ^ format.mantissaBits
  least : format.minExponent ≤ exponent
  full : 2 ^ format.mantissaBitsWithoutImplicit ≤ mantissa ∨ exponent = format.minExponent
  greatest : exponent ≤ (format.exponentBias : Int) - format.mantissaBitsWithoutImplicit

variable {format : Format} {mantissa : Nat} {exponent : Int}

/-! ### Rounding -/

theorem Fits.targetExponent (fits : Fits format mantissa exponent) :
    format.targetExponent (totalExponent mantissa exponent) = exponent := by
  have nonzero := fits.positive.ne'
  have short := (Nat.log2_lt nonzero).2 fits.short
  have least := fits.least
  have bits : format.mantissaBits = 1 + format.mantissaBitsWithoutImplicit := rfl
  unfold Format.targetExponent totalExponent
  rcases fits.full with full | bottom
  · have filled := (Nat.le_log2 nonzero).2 full
    omega
  · omega

theorem roundWithAccuracy_of_shift (fits : Fits format mantissa exponent) {wide : Nat} {low : Int}
    (shifted : shiftToTargetExponent format wide low .exact = (⟨mantissa, false, false⟩, exponent))
    (sign : Sign) :
    roundWithAccuracy format sign wide low .exact =
      .finite sign mantissa exponent fits.positive := by
  have unmoved : shiftToTargetExponent format mantissa exponent .exact =
      (⟨mantissa, false, false⟩, exponent) := by
    simp [shiftToTargetExponent, shiftToExponent, fits.targetExponent, HShiftRight.hShiftRight,
      Nat.repeat, ExtendedMantissa.ofMantissaAndAccuracy]
  have rounded : (⟨mantissa, false, false⟩ : ExtendedMantissa).roundedMantissa = mantissa := rfl
  unfold roundWithAccuracy
  rw [shifted]
  dsimp only
  rw [rounded, unmoved]
  dsimp only
  rw [dif_neg fits.positive.ne']

/-- Zeros at the end of a mantissa are shifted out without a trace. -/
theorem shiftRight_shiftLeft (mantissa shift : Nat) :
    (⟨mantissa <<< shift, false, false⟩ : ExtendedMantissa) >>> shift =
      ⟨mantissa, false, false⟩ := by
  induction shift generalizing mantissa with
  | zero => rfl
  | succ shift ih =>
      have doubled : mantissa <<< (shift + 1) = (2 * mantissa) <<< shift := by
        rw [Nat.shiftLeft_succ, Nat.shiftLeft_eq, Nat.shiftLeft_eq]
        ring
      have halved : (⟨2 * mantissa, false, false⟩ : ExtendedMantissa).shiftRightOne =
          ⟨mantissa, false, false⟩ := by
        unfold ExtendedMantissa.shiftRightOne
        simp
      rw [doubled]
      change ExtendedMantissa.shiftRightOne
        ((⟨(2 * mantissa) <<< shift, false, false⟩ : ExtendedMantissa) >>> shift) = _
      rw [ih, halved]

theorem log2_shiftLeft {mantissa : Nat} (positive : 0 < mantissa) (shift : Nat) :
    (mantissa <<< shift).log2 = mantissa.log2 + shift := by
  induction shift with
  | zero => rfl
  | succ shift ih =>
      have before : mantissa <<< shift ≠ 0 := by
        rw [Nat.shiftLeft_eq]
        positivity
      rw [Nat.shiftLeft_succ, Nat.log2_two_mul before, ih]
      rfl

/-- A mantissa with zeros at its end is rounded to the one without them. -/
theorem round_shiftLeft (fits : Fits format mantissa exponent) (sign : Sign) (shift : Nat) :
    UnpackedFloat.round format sign (mantissa <<< shift) (exponent - shift) =
      .finite sign mantissa exponent fits.positive := by
  have total : totalExponent (mantissa <<< shift) (exponent - shift) =
      totalExponent mantissa exponent := by
    unfold totalExponent
    rw [log2_shiftLeft fits.positive]
    push_cast
    ring
  have unmoved : (exponent - shift - exponent).toNat = 0 := by omega
  have back : (exponent - (exponent - shift)).toNat = shift := by omega
  unfold UnpackedFloat.round
  rw [total, fits.targetExponent]
  dsimp only [decreaseExponent]
  rw [unmoved, Nat.shiftLeft_zero, Nat.cast_zero, Int.sub_zero]
  apply roundWithAccuracy_of_shift fits
  unfold shiftToTargetExponent shiftToExponent
  rw [total, fits.targetExponent]
  dsimp only [ExtendedMantissa.ofMantissaAndAccuracy]
  rw [back]
  rw [shiftRight_shiftLeft, Int.sub_add_cancel]

/-- A mantissa that has to be shifted left to fill a format is rounded to the shifted one. -/
theorem round_widened {shift : Nat} (fits : Fits format (mantissa <<< shift) (exponent - shift))
    (sign : Sign) : UnpackedFloat.round format sign mantissa exponent =
      .finite sign (mantissa <<< shift) (exponent - shift) fits.positive := by
  have positive : 0 < mantissa := by
    by_contra none
    have zero : mantissa = 0 := by omega
    have filled := fits.positive
    rw [zero, Nat.zero_shiftLeft] at filled
    exact absurd filled (by decide)
  have total : totalExponent mantissa exponent =
      totalExponent (mantissa <<< shift) (exponent - shift) := by
    unfold totalExponent
    rw [log2_shiftLeft positive]
    push_cast
    ring
  have distance : (exponent - (exponent - shift)).toNat = shift := by omega
  unfold UnpackedFloat.round
  rw [total, fits.targetExponent]
  dsimp only [decreaseExponent]
  rw [distance]
  apply roundWithAccuracy_of_shift fits
  unfold shiftToTargetExponent shiftToExponent
  rw [fits.targetExponent]
  simp [HShiftRight.hShiftRight, Nat.repeat, ExtendedMantissa.ofMantissaAndAccuracy]

/-! ### Words -/

theorem toNat_append_implicit {bits : Nat} (mantissa : BitVec bits) :
    (1#1 ++ mantissa).toNat = 2 ^ bits + mantissa.toNat := by
  rw [BitVec.toNat_append, ← Nat.shiftLeft_add_eq_or_of_lt mantissa.isLt]
  simp [Nat.shiftLeft_eq]

theorem packComponents_unpack (word : BitVec format.numBits) :
    packComponents format (Sign.ofBitVec (unpackSign word)) (unpackExponent word)
      (unpackMantissa word) = word := by
  have sign (bit : BitVec 1) : (Sign.ofBitVec bit).toBitVec = bit := by
    revert bit
    decide
  have positive := format.hm
  have some := format.he
  simp only [packComponents, sign, unpackSign, unpackExponent, unpackMantissa, BitVec.extractLsb]
  ext i hi
  grind

theorem packComponents_eq {word : BitVec format.numBits} {exponent : BitVec format.exponentBits}
    {mantissa : BitVec format.mantissaBitsWithoutImplicit} (exponents : unpackExponent word = exponent)
    (mantissas : unpackMantissa word = mantissa) :
    packComponents format (Sign.ofBitVec (unpackSign word)) exponent mantissa = word := by
  rw [← exponents, ← mantissas, packComponents_unpack]

theorem zero_ne_neg_one : (0#(format.exponentBits)) ≠ -1#(format.exponentBits) := by
  intro same
  have values := congrArg BitVec.toNat same
  simp only [BitVec.toNat_zero, BitVec.neg_one_eq_allOnes, BitVec.toNat_allOnes] at values
  have := exponents_eq format
  omega

theorem unpackSign_packComponents (sign : Sign) (exponent : BitVec format.exponentBits)
    (mantissa : BitVec format.mantissaBitsWithoutImplicit) :
    Sign.ofBitVec (unpackSign (packComponents format sign exponent mantissa)) = sign := by
  have bit : unpackSign (packComponents format sign exponent mantissa) = sign.toBitVec := by
    apply BitVec.eq_of_getLsbD_eq
    intro i bound
    have first : i = 0 := by omega
    subst first
    simp [unpackSign, packComponents, BitVec.getLsbD_append, BitVec.getElem_append]
  rw [bit]
  cases sign
  · rfl
  · rfl

structure Low (format : Format) (mantissa : Nat) (exponent : Int)
    (bits : BitVec format.mantissaBitsWithoutImplicit) : Prop where
  nonzero : bits ≠ 0#(format.mantissaBitsWithoutImplicit)
  mantissa : mantissa = bits.toNat
  exponent : exponent = format.minExponent

structure High (format : Format) (mantissa : Nat) (exponent : Int)
    (biased : BitVec format.exponentBits) (bits : BitVec format.mantissaBitsWithoutImplicit) :
    Prop where
  bottom : biased ≠ 0#(format.exponentBits)
  top : biased ≠ -1#(format.exponentBits)
  mantissa : mantissa = (1#1 ++ bits).toNat
  exponent : exponent =
    biased.toNat - ((format.exponentBias : Int) + format.mantissaBitsWithoutImplicit)

theorem Low.pack {bits : BitVec format.mantissaBitsWithoutImplicit} (wide : 1 ≤ format.exponentBias)
    (low : Low format mantissa exponent bits) (positive : 0 < mantissa) (sign : Sign) :
    UnpackedFloat.pack format (.finite sign mantissa exponent positive) =
      packComponents format sign 0#(format.exponentBits) bits := by
  obtain ⟨-, rfl, rfl⟩ := low
  have short := (Nat.log2_lt positive.ne').2 bits.isLt
  have biased : (format.minExponent + format.exponentBias +
      format.mantissaBitsWithoutImplicit).toNat = 1 := by
    rw [minExponent_eq]
    omega
  have range := exponents_eq format
  unfold UnpackedFloat.pack
  dsimp only
  rw [biased, if_neg (by omega), if_neg (by unfold Format.mantissaBits; omega)]
  rw [BitVec.ofNat_toNat, BitVec.setWidth_eq]

theorem biased_bounds {biased : BitVec format.exponentBits} (bottom : biased ≠ 0#(format.exponentBits))
    (top : biased ≠ -1#(format.exponentBits)) :
    1 ≤ biased.toNat ∧ biased.toNat ≤ 2 * format.exponentBias := by
  have range := exponents_eq format
  have small := biased.isLt
  constructor
  · by_contra none
    exact bottom (BitVec.eq_of_toNat_eq (by simp; omega))
  · by_contra large
    apply top
    apply BitVec.eq_of_toNat_eq
    rw [BitVec.neg_one_eq_allOnes, BitVec.toNat_allOnes]
    omega

theorem log2_append_implicit {width : Nat} (bits : BitVec width) :
    (1#1 ++ bits).toNat.log2 = width := by
  have short := bits.isLt
  have joined := toNat_append_implicit bits
  have nonzero : (1#1 ++ bits).toNat ≠ 0 := by
    have := Nat.two_pow_pos width
    omega
  apply Nat.le_antisymm
  · refine Nat.le_of_lt_succ ((Nat.log2_lt nonzero).2 ?_)
    rw [joined, Nat.pow_succ]
    omega
  · exact (Nat.le_log2 nonzero).2 (by omega)

theorem High.pack {biased : BitVec format.exponentBits}
    {bits : BitVec format.mantissaBitsWithoutImplicit}
    (high : High format mantissa exponent biased bits) (positive : 0 < mantissa) (sign : Sign) :
    UnpackedFloat.pack format (.finite sign mantissa exponent positive) =
      packComponents format sign biased bits := by
  obtain ⟨bottom, top, rfl, rfl⟩ := high
  have bounds := biased_bounds bottom top
  have range := exponents_eq format
  have back : ((biased.toNat : Int) -
      ((format.exponentBias : Int) + format.mantissaBitsWithoutImplicit) + format.exponentBias +
      format.mantissaBitsWithoutImplicit).toNat = biased.toNat := by omega
  have filled : format.mantissaBitsWithoutImplicit + 1 = format.mantissaBits := Nat.add_comm _ _
  have lead : BitVec.ofNat format.mantissaBitsWithoutImplicit (1#1 ++ bits).toNat = bits := by
    apply BitVec.eq_of_toNat_eq
    rw [toNat_append_implicit, BitVec.toNat_ofNat, Nat.add_mod_left, Nat.mod_eq_of_lt bits.isLt]
  unfold UnpackedFloat.pack
  dsimp only
  rw [back, if_neg (by omega), log2_append_implicit, if_pos filled, lead,
    BitVec.ofNat_toNat, BitVec.setWidth_eq]

/-- What a word of a format stands for if it stands for a number other than zero. -/
theorem unpack_packComponents (sign : Sign) (biased : BitVec format.exponentBits)
    (bits : BitVec format.mantissaBitsWithoutImplicit) (positive : 0 < mantissa)
    (fits : (biased = 0#(format.exponentBits) ∧ Low format mantissa exponent bits) ∨
      High format mantissa exponent biased bits) :
    UnpackedFloat.unpack format (packComponents format sign biased bits) =
      .finite sign mantissa exponent positive := by
  unfold UnpackedFloat.unpack
  dsimp only
  simp only [unpackMantissa_packComponents, unpackExponent_packComponents,
    unpackSign_packComponents]
  rcases fits with ⟨rfl, nonzero, rfl, rfl⟩ | ⟨bottom, top, rfl, rfl⟩
  · rw [if_neg zero_ne_neg_one, if_pos rfl, dif_neg nonzero]
    congr 1
    rw [minExponent_eq]
    simp
    ring
  · rw [if_neg top, if_neg bottom]

theorem mantissas_eq (format : Format) :
    2 ^ format.mantissaBits = 2 * 2 ^ format.mantissaBitsWithoutImplicit := by
  unfold Format.mantissaBits
  rw [Nat.add_comm, Nat.pow_succ, Nat.mul_comm]

theorem Fits.exists_bits (fits : Fits format mantissa exponent) :
    (∃ bits, Low format mantissa exponent bits) ∨
      ∃ biased bits, High format mantissa exponent biased bits := by
  obtain ⟨positive, short, least, full, greatest⟩ := fits
  rw [mantissas_eq] at short
  by_cases normal : 2 ^ format.mantissaBitsWithoutImplicit ≤ mantissa
  · right
    have floor := minExponent_eq format
    have range := exponents_eq format
    generalize chosen : (exponent + format.exponentBias +
      format.mantissaBitsWithoutImplicit).toNat = biased
    have kept : (BitVec.ofNat format.exponentBits biased).toNat = biased := by
      rw [BitVec.toNat_ofNat, Nat.mod_eq_of_lt (by omega)]
    refine ⟨BitVec.ofNat _ biased, BitVec.ofNat _ mantissa, fun bottom => ?_, fun top => ?_, ?_, ?_⟩
    · have value := congrArg BitVec.toNat bottom
      rw [kept, BitVec.toNat_zero] at value
      omega
    · have value := congrArg BitVec.toNat top
      rw [kept, BitVec.neg_one_eq_allOnes, BitVec.toNat_allOnes] at value
      omega
    · have rest := Nat.mod_eq_sub_mod normal
      rw [toNat_append_implicit, BitVec.toNat_ofNat, rest, Nat.mod_eq_of_lt (by omega)]
      omega
    · rw [kept]
      omega
  · left
    have below : mantissa < 2 ^ format.mantissaBitsWithoutImplicit := by omega
    refine ⟨BitVec.ofNat _ mantissa, ⟨fun zero => ?_, ?_, full.resolve_left normal⟩⟩
    · have value := congrArg BitVec.toNat zero
      rw [BitVec.toNat_ofNat, Nat.mod_eq_of_lt below, BitVec.toNat_zero] at value
      omega
    · rw [BitVec.toNat_ofNat, Nat.mod_eq_of_lt below]

theorem Low.fits {bits : BitVec format.mantissaBitsWithoutImplicit} (wide : 1 ≤ format.exponentBias)
    (low : Low format mantissa exponent bits) : Fits format mantissa exponent := by
  obtain ⟨nonzero, rfl, rfl⟩ := low
  have short := bits.isLt
  have twice := mantissas_eq format
  have floor := minExponent_eq format
  refine ⟨?_, by omega, Int.le_refl _, .inr rfl, by omega⟩
  by_contra none
  exact nonzero (BitVec.eq_of_toNat_eq (by simp; omega))

theorem High.fits {biased : BitVec format.exponentBits}
    {bits : BitVec format.mantissaBitsWithoutImplicit}
    (high : High format mantissa exponent biased bits) : Fits format mantissa exponent := by
  obtain ⟨bottom, top, rfl, rfl⟩ := high
  have bounds := biased_bounds bottom top
  have short := bits.isLt
  have twice := mantissas_eq format
  have floor := minExponent_eq format
  have joined := toNat_append_implicit bits
  have room := Nat.two_pow_pos format.mantissaBitsWithoutImplicit
  exact ⟨by omega, by omega, by omega, .inl (by omega), by omega⟩

theorem unpack_pack (wide : 1 ≤ format.exponentBias) (fits : Fits format mantissa exponent)
    (sign : Sign) :
    UnpackedFloat.unpack format
      (UnpackedFloat.pack format (.finite sign mantissa exponent fits.positive)) =
      .finite sign mantissa exponent fits.positive := by
  rcases fits.exists_bits with ⟨bits, low⟩ | ⟨biased, bits, high⟩
  · rw [low.pack wide]
    exact unpack_packComponents sign _ bits fits.positive (.inl ⟨rfl, low⟩)
  · rw [high.pack]
    exact unpack_packComponents sign biased bits fits.positive (.inr high)

theorem unpack_zero (sign : Sign) :
    UnpackedFloat.unpack format (UnpackedFloat.pack format (.zero sign)) = .zero sign := by
  have packed : UnpackedFloat.pack format (.zero sign) = packComponents format sign 0 0 := rfl
  rw [packed]
  unfold UnpackedFloat.unpack
  dsimp only
  simp only [unpackMantissa_packComponents, unpackExponent_packComponents,
    unpackSign_packComponents]
  exact (if_neg zero_ne_neg_one).trans rfl

/-- What a word stands for is packed into the word again, and if it is finite, it fits. -/
theorem unpack_spec (wide : 1 ≤ format.exponentBias) {word : BitVec format.numBits}
    (valid : format.Valid word) :
    UnpackedFloat.pack format (UnpackedFloat.unpack format word) = word ∧
      ∀ sign mantissa exponent positive,
        UnpackedFloat.unpack format word = .finite sign mantissa exponent positive →
          Fits format mantissa exponent := by
  unfold UnpackedFloat.unpack
  dsimp only
  split
  · rename_i top
    split
    · rename_i zero
      exact ⟨packComponents_eq top zero, nofun⟩
    · rename_i nonzero
      exact ⟨(valid.eq_packedNaN top nonzero).symm, nofun⟩
  · rename_i top
    split
    · rename_i bottom
      split
      · rename_i zero
        exact ⟨packComponents_eq bottom zero, nofun⟩
      · rename_i nonzero
        have low : Low format (unpackMantissa word).toNat ((unpackExponent word).toNat -
            ((format.exponentBias : Int) + format.mantissaBitsWithoutImplicit) + 1)
            (unpackMantissa word) := by
          refine ⟨nonzero, rfl, ?_⟩
          rw [bottom, minExponent_eq, BitVec.toNat_zero]
          push_cast
          ring
        constructor
        · rw [low.pack wide]
          exact packComponents_eq bottom rfl
        · intro sign mantissa exponent positive same
          cases same
          exact low.fits wide
    · rename_i bottom
      have high : High format (1#1 ++ unpackMantissa word).toNat ((unpackExponent word).toNat -
          ((format.exponentBias : Int) + format.mantissaBitsWithoutImplicit)) (unpackExponent word)
          (unpackMantissa word) := ⟨bottom, top, rfl, rfl⟩
      constructor
      · rw [high.pack]
        exact packComponents_unpack word
      · intro sign mantissa exponent positive same
        cases same
        exact high.fits

/-! ### Single and double precision -/

theorem pack_unpack (x : Float32) : (⟨Float32.Model.pack x.toModel.unpack⟩ : Float32) = x := by
  obtain ⟨⟨bits, valid⟩⟩ := x
  have same := (unpack_spec (by decide) valid).1
  change Float32.ofModel ⟨⟨UnpackedFloat.pack .binary32
    (UnpackedFloat.unpack .binary32 bits.toBitVec)⟩, _⟩ = _
  simp only [same]

/-- A single precision number with its mantissa shifted to the width of double precision. -/
theorem Fits.widened (fits : Fits .binary32 mantissa exponent) :
    Fits .binary64 (mantissa <<< (52 - mantissa.log2)) (exponent - (52 - mantissa.log2 : Nat)) := by
  obtain ⟨positive, short, least, full, greatest⟩ := fits
  have log := (Nat.log2_lt positive.ne').2 short
  change mantissa.log2 < 24 at log
  have filled := log2_shiftLeft positive (52 - mantissa.log2)
  rw [Nat.add_sub_of_le (by omega)] at filled
  have nonzero : 0 < mantissa <<< (52 - mantissa.log2) := by
    rw [Nat.shiftLeft_eq]
    positivity
  change (-149 : Int) ≤ exponent at least
  change exponent ≤ (127 : Int) - 23 at greatest
  refine ⟨nonzero, ?_, ?_, .inl ?_, ?_⟩
  · exact (Nat.log2_lt nonzero.ne').1 (by rw [filled]; decide)
  · change (-1074 : Int) ≤ _
    omega
  · exact (Nat.le_log2 nonzero.ne').1 (by rw [filled])
  · change _ ≤ (1023 : Int) - 52
    omega

/-- A finite single precision number is not changed by the way to double precision and back. -/
theorem narrow_widen {x : Float32} (finite : x.isFinite = true) :
    (widen x).isFinite = true ∧ narrow (widen x) = x := by
  have back := pack_unpack x
  have word := (unpack_spec (by decide) x.toModel.valid).2
  change ∀ sign mantissa exponent positive, x.toModel.unpack = _ → _ at word
  change x.toModel.unpack.isFinite = true at finite
  unfold narrow
  change (widen x).toModel.unpack.isFinite = true ∧ _
  cases unpacked : x.toModel.unpack with
  | notANumber =>
      rw [unpacked] at finite
      cases finite
  | infinity sign =>
      rw [unpacked] at finite
      cases finite
  | zero sign =>
      have wide : (widen x).toModel.unpack = .zero sign := by
        unfold widen
        rw [unpacked]
        exact unpack_zero sign
      rw [wide]
      rw [unpacked] at back
      exact ⟨rfl, back⟩
  | finite sign mantissa exponent positive =>
      have fits := word sign mantissa exponent positive unpacked
      have wide : (widen x).toModel.unpack = .finite sign (mantissa <<< (52 - mantissa.log2))
          (exponent - (52 - mantissa.log2 : Nat)) fits.widened.positive := by
        unfold widen
        rw [unpacked]
        change UnpackedFloat.unpack .binary64 (UnpackedFloat.pack .binary64
          (UnpackedFloat.round .binary64 sign mantissa exponent)) = _
        rw [round_widened fits.widened, unpack_pack (by decide) fits.widened]
      rw [wide]
      rw [unpacked] at back
      refine ⟨rfl, Eq.trans ?_ back⟩
      change (⟨Float32.Model.pack (UnpackedFloat.round .binary32 sign _ _)⟩ : Float32) = _
      rw [round_shiftLeft fits]

theorem isFinite_widen (x : Float32) : (widen x).isFinite = x.isFinite := by
  by_cases finite : x.isFinite = true
  · rw [finite, (narrow_widen finite).1]
  · change x.toModel.unpack.isFinite ≠ true at finite
    change (widen x).toModel.unpack.isFinite = x.toModel.unpack.isFinite
    unfold widen
    cases unpacked : x.toModel.unpack with
    | notANumber => rfl
    | infinity sign =>
        cases sign with
        | positive => rfl
        | negative => rfl
    | zero sign =>
        rw [unpacked] at finite
        exact absurd rfl finite
    | finite sign mantissa exponent positive =>
        rw [unpacked] at finite
        exact absurd rfl finite

end StatusEffects.Single
