/-!
Single precision arithmetic used by stats, modifiers and timers.

Sums, products and comparisons are the ones of `Float32`. Added here are the operations that
`Float32` lacks or that a proof could not unfold: a maximum and a minimum that pass over a value
that is no number, rounding to whole numbers, and the change of width to and from `Float`.
Each is defined on the unpacked form `± mantissa · 2 ^ exponent`, so it computes in the kernel too.
-/

set_option autoImplicit false

namespace StatusEffects

open Float.Model (UnpackedFloat Format)

namespace Single

def epsilon : Float32 := Float32.ofBits 0x34000000

/-- The larger of two numbers; a value that is no number loses against the other one. -/
def max (a b : Float32) : Float32 :=
  if a.isNaN then b else if a < b then b else a

def min (a b : Float32) : Float32 :=
  if a.isNaN then b else if b < a then b else a

private def wholeNumber (sign : UnpackedFloat.Sign) (n : Nat) : Float32 :=
  if n = 0 then ⟨Float32.Model.pack (.zero sign)⟩
  else ⟨Float32.Model.pack (UnpackedFloat.round .binary32 sign n 0)⟩

def floor (x : Float32) : Float32 :=
  match x.toModel.unpack with
  | .finite sign mantissa exponent _ =>
    if 0 ≤ exponent then x
    else
      let shift := (-exponent).toNat
      let below := mantissa >>> shift
      match sign with
      | .positive => wholeNumber sign below
      | .negative =>
        wholeNumber sign (if below <<< shift = mantissa then below else below + 1)
  | _ => x

/-- The nearest whole number; a half goes away from zero. -/
def round (x : Float32) : Float32 :=
  match x.toModel.unpack with
  | .finite sign mantissa exponent _ =>
    if 0 ≤ exponent then x
    else
      let shift := (-exponent).toNat
      wholeNumber sign ((mantissa + 1 <<< (shift - 1)) >>> shift)
  | _ => x

/-- Rounded to a whole count: negative values and values that are no number count as zero, and
what is too large for a count becomes the largest count. -/
def toCount (x : Float32) : UInt32 :=
  (round (max x 0)).toUInt32

/-- A number and its nearest value in another format; ties go to the even neighbour. -/
private def refit (format : Format) : UnpackedFloat → UnpackedFloat
  | .finite sign mantissa exponent _ => UnpackedFloat.round format sign mantissa exponent
  | value => value

def widen (x : Float32) : Float :=
  ⟨Float.Model.pack (refit .binary64 x.toModel.unpack)⟩

def narrow (x : Float) : Float32 :=
  ⟨Float32.Model.pack (refit .binary32 x.toModel.unpack)⟩

def ofInt (n : Int) : Float32 :=
  if n = 0 then 0
  else
    ⟨Float32.Model.pack
      (UnpackedFloat.round .binary32 (if n < 0 then .negative else .positive) n.natAbs 0)⟩

end Single

end StatusEffects
