/-!
The double that is nearest to a decimal number.

A quotient is computed with two bits more than any double has, the last of which says whether
anything follows, so that rounding it once gives the nearest double.
-/

set_option autoImplicit false

namespace StatusEffects.Decimal

open Float.Model (UnpackedFloat)

def ofDigits (base : Nat) (digits : List Nat) : Nat := digits.foldl (fun n d => n * base + d) 0

/-- Powers of ten with an exponent above this are out of range even for the smallest digits. -/
def exponentLimit : Nat := 400

private def rounded (sign : UnpackedFloat.Sign) (m : Nat) (e : Int) : Float :=
  if m = 0 then ⟨Float.Model.pack (.zero sign)⟩
  else ⟨Float.Model.pack (UnpackedFloat.round .binary64 sign m e)⟩

/-- The nearest double to `± digits * 10 ^ exponent`; ties go to the even neighbour, and what is too
large becomes infinite. -/
def nearest (negative : Bool) (digits : List Nat) (exponent : Int) : Float :=
  let sign : UnpackedFloat.Sign := if negative then .negative else .positive
  let m := ofDigits 10 digits
  if m = 0 then rounded sign 0 0
  else if 0 ≤ exponent then rounded sign (m * Nat.pow 10 (min exponent.toNat exponentLimit)) 0
  else
    let scale := Nat.pow 10 (min exponent.natAbs (digits.length + exponentLimit))
    let shift := scale.log2 + 64
    let quotient := (m <<< shift) / scale
    let sticky := if (m <<< shift) % scale = 0 then 0 else 1
    rounded sign (2 * quotient + sticky) (-(shift + 1))

end StatusEffects.Decimal
