import StatusEffects.Json.Value

/-!
Reading JSON numerals.

The digits are gathered into a significand below `2 ^ 64`; digits that no longer fit are dropped and
counted in the exponent. The value is that significand times or divided by one power of ten in
double precision, so it can differ from the nearest double in its last place.
-/

set_option autoImplicit false

namespace StatusEffects.Json

structure Numeral where
  negative : Bool
  whole : List Nat
  fraction : Option (List Nat)
  exponent : Option (Bool × List Nat)

namespace Numeral

def digits (cs : List Char) : List Nat × List Char :=
  ((cs.takeWhile Char.isDigit).map fun c => c.toNat - '0'.toNat, cs.dropWhile Char.isDigit)

private def readFraction : List Char → Option (Option (List Nat) × List Char)
  | '.' :: rest =>
    match digits rest with
    | ([], _) => none
    | (ds, rest) => some (some ds, rest)
  | rest => some (none, rest)

private def readExponent (cs : List Char) : Option (Option (Bool × List Nat) × List Char) :=
  let signed (negative : Bool) (rest : List Char) :=
    match digits rest with
    | ([], _) => none
    | (ds, rest) => some (some (negative, ds), rest)
  let marked : List Char → Option (Option (Bool × List Nat) × List Char)
    | '+' :: rest => signed false rest
    | '-' :: rest => signed true rest
    | rest => signed false rest
  match cs with
  | 'e' :: rest => marked rest
  | 'E' :: rest => marked rest
  | rest => some (none, rest)

def read (cs : List Char) : Option (Numeral × List Char) :=
  let (negative, cs) := match cs with
    | '-' :: rest => (true, rest)
    | rest => (false, rest)
  match digits cs with
  | ([], _) => none
  | (0 :: _ :: _, _) => none
  | (whole, cs) =>
    match readFraction cs with
    | none => none
    | some (fraction, cs) =>
      match readExponent cs with
      | none => none
      | some (exponent, cs) => some (⟨negative, whole, fraction, exponent⟩, cs)

/-- Digits gathered so far: `significand * 10 ^ exponent`. Once it is full, the significand takes
no more digits. -/
private structure Gathered where
  significand : Nat
  exponent : Int
  full : Bool

private def Gathered.overflows (g : Gathered) (digit : Nat) : Bool :=
  UInt64.size ≤ g.significand * 10 + digit

/-- Takes a digit before the point; a dropped digit counts as one power of ten. -/
private def Gathered.takeWhole (g : Gathered) (digit : Nat) : Gathered :=
  if g.full || g.overflows digit then { g with exponent := g.exponent + 1, full := true }
  else { g with significand := g.significand * 10 + digit }

private def Gathered.takeFraction (g : Gathered) (digit : Nat) : Gathered :=
  if g.full || g.overflows digit then { g with full := true }
  else { g with significand := g.significand * 10 + digit, exponent := g.exponent - 1 }

private def powerOfTen (n : Nat) : Float := Float.ofScientific 1 false n

/-- Divides by `10 ^ n` in steps that a double can hold; four steps bring any significand to
zero. -/
private def divideByPower : Nat → Float → Nat → Float
  | 0, f, _ => f
  | steps + 1, f, n =>
    if n ≤ 308 then f / powerOfTen n
    else if f == 0 then f
    else divideByPower steps (f / powerOfTen 308) (n - 308)

private def scale (significand : Nat) (exponent : Int) : Option Float :=
  let f := significand.toUInt64.toFloat
  if exponent < 0 then some (divideByPower 5 f exponent.natAbs)
  else if 308 < exponent then if f == 0 then some f else none
  else
    let product := f * powerOfTen exponent.natAbs
    if product.isInf then none else some product

/-- Written exponents of `2 ^ 31` and more are too large to count. -/
private def exponentLimit : Nat := 0x80000000

private def exponentOf (ds : List Nat) : Nat :=
  ds.foldl (fun e d => if exponentLimit ≤ e * 10 + d then exponentLimit else e * 10 + d) 0

/-- The value of a numeral: an integer if it is written as one and fits, else a float; none if it
is too large. Minus zero is a float. -/
def value (n : Numeral) : Option Json :=
  let whole := n.whole.foldl Gathered.takeWhole ⟨0, 0, false⟩
  let signed (f : Float) : Json := .float (if n.negative then -f else f)
  match n.fraction, n.exponent, whole.full with
  | none, none, false =>
    if !n.negative then some (.int whole.significand)
    else if whole.significand = 0 || -(whole.significand : Int) < Int64.minValue.toInt then
      some (.float (-whole.significand.toUInt64.toFloat))
    else some (.int (-whole.significand))
  | fraction, exponent, _ =>
    let all := (fraction.getD []).foldl Gathered.takeFraction { whole with full := false }
    match exponent with
    | none => (scale all.significand all.exponent).map signed
    | some (negative, ds) =>
      let e := exponentOf ds
      if exponentLimit ≤ e then
        if all.significand ≠ 0 && !negative then none else some (signed 0)
      else
        (scale all.significand (if negative then all.exponent - e else all.exponent + e)).map signed

end Numeral

end StatusEffects.Json
