/-!
The decimal number with the fewest digits that reads back as a given double.

A double stands for the interval of numbers that round to it. The search goes through decimal grids,
each ten times finer than the one before, up to the first that has a number in this interval. Only
the two neighbours of the double on a grid need to be looked at: if any number of the grid lies in
the interval, one of them does.
-/

set_option autoImplicit false

namespace StatusEffects.Decimal

/-- The numbers that round to a double, as multiples of some unit: those between the ends, with the
ends themselves if the interval is closed. -/
structure Rounding where
  low : Nat
  value : Nat
  high : Nat
  closed : Bool

namespace Rounding

def holds (r : Rounding) (n : Nat) : Bool :=
  (r.low < n && n < r.high) || (r.closed && (n = r.low || n = r.high))

def refine (r : Rounding) (factor : Nat) : Rounding :=
  ⟨r.low * factor, r.value * factor, r.high * factor, r.closed⟩

/-- The number of steps of a grid to a point that rounds to the double, if there is one: the nearer
one of two, and of two at the same distance the even one. -/
def point? (r : Rounding) (step : Nat) : Option Nat :=
  let below := r.value / step
  match r.holds (below * step), r.holds ((below + 1) * step) with
  | false, false => none
  | true, false => some below
  | false, true => some (below + 1)
  | true, true =>
    let down := r.value - below * step
    let up := (below + 1) * step - r.value
    if down < up || (down = up && below % 2 = 0) then some below else some (below + 1)

/-- The first point found on a grid of step `10 ^ k`, of step `10 ^ (k - 1)`, and so on. One is
`unit` units. -/
def search (r : Rounding) (unit : Nat) : (grids : Nat) → (k : Int) → Option (Nat × Int)
  | 0, _ => none
  | grids + 1, k =>
    let found :=
      if 0 ≤ k then r.point? (unit * Nat.pow 10 k.toNat)
      else (r.refine (Nat.pow 10 k.natAbs)).point? unit
    match found with
    | some n => some (n, k)
    | none => search r unit grids (k - 1)

end Rounding

/-- The interval of `m * 2 ^ e`, for a double in its normal form, and how many of its units one is.
The unit is a quarter of the last place. Below a power of two the doubles are twice as dense. -/
def rounding (m : Nat) (e : Int) : Rounding × Nat :=
  let low := if m = Nat.pow 2 52 && e ≠ -1074 then 4 * m - 1 else 4 * m - 2
  let r : Rounding := ⟨low, 4 * m, 4 * m + 2, m % 2 = 0⟩
  if 2 ≤ e then (r.refine (Nat.pow 2 (e - 2).toNat), 1) else (r, Nat.pow 2 (2 - e).toNat)

/-- A bound on the power of ten of the leading digit of `m * 2 ^ e`, at most two too large. It rests
on `30103 / 100000`, which is the logarithm of two. -/
def leadingPower (m : Nat) (e : Int) : Int := (m.log2 + e) * 30103 / 100000 + 1

/-- Digits `n` and an exponent `k` with `n * 10 ^ k` in the interval of `m * 2 ^ e`, where no larger
`k` has such digits, and no other digits are nearer. Seventeen digits suffice for any double, so the
exact number after twenty grids is never needed. -/
def shortest (m : Nat) (e : Int) : Nat × Int :=
  let (r, unit) := rounding m e
  match r.search unit 20 (leadingPower m e) with
  | some found => found
  | none =>
    if 0 ≤ e then (m * Nat.pow 2 e.toNat, 0) else (m * Nat.pow 5 e.natAbs, e)

end StatusEffects.Decimal
