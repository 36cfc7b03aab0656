import StatusEffects.Number.Decimal
import StatusEffects.Toml.Value

/-!
Numbers and dates of TOML.

An integer has 64 bits. A float is the nearest double; one that is too large is refused, unless it
is negative, when it is minus infinity.
-/

set_option autoImplicit false

namespace StatusEffects.Toml

/-- Digits of a base, from the second one on; an underscore may stand before each. -/
private def moreDigits (digit? : Char → Option Nat) : List Char → Option (List Nat × List Char)
  | [] => some ([], [])
  | '_' :: c :: rest =>
    match digit? c with
    | some d => (moreDigits digit? rest).map fun (ds, rest) => (d :: ds, rest)
    | none => none
  | c :: rest =>
    match digit? c with
    | some d => (moreDigits digit? rest).map fun (ds, rest) => (d :: ds, rest)
    | none => some ([], c :: rest)

private def readDigits (digit? : Char → Option Nat) : List Char → Option (List Nat × List Char)
  | [] => none
  | c :: rest =>
    match digit? c with
    | some d => (moreDigits digit? rest).map fun (ds, rest) => (d :: ds, rest)
    | none => none

private def digitOf? (base : Nat) (c : Char) : Option Nat :=
  (Json.hexDigit? c).filter fun d => d < base

private def readWhole : List Char → Option (List Nat × List Char)
  | '0' :: rest => some ([0], rest)
  | cs => readDigits (digitOf? 10) cs

private def readSign : List Char → Bool × List Char
  | '-' :: rest => (true, rest)
  | '+' :: rest => (false, rest)
  | cs => (false, cs)

private def integer? (value : Int) : Option Toml :=
  if Int64.minValue.toInt ≤ value ∧ value ≤ Int64.maxValue.toInt then some (.int value) else none

private def float? (value : Float) : Option Toml :=
  if value.isInf && 0 < value then none else some (.float value)

private def floatOf? (negative : Bool) (whole fraction : List Nat) (exponent : Int) :
    Option Toml :=
  float? (Decimal.nearest negative (whole ++ fraction) (exponent - fraction.length))

private def readExponent : List Char → Option (Int × List Char)
  | c :: rest =>
    if c = 'e' || c = 'E' then
      let (negative, rest) := readSign rest
      (readDigits (digitOf? 10) rest).map fun (ds, rest) =>
        let exponent : Int := Decimal.ofDigits 10 ds
        (if negative then -exponent else exponent, rest)
    else some (0, c :: rest)
  | [] => some (0, [])

private def readDecimal (cs : List Char) : Option (Toml × List Char) := do
  let (negative, cs) := readSign cs
  let (whole, cs) ← readWhole cs
  let n : Int := Decimal.ofDigits 10 whole
  match cs with
  | '.' :: rest => do
    let (fraction, rest) ← readDigits (digitOf? 10) rest
    let (exponent, rest) ← readExponent rest
    return (← floatOf? negative whole fraction exponent, rest)
  | 'e' :: _ | 'E' :: _ => do
    let (exponent, rest) ← readExponent cs
    return (← floatOf? negative whole [] exponent, rest)
  | rest => return (← integer? (if negative then -n else n), rest)

private def readBased (base : Nat) (cs : List Char) : Option (Toml × List Char) := do
  let (ds, rest) ← readDigits (digitOf? base) cs
  return (← integer? (Decimal.ofDigits base ds), rest)

def readNumber : List Char → Option (Toml × List Char)
  | '0' :: 'x' :: rest => readBased 16 rest
  | '0' :: 'o' :: rest => readBased 8 rest
  | '0' :: 'b' :: rest => readBased 2 rest
  | cs =>
    match readSign cs with
    | (negative, 'i' :: 'n' :: 'f' :: rest) =>
      some (.float (if negative then -(1 / 0) else 1 / 0), rest)
    | (_, 'n' :: 'a' :: 'n' :: rest) => some (.float (0 / 0), rest)
    | _ => readDecimal cs

/-! ### Dates -/

private def readPart (width low high : Nat) (cs : List Char) : Option (Nat × List Char) :=
  let ds := (cs.take width).filterMap (digitOf? 10)
  let n := Decimal.ofDigits 10 ds
  if ds.length = width && low ≤ n && n ≤ high then some (n, cs.drop width) else none

private def after? (c : Char) : List Char → Option (List Char)
  | d :: rest => if d = c then some rest else none
  | [] => none

private def daysIn (year month : Nat) : Nat :=
  if month = 2 then
    if year % 4 = 0 && (year % 100 ≠ 0 || year % 400 = 0) then 29 else 28
  else if month ∈ [4, 6, 9, 11] then 30 else 31

private def afterDate? (cs : List Char) : Option (List Char) := do
  let (year, cs) ← readPart 4 0 9999 cs
  let (month, cs) ← readPart 2 1 12 (← after? '-' cs)
  let (_, cs) ← readPart 2 1 (daysIn year month) (← after? '-' cs)
  return cs

private def afterTime? (cs : List Char) : Option (List Char) := do
  let (_, cs) ← readPart 2 0 23 cs
  let (_, cs) ← readPart 2 0 59 (← after? ':' cs)
  let (_, cs) ← readPart 2 0 60 (← after? ':' cs)
  match cs with
  | '.' :: c :: rest =>
    if c.isDigit then return rest.dropWhile Char.isDigit else return cs
  | _ => return cs

private def afterOffset? : List Char → Option (List Char)
  | 'Z' :: rest | 'z' :: rest => some rest
  | '+' :: rest | '-' :: rest => do
    let (_, cs) ← readPart 2 0 23 rest
    let (_, cs) ← readPart 2 0 59 (← after? ':' cs)
    return cs
  | cs => some cs

private def afterDateTime? (cs : List Char) : Option (List Char) :=
  match afterDate? cs with
  | none => afterTime? cs
  | some [] => some []
  | some (c :: rest) =>
    match if c ∈ ['T', 't', ' '] then afterTime? rest else none with
    | some rest => afterOffset? rest
    | none => some (c :: rest)

def readDateTime (cs : List Char) : Option (Toml × List Char) :=
  (afterDateTime? cs).map fun rest =>
    (.dateTime (String.ofList (cs.take (cs.length - rest.length))), rest)

end StatusEffects.Toml
