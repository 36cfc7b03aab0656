import StatusEffects.Json.Value
import StatusEffects.Number.Shortest

/-!
Writing JSON text: no blanks, members in the order of the value, only the characters escaped that
must be, and numbers with as few digits as identify them.
-/

set_option autoImplicit false

namespace StatusEffects.Json

def hexDigit (n : Nat) : Char :=
  if n < 10 then Char.ofNat ('0'.toNat + n) else Char.ofNat ('a'.toNat + n - 10)

def hex (width : Nat) (n : Nat) : String :=
  String.ofList ((List.range width).reverse.map fun i => hexDigit (n >>> (4 * i) % 16))

def escape (c : Char) : String :=
  if c = '"' then "\\\""
  else if c = '\\' then "\\\\"
  else if c.toNat < 0x20 then "\\u" ++ hex 4 c.toNat
  else c.toString

def quote (text : String) : String :=
  text.foldl (fun written c => written ++ escape c) "\"" ++ "\""

/-- Digits times ten to an exponent, always with a point or an exponent. The point stands in its
place if at most sixteen digits are before it and at most four zeros after it come before the
digits. -/
def layout (digits : List Char) (exponent : Int) : List Char :=
  let point : Int := digits.length + exponent
  let zeros (n : Int) : List Char := List.replicate n.toNat '0'
  if 0 ≤ exponent && point ≤ 16 then digits ++ zeros exponent ++ ['.', '0']
  else if 0 < point && point ≤ 16 then
    digits.take point.toNat ++ '.' :: digits.drop point.toNat
  else if -5 < point && point ≤ 0 then '0' :: '.' :: zeros (-point) ++ digits
  else
    let fraction := match digits.drop 1 with
      | [] => []
      | rest => '.' :: rest
    digits.take 1 ++ fraction ++ 'e' :: (toString (point - 1)).toList

/-- A finite double with the fewest digits that read back. -/
def decimal (x : Float) : String :=
  match x.toModel.unpack with
  | .finite sign mantissa exponent _ =>
    let (digits, power) := Decimal.shortest mantissa exponent
    let minus := match sign with
      | .negative => "-"
      | .positive => ""
    minus ++ String.ofList (layout (Nat.toDigits 10 digits) power)
  | .zero .negative => "-0.0"
  | _ => "0.0"

def print : Json → String
  | .null => "null"
  | .bool true => "true"
  | .bool false => "false"
  | .int value => toString value
  | .float value => decimal value
  | .str value => quote value
  | .arr items => "[" ++ printItems "" items ++ "]"
  | .obj members => "\x7b" ++ printMembers "" members ++ "\x7d"
where
  /-- The items of an array, each after a separator. -/
  printItems (separator : String) : List Json → String
    | [] => ""
    | item :: rest => separator ++ print item ++ printItems "," rest
  /-- The members of an object, each after a separator. -/
  printMembers (separator : String) : List (String × Json) → String
    | [] => ""
    | (name, item) :: rest =>
      separator ++ quote name ++ ":" ++ print item ++ printMembers "," rest

end StatusEffects.Json
