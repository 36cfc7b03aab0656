import StatusEffects.Json.Source

/-!
Quoted texts of TOML: between double quotes with escapes, between apostrophes as they stand, and
both over several lines between three quotes.
-/

set_option autoImplicit false

namespace StatusEffects.Toml

def isPlain (c : Char) : Bool := c = '\t' || 0x20 ≤ c.toNat && c.toNat ≠ 0x7F

def isBlank (c : Char) : Bool := c = ' ' || c = '\t'

def afterLineEnd? : List Char → Option (List Char)
  | '\n' :: rest => some rest
  | '\r' :: '\n' :: rest => some rest
  | _ => none

private def escaped? : Char → Option Char
  | '"' => some '"'
  | '\\' => some '\\'
  | 'b' => some '\x08'
  | 'f' => some '\x0c'
  | 'n' => some '\n'
  | 'r' => some '\r'
  | 't' => some '\t'
  | _ => none

private def numbered? (digits : List Char) : Option Char :=
  (Json.hexValue? digits).bind fun n => if n.isValidChar then some (Char.ofNat n) else none

private def readBasic (read : List Char) : List Char → Option (String × List Char)
  | [] => none
  | '"' :: rest => some (String.ofList read.reverse, rest)
  | '\\' :: 'u' :: a :: b :: c :: d :: rest =>
    match numbered? [a, b, c, d] with
    | some n => readBasic (n :: read) rest
    | none => none
  | '\\' :: 'U' :: a :: b :: c :: d :: e :: f :: g :: h :: rest =>
    match numbered? [a, b, c, d, e, f, g, h] with
    | some n => readBasic (n :: read) rest
    | none => none
  | '\\' :: c :: rest =>
    match escaped? c with
    | some c => readBasic (c :: read) rest
    | none => none
  | c :: rest => if isPlain c then readBasic (c :: read) rest else none

/-- Whether only blanks stand before the next line end. -/
private def endsLine (cs : List Char) : Bool := (afterLineEnd? (cs.dropWhile isBlank)).isSome

/-- Reads the rest of a text between three double quotes. A backslash at the end of a line drops
what follows up to the next character that is no blank and no line end: it starts `trimming`. Up to
two quotes may stand before the closing ones. -/
private def readBasicBlock : (trimming : Bool) → (read : List Char) → List Char →
    Option (String × List Char)
  | true, read, ' ' :: rest => readBasicBlock true read rest
  | true, read, '\t' :: rest => readBasicBlock true read rest
  | true, read, '\n' :: rest => readBasicBlock true read rest
  | true, read, '\r' :: '\n' :: rest => readBasicBlock true read rest
  | _, read, '"' :: '"' :: '"' :: '"' :: '"' :: rest =>
    some (String.ofList ('"' :: '"' :: read).reverse, rest)
  | _, read, '"' :: '"' :: '"' :: '"' :: rest => some (String.ofList ('"' :: read).reverse, rest)
  | _, read, '"' :: '"' :: '"' :: rest => some (String.ofList read.reverse, rest)
  | _, read, '\\' :: 'u' :: a :: b :: c :: d :: rest =>
    match numbered? [a, b, c, d] with
    | some n => readBasicBlock false (n :: read) rest
    | none => none
  | _, read, '\\' :: 'U' :: a :: b :: c :: d :: e :: f :: g :: h :: rest =>
    match numbered? [a, b, c, d, e, f, g, h] with
    | some n => readBasicBlock false (n :: read) rest
    | none => none
  | _, read, '\\' :: c :: rest =>
    match escaped? c with
    | some c => readBasicBlock false (c :: read) rest
    | none => if endsLine (c :: rest) then readBasicBlock true read rest else none
  | _, read, '\r' :: '\n' :: rest => readBasicBlock false ('\n' :: read) rest
  | _, read, '\n' :: rest => readBasicBlock false ('\n' :: read) rest
  | _, read, c :: rest => if isPlain c then readBasicBlock false (c :: read) rest else none
  | _, _, [] => none

private def readLiteral (read : List Char) : List Char → Option (String × List Char)
  | [] => none
  | '\'' :: rest => some (String.ofList read.reverse, rest)
  | c :: rest => if isPlain c then readLiteral (c :: read) rest else none

private def readLiteralBlock (read : List Char) : List Char → Option (String × List Char)
  | [] => none
  | '\'' :: '\'' :: '\'' :: '\'' :: '\'' :: rest =>
    some (String.ofList ('\'' :: '\'' :: read).reverse, rest)
  | '\'' :: '\'' :: '\'' :: '\'' :: rest => some (String.ofList ('\'' :: read).reverse, rest)
  | '\'' :: '\'' :: '\'' :: rest => some (String.ofList read.reverse, rest)
  | '\r' :: '\n' :: rest => readLiteralBlock ('\n' :: read) rest
  | '\n' :: rest => readLiteralBlock ('\n' :: read) rest
  | c :: rest => if isPlain c then readLiteralBlock (c :: read) rest else none

private def dropLineEnd (cs : List Char) : List Char := (afterLineEnd? cs).getD cs

def readLineText : List Char → Option (String × List Char)
  | '"' :: rest => readBasic [] rest
  | '\'' :: rest => readLiteral [] rest
  | _ => none

/-- Reads a quoted text. A line end right after three quotes does not count. -/
def readText : List Char → Option (String × List Char)
  | '"' :: '"' :: '"' :: rest => readBasicBlock false [] (dropLineEnd rest)
  | '\'' :: '\'' :: '\'' :: rest => readLiteralBlock [] (dropLineEnd rest)
  | cs => readLineText cs

end StatusEffects.Toml
