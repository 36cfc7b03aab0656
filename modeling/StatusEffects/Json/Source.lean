import StatusEffects.Json.Numeral

/-!
JSON as it is met while reading.

A `Source` keeps the members of an object in the order and number in which they are written, and
marks the place where a text stops being JSON. So whoever decodes it part by part finds a wrong
value that stands before a slip of the pen, and the slip where it comes first. The canonical value
of a source is `Source.value?`.
-/

set_option autoImplicit false

namespace StatusEffects.Json

/-- What becomes of an array or object after its last readable part. -/
inductive Ending where
  /-- The array is a value in memory; items that nobody asked for are a wrong length. -/
  | counted
  /-- The array is written in full; a reader that stops early leaves unexpected text. -/
  | closed
  /-- The array may be longer than what its reader asks for. -/
  | spare
  /-- What follows is JSON that denotes no value: a member whose name has half of a surrogate pair,
  or nesting that is too deep. It may be skipped but not read. -/
  | barred
  /-- The text stops being JSON here. -/
  | broken

inductive Source where
  /-- Anything but an array or an object. -/
  | scalar (value : Json)
  | arr (items : List Source) (ending : Ending)
  | obj (members : List (String × Source)) (ending : Ending)
  /-- A numeral that is too large, or a quoted text with half of a surrogate pair. It may be skipped
  but not read. -/
  | unfit
  /-- The text stops being JSON here. -/
  | broken

namespace Source

def ofJson : Json → Source
  | .arr items => .arr (ofItems items) .counted
  | .obj members => .obj (ofMembers members) .counted
  | value => .scalar value
where
  /-- The items of an array. -/
  ofItems : List Json → List Source
    | [] => []
    | item :: rest => ofJson item :: ofItems rest
  /-- The members of an object. -/
  ofMembers : List (String × Json) → List (String × Source)
    | [] => []
    | (name, item) :: rest => (name, ofJson item) :: ofMembers rest

/-- The canonical value, if the source is whole: of two members of one name the later one counts,
and a number that is not finite counts as `null`. -/
def value? : Source → Option Json
  | .scalar (.float x) => some (.ofFloat x)
  | .scalar value => some value
  | .arr _ .barred => none
  | .arr _ .broken => none
  | .arr items _ => (itemValues? items).map .arr
  | .obj _ .barred => none
  | .obj _ .broken => none
  | .obj members _ => (memberValues? members).map .object
  | .unfit => none
  | .broken => none
where
  /-- The values of array items. -/
  itemValues? : List Source → Option (List Json)
    | [] => some []
    | item :: rest =>
      match value? item, itemValues? rest with
      | some value, some values => some (value :: values)
      | _, _ => none
  /-- The values of object members. -/
  memberValues? : List (String × Source) → Option (List (String × Json))
    | [] => some []
    | (name, item) :: rest =>
      match value? item, memberValues? rest with
      | some value, some values => some ((name, value) :: values)
      | _, _ => none

/-- Whether the source may be passed over: its text does not break off. What holds a part that
breaks off breaks off itself. -/
def skippable : Source → Bool
  | .arr _ .broken => false
  | .obj _ .broken => false
  | .broken => false
  | _ => true

end Source

/-! ### Reading text -/

def nestingLimit : Nat := 127

def isBlank (c : Char) : Bool := c = ' ' || c = '\n' || c = '\t' || c = '\r'

def skipBlanks (cs : List Char) : List Char := cs.dropWhile isBlank

def hexDigit? (c : Char) : Option Nat :=
  if c.isDigit then some (c.toNat - '0'.toNat)
  else if 'a' ≤ c && c ≤ 'f' then some (c.toNat - 'a'.toNat + 10)
  else if 'A' ≤ c && c ≤ 'F' then some (c.toNat - 'A'.toNat + 10)
  else none

def hexValue? (cs : List Char) : Option Nat :=
  cs.foldl (fun n c => n.bind fun n => (hexDigit? c).map (n * 16 + ·)) (some 0)

/-- A quoted text while it is read: its characters so far, last one first, whether all of them are
characters, and a leading half of a surrogate pair that waits for the other half. -/
private structure TextScan where
  chars : List Char
  fit : Bool
  leading : Option Nat

private def TextScan.push (s : TextScan) (c : Char) : TextScan :=
  ⟨c :: s.chars, s.fit && s.leading.isNone, none⟩

private def TextScan.pushUnit (s : TextScan) (unit : Nat) : TextScan :=
  let trailing := 0xDC00 ≤ unit && unit < 0xE000
  match s.leading with
  | some high =>
    if trailing then
      ⟨Char.ofNat (0x10000 + (high - 0xD800) * 0x400 + (unit - 0xDC00)) :: s.chars, s.fit, none⟩
    else { s with fit := false, leading := none }
  | none =>
    if trailing then { s with fit := false }
    else if 0xD800 ≤ unit && unit < 0xDC00 then { s with leading := some unit }
    else s.push (Char.ofNat unit)

private def escaped? : Char → Option Char
  | '"' => some '"'
  | '\\' => some '\\'
  | '/' => some '/'
  | 'b' => some '\x08'
  | 'f' => some '\x0c'
  | 'n' => some '\n'
  | 'r' => some '\r'
  | 't' => some '\t'
  | _ => none

private def readText : TextScan → List Char → Option (String × Bool × List Char)
  | _, [] => none
  | s, '"' :: rest => some (String.ofList s.chars.reverse, s.fit && s.leading.isNone, rest)
  | s, '\\' :: 'u' :: a :: b :: c :: d :: rest =>
    match hexValue? [a, b, c, d] with
    | some unit => readText (s.pushUnit unit) rest
    | none => none
  | s, '\\' :: c :: rest =>
    match escaped? c with
    | some c => readText (s.push c) rest
    | none => none
  | s, c :: rest => if c.toNat < 0x20 then none else readText (s.push c) rest

private def Ending.bar : Ending → Ending
  | .broken => .broken
  | _ => .barred

private def readNumeral (cs : List Char) : Source × Option (List Char) :=
  match Numeral.read cs with
  | none => (.broken, none)
  | some (numeral, rest) =>
    match numeral.value with
    | some value => (.scalar value, some rest)
    | none => (.unfit, some rest)

mutual

/-- Reads one value at a nesting depth. What follows it is given unless the text breaks off. -/
private def readValue : Nat → Nat → List Char → Source × Option (List Char)
  | 0, _, _ => (.broken, none)
  | fuel + 1, depth, cs =>
    match skipBlanks cs with
    | '\x7b' :: rest =>
      let (members, ending, rest) := readMembers fuel (depth + 1) true rest
      (if depth < nestingLimit then .obj members ending else .obj [] ending.bar, rest)
    | '[' :: rest =>
      let (items, ending, rest) := readItems fuel (depth + 1) true rest
      (if depth < nestingLimit then .arr items ending else .arr [] ending.bar, rest)
    | '"' :: rest =>
      match readText ⟨[], true, none⟩ rest with
      | some (text, fit, rest) => (if fit then .scalar (.str text) else .unfit, some rest)
      | none => (.broken, none)
    | 'n' :: 'u' :: 'l' :: 'l' :: rest => (.scalar .null, some rest)
    | 't' :: 'r' :: 'u' :: 'e' :: rest => (.scalar (.bool true), some rest)
    | 'f' :: 'a' :: 'l' :: 's' :: 'e' :: rest => (.scalar (.bool false), some rest)
    | rest => readNumeral rest

private def readItems : Nat → Nat → Bool → List Char → List Source × Ending × Option (List Char)
  | 0, _, _, _ => ([], .broken, none)
  | fuel + 1, depth, first, cs =>
    match skipBlanks cs, first with
    | ']' :: rest, _ => ([], .closed, some rest)
    | ',' :: rest, false =>
      match skipBlanks rest with
      | ']' :: _ => ([], .broken, none)
      | rest => readItemsFrom fuel depth rest
    | rest, true => readItemsFrom fuel depth rest
    | _, false => ([], .broken, none)

private def readItemsFrom : Nat → Nat → List Char → List Source × Ending × Option (List Char)
  | 0, _, _ => ([], .broken, none)
  | fuel + 1, depth, cs =>
    match readValue fuel depth cs with
    | (item, none) => ([item], .broken, none)
    | (item, some rest) =>
      let (items, ending, rest) := readItems fuel depth false rest
      (item :: items, ending, rest)

private def readMembers :
    Nat → Nat → Bool → List Char → List (String × Source) × Ending × Option (List Char)
  | 0, _, _, _ => ([], .broken, none)
  | fuel + 1, depth, first, cs =>
    match skipBlanks cs, first with
    | '\x7d' :: rest, _ => ([], .closed, some rest)
    | ',' :: rest, false => readMembersFrom fuel depth (skipBlanks rest)
    | rest, true => readMembersFrom fuel depth rest
    | _, false => ([], .broken, none)

private def readMembersFrom :
    Nat → Nat → List Char → List (String × Source) × Ending × Option (List Char)
  | 0, _, _ => ([], .broken, none)
  | fuel + 1, depth, cs =>
    match cs with
    | '"' :: rest =>
      match readText ⟨[], true, none⟩ rest with
      | none => ([], .broken, none)
      | some (name, fit, rest) =>
        match skipBlanks rest with
        | ':' :: rest =>
          match readValue fuel depth rest with
          | (item, none) => (if fit then [(name, item)] else [], .broken, none)
          | (item, some rest) =>
            let (members, ending, rest) := readMembers fuel depth false rest
            if fit then ((name, item) :: members, ending, rest) else ([], ending.bar, rest)
        | _ => (if fit then [(name, .broken)] else [], .broken, none)
    | _ => ([], .broken, none)

end

def Source.ofText (text : String) : Source × Bool :=
  let cs := text.toList
  match readValue (3 * cs.length + 3) 0 cs with
  | (source, none) => (source, false)
  | (source, some rest) => (source, (skipBlanks rest).isEmpty)

def parse? (text : String) : Option Json :=
  match Source.ofText text with
  | (source, true) => source.value?
  | (_, false) => none

end StatusEffects.Json
