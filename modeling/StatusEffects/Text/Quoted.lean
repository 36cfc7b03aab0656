import StatusEffects.Json.Printer
import StatusEffects.Text.Unseen

/-!
Texts quoted for a reader: quotes and what cannot be seen are escaped.
-/

set_option autoImplicit false

namespace StatusEffects.Text

def shortHex (n : Nat) : String := Json.hex (n.log2 / 4 + 1) n

def escape (c : Char) : String :=
  match c with
  | '\x00' => "\\0"
  | '\t' => "\\t"
  | '\n' => "\\n"
  | '\r' => "\\r"
  | '"' => "\\\""
  | '\\' => "\\\\"
  | c => if isSeen c then c.toString else "\\u\x7b" ++ shortHex c.toNat ++ "\x7d"

def quote (text : String) : String :=
  text.foldl (fun written c => written ++ escape c) "\"" ++ "\""

def listed (items : List String) : String := "[" ++ ", ".intercalate items ++ "]"

end StatusEffects.Text
