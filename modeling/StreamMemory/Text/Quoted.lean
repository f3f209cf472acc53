import StreamMemory.Text.Unprintable

/-!
# Quoted text

A text between double quotes. The quote, the backslash and the common controls have short
escapes; any other unprintable character is written by its code point in hexadecimal.
-/

set_option autoImplicit false

namespace StreamMemory

/-- A character as it stands inside quotes. -/
def escapeChar (c : Char) : String :=
  match c with
  | '\x00' => "\\0"
  | '\t' => "\\t"
  | '\n' => "\\n"
  | '\r' => "\\r"
  | '"' => "\\\""
  | '\\' => "\\\\"
  | _ =>
    if isUnprintable c then "\\u\x7b" ++ String.ofList (Nat.toDigits 16 c.toNat) ++ "\x7d"
    else c.toString

def quote (text : String) : String :=
  "\"" ++ String.join (text.toList.map escapeChar) ++ "\""

end StreamMemory
