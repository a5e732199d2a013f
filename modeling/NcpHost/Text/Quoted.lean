import NcpHost.Text.Hex
import NcpHost.Text.Unprintable

/-!
Text and lists of texts as messages show them: between double quotes, with the usual short escapes,
and any other character that would not show by its number in braces. Single quotes stay as they are.
-/

namespace NcpHost.Text

def escape (c : Char) : String :=
  match c with
  | '\x00' => "\\0"
  | '\t' => "\\t"
  | '\r' => "\\r"
  | '\n' => "\\n"
  | '\\' => "\\\\"
  | '"' => "\\\""
  | c =>
    if isUnprintable c then "\\u\x7b" ++ Hex.ofNat c.toNat ++ "\x7d" else String.singleton c

def quote (s : String) : String :=
  "\"" ++ String.join (s.toList.map escape) ++ "\""

def bracket (entries : List String) : String :=
  "[" ++ ", ".intercalate entries ++ "]"

def quoteAll (texts : List String) : String := bracket (texts.map quote)

end NcpHost.Text
