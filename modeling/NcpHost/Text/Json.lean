import NcpHost.Text.Hex

/-!
JSON texts. Reading goes in two passes, each of which sees every item once: `tokens` cuts the text
into words and marks, `tree?` builds the value with a stack of the brackets that are still open, so
that no depth is too much. Numbers stay as they are written; a string that holds half a surrogate
pair has no text, and it is for the user of the value to mind that.
-/

namespace NcpHost

inductive Json where
  | null
  | bool (b : Bool)
  | number (digits : List Char)
  | string (text : Option String)
  | array (items : List Json)
  | object (members : List (Option String × Json))
  deriving Repr, Inhabited

namespace Json

inductive Token where
  | openObject | closeObject | openArray | closeArray | colon | comma
  | word (name : List Char)
  | number (digits : List Char)
  | string (text : Option String)
  deriving Repr

/-- What stands inside a string: a character, or sixteen bits given by number. -/
inductive Unit16 where
  | char (c : Char)
  | code (n : Nat)
  deriving Repr

/-- The text of a string, where pairs of surrogates make one character. A surrogate without its
partner makes the string textless. -/
def decodeUnits : List Unit16 → Option (List Char)
  | [] => some []
  | .char c :: rest => (decodeUnits rest).map (c :: ·)
  | .code n :: rest =>
    if 0xD800 ≤ n ∧ n < 0xDC00 then
      match rest with
      | .code m :: rest =>
        if 0xDC00 ≤ m ∧ m < 0xE000 then
          (decodeUnits rest).map (Char.ofNat (0x10000 + (n - 0xD800) * 1024 + (m - 0xDC00)) :: ·)
        else none
      | _ => none
    else if 0xDC00 ≤ n ∧ n < 0xE000 then none
    else (decodeUnits rest).map (Char.ofNat n :: ·)

/-- Where in the text the reader is. Collected parts are in reverse. -/
inductive Scan where
  | between
  | inWord (name : List Char)
  | inNumber (digits : List Char)
  | inString (units : List Unit16)
  | inEscape (units : List Unit16)
  /-- Inside the four digits of a number, some of which have been read. -/
  | inCode (units : List Unit16) (read value : Nat)

def isBlank (c : Char) : Bool := c == ' ' || c == '\n' || c == '\t' || c == '\r'

def isNumberChar (c : Char) : Bool :=
  c.isDigit || c == '-' || c == '+' || c == '.' || c == 'e' || c == 'E'

def mark? (c : Char) : Option Token :=
  match c with
  | '{' => some .openObject
  | '}' => some .closeObject
  | '[' => some .openArray
  | ']' => some .closeArray
  | ':' => some .colon
  | ',' => some .comma
  | _ => none

def escape? (c : Char) : Option Char :=
  match c with
  | '"' => some '"'
  | '\\' => some '\\'
  | '/' => some '/'
  | 'b' => some '\x08'
  | 'f' => some '\x0c'
  | 'n' => some '\n'
  | 'r' => some '\r'
  | 't' => some '\t'
  | _ => none

def hexDigit? (c : Char) : Option Nat :=
  if c.isDigit then some (c.toNat - '0'.toNat)
  else if 'a' ≤ c ∧ c ≤ 'f' then some (c.toNat - 'a'.toNat + 10)
  else if 'A' ≤ c ∧ c ≤ 'F' then some (c.toNat - 'A'.toNat + 10)
  else none

def scanFresh (done : List Token) (c : Char) : Option (Scan × List Token) :=
  if isBlank c then some (.between, done)
  else if c == '"' then some (.inString [], done)
  else if c.isDigit || c == '-' then some (.inNumber [c], done)
  else if c.isAlpha then some (.inWord [c], done)
  else (mark? c).map fun t => (.between, t :: done)

def scanStep : Scan × List Token → Char → Option (Scan × List Token)
  | (.between, done), c => scanFresh done c
  | (.inWord name, done), c =>
    if c.isAlpha then some (.inWord (c :: name), done)
    else scanFresh (.word name.reverse :: done) c
  | (.inNumber digits, done), c =>
    if isNumberChar c then some (.inNumber (c :: digits), done)
    else scanFresh (.number digits.reverse :: done) c
  | (.inString units, done), c =>
    if c == '"' then
      some (.between, .string ((decodeUnits units.reverse).map String.ofList) :: done)
    else if c == '\\' then some (.inEscape units, done)
    else if c.toNat < 0x20 then none
    else some (.inString (.char c :: units), done)
  | (.inEscape units, done), c =>
    if c == 'u' then some (.inCode units 0 0, done)
    else (escape? c).map fun e => (.inString (.char e :: units), done)
  | (.inCode units read value, done), c =>
    (hexDigit? c).map fun d =>
      if read == 3 then (.inString (.code (value * 16 + d) :: units), done)
      else (.inCode units (read + 1) (value * 16 + d), done)

/-- The words and marks of a text; none where a string does not end or a character fits nowhere. -/
def tokens (text : List Char) : Option (List Token) :=
  match text.foldlM scanStep (Scan.between, []) with
  | some (.between, done) => some done.reverse
  | some (.inWord name, done) => some (.word name.reverse :: done).reverse
  | some (.inNumber digits, done) => some (.number digits.reverse :: done).reverse
  | _ => none

def dropDigits? (cs : List Char) : Option (List Char) :=
  match cs with
  | c :: _ => if c.isDigit then some (cs.dropWhile Char.isDigit) else none
  | [] => none

def dropWhole? : List Char → Option (List Char)
  | '0' :: rest => some rest
  | cs => dropDigits? cs

def dropFraction? : List Char → Option (List Char)
  | '.' :: rest => dropDigits? rest
  | cs => some cs

def dropExponent? : List Char → Option (List Char)
  | c :: rest =>
    if c == 'e' || c == 'E' then
      match rest with
      | '+' :: digits => dropDigits? digits
      | '-' :: digits => dropDigits? digits
      | digits => dropDigits? digits
    else some (c :: rest)
  | [] => some []

def isNumber (cs : List Char) : Bool :=
  let unsigned := if cs.head? == some '-' then cs.tail else cs
  ((dropWhole? unsigned).bind dropFraction?).bind dropExponent? == some []

def natural? (cs : List Char) : Option Nat :=
  if !cs.isEmpty && cs.all Char.isDigit then
    some (cs.foldl (fun n c => n * 10 + (c.toNat - '0'.toNat)) 0)
  else none

/-- A bracket that is still open, with what stands behind it (the last item first). -/
inductive Bracket where
  | items (done : List Json)
  | members (done : List (Option String × Json))
  | member (done : List (Option String × Json)) (key : Option String)

inductive Expect where
  | value
  | valueOrClose
  | key
  | keyOrClose
  | colon
  | commaOrClose
  | nothing (value : Json)

def deliver (v : Json) : List Bracket → Option (List Bracket × Expect)
  | [] => some ([], .nothing v)
  | .items done :: rest => some (.items (v :: done) :: rest, .commaOrClose)
  | .member done key :: rest => some (.members ((key, v) :: done) :: rest, .commaOrClose)
  | .members _ :: _ => none

def scalar? : Token → Option Json
  | .word name =>
    if name == "null".toList then some .null
    else if name == "true".toList then some (.bool true)
    else if name == "false".toList then some (.bool false)
    else none
  | .number digits => if isNumber digits then some (.number digits) else none
  | .string text => some (.string text)
  | _ => none

def treeStep : List Bracket × Expect → Token → Option (List Bracket × Expect)
  | (.items done :: stack, .commaOrClose), .closeArray => deliver (.array done.reverse) stack
  | (.items done :: stack, .valueOrClose), .closeArray => deliver (.array done.reverse) stack
  | (.members done :: stack, .commaOrClose), .closeObject => deliver (.object done.reverse) stack
  | (.members done :: stack, .keyOrClose), .closeObject => deliver (.object done.reverse) stack
  | (.items done :: stack, .commaOrClose), .comma => some (.items done :: stack, .value)
  | (.members done :: stack, .commaOrClose), .comma => some (.members done :: stack, .key)
  | (.members done :: stack, .key), .string text => some (.member done text :: stack, .colon)
  | (.members done :: stack, .keyOrClose), .string text => some (.member done text :: stack, .colon)
  | (.member done key :: stack, .colon), .colon => some (.member done key :: stack, .value)
  | (stack, .value), .openArray => some (.items [] :: stack, .valueOrClose)
  | (stack, .valueOrClose), .openArray => some (.items [] :: stack, .valueOrClose)
  | (stack, .value), .openObject => some (.members [] :: stack, .keyOrClose)
  | (stack, .valueOrClose), .openObject => some (.members [] :: stack, .keyOrClose)
  | (stack, .value), t => (scalar? t).bind fun v => deliver v stack
  | (stack, .valueOrClose), t => (scalar? t).bind fun v => deliver v stack
  | _, _ => none

def tree? (ts : List Token) : Option Json :=
  match ts.foldlM treeStep ([], Expect.value) with
  | some ([], .nothing v) => some v
  | _ => none

def read? (text : String) : Option Json := (tokens text.toList).bind tree?

def escape (c : Char) : String :=
  match c with
  | '"' => "\\\""
  | '\\' => "\\\\"
  | '\x08' => "\\b"
  | '\x0c' => "\\f"
  | '\n' => "\\n"
  | '\r' => "\\r"
  | '\t' => "\\t"
  | c =>
    if c.toNat < 0x20 then "\\u00" ++ Hex.ofBytes [c.toNat.toUInt8] else String.singleton c

def quote (s : String) : String := "\"" ++ String.join (s.toList.map escape) ++ "\""

end Json

end NcpHost
