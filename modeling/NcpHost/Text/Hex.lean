/-!
Hexadecimal text. Payload bytes are shown in lower case, two digits a byte; numbers inside messages
in upper case, filled with zeros to the width of their field.
-/

namespace NcpHost.Hex

def digit (n : Nat) : Char :=
  if n < 10 then Char.ofNat (48 + n) else Char.ofNat (87 + n)

def ofBytes (bs : List UInt8) : String :=
  String.ofList (bs.flatMap fun b => [digit (b.toNat / 16), digit (b.toNat % 16)])

def ofNat (n : Nat) : String :=
  String.ofList (Nat.toDigits 16 n)

/-- A number after `0x` in upper case, filled with zeros to `width` digits. -/
def field (width n : Nat) : String :=
  let digits := (Nat.toDigits 16 n).map Char.toUpper
  "0x" ++ String.ofList (List.replicate (width - digits.length) '0' ++ digits)

def byte (b : UInt8) : String := field 2 b.toNat

def word (w : UInt16) : String := field 4 w.toNat

end NcpHost.Hex
