import NcpHost.LittleEndian
import NcpHost.Text.Hex
import NcpHost.Text.Quoted

/-!
Fields of commands: twelve wire types, the values they carry, and the three tables that belong
together: `check` says which values a type accepts, `encode` writes a value, `decode` reads one from
the start of a payload and says how many bytes it took. Numbers are least significant byte first.
-/

namespace NcpHost

inductive FieldType where
  | u8 | u16 | u32 | u64
  | i8 | i16 | i32
  | bool
  | eui64
  | shortBytes
  | longBytes
  | remaining
  deriving DecidableEq, Repr, Inhabited

inductive Value where
  | uint (n : UInt64)
  | int (n : Int64)
  | bool (b : Bool)
  | bytes (bs : List UInt8)
  deriving DecidableEq, Repr, Inhabited

namespace Value

def asUint? : Value → Option UInt64
  | uint n => some n
  | _ => none

def asInt? : Value → Option Int64
  | int n => some n
  | _ => none

def asBool? : Value → Option Bool
  | bool b => some b
  | _ => none

def asBytes? : Value → Option (List UInt8)
  | bytes bs => some bs
  | _ => none

def render : Value → String
  | uint n => toString n.toNat
  | int n => toString n.toInt
  | bool b => toString b
  | bytes bs => "b'" ++ Hex.ofBytes bs ++ "'"

/-- The text of a value with its shape, used where the shape is what is wrong. -/
def listing : Value → String
  | uint n => "Uint(" ++ toString n.toNat ++ ")"
  | int n => "Int(" ++ toString n.toInt ++ ")"
  | bool b => "Bool(" ++ toString b ++ ")"
  | bytes bs => "Bytes(" ++ Text.bracket (bs.map fun b => toString b.toNat) ++ ")"

end Value

inductive FieldFault where
  | wrongShape (type : FieldType) (value : Value)
  | outOfRange (type : FieldType) (value : Value)
  /-- Fewer bytes than a field of fixed width takes. -/
  | tooShort (type : FieldType) (need left : Nat)
  | invalidBool (byte : UInt8)
  | missingLength
  /-- Fewer bytes than the count in front of them announces. -/
  | lengthExceeds (need left : Nat)
  deriving DecidableEq, Repr

namespace FieldType

def all : List FieldType :=
  [u8, u16, u32, u64, i8, i16, i32, bool, eui64, shortBytes, longBytes, remaining]

def name : FieldType → String
  | u8 => "U8"
  | u16 => "U16"
  | u32 => "U32"
  | u64 => "U64"
  | i8 => "I8"
  | i16 => "I16"
  | i32 => "I32"
  | bool => "Bool"
  | eui64 => "Eui64"
  | shortBytes => "ShortBytes"
  | longBytes => "LongBytes"
  | remaining => "Remaining"

def ofName? (s : String) : Option FieldType := all.find? (·.name == s)

/-- Bytes that every value of the type takes, where that is fixed. -/
def width? : FieldType → Option Nat
  | u8 | i8 | bool => some 1
  | u16 | i16 => some 2
  | u32 | i32 => some 4
  | u64 | eui64 => some 8
  | shortBytes | longBytes | remaining => none

def fitsSigned (width : Nat) (n : Int64) : Bool :=
  let half := LittleEndian.capacity width / 2
  n.toInt < (half : Int) && -(half : Int) ≤ n.toInt

/-- Whether a value has the shape of the type, and if so whether it is in range. -/
def fits? : FieldType → Value → Option Bool
  | u8, .uint n => some (n.toNat < LittleEndian.capacity 1)
  | u16, .uint n => some (n.toNat < LittleEndian.capacity 2)
  | u32, .uint n => some (n.toNat < LittleEndian.capacity 4)
  | u64, .uint _ => some true
  | i8, .int n => some (fitsSigned 1 n)
  | i16, .int n => some (fitsSigned 2 n)
  | i32, .int n => some (fitsSigned 4 n)
  | bool, .bool _ => some true
  | eui64, .bytes bs => some (bs.length == 8)
  | shortBytes, .bytes bs => some (bs.length < LittleEndian.capacity 1)
  | longBytes, .bytes bs => some (bs.length < LittleEndian.capacity 2)
  | remaining, .bytes _ => some true
  | _, _ => none

def check (t : FieldType) (v : Value) : Except FieldFault Unit :=
  match t.fits? v with
  | none => .error (.wrongShape t v)
  | some false => .error (.outOfRange t v)
  | some true => .ok ()

/-- Writes a value. One out of range is cut down to the width of the field, and one of the wrong
shape leaves nothing; `check` keeps both away. -/
def encode : FieldType → Value → List UInt8
  | u8, .uint n => LittleEndian.bytes 1 n.toNat
  | u16, .uint n => LittleEndian.bytes 2 n.toNat
  | u32, .uint n => LittleEndian.bytes 4 n.toNat
  | u64, .uint n => LittleEndian.bytes 8 n.toNat
  | i8, .int n => LittleEndian.bytes 1 n.toUInt64.toNat
  | i16, .int n => LittleEndian.bytes 2 n.toUInt64.toNat
  | i32, .int n => LittleEndian.bytes 4 n.toUInt64.toNat
  | bool, .bool b => [if b then 1 else 0]
  | shortBytes, .bytes bs => LittleEndian.bytes 1 bs.length ++ bs
  | longBytes, .bytes bs => LittleEndian.bytes 2 bs.length ++ bs
  | eui64, .bytes bs => bs
  | remaining, .bytes bs => bs
  | _, _ => []

def unsignedAt (width : Nat) (data : List UInt8) : Value :=
  .uint (LittleEndian.value (data.take width)).toUInt64

def signedAt (width : Nat) (data : List UInt8) : Value :=
  .int (Int64.ofInt (Int.bmod (LittleEndian.value (data.take width)) (LittleEndian.capacity width)))

/-- Reads bytes behind their count, which takes `width` bytes itself. -/
def countedAt (width : Nat) (data : List UInt8) : Except FieldFault (Value × Nat) :=
  if data.length < width then .error .missingLength
  else
    let count := LittleEndian.value (data.take width)
    let rest := data.drop width
    if rest.length < count then .error (.lengthExceeds count rest.length)
    else .ok (.bytes (rest.take count), width + count)

def decode (t : FieldType) (data : List UInt8) : Except FieldFault (Value × Nat) :=
  match t.width? with
  | some width =>
    if data.length < width then .error (.tooShort t width data.length)
    else
      match t with
      | bool =>
        match data.headD 0 with
        | 0 => .ok (.bool false, 1)
        | 1 => .ok (.bool true, 1)
        | other => .error (.invalidBool other)
      | eui64 => .ok (.bytes (data.take width), width)
      | i8 | i16 | i32 => .ok (signedAt width data, width)
      | _ => .ok (unsignedAt width data, width)
  | none =>
    match t with
    | shortBytes => countedAt 1 data
    | longBytes => countedAt 2 data
    | _ => .ok (.bytes data, data.length)

end FieldType

namespace FieldFault

def message : FieldFault → String
  | wrongShape t v => "expected " ++ t.name ++ ", got " ++ v.listing
  | outOfRange t v => v.render ++ " out of range for " ++ t.name
  | tooShort t need left => t.name ++ s!" needs {need} bytes, {left} left"
  | invalidBool b => "invalid boolean " ++ Hex.byte b
  | missingLength => "missing length prefix"
  | lengthExceeds need left => s!"need {need} bytes, {left} left"

end FieldFault

end NcpHost
