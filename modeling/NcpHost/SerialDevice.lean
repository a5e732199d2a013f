/-!
Serial devices that a co-processor may sit behind. In listings the modem-class devices (`ttyACM`)
come first, then the converters (`ttyUSB`), each by number, then all others by name.
-/

namespace NcpHost

inductive DeviceBus where
  | usb (vendor product : UInt16) (productName : Option String)
  | pci
  | bluetooth
  | unknown
  deriving DecidableEq, Repr

/-- What is known of a serial device. Only those on a universal bus carry identifiers. -/
structure DeviceInfo where
  name : String
  vendor : Option UInt16
  product : Option UInt16
  productName : Option String
  deriving DecidableEq, Repr

def DeviceInfo.of (name : String) (bus : DeviceBus) : DeviceInfo :=
  match bus with
  | .usb vendor product productName => ⟨name, some vendor, some product, productName⟩
  | _ => ⟨name, none, none, none⟩

structure DeviceKey where
  group : Nat
  number : Nat
  base : String
  deriving DecidableEq, Repr

namespace DeviceKey

/-- The number of a device whose name does not end in one. -/
def noNumber : Nat := UInt64.size - 1

/-- The number that digits spell, a plus sign in front of them allowed; none if it is beyond
sixty-four bits. -/
def number? (cs : List Char) : Option Nat :=
  let digits := if cs.head? == some '+' then cs.tail else cs
  if !digits.isEmpty && digits.all Char.isDigit then
    let n := digits.foldl (fun n c => n * 10 + (c.toNat - '0'.toNat)) 0
    if n ≤ noNumber then some n else none
  else none

def baseName (name : String) : String :=
  String.ofList (name.toList.reverse.takeWhile (· != '/')).reverse

def suffix? (stem base : String) : Option Nat :=
  if stem.toList.isPrefixOf base.toList then
    some ((number? (base.toList.drop stem.length)).getD noNumber)
  else none

def ofName (name : String) : DeviceKey :=
  let base := baseName name
  match suffix? "ttyACM" base, suffix? "ttyUSB" base with
  | some n, _ => ⟨0, n, base⟩
  | none, some n => ⟨1, n, base⟩
  | none, none => ⟨2, 0, base⟩

/-- By group, then by number, then by name. -/
def le (a b : DeviceKey) : Bool :=
  if a.group ≠ b.group then a.group < b.group
  else if a.number ≠ b.number then a.number < b.number
  else !(b.base < a.base)

end DeviceKey

def sortDevices (names : List String) : List String :=
  names.mergeSort fun a b => (DeviceKey.ofName a).le (DeviceKey.ofName b)

end NcpHost
