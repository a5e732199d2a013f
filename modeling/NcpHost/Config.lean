import NcpHost.Fault
import NcpHost.Text.Json

/-!
How to reach the co-processor and how long to wait for it. Configurations are JSON: an object in
which every setting has a default and unknown members are passed over, or an array of the settings
in order, cut off anywhere.
-/

namespace NcpHost

inductive FlowControl where
  | none
  | software
  | hardware
  deriving DecidableEq, Repr, Inhabited

namespace FlowControl

def all : List FlowControl := [none, software, hardware]

def keyword : FlowControl → String
  | none => "none"
  | software => "software"
  | hardware => "hardware"

def ofKeyword? (s : String) : Option FlowControl := all.find? (·.keyword == s)

def name : FlowControl → String
  | none => "None"
  | software => "Software"
  | hardware => "Hardware"

end FlowControl

/-- The settings of a session. Times are in milliseconds. -/
structure Config where
  deviceName : String := ""
  baudRate : UInt32 := 115200
  flowControl : FlowControl := .none
  requestTimeout : UInt64 := 5000
  ackTimeout : UInt64 := 1000
  deriving DecidableEq, Repr, Inhabited

namespace Config

def forDevice (deviceName : String) : Config := { deviceName := deviceName }

def textOf? : Json → Option String
  | .string text => text
  | _ => none

/-- A number below `limit`, written by digits alone. -/
def numberOf? (limit : Nat) : Json → Option Nat
  | .number digits => (Json.natural? digits).filter (· < limit)
  | _ => none

/-- A word, or an object whose only member is that word with nothing behind it. -/
def flowControlOf? : Json → Option FlowControl
  | .string (some word) => FlowControl.ofKeyword? word
  | .object [(some word, .null)] => FlowControl.ofKeyword? word
  | _ => none

inductive Setting where
  | deviceName | baudRate | flowControl | requestTimeout | ackTimeout
  deriving DecidableEq, Repr

namespace Setting

def all : List Setting := [deviceName, baudRate, flowControl, requestTimeout, ackTimeout]

def key : Setting → String
  | deviceName => "port_name"
  | baudRate => "baud_rate"
  | flowControl => "flow_control"
  | requestTimeout => "request_timeout_ms"
  | ackTimeout => "ack_timeout_ms"

def ofKey? (s : String) : Option Setting := all.find? (·.key == s)

def set? (s : Setting) (c : Config) (v : Json) : Option Config :=
  match s with
  | deviceName => (textOf? v).map fun t => { c with deviceName := t }
  | baudRate => (numberOf? UInt32.size v).map fun n => { c with baudRate := n.toUInt32 }
  | flowControl => (flowControlOf? v).map fun f => { c with flowControl := f }
  | requestTimeout => (numberOf? UInt64.size v).map fun n => { c with requestTimeout := n.toUInt64 }
  | ackTimeout => (numberOf? UInt64.size v).map fun n => { c with ackTimeout := n.toUInt64 }

end Setting

/-- Applies the members of an object. No setting may be given twice, and every key must have a
text. -/
def ofMembers? : (given : List Setting) → Config → List (Option String × Json) → Option Config
  | _, c, [] => some c
  | _, _, (none, _) :: _ => none
  | given, c, (some key, v) :: rest =>
    match Setting.ofKey? key with
    | none => ofMembers? given c rest
    | some s =>
      if s ∈ given then none
      else (s.set? c v).bind fun c => ofMembers? (s :: given) c rest

def ofItems? : List Setting → Config → List Json → Option Config
  | _, c, [] => some c
  | [], _, _ :: _ => none
  | s :: settings, c, v :: rest => (s.set? c v).bind fun c => ofItems? settings c rest

def ofJson? : Json → Option Config
  | .object members => ofMembers? [] {} members
  | .array items => ofItems? Setting.all {} items
  | _ => none

def read (text : String) : Except Fault Config :=
  match (Json.read? text).bind ofJson? with
  | some c => .ok c
  | none => .error .configuration

/-- Reads a configuration from the bytes of a file, or from none if there is no such file. -/
def ofFile (content : Option (List UInt8)) : Except Fault Config :=
  match content with
  | none => .error (.io "no such file")
  | some bytes =>
    match String.fromUTF8? ⟨bytes.toArray⟩ with
    | some text => read text
    | none => .error (.io "not a text")

def settingText (c : Config) : Setting → String
  | .deviceName => Json.quote c.deviceName
  | .baudRate => toString c.baudRate.toNat
  | .flowControl => Json.quote c.flowControl.keyword
  | .requestTimeout => toString c.requestTimeout.toNat
  | .ackTimeout => toString c.ackTimeout.toNat

def write (c : Config) : String :=
  let member := fun (s : Setting) => Json.quote s.key ++ ":" ++ c.settingText s
  "\x7b" ++ ",".intercalate (Setting.all.map member) ++ "\x7d"

/-- Milliseconds as seconds with three places. -/
def seconds (ms : UInt64) : String :=
  let rest := toString (ms.toNat % 1000)
  toString (ms.toNat / 1000) ++ "." ++ String.ofList (List.replicate (3 - rest.length) '0') ++ rest

/-- Why the device of this name cannot be opened, where that is known without trying. -/
def openFault? (c : Config) : Option Fault :=
  if c.deviceName.isEmpty then some (.connectFailed .noDevice) else none

end Config

end NcpHost
