import NcpHost.Command.Fault
import NcpHost.Frame.Fragment

/-!
Commands: one value, or none, for each field of a definition. Commands are built from named
parameters (`make`, complete; `makePattern`, with fields left open; `Builder`, one parameter at a
time) or read from a packet (`ofPacket`), and are written as packets again (`toPacket`). `covers` is
the matching of patterns.
-/

namespace NcpHost

/-- A command, or a pattern for commands. -/
structure Command where
  definition : Definition
  /-- One entry for each field of the definition. -/
  values : List (Option Value)
  /-- A pattern may leave fields open; it only serves for matching. -/
  isPattern : Bool
  deriving Repr, Inhabited

namespace Command

def name (c : Command) : String := c.definition.name
def header (c : Command) : CommandHeader := c.definition.header
def kind (c : Command) : Kind := c.definition.kind
def isBlocking (c : Command) : Bool := c.definition.blocking

def entries (c : Command) : List (Field × Option Value) := c.definition.fields.zip c.values

def get? (c : Command) (name : String) : Option Value :=
  (c.definition.indexOf? name).bind fun i => (c.values[i]?).join

def getUint? (c : Command) (name : String) : Option UInt64 := (c.get? name).bind Value.asUint?

def getBytes? (c : Command) (name : String) : Option (List UInt8) :=
  (c.get? name).bind Value.asBytes?

def render (c : Command) : String :=
  let entry := fun ((f, v) : Field × Option Value) =>
    f.name ++ "=" ++ (v.map Value.render).getD "None"
  c.name ++ "(" ++ ", ".intercalate (c.entries.map entry) ++ ")"

/-- The pattern that leaves every field of a definition open. -/
def anyOf (d : Definition) : Command := ⟨d, d.fields.map fun _ => none, true⟩

/-- Puts parameters in their places. Of two for the same field the later one counts, and those for
fields that do not exist are left out. -/
def place (d : Definition) (params : List (String × Value)) : List (Option Value) :=
  params.foldl (fun values (name, v) =>
    match d.indexOf? name with
    | some i => values.set i (some v)
    | none => values) (d.fields.map fun _ => none)

def unknownNames (d : Definition) (params : List (String × Value)) : List String :=
  (params.filter fun (name, _) => (d.indexOf? name).isNone).map (·.1)

def missingNames (entries : List (Field × Option Value)) : List String :=
  (entries.filter fun (f, v) => !f.optional && v.isNone).map (·.1.name)

/-- The first optional field that is given behind one that is not, with the latter. -/
def gap? (skipped : Option String) : List (Field × Option Value) → Option (String × String)
  | [] => none
  | (f, v) :: rest =>
    if !f.optional then gap? skipped rest
    else
      match v, skipped with
      | none, none => gap? (some f.name) rest
      | some _, some s => some (f.name, s)
      | _, _ => gap? skipped rest

def refused? : List (Field × Option Value) → Option (Field × Value × FieldFault)
  | [] => none
  | (_, none) :: rest => refused? rest
  | (f, some v) :: rest =>
    match f.type.check v with
    | .ok () => refused? rest
    | .error fault => some (f, v, fault)

/-- Names first, then, for a complete command, that nothing is missing and no optional field is
skipped, then the values. -/
def bind (d : Definition) (params : List (String × Value)) (isPattern : Bool) :
    Except CommandFault Command :=
  let unknown := unknownNames d params
  let values := place d params
  let entries := d.fields.zip values
  let missing := if isPattern then [] else missingNames entries
  let gap := if isPattern then none else gap? none entries
  if !unknown.isEmpty then .error (.unexpected d.name unknown)
  else if !missing.isEmpty then .error (.missing d.name missing)
  else
    match gap, refused? entries with
    | some (given, skipped), _ => .error (.gap d.name given skipped)
    | none, some (f, v, fault) => .error (.invalidValue d.name f.name v fault)
    | none, none => .ok ⟨d, values, isPattern⟩

def make (d : Definition) (params : List (String × Value)) : Except CommandFault Command :=
  bind d params false

/-- A pattern in which the fields that are not given stay open. -/
def makePattern (d : Definition) (params : List (String × Value)) : Except CommandFault Command :=
  bind d params true

structure Builder where
  definition : Definition
  params : List (String × Value)

namespace Builder

def start (d : Definition) : Builder := ⟨d, []⟩

def param (b : Builder) (name : String) (v : Value) : Builder :=
  { b with params := b.params ++ [(name, v)] }

def build (b : Builder) : Except CommandFault Command := make b.definition b.params

def buildPattern (b : Builder) : Except CommandFault Command := makePattern b.definition b.params

end Builder

def responsePattern (c : Command) : Except RequestFault Command :=
  match c.definition.response, c.kind with
  | some response, .request => .ok (anyOf response)
  | _, _ => .error (.noResponse c.name)

def payload : List (Field × Option Value) → List UInt8
  | [] => []
  | (_, none) :: rest => payload rest
  | (f, some v) :: rest => f.type.encode v ++ payload rest

def toPacket (c : Command) : Except CommandFault Packet :=
  if c.isPattern then .error (.pattern c.render)
  else .ok (.ofHeader c.header (payload c.entries))

def toFrame (c : Command) : Except CommandFault Frame :=
  match c.toPacket with
  | .error fault => .error fault
  | .ok packet =>
    if Frame.bodyLimit < packet.body.length then .error (.tooLarge c.name packet.body.length)
    else .ok (.single packet)

/-- The field that tells whether a request succeeded; zero means that it did. -/
def statusField : String := "StatusCode"

/-- Among the values read so far there is a status, and it is not zero. -/
def reportsFailure (d : Definition) (read : List (Option Value)) : Bool :=
  match (d.indexOf? statusField).bind fun i => (read[i]?).join with
  | some (.uint code) => code != 0
  | _ => false

def padTo (count : Nat) (values : List (Option Value)) : List (Option Value) :=
  values ++ List.replicate (count - values.length) none

/-- Reads fields from a payload behind those already read. Optional fields are left out where the
payload ends. The response to a failed request may end anywhere behind the status; it gives a
pattern. -/
def readFields (d : Definition) :
    List Field → List UInt8 → List (Option Value) → Except DecodeFault Command
  | [], _, read => .ok ⟨d, padTo d.fields.length read, false⟩
  | f :: rest, data, read =>
    if f.optional && data.isEmpty then .ok ⟨d, padTo d.fields.length read, false⟩
    else
      match f.type.decode data with
      | .ok (v, used) => readFields d rest (data.drop used) (read ++ [some v])
      | .error fault =>
        if d.kind == .response && reportsFailure d read then
          .ok ⟨d, padTo d.fields.length read, true⟩
        else if data.isEmpty then .error (.truncated d.name f.name)
        else .error (.invalidField d.name f.name fault)

/-- Reads a packet as a command of the definition that its header names. Bytes behind the last field
are ignored. -/
def ofPacket (d : Definition) (packet : Packet) : Except DecodeFault Command :=
  match packet.header with
  | some header =>
    if header.names d.header then readFields d d.fields packet.payload []
    else .error (.wrongHeader d.name (some header))
  | none => .error (.wrongHeader d.name none)

def coversValues : List (Option Value) → List (Option Value) → Bool
  | some expected :: rest, actual :: others => actual == some expected && coversValues rest others
  | none :: rest, _ :: others => coversValues rest others
  | _, _ => true

/-- The pattern `p` matches `c`: the same command, and every field set in `p` has that value. -/
def covers (p c : Command) : Bool := p.header.names c.header && coversValues p.values c.values

/-- Two commands are the same when their headers name the same one and their values agree. -/
instance : BEq Command := ⟨fun a b => a.header.names b.header && a.values == b.values⟩

end Command

end NcpHost
