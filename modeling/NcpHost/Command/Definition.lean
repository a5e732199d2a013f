import NcpHost.Command.Field
import NcpHost.Packet

/-!
What a command looks like: its name, the header it carries and its fields in wire order. A request
brings along the definition of its response.
-/

namespace NcpHost

/-- A field of a command. Optional fields are left out where the payload ends before them. -/
structure Field where
  name : String
  type : FieldType
  optional : Bool
  deriving DecidableEq, Repr, Inhabited

/-- The description of one request, response or indication. -/
structure Definition where
  name : String
  header : CommandHeader
  fields : List Field
  blocking : Bool
  response : Option Definition
  deriving Repr, Inhabited

namespace Definition

def kind (d : Definition) : Kind := d.header.kind

def indexOf? (d : Definition) (name : String) : Option Nat :=
  d.fields.findIdx? (·.name == name)

/-- Two definitions are of the same command when their headers name the same one. -/
instance : BEq Definition := ⟨fun a b => a.header.names b.header⟩

def OptionalTrail (d : Definition) : Prop :=
  d.fields.Pairwise fun before after => before.optional → after.optional

def RemainingLast (d : Definition) : Prop :=
  ∀ f ∈ d.fields.dropLast, f.type ≠ .remaining

instance (d : Definition) : Decidable d.OptionalTrail := by
  unfold OptionalTrail; infer_instance

instance (d : Definition) : Decidable d.RemainingLast := by
  unfold RemainingLast; infer_instance

end Definition

end NcpHost
