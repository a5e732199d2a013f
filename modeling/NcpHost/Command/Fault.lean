import NcpHost.Command.Definition

/-!
Why parameters do not make a command, why a command cannot be written, why a payload is not read and
why a request is not sent.
-/

namespace NcpHost

/-- Why parameters do not make a command of a definition, or a command cannot be written. -/
inductive CommandFault where
  | unexpected (command : String) (names : List String)
  | missing (command : String) (names : List String)
  | gap (command given skipped : String)
  | invalidValue (command field : String) (value : Value) (fault : FieldFault)
  | pattern (rendered : String)
  | tooLarge (command : String) (length : Nat)
  deriving DecidableEq, Repr

inductive DecodeFault where
  | wrongHeader (command : String) (header : Option CommandHeader)
  | truncated (command field : String)
  | invalidField (command field : String) (fault : FieldFault)
  | lacking (field : String)
  deriving DecidableEq, Repr

inductive RequestFault where
  | noResponse (command : String)
  | notRequest (rendered : String)
  | noResponsePattern
  | noIndicationPattern
  deriving DecidableEq, Repr

def CommandFault.message : CommandFault → String
  | unexpected command names => command ++ ": unexpected parameters " ++ Text.quoteAll names
  | missing command names => command ++ ": missing parameters " ++ Text.quoteAll names
  | gap command given skipped =>
    command ++ ": optional parameter " ++ given ++ " given without " ++ skipped
  | invalidValue command field value fault =>
    command ++ ": invalid parameter value " ++ field ++ "=" ++ value.render ++ ": " ++ fault.message
  | pattern rendered => "cannot serialize a partial command: " ++ rendered
  | tooLarge command length => command ++ s!": {length} byte body does not fit in one frame"

def DecodeFault.message : DecodeFault → String
  | wrongHeader command header =>
    let found := match header with
      | some h => "Some(" ++ h.listing ++ ")"
      | none => "None"
    "wrong header for " ++ command ++ ": " ++ found
  | truncated command field =>
    command ++ ": payload truncated, required parameter " ++ field ++ " remains"
  | invalidField command field fault =>
    command ++ ": cannot decode " ++ field ++ ": " ++ fault.message
  | lacking field => "response lacks " ++ field

def RequestFault.message : RequestFault → String
  | noResponse command => command ++ " is not a request"
  | notRequest rendered => "cannot send a command that isn't a request: " ++ rendered
  | noResponsePattern => "at least one response pattern is required"
  | noIndicationPattern => "at least one indication pattern is required"

end NcpHost
