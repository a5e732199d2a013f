import NcpHost.Command.Definition

/-!
The commands of the co-processor that the library knows by itself: configuration of the module, and
one query of the network. Every response opens with the number of its request and a status.
-/

namespace NcpHost.Standard

def field (name : String) (type : FieldType) : Field := ⟨name, type, false⟩

/-- The fields that every response opens with, and its own behind them. -/
def status (own : List Field) : List Field :=
  [field "TSN" .u8, field "StatusCat" .u8, field "StatusCode" .u8] ++ own

def query (name : String) (id : UInt16) (blocking : Bool) (fields answer : List Field) :
    Definition where
  name := name ++ ".Req"
  header := .of .request id
  fields := fields
  blocking := blocking
  response := some
    { name := name ++ ".Rsp"
      header := .of .response id
      fields := status answer
      blocking := false
      response := none }

/-- Versions of firmware, stack and protocol, each packed in four bytes. -/
def moduleVersion : Definition :=
  query "NcpConfig.GetModuleVersion" 0x0001 false [field "TSN" .u8]
    [field "FWVersion" .u32, field "StackVersion" .u32, field "ProtocolVersion" .u32]

def moduleReset : Definition :=
  query "NcpConfig.NCPModuleReset" 0x0002 false [field "TSN" .u8, field "Option" .u8] []

def getRole : Definition :=
  query "NcpConfig.GetZigbeeRole" 0x0004 false [field "TSN" .u8] [field "DeviceRole" .u8]

def setRole : Definition :=
  query "NcpConfig.SetZigbeeRole" 0x0005 false [field "TSN" .u8, field "DeviceRole" .u8] []

def shortPanId : Definition :=
  query "NcpConfig.GetShortPANID" 0x0009 false [field "TSN" .u8] [field "PANID" .u16]

def localAddress : Definition :=
  query "NcpConfig.GetLocalIEEE" 0x000B false [field "TSN" .u8, field "MacInterfaceNum" .u8]
    [field "MacInterfaceNum" .u8, field "IEEE" .eui64]

def extendedPanId : Definition :=
  query "NcpConfig.GetExtendedPANID" 0x0023 true [field "TSN" .u8]
    [field "ExtendedPANID" .eui64]

/-- What the module sends after every reset. -/
def resetIndication : Definition where
  name := "NcpConfig.DeviceResetIndication.Ind"
  header := .of .indication 0x002B
  fields := [field "ResetSrc" .u8]
  blocking := false
  response := none

def activeEndpoints : Definition :=
  query "ZDO.ActiveEpReq" 0x0206 true [field "TSN" .u8, field "NwkAddr" .u16]
    [field "ActiveEpList" .shortBytes, field "NwkAddr" .u16]

/-- Every definition that stands on its own. -/
def all : List Definition :=
  [moduleVersion, moduleReset, getRole, setRole, shortPanId, localAddress, extendedPanId,
    resetIndication, activeEndpoints]

/-- The known definition of a given name, requests and responses alike. -/
def find? (name : String) : Option Definition :=
  (all ++ all.filterMap (·.response)).find? (·.name == name)

inductive ResetOption where
  | plain
  | eraseStorage
  | factorySettings
  | lockKeys
  deriving DecidableEq, Repr, Inhabited

def ResetOption.code : ResetOption → UInt64
  | plain => 0
  | eraseStorage => 1
  | factorySettings => 2
  | lockKeys => 3

end NcpHost.Standard
