/-!
Version numbers: those that the module reports, each packed in four bytes, and the library's own.
-/

namespace NcpHost

def version : String := "0.1.0"

structure ModuleVersion where
  firmware : UInt32
  stack : UInt32
  protocol : UInt32
  deriving DecidableEq, Repr

namespace ModuleVersion

/-- A packed version as four numbers, the highest byte first. -/
def dotted (v : UInt32) : String :=
  ".".intercalate ([v >>> 24, v >>> 16, v >>> 8, v].map fun w => toString w.toUInt8.toNat)

def render (v : ModuleVersion) : String :=
  "firmware " ++ dotted v.firmware ++ ", stack " ++ dotted v.stack ++ ", protocol "
    ++ dotted v.protocol

end ModuleVersion

end NcpHost
