import NcpHost.Command.Fault
import NcpHost.Frame.Fault

/-!
Everything that can go wrong between the host and the co-processor, by cause, and what is said about
each cause.
-/

namespace NcpHost

inductive ConnectFault where
  | noDevice
  | alreadyConnected
  deriving DecidableEq, Repr

inductive Fault where
  | device
  | timeout
  | notConnected
  | connectFailed (cause : ConnectFault)
  | connectionLost (text : String)
  | frame (cause : FrameFault)
  | request (cause : RequestFault)
  | command (cause : CommandFault)
  | decode (cause : DecodeFault)
  | cancelled
  | configuration
  | io (text : String)
  deriving DecidableEq, Repr

def ConnectFault.message : ConnectFault → String
  | noDevice => "no serial port configured"
  | alreadyConnected => "already connected"

/-- What is said about a cause. The words of the operating system, of the serial driver and about
malformed configurations are not this library's, and left out here. -/
def Fault.message? : Fault → Option String
  | timeout => some "Timed out waiting for a response"
  | notConnected => some "Coordinator is disconnected, cannot send request"
  | connectFailed cause => some ("Connection failed: " ++ cause.message)
  | connectionLost text => some ("Connection lost: " ++ text)
  | frame cause => some ("Invalid frame: " ++ cause.message)
  | request cause => some ("Invalid request: " ++ cause.message)
  | command cause => some ("Invalid command: " ++ cause.message)
  | decode cause => some ("Cannot decode command: " ++ cause.message)
  | cancelled => some "Listener was cancelled"
  | device | configuration | io _ => none

end NcpHost
