import NcpHost.Config
import NcpHost.Link.Senders
import NcpHost.SerialDevice
import NcpHost.Session.Act
import NcpHost.Proofs.Checksum
import NcpHost.Proofs.Checksum.Bursts
import NcpHost.Proofs.Frame.Codec
import NcpHost.Proofs.Frame.Damage
import NcpHost.Proofs.Frame.Noise
import NcpHost.Proofs.Frame.Extraction
import NcpHost.Proofs.Frame.Acknowledgement
import NcpHost.Proofs.Link.Reception
import NcpHost.Proofs.Frame.Fragment
import NcpHost.Proofs.Frame.Layout
import NcpHost.Proofs.Command.Field
import NcpHost.Proofs.Command.RoundTrip
import NcpHost.Proofs.Command.Representation
import NcpHost.Proofs.Command.Reading
import NcpHost.Proofs.Command.Distinct
import NcpHost.Proofs.Command.Truncation
import NcpHost.Proofs.Command.Matching
import NcpHost.Proofs.Command.Catalog
import NcpHost.Proofs.Session.Collection
import NcpHost.Proofs.Session.Reception
import NcpHost.Proofs.Session.Cuts
import NcpHost.Proofs.Session.Versions
import NcpHost.Proofs.Session.Loss
import NcpHost.Proofs.Session.Schedule
import NcpHost.Proofs.Session.Together
import NcpHost.Proofs.Link.Queue
import NcpHost.Proofs.Session.Mirror
import NcpHost.Proofs.Session.Turn
import NcpHost.Proofs.Session.Undisturbed
import NcpHost.Proofs.Session.Interleaving
import NcpHost.Proofs.Link.StopAndWait
import NcpHost.Proofs.Session.Causality
import NcpHost.Proofs.Session.Response
import NcpHost.Proofs.Session.Exclusive
import NcpHost.Registry.Act
import NcpHost.Proofs.Registry.Buckets
import NcpHost.Proofs.Registry.Dispatch
import NcpHost.Proofs.Registry.Filing
import NcpHost.Proofs.Link.Outstanding
import NcpHost.Link.Pair
import NcpHost.Proofs.Link.Patience
import NcpHost.Proofs.Link.Pair
import NcpHost.Proofs.Registry.Versions
import NcpHost.Registry.Future
import NcpHost.Proofs.Registry.Future
import NcpHost.Proofs.Session.Departure
import NcpHost.Session.LifeCycle
import NcpHost.Proofs.Session.LifeCycle
import NcpHost.Proofs.Session.Custody
import NcpHost.Proofs.Session.Subscriptions
import NcpHost.Proofs.Session.Unending
import NcpHost.Proofs.Session.Revival
import NcpHost.Proofs.Session.Attached
import NcpHost.Proofs.Session.Containment
import NcpHost.Proofs.Session.Farewell
