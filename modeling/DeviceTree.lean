import DeviceTree.Decode.Stream
import DeviceTree.Workbench
import DeviceTree.Proofs.AssembledBlob
import DeviceTree.Proofs.LegacyRoundTrip
import DeviceTree.Proofs.DecodedPaths
import DeviceTree.Proofs.Reencoding
import DeviceTree.Proofs.Building
import DeviceTree.Proofs.NoTrap
import DeviceTree.Proofs.StoredForm
import DeviceTree.Proofs.RoundTrips
import DeviceTree.Proofs.Delivery
import DeviceTree.Proofs.History
import DeviceTree.Proofs.BlobLayout
import DeviceTree.Proofs.Footprint
import DeviceTree.Proofs.Shortened
import DeviceTree.Proofs.Blame
import DeviceTree.Proofs.FirstOffender
import DeviceTree.Proofs.Lookup
import DeviceTree.Proofs.Alignment
import DeviceTree.Proofs.StringPool
import DeviceTree.Proofs.TextList
import DeviceTree.Proofs.FailingStream
import DeviceTree.Proofs.Records
import DeviceTree.Proofs.Notices
import DeviceTree.Proofs.BlobNotices
import DeviceTree.Proofs.SourceText
