import RaidStatus.Roster
import RaidStatus.Watch.Session
import RaidStatus.Proofs.ArrayLine.RoundTrip
import RaidStatus.Proofs.ExternalVersion.Location
import RaidStatus.Proofs.Level.Names
import RaidStatus.Proofs.LogicalLine.Folding
import RaidStatus.Proofs.Lookup.Answer
import RaidStatus.Proofs.Report.Account
import RaidStatus.Proofs.Report.Bytes
import RaidStatus.Proofs.Report.Consistency
import RaidStatus.Proofs.Report.FileContents
import RaidStatus.Proofs.Report.Parts
import RaidStatus.Proofs.Report.Refusal
import RaidStatus.Proofs.Watch.HeldFile
import RaidStatus.Proofs.Watch.Slot
import RaidStatus.Proofs.Watch.SignalWait
import RaidStatus.Proofs.Lookup.Known
import RaidStatus.Proofs.Roster.Remaining
import RaidStatus.Proofs.Scan.Bitmap
import RaidStatus.Proofs.Scan.ClosedForm
import RaidStatus.Proofs.Scan.Growth
import RaidStatus.Proofs.Scan.Spelling
import RaidStatus.Proofs.Scan.Unknown
