import SealedStream.Audit
import SealedStream.Config.Reading
import SealedStream.Storage.Faulty
import SealedStream.Transfer.Hashing
import SealedStream.Writer.Run
import SealedStream.Proofs.Storage.FileView
import SealedStream.Proofs.Storage.Writing
import SealedStream.Proofs.Transfer.Reading
import SealedStream.Proofs.RunningHash.Links
import SealedStream.Proofs.RunningHash.Sharing
import SealedStream.Proofs.Writer.Act
import SealedStream.Proofs.Writer.Opening
import SealedStream.Proofs.Writer.Closing
import SealedStream.Proofs.Time.Calendar
import SealedStream.Proofs.Time.Moment
import SealedStream.Proofs.Naming
import SealedStream.Proofs.Naming.Collisions
import SealedStream.Proofs.Record.RoundTrip
import SealedStream.Proofs.Signature.RoundTrip
import SealedStream.Proofs.Writer.Account
import SealedStream.Proofs.Writer.Leaving
import SealedStream.Proofs.Writer.Keeping
import SealedStream.Proofs.Writer.Runs
import SealedStream.Proofs.Writer.Ending
import SealedStream.Proofs.Stream.Outset
import SealedStream.Proofs.Stream.Coverage
import SealedStream.Proofs.Time.Order
import SealedStream.Proofs.Stream.Agreement
import SealedStream.Proofs.Stream.Grouping
import SealedStream.Proofs.Stream.Batch
import SealedStream.Proofs.Stream.Recovery
import SealedStream.Proofs.Stream.Joining
import SealedStream.Proofs.Stream.Restart
import SealedStream.Proofs.Stream.Blocks
import SealedStream.Proofs.Storage.DiskView
import SealedStream.Proofs.Storage.FaultyView
import SealedStream.Proofs.Writer.Composition
import SealedStream.Proofs.Writer.Tokens
import SealedStream.Proofs.Stream.Fate
import SealedStream.Proofs.Record.Binding
import SealedStream.Proofs.Stream.Inquiries
import SealedStream.Proofs.Stream.Seals
import SealedStream.Proofs.Writer.Sparing
import SealedStream.Proofs.Stream.Preservation
import SealedStream.Proofs.Stream.Tidiness
import SealedStream.Proofs.Storage.ChangeLog
import SealedStream.Proofs.Writer.Thorough
import SealedStream.Proofs.Stream.Repetition
import SealedStream.Proofs.Stream.Unsealed
import SealedStream.Proofs.Stream.Verification
import SealedStream.Proofs.Stream.Cancellation
import SealedStream.Proofs.Stream.Firsts
import SealedStream.Proofs.Stream.Flushing
import SealedStream.Proofs.Stream.Littering
import SealedStream.Proofs.Wire.Forward
import SealedStream.Proofs.Audit.Chain
import SealedStream.Proofs.Writer.Policy
import SealedStream.Proofs.Writer.Beginning
import SealedStream.Proofs.Stream.Boundary
import SealedStream.Proofs.Stream.Rollover
import SealedStream.Proofs.Audit.Pairs
import SealedStream.Proofs.Record.Faults
import SealedStream.Proofs.Transfer.Filling
import SealedStream.Proofs.Record.Sections
import SealedStream.Proofs.Time.Days
import SealedStream.Proofs.Naming.Stamps
import SealedStream.Proofs.Time.Line
import SealedStream.Proofs.Time.Period
import SealedStream.Proofs.Time.Addition
import SealedStream.Proofs.Transfer.Arrival
import SealedStream.Proofs.Transfer.Digesting
import SealedStream.Proofs.Time.Making
