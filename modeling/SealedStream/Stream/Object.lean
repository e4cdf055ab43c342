import SealedStream.RunningHash.Chain
import SealedStream.RunningHash.Link
import SealedStream.Stream.Alignment
import SealedStream.Time.Timestamp

/-!
The objects of a stream, as they are handed to the writer.
-/

namespace SealedStream

/-- An item with its consensus time, its block and the link to the running hash after it. -/
structure StreamObject where
  item : Item
  timestamp : Timestamp
  link : Link
  alignment : Alignment
  deriving DecidableEq

/-- The form used in logs: payloads by length only. -/
def StreamObject.label (o : StreamObject) (p : Pipeline) : String :=
  "RecordStreamObject \x7b " ++
    s!"consensus_timestamp: {o.timestamp.label}, alignment: {o.alignment.label}, " ++
    s!"transaction_len: {o.item.transaction.length}, record_len: {o.item.record.length}, " ++
    s!"running_hash: {p.label o.link}" ++ " \x7d"

namespace RunningHash

/-- Advances the chain over an object and gives its link the new hash, unless the link has
settled already. -/
def linkObject (before : Hash) (o : StreamObject) (p : Pipeline) : Hash × Pipeline :=
  let after := advance before o.item
  (after, (p.resolve o.link after).2)

end RunningHash

end SealedStream
