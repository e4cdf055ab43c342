import SealedStream.Config.Basic

/-!
Names of the files of a stream.

A record file is named for the time of its first object: the ISO text with underscores for colons,
a dot and the extension. Its signature file differs in the extension. A file that is still being
written has a suffix on its name.
-/

namespace SealedStream.Naming

/-- What the path of an unfinished file ends in. -/
def partSuffix : String := ".part"

/-- The name of a file whose first object is stamped `t`. -/
def fileName (t : Timestamp) (extension : String) : Except ValueError String :=
  t.toMoment.map fun m =>
    String.ofList (m.text.map fun c => if c = ':' then '_' else c) ++ "." ++ extension

def recordPath (dir : Path) (t : Timestamp) (kind : StreamKind) : Except ValueError Path :=
  (fileName t kind.extension).map fun name => dir.join ⟨name⟩

def signaturePath (record : Path) (extension : String) : Path := record.withExtension extension

/-- Where a file is written before it is moved into place. -/
def partPath (p : Path) : Path := p.append partSuffix

end SealedStream.Naming
