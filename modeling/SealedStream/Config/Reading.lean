import SealedStream.Config.Basic
import SealedStream.Datum
import SealedStream.Signature.Scheme
import SealedStream.Storage.Disk
import SealedStream.Toml.Document

/-!
Typed values from self-describing data and back, and configurations from TOML texts and files.

A configuration and its stream kind take their defaults for fields that are left out; other
records need all their fields.
-/

namespace SealedStream

namespace Timestamp

def ofDatum? (d : Datum) : Option Timestamp :=
  match d.fields? true ["seconds", "nanos"] with
  | some [seconds, nanos] => do
    return ⟨← Datum.needed? Datum.int64? seconds, ← Datum.needed? Datum.uint32? nanos⟩
  | _ => none

def toDatum (t : Timestamp) : Datum :=
  .record [("seconds", .integer t.seconds.toInt), ("nanos", .integer t.nanos.toNat)]

end Timestamp

namespace Version

def ofDatum? (d : Datum) : Option Version :=
  match d.fields? true ["major", "minor", "patch"] with
  | some [major, minor, patch] => do
    return ⟨← Datum.needed? Datum.int32? major, ← Datum.needed? Datum.int32? minor,
      ← Datum.needed? Datum.int32? patch⟩
  | _ => none

def toDatum (v : Version) : Datum :=
  .record [("major", .integer v.major.toInt), ("minor", .integer v.minor.toInt),
    ("patch", .integer v.patch.toInt)]

end Version

namespace Alignment

def ofDatum? (d : Datum) : Option Alignment :=
  if d.caseName? = some "Unaligned" then some .unaligned
  else match d.caseWith? with
    | some ("Block", n) => n.int64?.map .block
    | _ => none

def toDatum : Alignment → Datum
  | .unaligned => .text "Unaligned"
  | .block n => .record [("Block", .integer n.toInt)]

end Alignment

namespace Scheme

def ofDatum? (d : Datum) : Option Scheme :=
  match d.caseName? with
  | some s => [rsaSha384, ed25519].find? (·.name = s)
  | none => none

def toDatum (s : Scheme) : Datum := .text s.name

end Scheme

namespace StreamKind

def ofDatum? (strict : Bool) (d : Datum) : Option StreamKind :=
  match d.fields? strict
      ["description", "extension", "sig_extension", "file_header", "sig_file_header"] with
  | some [description, extension, signatureExtension, header, signatureHeader] => do
    return {
      description := ← Datum.optional? Datum.text? records.description description
      extension := ← Datum.optional? Datum.text? records.extension extension
      signatureExtension :=
        ← Datum.optional? Datum.text? records.signatureExtension signatureExtension
      header := ← Datum.optional? (Datum.listOf? Datum.int32?) records.header header
      signatureHeader :=
        ← Datum.optional? (Datum.listOf? Datum.uint8?) records.signatureHeader signatureHeader }
  | _ => none

def toDatum (k : StreamKind) : Datum :=
  .record [("description", .text k.description), ("extension", .text k.extension),
    ("sig_extension", .text k.signatureExtension),
    ("file_header", .list (k.header.map fun v => .integer v.toInt)),
    ("sig_file_header", .list (k.signatureHeader.map fun b => .integer b.toNat))]

end StreamKind

namespace Config

def ofDatum? (strict : Bool) (d : Datum) : Option Config :=
  match d.fields? strict
      ["export_dir", "log_period_ms", "start_write_at_complete_window", "stream_type"] with
  | some [exportDir, periodMillis, completeWindow, kind] => do
    return {
      exportDir :=
        ← Datum.optional? (fun d => d.text?.map Path.mk) standard.exportDir exportDir
      periodMillis := ← Datum.optional? Datum.uint64? standard.periodMillis periodMillis
      completeWindow := ← Datum.optional? Datum.truth? standard.completeWindow completeWindow
      kind := ← Datum.optional? (StreamKind.ofDatum? strict) standard.kind kind }
  | _ => none

def toDatum (c : Config) : Datum :=
  .record [("export_dir", .text c.exportDir.text), ("log_period_ms", .integer c.periodMillis.toNat),
    ("start_write_at_complete_window", .truth c.completeWindow), ("stream_type", c.kind.toDatum)]

/-- Reads a TOML document and validates what it says. -/
def ofToml (text : String) : Except ConfigError Config :=
  match (Toml.parse text).bind (ofDatum? false) with
  | none => .error .unreadable
  | some c => c.validate.map fun _ => c

/-- Reads a TOML file, which has to be UTF-8. -/
def load (p : Path) (d : Disk) : Except ConfigError Config :=
  match (Storage.readAll p d).1 with
  | .error f => .error (.io p f)
  | .ok bytes =>
    match String.fromUTF8? ⟨bytes.toArray⟩ with
    | none => .error (.io p (.ofKind .invalidData))
    | some text => ofToml text

/-- Makes the export directory, as far as it is missing. -/
def ensureExportDir (c : Config) (d : Disk) : Except ConfigError Unit × Disk :=
  let (r, d) := d.ensureDirectories c.exportDir
  (r.mapError (.io c.exportDir), d)

end Config

end SealedStream
