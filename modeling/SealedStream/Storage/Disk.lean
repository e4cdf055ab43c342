import SealedStream.Storage.Basic

/-!
A directory tree with files in it.

A path is walked from the root of the tree, component by component, up to the last one. The name in
front of a slash is looked up on the way; the last name waits until something is done with it, so
what is wrong with it is found after what is wrong with the way to it.

An output holds on to its file, not to a path: it goes on writing after the file has been moved or
taken away. Outputs gather what they are given and pass it on when their buffer is full, or at the
end.
-/

namespace SealedStream

/-- A place in the tree: the names on the way from the root. -/
abbrev Location := List String

inductive Node where
  | directory
  | file (id : Nat)
  deriving DecidableEq, Repr

structure Disk where
  /-- What is where, the root itself left out. -/
  nodes : List (Location × Node)
  /-- What is in each file. -/
  contents : List (Nat × Bytes)
  /-- A file id not used so far. -/
  fresh : Nat

/-- An open file: where the next byte goes, and what has been gathered for it. -/
structure DiskOutput where
  id : Nat
  position : Nat
  pending : Bytes
  deriving DecidableEq, Repr

namespace Disk

def empty : Disk := ⟨[], [], 0⟩

def node? (d : Disk) (l : Location) : Option Node :=
  if l = [] then some .directory else d.nodes.lookup l

def fileBytes (d : Disk) (id : Nat) : Bytes := (d.contents.lookup id).getD []

def setBytes (d : Disk) (id : Nat) (bs : Bytes) : Disk :=
  { d with contents := (id, bs) :: d.contents.filter (·.1 ≠ id) }

def setNode (d : Disk) (l : Location) (n : Node) : Disk :=
  { d with nodes := (l, n) :: d.nodes.filter (·.1 ≠ l) }

def dropNode (d : Disk) (l : Location) : Disk := { d with nodes := d.nodes.filter (·.1 ≠ l) }

/-- Something lies below a directory. -/
def hasChildren (d : Disk) (l : Location) : Bool :=
  d.nodes.any fun (m, _) => l.isPrefixOf m && l ≠ m

/-- Where a path leads: to a directory that is there, or to a name in one. A slash behind the name
asks for a directory. -/
inductive Target where
  | directory (l : Location)
  | name (parent : Location) (name : String) (slash : Bool)
  deriving DecidableEq, Repr

/-- The longest name that a component may have, in bytes. -/
def maxName : Nat := 255

/-- The longest path, in bytes. -/
def maxPath : Nat := 4095

/-- What a name stands for in a directory; one that is too long is not asked for. -/
def lookup (d : Disk) (parent : Location) (name : String) : Except FailureKind (Option Node) :=
  if maxName < name.utf8ByteSize then .error .invalidFilename else .ok (d.node? (parent ++ [name]))

/-- Goes on from a directory. -/
def walk (d : Disk) (l : Location) : List String → Except FailureKind Target
  | [] => .ok (.directory l)
  | c :: rest =>
    if c = "" ∨ c = "." then walk d l rest
    else if c = ".." then walk d l.dropLast rest
    else if rest = [] then .ok (.name l c false)
    else if rest.all (· = "") then .ok (.name l c true)
    else match d.lookup l c with
      | .error k => .error k
      | .ok (some .directory) => walk d (l ++ [c]) rest
      | .ok (some (.file _)) => .error .notADirectory
      | .ok none => .error .notFound

/-- Where a path leads. Nothing outside the tree is known. -/
def resolve (d : Disk) (p : Path) : Except FailureKind Target :=
  if p.hasNul then .error .invalidInput
  else if p.chars = [] ∨ p.isAbsolute then .error .notFound
  else if maxPath < p.text.utf8ByteSize then .error .invalidFilename
  else d.walk [] ((Path.split p.chars).map String.ofList)

/-- What is at a path, and where. -/
def find (d : Disk) (p : Path) : Except FailureKind (Location × Node) :=
  match d.resolve p with
  | .error k => .error k
  | .ok (.directory l) => .ok (l, .directory)
  | .ok (.name parent name slash) =>
    match d.lookup parent name with
    | .error k => .error k
    | .ok none => .error .notFound
    | .ok (some .directory) => .ok (parent ++ [name], .directory)
    | .ok (some (.file id)) =>
      if slash then .error .notADirectory else .ok (parent ++ [name], .file id)

def present (p : Path) (d : Disk) : Bool := (d.find p).isOk

def isDirectory (p : Path) (d : Disk) : Bool :=
  match d.find p with
  | .ok (_, .directory) => true
  | _ => false

/-- Fails by kind. -/
def refuse {α : Type} (k : FailureKind) (d : Disk) : Except Failure α × Disk :=
  (.error (.ofKind k), d)

/-- A file with nothing in it, at a place that is free. -/
def addFile (d : Disk) (l : Location) : Nat × Disk :=
  (d.fresh, { (d.setNode l (.file d.fresh)).setBytes d.fresh [] with fresh := d.fresh + 1 })

/-- Makes a file where there is nothing. A slash behind the name is refused before the name is
looked up. -/
def create (p : Path) (d : Disk) : Except Failure DiskOutput × Disk :=
  match d.resolve p with
  | .error k => d.refuse k
  | .ok (.directory _) => d.refuse .alreadyExists
  | .ok (.name parent name slash) =>
    if slash then d.refuse .isADirectory
    else match d.lookup parent name with
      | .error k => d.refuse k
      | .ok (some _) => d.refuse .alreadyExists
      | .ok none =>
        let (id, d) := d.addFile (parent ++ [name])
        (.ok ⟨id, 0, []⟩, d)

/-- How much an output gathers. -/
def bufferSize : Nat := 8192

/-- Puts bytes over those at a position; a gap before it is filled with zeros. -/
def overlay (old : Bytes) (position : Nat) (bs : Bytes) : Bytes :=
  old.take position ++ List.replicate (position - old.length) 0 ++ bs ++
    old.drop (position + bs.length)

/-- Writes bytes at an output's position. -/
def put (bs : Bytes) (o : DiskOutput) (d : Disk) : DiskOutput × Disk :=
  if bs = [] then (o, d)
  else
    ({ o with position := o.position + bs.length },
      d.setBytes o.id (overlay (d.fileBytes o.id) o.position bs))

/-- Passes on what was gathered. -/
def flush (o : DiskOutput) (d : Disk) : DiskOutput × Disk :=
  put o.pending { o with pending := [] } d

/-- Gathers bytes. What does not fit makes the output pass on what it has first; what would fill
the buffer by itself goes past it. -/
def write (bs : Bytes) (o : DiskOutput) (d : Disk) : Except Failure Nat × DiskOutput × Disk :=
  let (o, d) := if bufferSize < o.pending.length + bs.length then flush o d else (o, d)
  let (o, d) :=
    if bufferSize ≤ bs.length then put bs o d else ({ o with pending := o.pending ++ bs }, d)
  (.ok bs.length, o, d)

def close (o : DiskOutput) (d : Disk) : Except Failure Unit × Disk := (.ok (), (flush o d).2)

/-- What lies below `source` moves along with it. -/
def moveNodes (d : Disk) (source target : Location) : Disk :=
  { d with
    nodes := d.nodes.map fun (l, n) =>
      if source.isPrefixOf l then (target ++ l.drop source.length, n) else (l, n) }

/-- Moves a file to a place that is neither below nor above its own. It may replace a file. -/
def moveFile (d : Disk) (id : Nat) (source target : Location) :
    Option Node → Except Failure Unit × Disk
  | some .directory => d.refuse .isADirectory
  | some (.file other) =>
    if other = id then (.ok (), d) else (.ok (), (d.dropNode source).setNode target (.file id))
  | none => (.ok (), (d.dropNode source).setNode target (.file id))

/-- Moves a directory to a place that is neither below nor above its own. It may replace one that is
empty. -/
def moveDirectory (d : Disk) (source target : Location) :
    Option Node → Except Failure Unit × Disk
  | some (.file _) => d.refuse .notADirectory
  | some .directory =>
    if d.hasChildren target then d.refuse .directoryNotEmpty
    else (.ok (), (d.dropNode target).moveNodes source target)
  | none => (.ok (), d.moveNodes source target)

/-- Moves a file or a directory. Neither path may hold a NUL, whatever else is wrong with them; then
the ways to both are walked, and only then are the names looked up, that of the source first. -/
def rename (source target : Path) (d : Disk) : Except Failure Unit × Disk :=
  if source.hasNul ∨ target.hasNul then d.refuse .invalidInput
  else match d.resolve source, d.resolve target with
  | .error k, _ => d.refuse k
  | _, .error k => d.refuse k
  | .ok (.directory _), _ => d.refuse .resourceBusy
  | _, .ok (.directory _) => d.refuse .resourceBusy
  | .ok (.name sp sn sslash), .ok (.name tp tn tslash) =>
    let s := sp ++ [sn]
    let t := tp ++ [tn]
    match d.lookup sp sn, d.lookup tp tn with
    | .error k, _ => d.refuse k
    | .ok none, _ => d.refuse .notFound
    | _, .error k => d.refuse k
    | .ok (some (.file id)), .ok there =>
      if sslash ∨ tslash then d.refuse .notADirectory
      else if s ≠ t ∧ t.isPrefixOf s then d.refuse .directoryNotEmpty
      else d.moveFile id s t there
    | .ok (some .directory), .ok there =>
      if s = t then (.ok (), d)
      else if s.isPrefixOf t then d.refuse .invalidInput
      else if t.isPrefixOf s then d.refuse .directoryNotEmpty
      else d.moveDirectory s t there

def remove (p : Path) (d : Disk) : Except Failure Unit × Disk :=
  match d.resolve p with
  | .error k => d.refuse k
  | .ok (.directory _) => d.refuse .isADirectory
  | .ok (.name parent name slash) =>
    match d.lookup parent name with
    | .error k => d.refuse k
    | .ok none => d.refuse .notFound
    | .ok (some .directory) => d.refuse .isADirectory
    | .ok (some (.file _)) =>
      if slash then d.refuse .notADirectory else (.ok (), d.dropNode (parent ++ [name]))

/-- A directory can be opened, but not read. -/
def openRead (p : Path) (d : Disk) : Except Failure Source × Disk :=
  match d.find p with
  | .error k => d.refuse k
  | .ok (_, .directory) => (.ok [.failure (.ofKind .isADirectory)], d)
  | .ok (_, .file id) => (.ok [.piece (d.fileBytes id)], d)

instance : Storage Disk DiskOutput where
  present := present
  create := create
  write := write
  interruptions _ _ := 0
  close := close
  rename := rename
  remove := remove
  openRead := openRead

/-- Makes one directory. -/
def makeDirectory (p : Path) (d : Disk) : Except Failure Unit × Disk :=
  match d.resolve p with
  | .error k => d.refuse k
  | .ok (.directory _) => d.refuse .alreadyExists
  | .ok (.name parent name _) =>
    match d.lookup parent name with
    | .error k => d.refuse k
    | .ok (some _) => d.refuse .alreadyExists
    | .ok none => (.ok (), d.setNode (parent ++ [name]) .directory)

/-- Makes one directory, or finds it made. -/
def ensureDirectory (p : Path) (d : Disk) : Except Failure Unit × Disk :=
  match d.makeDirectory p with
  | (.ok (), d) => (.ok (), d)
  | (.error f, d) => if d.isDirectory p then (.ok (), d) else (.error f, d)

/-- Makes a directory and those above it; `levels` bounds how many are missing. -/
def ensureWithin : (levels : Nat) → Path → Disk → Except Failure Unit × Disk
  | 0, _, d => d.refuse .uncategorized
  | n + 1, p, d =>
    if p.chars = [] then (.ok (), d)
    else match d.ensureDirectory p with
      | (.ok (), d) => (.ok (), d)
      | (.error f, d) =>
        if f.kind ≠ .notFound then (.error f, d)
        else match p.parent? with
          | none => d.refuse .uncategorized
          | some above =>
            match ensureWithin n above d with
            | (.ok (), d) => d.ensureDirectory p
            | (.error f, d) => (.error f, d)

/-- Makes a directory and those above it, as far as they are missing. -/
def ensureDirectories (p : Path) (d : Disk) : Except Failure Unit × Disk :=
  ensureWithin (p.components.length + 1) p d

/-- Sets the bytes of a file, made for it if it is missing. -/
def writeFile (p : Path) (bs : Bytes) (d : Disk) : Except Failure Unit × Disk :=
  match d.find p with
  | .ok (_, .directory) => d.refuse .isADirectory
  | .ok (_, .file id) => (.ok (), d.setBytes id bs)
  | .error _ =>
    match d.create p with
    | (.ok o, d) => (.ok (), d.setBytes o.id bs)
    | (.error f, d) => (.error f, d)

/-- Sets the bytes of a file; the directories above it are made too. -/
def writeFileDeep (p : Path) (bs : Bytes) (d : Disk) : Except Failure Unit × Disk :=
  let (_, d) := match p.parent? with
    | some above => d.ensureDirectories above
    | none => (.ok (), d)
  d.writeFile p bs

/-- The text of a place; that of a directory ends in a slash. -/
def locationText (l : Location) : Node → String
  | .directory => "/".intercalate l ++ "/"
  | .file _ => "/".intercalate l

/-- Everything in the tree by its text, in the order of the texts, with the bytes of files. -/
def listing (d : Disk) : List (String × Option Bytes) :=
  let all := d.nodes.map fun (l, n) =>
    (locationText l n, match n with
      | .directory => none
      | .file id => some (d.fileBytes id))
  all.mergeSort fun a b => a.1 ≤ b.1

end Disk

end SealedStream
