/-!
Paths, taken apart by their text alone.

Components stand between slashes; empty ones and single dots say nothing. The last component is
the file name, unless it is a double dot.
-/

namespace SealedStream

structure Path where
  text : String
  deriving DecidableEq, Repr

namespace Path

def ofChars (cs : List Char) : Path := ⟨String.ofList cs⟩

def chars (p : Path) : List Char := p.text.toList

/-- No file can be asked for by a text that holds a NUL. -/
def hasNul (p : Path) : Bool := p.chars.contains '\x00'

def isAbsolute (p : Path) : Bool := p.chars.head? = some '/'

/-- The stretches of a text between slashes, empty ones too. -/
def split : List Char → List (List Char)
  | [] => [[]]
  | c :: cs =>
    if c = '/' then [] :: split cs
    else match split cs with
      | [] => [[c]]
      | w :: ws => (c :: w) :: ws

/-- The components that say something. -/
def components (p : Path) : List (List Char) :=
  (split p.chars).filter fun w => w ≠ [] ∧ w ≠ ['.']

/-- Where a path begins, if it says so: at the root, or by a single dot at the directory it is seen
from. -/
def start? (p : Path) : Option Char :=
  if p.isAbsolute then some '/'
  else if (split p.chars).head? = some ['.'] then some '.'
  else none

/-- Two texts of one path: they begin alike and have the same components. -/
def agrees (p q : Path) : Bool := p.start? = q.start? ∧ p.components = q.components

/-- The second path seen from the first, which is forgotten when the second is absolute. -/
def join (p q : Path) : Path :=
  if q.isAbsolute ∨ p.chars = [] then q
  else if p.chars.getLast? = some '/' then ⟨p.text ++ q.text⟩
  else ⟨p.text ++ "/" ++ q.text⟩

/-- The length of what follows the last component: slashes, and dots between them. -/
def tailLength : (reversed : List Char) → Nat
  | '/' :: cs => tailLength cs + 1
  | '.' :: '/' :: cs => tailLength ('/' :: cs) + 1
  | _ => 0

/-- The text up to the end of the last component. -/
def trimmed (p : Path) : List Char :=
  let cs := p.chars
  let kept := cs.take (cs.length - tailLength cs.reverse)
  if kept = ['.'] then [] else kept

/-- The file name, if the path ends in one. -/
def fileName? (p : Path) : Option (List Char) :=
  match p.components.getLast? with
  | some w => if w = ['.', '.'] then none else some w
  | none => none

/-- Where the last dot of a name is; a dot in front of the name does not count. -/
def lastDot? (name : List Char) : Option Nat :=
  let tail := (name.reverse.takeWhile (· ≠ '.')).length
  if tail + 1 < name.length then some (name.length - tail - 1) else none

/-- The part of a name before its last dot. -/
def stem (name : List Char) : List Char :=
  match lastDot? name with
  | some i => name.take i
  | none => name

/-- The part of a name after its last dot. -/
def extension? (name : List Char) : Option (List Char) :=
  (lastDot? name).map fun i => name.drop (i + 1)

/-- The text up to the end of the stem of the file name. -/
def upToStem (p : Path) (name : List Char) : List Char :=
  p.trimmed.take (p.trimmed.length - (name.length - (stem name).length))

/-- Gives the file name another extension, or none if it is empty; a path without a file name is
left as it is. -/
def setExtension (p : Path) (ext : List Char) : Path :=
  match p.fileName? with
  | none => p
  | some name => ofChars (p.upToStem name ++ if ext = [] then [] else '.' :: ext)

/-- Takes the extension of the file name away, and then gives it another. A name that has become a
double dot gets none. -/
def withExtension (p : Path) (ext : String) : Path :=
  match p.fileName?.bind extension? with
  | none => p.setExtension ext.toList
  | some old => (ofChars (p.chars.take (p.chars.length - old.length))).setExtension ext.toList

/-- The path with a suffix on its text. -/
def append (p : Path) (suffix : String) : Path := ⟨p.text ++ suffix⟩

/-- The path of the directory that holds the last component. -/
def parent? (p : Path) : Option Path :=
  match p.components.getLast? with
  | none => none
  | some w =>
    let before := p.trimmed.take (p.trimmed.length - w.length)
    let stripped := ofChars before
    if before.all (· = '/') then some stripped else some (ofChars stripped.trimmed)

end Path

end SealedStream
