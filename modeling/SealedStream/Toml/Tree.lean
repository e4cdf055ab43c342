import SealedStream.Datum

/-!
The tables of a TOML document while it is being read.

A table may be opened once. One that only lies on the way to another is implied, and can still be
opened; one that a dotted key has made can only be added to by dotted keys of the same table.
-/

namespace SealedStream.Toml

inductive TableKind where
  | opened
  | implied
  | dotted
  deriving DecidableEq, Repr

inductive Node where
  | value (d : Datum)
  | table (kind : TableKind) (entries : List (String × Node))
  /-- An array of tables, each opened. -/
  | tables (rows : List (List (String × Node)))

structure Table where
  kind : TableKind
  entries : List (String × Node)

namespace Table

def get? (t : Table) (k : String) : Option Node := t.entries.lookup k

def set (t : Table) (k : String) (n : Node) : Table :=
  if (t.get? k).isSome then
    { t with entries := t.entries.map fun e => if e.1 = k then (k, n) else e }
  else { t with entries := t.entries ++ [(k, n)] }

/-- Changes the table at a path, making what is missing on the way. Dotted keys do not reach into
tables that have been opened. -/
def modify (dotted : Bool) (f : Table → Option Table) : (path : List String) → Table → Option Table
  | [], t => f t
  | k :: ks, t =>
    match t.get? k with
    | none =>
      (modify dotted f ks ⟨if dotted then .dotted else .implied, []⟩).map fun u =>
        t.set k (.table u.kind u.entries)
    | some (.value _) => none
    | some (.table kind entries) =>
      if dotted ∧ kind = .opened then none
      else (modify dotted f ks ⟨kind, entries⟩).map fun u => t.set k (.table u.kind u.entries)
    | some (.tables rows) =>
      (modify dotted f ks ⟨.opened, rows.getLastD []⟩).map fun u =>
        t.set k (.tables (rows.dropLast ++ [u.entries]))

/-- Gives a key a value that it does not have yet. -/
def give (k : String) (d : Datum) (t : Table) : Option Table :=
  if (t.get? k).isSome then none else some (t.set k (.value d))

/-- Gives a key of a table its value; `path` leads to it from the table being filled. A dotted
key ends in a table that dotted keys have made, and a plain one does not. -/
def assign (path : List String) (k : String) (d : Datum) (t : Table) : Option Table :=
  t.modify true (fun u => if u.kind = .dotted ↔ path = [] then none else u.give k d) path

end Table

mutual

def Node.toDatum : Node → Datum
  | .value d => d
  | .table _ entries => .record (entriesToData entries)
  | .tables rows => .list (rowsToData rows)

def entriesToData : List (String × Node) → List (String × Datum)
  | [] => []
  | (k, n) :: rest => (k, n.toDatum) :: entriesToData rest

def rowsToData : List (List (String × Node)) → List Datum
  | [] => []
  | row :: rest => .record (entriesToData row) :: rowsToData rest

end

def Table.toDatum (t : Table) : Datum := .record (entriesToData t.entries)

/-- One line of a document that says something. -/
inductive Statement where
  | assign (path : List String) (key : String) (value : Datum)
  | openTable (path : List String) (key : String)
  | addRow (path : List String) (key : String)

/-- The assignments in front of the next header, and the rest. -/
def assignments (t : Table) : List Statement → Option (Table × List Statement)
  | .assign path k d :: rest => (t.assign path k d).bind (assignments · rest)
  | rest => some (t, rest)

/-- Opens the table of a header, or adds a row to its array, and fills it; `fill` does the
assignments. -/
def openAt (k : String) (row : Bool) (fill : Table → Option Table) (parent : Table) :
    Option Table :=
  match row, parent.get? k with
  | false, none => (fill ⟨.opened, []⟩).map fun t => parent.set k (.table t.kind t.entries)
  | false, some (.table .implied entries) =>
    (fill ⟨.opened, entries⟩).map fun t => parent.set k (.table t.kind t.entries)
  | true, none => (fill ⟨.opened, []⟩).map fun t => parent.set k (.tables [t.entries])
  | true, some (.tables rows) =>
    (fill ⟨.opened, []⟩).map fun t => parent.set k (.tables (rows ++ [t.entries]))
  | _, _ => none

/-- The statements up to the next header. -/
def isAssignment : Statement → Bool
  | .assign .. => true
  | _ => false

def fillWith (body : List Statement) (t : Table) : Option Table := (assignments t body).map Prod.fst

/-- Adds the tables of all headers to the root. -/
def addTables : (steps : Nat) → List Statement → Table → Option Table
  | 0, _, root => some root
  | n + 1, statements, root =>
    match statements with
    | [] => some root
    | .openTable path k :: rest =>
      (root.modify false (openAt k false (fillWith (rest.takeWhile isAssignment))) path).bind
        (addTables n (rest.dropWhile isAssignment))
    | .addRow path k :: rest =>
      (root.modify false (openAt k true (fillWith (rest.takeWhile isAssignment))) path).bind
        (addTables n (rest.dropWhile isAssignment))
    | .assign .. :: rest => addTables n rest root

/-- The document that a list of statements describes. -/
def ofStatements (statements : List Statement) : Option Datum := do
  let (root, rest) ← assignments ⟨.opened, []⟩ statements
  let root ← addTables rest.length rest root
  return root.toDatum

end SealedStream.Toml
