import SealedStream.Toml.Scalar
import SealedStream.Toml.Tree

/-!
TOML documents, version 1.0.
-/

namespace SealedStream.Toml

/-- The items of an array, with commas between them and perhaps one behind the last. -/
def itemsWithin (value? : Scanner Datum) : (steps : Nat) → Scanner (List Datum)
  | 0, _ => none
  | n + 1, cs =>
    match skipLines cs with
    | ']' :: rest => some ([], rest)
    | cs => do
      let (d, rest) ← value? cs
      match skipLines rest with
      | ',' :: rest =>
        let (ds, rest) ← itemsWithin value? n rest
        return (d :: ds, rest)
      | ']' :: rest => return ([d], rest)
      | _ => none

/-- A key and its value. -/
def pair? (value? : Scanner Datum) : Scanner (List String × String × Datum) := fun cs => do
  let (key, rest) ← key? cs
  let k ← key.getLast?
  let rest ← expect? '=' rest
  let (d, rest) ← value? (skipBlanks rest)
  return ((key.dropLast, k, d), rest)

/-- The pairs of an inline table, with commas between them. -/
def pairsWithin (value? : Scanner Datum) : (steps : Nat) → Table → Scanner Table
  | 0, _, _ => none
  | n + 1, t, cs => do
    let ((path, k, d), rest) ← pair? value? cs
    let t ← t.assign path k d
    match skipBlanks rest with
    | ',' :: rest => pairsWithin value? n t rest
    | '}' :: rest => return (t, rest)
    | _ => none

/-- An inline table behind its opening brace. -/
def inlineTable? (value? : Scanner Datum) : Scanner Datum := fun cs =>
  match skipBlanks cs with
  | '}' :: rest => some (.record [], rest)
  | _ => (pairsWithin value? cs.length ⟨.opened, []⟩ cs).map fun (t, rest) => (t.toDatum, rest)

/-- A value in which arrays and inline tables are nested at most `depth` deep. -/
def value? : (depth : Nat) → Scanner Datum
  | depth, cs =>
    match cs, depth with
    | '"' :: _, _ => (string? cs).map fun (s, rest) => (.text s, rest)
    | '\'' :: _, _ => (string? cs).map fun (s, rest) => (.text s, rest)
    | '[' :: _, 0 => none
    | '[' :: rest, depth + 1 =>
      (itemsWithin (value? depth) cs.length rest).map fun (ds, rest) => (.list ds, rest)
    | '{' :: _, 0 => none
    | '{' :: rest, depth + 1 => inlineTable? (value? depth) rest
    | _, _ => scalar? cs

/-- A line that says something. -/
def statement? : Scanner Statement := fun cs =>
  match cs with
  | '[' :: '[' :: rest => do
    let (key, rest) ← key? rest
    let k ← key.getLast?
    let rest ← (expect? ']' rest).bind (expect? ']')
    return (.addRow key.dropLast k, rest)
  | '[' :: rest => do
    let (key, rest) ← key? rest
    let k ← key.getLast?
    let rest ← expect? ']' rest
    return (.openTable key.dropLast k, rest)
  | _ => (pair? (value? (depthLimit - 1)) cs).map fun ((path, k, d), rest) =>
    (.assign path k d, rest)

/-- All statements of a document, a line each. -/
def statementsWithin : (steps : Nat) → List Char → Option (List Statement)
  | 0, _ => none
  | n + 1, cs =>
    match skipBlanks cs with
    | [] => some []
    | '#' :: rest => (endOfLine? ('#' :: rest)).bind (statementsWithin n)
    | cs =>
      match lineBreak? cs with
      | some rest => statementsWithin n rest
      | none => do
        let (s, rest) ← statement? cs
        let rest ← endOfLine? rest
        let tail ← statementsWithin n rest
        return s :: tail

/-- The document that a text describes; a byte order mark in front of it does not count. -/
def parse (text : String) : Option Datum := do
  let cs := match text.toList with
    | '\ufeff' :: cs => cs
    | cs => cs
  let statements ← statementsWithin (cs.length + 1) cs
  ofStatements statements

end SealedStream.Toml
