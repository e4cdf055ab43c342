/-!
Characters, strings and keys of TOML.

A scanner takes what it knows off the front of a text and gives the rest; it fails by `none`.
-/

namespace SealedStream.Toml

abbrev Scanner (α : Type) := List Char → Option (α × List Char)

def isBlank (c : Char) : Bool := c = ' ' || c = '\t'

def isDigit (c : Char) : Bool := '0' ≤ c && c ≤ '9'

def isHexDigit (c : Char) : Bool := isDigit c || ('a' ≤ c && c ≤ 'f') || ('A' ≤ c && c ≤ 'F')

/-- A character of a comment: no control character but the tab. -/
def isCommentChar (c : Char) : Bool := c = '\t' || (' ' ≤ c && c ≠ '\x7f')

/-- A character that stands for itself between double quotes. -/
def isBasicChar (c : Char) : Bool := isCommentChar c && c ≠ '"' && c ≠ '\\'

/-- A character that may stand between single quotes. -/
def isLiteralChar (c : Char) : Bool := isCommentChar c && c ≠ '\''

def isBareKeyChar (c : Char) : Bool :=
  isDigit c || ('a' ≤ c && c ≤ 'z') || ('A' ≤ c && c ≤ 'Z') || c = '_' || c = '-'

def skipBlanks (cs : List Char) : List Char := cs.dropWhile isBlank

/-- A line break: a line feed, with or without a carriage return before it. -/
def lineBreak? : List Char → Option (List Char)
  | '\n' :: cs => some cs
  | '\r' :: '\n' :: cs => some cs
  | _ => none

/-- Leaves out a comment, if one begins here. -/
def skipComment : List Char → List Char
  | '#' :: cs => cs.dropWhile isCommentChar
  | cs => cs

/-- The rest of a line that has nothing more to say, with its break. -/
def endOfLine? (cs : List Char) : Option (List Char) :=
  match skipComment (skipBlanks cs) with
  | [] => some []
  | cs => lineBreak? cs

/-- Leaves out blanks, breaks and whole comments. -/
def skipLinesWithin : (steps : Nat) → List Char → List Char
  | 0, cs => cs
  | n + 1, cs =>
    let cs := skipBlanks cs
    match lineBreak? (skipComment cs) with
    | some rest => skipLinesWithin n rest
    | none => cs

def skipLines (cs : List Char) : List Char := skipLinesWithin cs.length cs

/-- Leaves out blanks and breaks. -/
def skipSpaceWithin : (steps : Nat) → List Char → List Char
  | 0, cs => cs
  | n + 1, cs =>
    let cs := skipBlanks cs
    match lineBreak? cs with
    | some rest => skipSpaceWithin n rest
    | none => cs

def hexValue (c : Char) : Nat :=
  if isDigit c then c.toNat - 48 else if 'a' ≤ c then c.toNat - 87 else c.toNat - 55

/-- The number that digits denote in a base. -/
def digitsValue (base : Nat) (cs : List Char) : Nat := cs.foldl (fun n c => base * n + hexValue c) 0

/-- A character by its code, in exactly `width` hexadecimal digits. -/
def codePoint? (width : Nat) : Scanner Char := fun cs =>
  let digits := cs.take width
  let n := digitsValue 16 digits
  if digits.length = width ∧ digits.all isHexDigit ∧ n.isValidChar then
    some (Char.ofNat n, cs.drop width)
  else none

/-- What follows a backslash. -/
def escape? : Scanner Char
  | 'b' :: cs => some ('\x08', cs)
  | 't' :: cs => some ('\t', cs)
  | 'n' :: cs => some ('\n', cs)
  | 'f' :: cs => some ('\x0c', cs)
  | 'r' :: cs => some ('\r', cs)
  | '"' :: cs => some ('"', cs)
  | '\\' :: cs => some ('\\', cs)
  | 'u' :: cs => codePoint? 4 cs
  | 'U' :: cs => codePoint? 8 cs
  | _ => none

/-- The rest of a string in double quotes. -/
def basicWithin : (steps : Nat) → Scanner (List Char)
  | 0, _ => none
  | n + 1, cs =>
    match cs with
    | [] => none
    | '"' :: rest => some ([], rest)
    | '\\' :: rest => do
      let (c, rest) ← escape? rest
      let (tail, rest) ← basicWithin n rest
      return (c :: tail, rest)
    | c :: rest =>
      if isBasicChar c then (basicWithin n rest).map fun (tail, rest) => (c :: tail, rest)
      else none

/-- The rest of a string in single quotes. -/
def literal? (cs : List Char) : Option (List Char × List Char) :=
  match cs.dropWhile isLiteralChar with
  | '\'' :: rest => some (cs.takeWhile isLiteralChar, rest)
  | _ => none

/-- A backslash at the end of a line takes the break and all space after it away. -/
def foldedBreak? (cs : List Char) : Option (List Char) :=
  (lineBreak? (skipBlanks cs)).map fun rest => skipSpaceWithin (rest.length + 1) rest

/-- The rest of a string in three quotes of a kind. Up to two quotes stand for themselves, also in
front of the closing three. A line break is one line feed. -/
def multilineWithin (quote : Char) (escapes : Bool) : (steps : Nat) → Scanner (List Char)
  | 0, _ => none
  | n + 1, cs =>
    match cs with
    | [] => none
    | c :: rest =>
      if c = quote then
        let quotes := min 5 (cs.takeWhile (· = quote)).length
        if quotes < 3 then
          (multilineWithin quote escapes n (cs.drop quotes)).map fun (tail, rest) =>
            (List.replicate quotes quote ++ tail, rest)
        else some (List.replicate (quotes - 3) quote, cs.drop quotes)
      else if escapes ∧ c = '\\' then
        match foldedBreak? rest with
        | some rest => multilineWithin quote escapes n rest
        | none => do
          let (c, rest) ← escape? rest
          let (tail, rest) ← multilineWithin quote escapes n rest
          return (c :: tail, rest)
      else match lineBreak? cs with
        | some rest =>
          (multilineWithin quote escapes n rest).map fun (tail, rest) => ('\n' :: tail, rest)
        | none =>
          if isCommentChar c then
            (multilineWithin quote escapes n rest).map fun (tail, rest) => (c :: tail, rest)
          else none

/-- A break right behind the opening quotes does not count. -/
def dropFirstBreak (cs : List Char) : List Char := (lineBreak? cs).getD cs

/-- A string of any of the four kinds. -/
def string? : Scanner String := fun cs =>
  let found := match cs with
    | '"' :: '"' :: '"' :: rest => multilineWithin '"' true cs.length (dropFirstBreak rest)
    | '\'' :: '\'' :: '\'' :: rest => multilineWithin '\'' false cs.length (dropFirstBreak rest)
    | '"' :: rest => basicWithin cs.length rest
    | '\'' :: rest => literal? rest
    | _ => none
  found.map fun (body, rest) => (String.ofList body, rest)

/-- One part of a key: bare, or a string of one line. -/
def simpleKey? : Scanner String := fun cs =>
  match cs with
  | '"' :: rest => (basicWithin cs.length rest).map fun (k, rest) => (String.ofList k, rest)
  | '\'' :: rest => (literal? rest).map fun (k, rest) => (String.ofList k, rest)
  | _ =>
    let bare := cs.takeWhile isBareKeyChar
    if bare = [] then none else some (String.ofList bare, cs.dropWhile isBareKeyChar)

/-- The most parts that a key may have, and one more than the deepest nesting of values. -/
def depthLimit : Nat := 80

def keyWithin : (steps : Nat) → Scanner (List String)
  | 0, _ => none
  | n + 1, cs => do
    let (k, rest) ← simpleKey? (skipBlanks cs)
    match skipBlanks rest with
    | '.' :: rest =>
      let (ks, rest) ← keyWithin n rest
      return (k :: ks, rest)
    | rest => return ([k], rest)

/-- A key: parts with dots between them, and blanks around each. -/
def key? : Scanner (List String) := keyWithin (depthLimit - 1)

end SealedStream.Toml
