import StakeAccounting.Toml.Value

/-!
# Lines of TOML

A document is a list of **lines**: headers, assignments, and lines with nothing
but blanks and comments. A value may reach over several lines of the text; it is
still part of one line here. Each line is entered into the tree below the header
before it, and `Toml.read` gives the document of the tree that the last line
leaves.
-/

namespace StakeAccounting

namespace Toml

/-- **A line.** A dotted key is split before its last part. -/
inductive Line where
  /-- Nothing but blanks and a comment. -/
  | blank
  /-- The header of a table. -/
  | header (path : List String) (key : String)
  /-- The header of one more table of a list. -/
  | itemHeader (path : List String) (key : String)
  /-- An assignment. -/
  | assignment (path : List String) (key : String) (content : Document)

/-- **A header**, behind its opening brackets: a dotted key, split before its
last part, and the closing brackets. -/
def header? (closing : List Char) (cs : List Char) :
    Option ((List String × String) × List Char) := do
  let (parts, cs) ← dottedKey? maxParts cs
  let key ← parts.getLast?
  if closing.isPrefixOf cs then some ((parts.dropLast, key), cs.drop closing.length) else none

/-- A line without its end. -/
def statement? (cs : List Char) : Option (Line × List Char) :=
  match cs with
  | '[' :: '[' :: rest =>
    (header? [']', ']'] rest).map fun ((path, key), rest) => (.itemHeader path key, rest)
  | '[' :: rest => (header? [']'] rest).map fun ((path, key), rest) => (.header path key, rest)
  | cs => (assignment? (value? maxDepth) cs).map fun ((path, key, content), rest) =>
      (.assignment path key content, rest)

/-- **A line**, with its end. -/
def line? (cs : List Char) : Option (Line × List Char) :=
  match lineEnd? cs with
  | some rest => some (.blank, rest)
  | none => do
    let (line, rest) ← statement? (skipSpace cs)
    return (line, ← lineEnd? rest)

/-- **The lines of a text**; at most `n` are read. -/
def lines : Nat → List Char → Option (List Line)
  | _, [] => some []
  | 0, _ => none
  | n + 1, cs => do
    let (line, rest) ← line? cs
    return line :: (← lines n rest)

/-- **A document of which some lines were read.** -/
structure Draft where
  /-- The tree so far. -/
  entries : Entries
  /-- The key of the header above. -/
  header : List String

namespace Draft

/-- No line was read. -/
def empty : Draft := ⟨[], []⟩

/-- **Enter a line.** -/
def enter (d : Draft) : Line → Option Draft
  | .blank => some d
  | .header path key => (openTable path key d.entries).map fun es => ⟨es, path ++ [key]⟩
  | .itemHeader path key => (openItem path key d.entries).map fun es => ⟨es, path ++ [key]⟩
  | .assignment path key content =>
    (assignBelow d.header path key content d.entries).map fun es => ⟨es, d.header⟩

end Draft

/-- The characters of a text without the mark of its byte order. -/
def withoutByteOrderMark (s : String) : List Char :=
  match s.toList with
  | '\ufeff' :: cs => cs
  | cs => cs

/-- **The document a text spells**, if it is well-formed. -/
def read (s : String) : Option Document := do
  let cs := withoutByteOrderMark s
  let ls ← lines cs.length cs
  let d ← ls.foldlM Draft.enter .empty
  return .table (fieldsOf d.entries)

end Toml

end StakeAccounting
