import StakeAccounting.Toml.Number
import StakeAccounting.Toml.Tree

/-!
# Values of TOML

A value is a text, a word, a list in brackets, or a table in braces. The items of
a list may stand on lines of their own, with comments between them, and a comma
may follow the last. A table in braces stands in one line, its fields divided by
commas, and no comma follows the last; its keys may be dotted, under the rules of
`Toml.assign`.

Lists and tables hold values, so each is read with a reader of its items, and
`value?` is told how deep it may go.
-/

namespace StakeAccounting

namespace Toml

/-- How deep lists and tables in braces may stand in each other. -/
def maxDepth : Nat := 79

/-! ## Lists -/

/-- **The items of a list** up to its closing bracket, in front of the first
item or behind a comma. At most `n` items are read. -/
def items (item : List Char → Parsed Document) :
    Nat → List Char → Option (List Document × List Char)
  | 0, _ => none
  | n + 1, cs => do
    match ← skipFiller false cs with
    | ']' :: rest => some ([], rest)
    | cs =>
      let (first, cs) ← item cs
      match ← skipFiller false cs with
      | ']' :: rest => some ([first], rest)
      | ',' :: rest =>
        let (others, rest) ← items item n rest
        some (first :: others, rest)
      | _ => none

/-- A list, behind its opening bracket. -/
def list? (item : List Char → Parsed Document) (cs : List Char) : Parsed Document :=
  (items item (cs.length + 1) cs).map fun (content, rest) => (.list content, rest)

/-! ## Assignments and tables in braces -/

/-- **An assignment**: a dotted key, split before its last part, an equals
sign, and a value with blanks around it. -/
def assignment? (item : List Char → Parsed Document) (cs : List Char) :
    Option ((List String × String × Document) × List Char) := do
  let (parts, cs) ← dottedKey? maxParts cs
  match parts.getLast?, cs with
  | some key, '=' :: cs =>
    let (content, cs) ← item (skipSpace cs)
    some ((parts.dropLast, key, content), skipSpace cs)
  | _, _ => none

/-- **The fields of a table in braces** up to its closing brace, after those
read so far. At most `n` fields are read. -/
def fields (item : List Char → Parsed Document) :
    Nat → Entries → List Char → Option (Entries × List Char)
  | 0, _, _ => none
  | n + 1, es, cs => do
    let ((path, key, content), cs) ← assignment? item cs
    let es ← assign path key content .declared es
    match cs with
    | '\x7d' :: rest => some (es, rest)
    | ',' :: rest => fields item n es rest
    | _ => none

/-- A table in braces, behind its opening brace. -/
def table? (item : List Char → Parsed Document) (cs : List Char) : Parsed Document :=
  match skipSpace cs with
  | '\x7d' :: rest => some (.table [], rest)
  | cs => (fields item (cs.length + 1) [] cs).map fun (es, rest) => (.table (fieldsOf es), rest)

/-! ## Values -/

/-- A text or a word. -/
def plain? : List Char → Parsed Document
  | [] => none
  | c :: cs =>
    if c = quote ∨ c = apostrophe then
      (text? (c :: cs)).map fun (content, rest) => (.text content, rest)
    else word? (c :: cs)

/-- **A value**, in which lists and tables in braces stand at most `depth` deep
in each other. -/
def value? : Nat → List Char → Parsed Document
  | depth + 1, '[' :: cs => list? (value? depth) cs
  | depth + 1, '\x7b' :: cs => table? (value? depth) cs
  | _, cs => plain? cs

end Toml

end StakeAccounting
