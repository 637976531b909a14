import StakeAccounting.Decimal.Binary64

/-!
# Documents

Snapshots and settings are exchanged as **documents**: trees of named fields,
lists and plain values, as several text formats write them. A document keeps a
whole number apart from one with a fraction or an exponent, since only the first
can stand for a count; a whole number beyond 64 bits counts as the second.

A structure is written as a table with a field for each part. It is read more
leniently: fields that have no part are passed over, and a list may stand for the
structure, its items being the parts in order. A variant without content is
written as its name, and is read also as a table with that name as its only
field. In what exactly may stand there the formats differ; their **conventions**
say how.

`Record` is a structure that is being read. `Record.required` and
`Record.withDefault` are the two ways to read a part: the first fails where there
is no such field, the second has a default for that case and only for that case.
-/

namespace StakeAccounting

/-- **A document.** -/
inductive Document where
  /-- The value that stands for none. -/
  | null
  /-- A truth value. -/
  | bool (value : Bool)
  /-- A whole number of 64 bits, with a sign or without. -/
  | whole (value : Int)
  /-- A number that is kept as a binary fraction, its sign apart. -/
  | fraction (negative : Bool) (magnitude : Binary64)
  /-- A number that is infinite, or none. -/
  | notFinite
  /-- A date or a time of day. -/
  | moment
  /-- A text. -/
  | text (value : String)
  /-- A list. -/
  | list (items : List Document)
  /-- A table of fields, by their names. -/
  | table (fields : List (String × Document))

namespace Document

instance : Inhabited Document := ⟨null⟩

end Document

/-- **Why a document cannot be read** as a value of some kind. -/
inductive DecodeError where
  /-- A value of another kind is expected. -/
  | wrongKind
  /-- The number is beyond what the value can hold. -/
  | outOfRange
  /-- The text does not spell a value. -/
  | unknownText (text : String)
  /-- A part is missing. -/
  | missingField (name : String)
  /-- A part is given twice, under one name or under two. -/
  | repeatedField (name : String)
  /-- A list has the wrong number of items. -/
  | wrongLength
deriving DecidableEq

/-- **What a format allows** where it is read leniently. -/
structure Convention where
  /-- Whether a list that stands for a structure may be longer than it. -/
  allowsExtraItems : Bool
  /-- What may stand behind the name of a variant without content. -/
  isUnit : Document → Bool

namespace Convention

/-- The convention of JSON documents. -/
def json : Convention where
  allowsExtraItems := false
  isUnit
    | .null => true
    | _ => false

/-- The convention of TOML documents. -/
def toml : Convention where
  allowsExtraItems := true
  isUnit
    | .list [] => true
    | .table [] => true
    | _ => false

end Convention

/-- The answer of reading a document. -/
abbrev Decoded (α : Type) : Type := Except DecodeError α

/-! ## Plain values -/

namespace Document

/-- Read a truth value. -/
def toBool : Document → Decoded Bool
  | bool b => .ok b
  | _ => .error .wrongKind

/-- Read a text. -/
def toText : Document → Decoded String
  | text s => .ok s
  | _ => .error .wrongKind

/-- Read a list. -/
def toList : Document → Decoded (List Document)
  | list items => .ok items
  | _ => .error .wrongKind

/-- Read a whole number that is at least `low` and below `high`. -/
def toWhole (low high : Int) : Document → Decoded Int
  | whole n => if low ≤ n ∧ n < high then .ok n else .error .outOfRange
  | _ => .error .wrongKind

/-- Read a word of 8 bits. -/
def toUInt8 (d : Document) : Decoded UInt8 :=
  (fun n => UInt8.ofNat n.toNat) <$> d.toWhole 0 0x100

/-- Read a word of 32 bits. -/
def toUInt32 (d : Document) : Decoded UInt32 :=
  (fun n => UInt32.ofNat n.toNat) <$> d.toWhole 0 0x100000000

/-- Read a word of 64 bits. -/
def toUInt64 (d : Document) : Decoded UInt64 :=
  (fun n => UInt64.ofNat n.toNat) <$> d.toWhole 0 0x10000000000000000

/-- Read a word of 8 bits with a sign. -/
def toInt8 (d : Document) : Decoded Int8 :=
  Int8.ofInt <$> d.toWhole (-0x80) 0x80

/-- **Read a decimal**: a text that spells one, a whole number, or the number a
binary fraction stands for. -/
def toDecimal : Document → Decoded Decimal
  | text s => match Decimal.ofText? s with
    | some a => .ok a
    | none => .error (.unknownText s)
  | whole n => match Decimal.ofInt? n with
    | some a => .ok a
    | none => .error .outOfRange
  | fraction negative x => match x.toDecimal? negative with
    | some a => .ok a
    | none => .error .outOfRange
  | _ => .error .wrongKind

/-- The variant of a name. -/
def variantOf {α : Type} (name : String) : List (String × α) → Decoded α
  | [] => .error (.unknownText name)
  | (known, a) :: rest => if known = name then .ok a else variantOf name rest

/-- **Read a variant without content**, given all of them by name. -/
def toVariant {α : Type} (c : Convention) (variants : List (String × α)) : Document → Decoded α
  | text name => variantOf name variants
  | table [(name, content)] =>
    if c.isUnit content then variantOf name variants else .error .wrongKind
  | _ => .error .wrongKind

end Document

/-! ## Structures -/

/-- **A structure that is being read.** -/
inductive Record where
  /-- Its parts are fields of a table. -/
  | named (fields : List (String × Document))
  /-- Its parts are items of a list. -/
  | positional (items : List Document)

namespace Record

/-- **Read a document as a structure** of `size` parts. A date is one, but has
none of them. -/
def ofDocument (c : Convention) (size : Nat) : Document → Decoded Record
  | .table fields => .ok (named fields)
  | .moment => .ok (named [])
  | .list items =>
    if !c.allowsExtraItems && size < items.length then .error .wrongLength
    else .ok (positional items)
  | _ => .error .wrongKind

/-- **The document of a part**, if it is given: the item at its position, or
the field with one of its names, of which there may be only one. -/
def find? (r : Record) (position : Nat) (names : List String) : Decoded (Option Document) :=
  match r with
  | positional items => .ok items[position]?
  | named fields =>
    match fields.filter fun field => names.contains field.1 with
    | [] => .ok none
    | [(_, d)] => .ok (some d)
    | (name, _) :: _ => .error (.repeatedField name)

/-- **Read a part that has to be given.** -/
def required {α : Type} (r : Record) (position : Nat) (names : List String)
    (read : Document → Decoded α) : Decoded α := do
  match ← r.find? position names with
  | some d => read d
  | none => .error (.missingField (names.headD ""))

/-- **Read a part that has a default.** -/
def withDefault {α : Type} (r : Record) (position : Nat) (names : List String)
    (read : Document → Decoded α) (fallback : α) : Decoded α := do
  match ← r.find? position names with
  | some d => read d
  | none => .ok fallback

end Record

/-- **A value with a document**: how it is written and how it is read. -/
class Snapshot (α : Type) where
  /-- Write the value. -/
  encode : α → Document
  /-- Read a value, by the convention of a format. -/
  decode : Convention → Document → Decoded α

export Snapshot (encode decode)

instance : Snapshot Decimal := ⟨fun a => .text a.toText, fun _ => Document.toDecimal⟩

instance : Snapshot Bool := ⟨.bool, fun _ => Document.toBool⟩

instance : Snapshot String := ⟨.text, fun _ => Document.toText⟩

instance : Snapshot UInt32 := ⟨fun n => .whole n.toNat, fun _ => Document.toUInt32⟩

instance : Snapshot UInt64 := ⟨fun n => .whole n.toNat, fun _ => Document.toUInt64⟩

instance : Snapshot Int8 := ⟨fun n => .whole n.toInt, fun _ => Document.toInt8⟩

instance {α : Type} [Snapshot α] : Snapshot (List α) where
  encode as := .list (as.map encode)
  decode c d := do (← d.toList).mapM (decode c)

end StakeAccounting
