import StakeAccounting.Document

/-!
# Trees of tables

The tables of a TOML document come about in three ways: a header **declares** one,
a longer header **implies** those on the way to it, and so does a **dotted** key.
While the document is read, each table remembers which it was, since that decides
how it may still change. An implied table may be declared later, once; a declared
one takes fields only below its own header; and a dotted one takes fields only
through dotted keys of the table it stands in.

`assign`, `openTable` and `openItem` are the three things a line does to a tree.
All of them go down a path first, and that is one function: `change` goes down and
applies a change to the table it arrives at. Nothing is ever replaced: a key that
is taken makes the document not well-formed.
-/

namespace StakeAccounting

namespace Toml

/-- **How a table came about.** -/
inductive Origin where
  /-- A longer header leads through it. -/
  | implied
  /-- A dotted key leads through it. -/
  | dotted
  /-- It has a header of its own. -/
  | declared
deriving DecidableEq

/-- **A node of the tree.** -/
inductive Node where
  /-- A value. -/
  | value (content : Document)
  /-- A table. -/
  | table (origin : Origin) (entries : List (String × Node))
  /-- A list of tables, each declared by a header. -/
  | tables (items : List (List (String × Node)))

/-- The entries of a table. -/
abbrev Entries : Type := List (String × Node)

/-- The entries with a node put at a key, instead of the one there if the key
is taken. -/
def Entries.set (key : String) (node : Node) : Entries → Entries
  | [] => [(key, node)]
  | entry :: es => if entry.1 = key then (key, node) :: es else entry :: set key node es

/-- A node that is put is there. -/
@[simp] theorem lookup_set_self (key : String) (node : Node) (es : Entries) :
    (es.set key node).lookup key = some node := by
  induction es with
  | nil => simp [Entries.set]
  | cons entry es ih =>
    obtain ⟨name, inner⟩ := entry
    unfold Entries.set
    split
    · simp
    · rename_i h
      have hk : (key == name) = false := beq_eq_false_iff_ne.mpr (Ne.symm h)
      rw [List.lookup_cons, hk]
      exact ih

/-- Putting a node changes no other key. -/
theorem lookup_set_of_ne {key other : String} (h : other ≠ key) (node : Node) (es : Entries) :
    (es.set key node).lookup other = es.lookup other := by
  have hk : (other == key) = false := beq_eq_false_iff_ne.mpr h
  induction es with
  | nil => rw [Entries.set, List.lookup_cons, hk]
  | cons entry es ih =>
    obtain ⟨name, inner⟩ := entry
    unfold Entries.set
    split
    · rename_i he
      have hn : (other == name) = false := (congrArg (other == ·) he).trans hk
      rw [List.lookup_cons, List.lookup_cons, hk, hn]
    · rw [List.lookup_cons, List.lookup_cons, ih]

/-! ## Going down a path -/

/-- **Change the table that a path leads to**, from a table with the given
origin. Where the path leads to nothing yet, a table with the origin `new` is put
there; into a list of tables it leads to the last one. A path of dotted keys does
not lead into a declared table. -/
def change (new : Origin) (f : Origin → Entries → Option Entries) :
    List String → Origin → Entries → Option Entries
  | [], origin, es => f origin es
  | key :: path, _, es =>
    match es.lookup key with
    | none => (change new f path new []).map fun inner => es.set key (.table new inner)
    | some (.value _) => none
    | some (.table origin inner) =>
      if new = .dotted ∧ origin = .declared then none
      else (change new f path origin inner).map fun inner => es.set key (.table origin inner)
    | some (.tables items) =>
      match items.getLast? with
      | none => none
      | some last => (change new f path .declared last).map fun inner =>
          es.set key (.tables (items.dropLast ++ [inner]))

/-- **Assign to a dotted key** within a table: the path in front of the last
part leads to dotted tables only, and the last part is not taken. -/
def assign (path : List String) (key : String) (content : Document) :
    Origin → Entries → Option Entries :=
  change .dotted
    (fun origin es =>
      if (origin = .dotted ↔ path = []) ∨ (es.lookup key).isSome then none
      else some (es.set key (.value content)))
    path

/-- **Open a table with a header.** It is not there yet, or it is implied. -/
def openTable (path : List String) (key : String) : Entries → Option Entries :=
  change .implied
    (fun _ es =>
      match es.lookup key with
      | none => some (es.set key (.table .declared []))
      | some (.table .implied inner) => some (es.set key (.table .declared inner))
      | some _ => none)
    path .declared

/-- **Open one more table of a list of tables** with a header. -/
def openItem (path : List String) (key : String) : Entries → Option Entries :=
  change .implied
    (fun _ es =>
      match es.lookup key with
      | none => some (es.set key (.tables [[]]))
      | some (.tables items) => some (es.set key (.tables (items ++ [[]])))
      | some _ => none)
    path .declared

/-- Assign to a dotted key within the table that a header opened. -/
def assignBelow (header path : List String) (key : String) (content : Document) :
    Entries → Option Entries :=
  change .implied (assign path key content) header .declared

/-! ## The document of a tree -/

mutual

/-- **The document of a node**, which no longer tells the origins apart. -/
def Node.toDocument : Node → Document
  | .value content => content
  | .table _ entries => .table (fieldsOf entries)
  | .tables items => .list (tablesOf items)

/-- The fields of entries. -/
def fieldsOf : List (String × Node) → List (String × Document)
  | [] => []
  | (key, node) :: es => (key, node.toDocument) :: fieldsOf es

/-- The documents of a list of tables. -/
def tablesOf : List (List (String × Node)) → List Document
  | [] => []
  | es :: items => .table (fieldsOf es) :: tablesOf items

end

end Toml

end StakeAccounting
