/-!
# The tables of a TOML document

A document is a tree of tables. A table remembers how it came about, since this decides what may be
added to it later: a header may open a table that headers further in have named only on the way, a value
under a key with dots may be put only into a table that came about through such keys, and nothing may be
added to a table that was written in one piece. Values of types that no reader here asks for are kept
without their content.
-/

set_option autoImplicit false

namespace DurableLists

namespace Toml

/-- How a table came about. -/
inductive Origin where
  /-- Named on the way to another table by a header. -/
  | implied
  | header
  /-- Named on the way to a value by a key with dots. -/
  | dotted
  | inline
  deriving DecidableEq, Repr

/-- A value of a document. -/
inductive Item where
  | string (text : String)
  | boolean (value : Bool)
  /-- A number, and whether it has a value. -/
  | number (hasValue : Bool)
  | date
  | array (items : List Item)
  | table (origin : Origin) (entries : List (String × Item))
  /-- Tables that were opened one after another under one name, the latest first. -/
  | tables (rows : List (List (String × Item)))

mutual

/-- Whether every number in a value has a value of its own, so that it can be read and passed over. -/
def Item.isReadable : Item → Bool
  | .string _ | .boolean _ | .date => true
  | .number hasValue => hasValue
  | .array items => areReadable items
  | .table _ entries => entriesReadable entries
  | .tables rows => rowsReadable rows

def areReadable : List Item → Bool
  | [] => true
  | item :: items => item.isReadable && areReadable items

def entriesReadable : List (String × Item) → Bool
  | [] => true
  | (_, item) :: entries => item.isReadable && entriesReadable entries

def rowsReadable : List (List (String × Item)) → Bool
  | [] => true
  | row :: rows => entriesReadable row && rowsReadable rows

end

abbrev Entries := List (String × Item)

namespace Entries

def empty : Entries := []

def get? (entries : Entries) (key : String) : Option Item :=
  (entries.find? fun entry => entry.1 == key).map (·.2)

/-- The content with a value under a key, in the place of one that is there. -/
def put (entries : Entries) (key : String) (item : Item) : Entries :=
  if (entries.get? key).isSome then
    entries.map fun entry => if entry.1 == key then (key, item) else entry
  else entries ++ [(key, item)]

def changeLatest (change : Entries → Option Entries) : List Entries → Option (List Entries)
  | [] => none
  | row :: rows => (change row).map fun row => row :: rows

/-- Makes a change in the table that the header with the given path has opened. -/
def inTable (change : Entries → Option Entries) : List String → Entries → Option Entries
  | [], entries => change entries
  | key :: path, entries =>
    match entries.get? key with
    | some (.table origin inner) =>
      (inTable change path inner).map fun inner => entries.put key (.table origin inner)
    | some (.tables rows) =>
      (changeLatest (inTable change path) rows).map fun rows => entries.put key (.tables rows)
    | _ => none

/-- Follows a header up to its last name, implying tables that are missing, and opens that name. -/
def openAt (last : String → Entries → Option Entries) : List String → Entries → Option Entries
  | [], _ => none
  | [key], entries => last key entries
  | key :: path, entries =>
    match entries.get? key with
    | none => (openAt last path []).map fun inner => entries.put key (.table .implied inner)
    | some (.table .inline _) => none
    | some (.table origin inner) =>
      (openAt last path inner).map fun inner => entries.put key (.table origin inner)
    | some (.tables rows) =>
      (changeLatest (openAt last path) rows).map fun rows => entries.put key (.tables rows)
    | some _ => none

def openTable : List String → Entries → Option Entries :=
  openAt fun key entries =>
    match entries.get? key with
    | none => some (entries.put key (.table .header []))
    | some (.table .implied inner) => some (entries.put key (.table .header inner))
    | some _ => none

def openRow : List String → Entries → Option Entries :=
  openAt fun key entries =>
    match entries.get? key with
    | none => some (entries.put key (.tables [[]]))
    | some (.tables rows) => some (entries.put key (.tables ([] :: rows)))
    | some _ => none

/-- Adds a value under a key with dots. On the way the key may lead through tables that headers have
named only on the way and into the latest of tables under one name, but not end there. -/
def add (item : Item) : List String → Entries → Option Entries
  | [], _ => none
  | [key], entries => if (entries.get? key).isSome then none else some (entries.put key item)
  | key :: path, entries =>
    match entries.get? key with
    | none => (add item path []).map fun inner => entries.put key (.table .dotted inner)
    | some (.table .dotted inner) =>
      (add item path inner).map fun inner => entries.put key (.table .dotted inner)
    | some (.table .implied inner) =>
      if path.length = 1 then none
      else (add item path inner).map fun inner => entries.put key (.table .implied inner)
    | some (.tables rows) =>
      if path.length = 1 then none
      else (changeLatest (add item path) rows).map fun rows => entries.put key (.tables rows)
    | some _ => none

end Entries

end Toml

end DurableLists
