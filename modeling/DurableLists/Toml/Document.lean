import DurableLists.Toml.Scalar
import DurableLists.Toml.Text

/-!
# TOML documents

`Entries.parse?` reads a document line by line: headers open tables and lines with an equals sign add
values to the table opened last. A byte order mark in front is passed over, and a line ends in a newline
character with or without a carriage return before it. Values that are arrays or tables written in one
piece may go over several lines, with comments, and may have a comma after the last element. Values may
be nested, and keys may have names, up to a limit.
-/

set_option autoImplicit false

namespace DurableLists

namespace Toml

/-! ## Blanks and comments -/

def skipBlanks (cs : List Char) : List Char := cs.dropWhile fun c => c == ' ' || c == '\t'

/-- The characters after blanks, line breaks and comments; `none` if a comment holds what it may not. -/
def skipLines (inComment : Bool) : List Char → Option (List Char)
  | [] => some []
  | c :: cs =>
    if startsBreak c cs then skipLines false cs
    else if inComment then (if isAllowed c then skipLines true cs else none)
    else if c = ' ' ∨ c = '\t' then skipLines false cs
    else if c = '#' then skipLines true cs
    else some (c :: cs)

/-- The characters after the end of a line, where only blanks and a comment may be left. -/
def endLine (inComment : Bool) : List Char → Option (List Char)
  | [] => some []
  | c :: cs =>
    if c = '\n' then some cs
    else if startsBreak c cs then endLine false cs
    else if inComment then (if isAllowed c then endLine true cs else none)
    else if c = ' ' ∨ c = '\t' then endLine false cs
    else if c = '#' then endLine true cs
    else none

/-- How deep values may be nested, and how many names a key may have. -/
def limit : Nat := 80

/-! ## Keys -/

def isKeyChar (c : Char) : Bool := c.isAlphanum || c == '_' || c == '-'

def readName? (cs : List Char) : Option (String × List Char) :=
  match cs with
  | c :: _ =>
    if c = '"' ∨ c = '\'' then Text.readLine? cs
    else
      match cs.takeWhile isKeyChar with
      | [] => none
      | name => some (String.ofList name, cs.dropWhile isKeyChar)
  | [] => none

/-- Reads a key of at most so many names with dots between them, and the blanks around it. -/
def readKey? : (atMost : Nat) → List Char → Option (List String × List Char)
  | 0, _ => none
  | atMost + 1, cs => do
    let (name, cs) ← readName? (skipBlanks cs)
    match skipBlanks cs with
    | '.' :: cs => do
      let (names, cs) ← readKey? atMost cs
      return (name :: names, cs)
    | cs => return ([name], cs)

/-! ## Values -/

mutual

/-- Reads a value in which arrays and tables are nested at most so deep and none has more than `size` + 1
elements. -/
def readValue? (size : Nat) : (depth : Nat) → List Char → Option (Item × List Char)
  | depth, cs =>
    match depth, cs with
    | 0, '[' :: _ => none
    | 0, '\x7b' :: _ => none
    | depth + 1, '[' :: cs => do
      let (items, cs) ← readItems? size depth size cs
      return (.array items, cs)
    | depth + 1, '\x7b' :: cs => do
      let (entries, cs) ← readEntries? size depth size .empty cs
      return (.table .inline entries, cs)
    | _, c :: cs =>
      if c = '"' ∨ c = '\'' then (Text.read? (c :: cs)).map fun p => (.string p.1, p.2)
      else Word.read? (c :: cs)
    | _, [] => none
termination_by depth => (depth, 0)

/-- Reads an array up to its closing bracket; at most `more` commas may come. -/
def readItems? (size : Nat) : (depth more : Nat) → List Char → Option (List Item × List Char)
  | depth, more, cs => do
    match ← skipLines false cs with
    | ']' :: cs => return ([], cs)
    | cs =>
      let (item, cs) ← readValue? size depth cs
      match more, ← skipLines false cs with
      | more + 1, ',' :: cs => do
        let (items, cs) ← readItems? size depth more cs
        return (item :: items, cs)
      | _, ']' :: cs => return ([item], cs)
      | _, _ => none
termination_by depth more => (depth, more + 1)

/-- Reads a table written in one piece up to its closing brace; at most `more` commas may come. -/
def readEntries? (size : Nat) :
    (depth more : Nat) → Entries → List Char → Option (Entries × List Char)
  | depth, more, entries, cs => do
    match ← skipLines false cs with
    | '\x7d' :: cs => return (entries, cs)
    | cs =>
      let (key, cs) ← readKey? limit cs
      let '=' :: cs ← skipLines false cs | none
      let (item, cs) ← readValue? size depth (← skipLines false cs)
      let entries ← entries.add item key
      match more, ← skipLines false cs with
      | more + 1, ',' :: cs => readEntries? size depth more entries cs
      | _, '\x7d' :: cs => return (entries, cs)
      | _, _ => none
termination_by depth more => (depth, more + 1)

end

/-! ## Lines -/

/-- A document that is being read: the table opened last and the whole. -/
structure Reading where
  /-- The number of characters, which no value has more elements than. -/
  size : Nat
  opened : List String
  entries : Entries

def Reading.header? (r : Reading) (cs : List Char) : Option (Reading × List Char) :=
  match cs with
  | '[' :: '[' :: cs => do
    let (key, cs) ← readKey? limit cs
    let ']' :: ']' :: cs := cs | none
    return ({ r with opened := key, entries := ← Entries.openRow key r.entries }, cs)
  | '[' :: cs => do
    let (key, cs) ← readKey? limit cs
    let ']' :: cs := cs | none
    return ({ r with opened := key, entries := ← Entries.openTable key r.entries }, cs)
  | _ => none

def Reading.entry? (r : Reading) (cs : List Char) : Option (Reading × List Char) := do
  let (key, cs) ← readKey? limit cs
  let '=' :: cs := cs | none
  let (item, cs) ← readValue? r.size limit (skipBlanks cs)
  let entries ← Entries.inTable (Entries.add item key) r.opened r.entries
  return ({ r with entries }, cs)

def Reading.lines? (r : Reading) : (atMost : Nat) → List Char → Option Entries
  | 0, _ => none
  | atMost + 1, cs => do
    match ← skipLines false cs with
    | [] => return r.entries
    | '[' :: cs => do
      let (r, cs) ← r.header? ('[' :: cs)
      r.lines? atMost (← endLine false cs)
    | cs => do
      let (r, cs) ← r.entry? cs
      r.lines? atMost (← endLine false cs)

def Entries.parse? (text : String) : Option Entries :=
  let cs := match text.toList with
    | '\ufeff' :: cs => cs
    | cs => cs
  Reading.lines? ⟨cs.length, [], .empty⟩ (cs.length + 1) cs

end Toml

end DurableLists
