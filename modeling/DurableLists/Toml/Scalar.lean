import DurableLists.Toml.Item
import DurableLists.Toml.Date
import DurableLists.Toml.Number

/-!
# Words of TOML

A value that is no string, array or table is a word: a truth value, a date or a number. Two words with
blanks between them are read as one, since a date and a time of day may stand so.
-/

set_option autoImplicit false

namespace DurableLists

namespace Toml

def Item.ofWord? (word : List Char) : Option Item :=
  if word = "true".toList then some (.boolean true)
  else if word = "false".toList then some (.boolean false)
  else if Date.isDate word then some .date
  else (Number.hasValue? word).map .number

namespace Word

def delimiters : List Char :=
  ['=', ',', '[', ']', '\x7b', '\x7d', ' ', '\t', '#', '\r', '\n']

def isWordChar (c : Char) : Bool := !delimiters.contains c

def canBegin (c : Char) : Bool := isWordChar c && c != '"' && c != '\''

/-- The word in front, and a second one after blanks if there is one; and what follows. -/
def split (cs : List Char) : List Char × List Char :=
  let word := cs.takeWhile isWordChar
  let rest := cs.dropWhile isWordChar
  let blanks := rest.takeWhile fun c => c == ' ' || c == '\t'
  let next := rest.drop blanks.length
  if !blanks.isEmpty && next.head?.any canBegin then
    (word ++ blanks ++ next.takeWhile isWordChar, next.dropWhile isWordChar)
  else (word, rest)

def read? (cs : List Char) : Option (Item × List Char) :=
  let (word, rest) := split cs
  (Item.ofWord? word).map fun item => (item, rest)

end Word

end Toml

end DurableLists
