import DurableLists.Toml.Number

/-!
# Strings of TOML

Four kinds of string: with escapes or without, on one line or on several. A reader gets the characters
after the opening quotes and gives the text and the characters after the closing quotes. In a string on
several lines one or two quotes may stand right before the closing ones. A line break there is a newline
character with or without a carriage return before it, and stays as it is written.
-/

set_option autoImplicit false

namespace DurableLists

namespace Toml

def isAllowed (c : Char) : Bool := (c.toNat ≥ 0x20 || c == '\t') && c.toNat != 0x7F

/-- Whether a line break starts with a character that other characters follow. -/
def startsBreak (c : Char) (cs : List Char) : Bool :=
  c == '\n' || (c == '\r' && cs.head? == some '\n')

namespace Text

/-- Where a string with escapes is being read. -/
inductive Place where
  | plain
  | escape
  /-- Among the digits of a code point: how many are missing, and the value of the others. -/
  | code (missing value : Nat)
  /-- Among blanks after a backslash that has to stand at the end of its line. -/
  | lineEnd
  /-- Among blanks and line breaks after such a line. -/
  | skipping

def escaped? : Char → Option Char
  | 'b' => some '\x08'
  | 't' => some '\t'
  | 'n' => some '\n'
  | 'f' => some '\x0c'
  | 'r' => some '\r'
  | 'e' => some '\x1b'
  | '"' => some '"'
  | '\\' => some '\\'
  | _ => none

def codeLength? : Char → Option Nat
  | 'x' => some 2
  | 'u' => some 4
  | 'U' => some 8
  | _ => none

def char? (code : Nat) : Option Char :=
  if code < 0xD800 ∨ (0xDFFF < code ∧ code < 0x110000) then some (Char.ofNat code) else none

/-- A text and what follows it; the characters are given from the last one on. -/
def finish (reversed : List Char) (rest : List Char) : Option (String × List Char) :=
  some (String.ofList reversed.reverse, rest)

/-- What an escape letter leads to: a character, or the place to read on at. -/
def afterEscape (c : Char) : Option (Sum Char Place) :=
  match escaped? c, codeLength? c with
  | some d, _ => some (.inl d)
  | none, some n => some (.inr (.code n 0))
  | none, none => none

/-- What a backslash leads to in a string on several lines, where it may also hide a line break. -/
def afterBackslash (c : Char) (cs : List Char) : Option (Sum Char Place) :=
  if c = ' ' ∨ c = '\t' then some (.inr .lineEnd)
  else if startsBreak c cs then some (.inr .skipping)
  else afterEscape c

def afterDigit (missing value : Nat) (c : Char) : Option (Sum Char Place) :=
  match Number.digit? c with
  | some d =>
    let value := 16 * value + d
    if missing ≤ 1 then (char? value).map .inl else some (.inr (.code (missing - 1) value))
  | none => none

def readBasic (place : Place) (reversed : List Char) : List Char → Option (String × List Char)
  | [] => none
  | c :: cs =>
    match place with
    | .plain =>
      if c = '"' then finish reversed cs
      else if c = '\\' then readBasic .escape reversed cs
      else if isAllowed c then readBasic .plain (c :: reversed) cs
      else none
    | .escape =>
      match afterEscape c with
      | none => none
      | some (.inl d) => readBasic .plain (d :: reversed) cs
      | some (.inr place) => readBasic place reversed cs
    | .code missing value =>
      match afterDigit missing value c with
      | none => none
      | some (.inl d) => readBasic .plain (d :: reversed) cs
      | some (.inr place) => readBasic place reversed cs
    | .lineEnd | .skipping => none

/-- What follows the closing quotes of a string on several lines, and how many more quotes belong to its
text; the characters are those from the first quote on. -/
def closing (quote : Char) (cs : List Char) : Option (Nat × List Char) :=
  let quotes := min (cs.takeWhile (· == quote)).length 5
  if quotes < 3 then none else some (quotes - 3, cs.drop quotes)

def readMultilineBasic (place : Place) (reversed : List Char) :
    List Char → Option (String × List Char)
  | [] => none
  | c :: cs =>
    match place with
    | .plain =>
      if c = '"' then
        match closing '"' (c :: cs) with
        | some (extra, rest) => finish (List.replicate extra '"' ++ reversed) rest
        | none => readMultilineBasic .plain (c :: reversed) cs
      else if c = '\\' then readMultilineBasic .escape reversed cs
      else if isAllowed c || startsBreak c cs then readMultilineBasic .plain (c :: reversed) cs
      else none
    | .escape =>
      match afterBackslash c cs with
      | none => none
      | some (.inl d) => readMultilineBasic .plain (d :: reversed) cs
      | some (.inr place) => readMultilineBasic place reversed cs
    | .code missing value =>
      match afterDigit missing value c with
      | none => none
      | some (.inl d) => readMultilineBasic .plain (d :: reversed) cs
      | some (.inr place) => readMultilineBasic place reversed cs
    | .lineEnd =>
      if c = ' ' ∨ c = '\t' then readMultilineBasic .lineEnd reversed cs
      else if startsBreak c cs then readMultilineBasic .skipping reversed cs
      else none
    | .skipping =>
      if c = ' ' ∨ c = '\t' ∨ startsBreak c cs then readMultilineBasic .skipping reversed cs
      else if c = '"' then
        match closing '"' (c :: cs) with
        | some (extra, rest) => finish (List.replicate extra '"' ++ reversed) rest
        | none => readMultilineBasic .plain (c :: reversed) cs
      else if c = '\\' then readMultilineBasic .escape reversed cs
      else if isAllowed c then readMultilineBasic .plain (c :: reversed) cs
      else none

def readLiteral (reversed : List Char) : List Char → Option (String × List Char)
  | [] => none
  | c :: cs =>
    if c = '\'' then finish reversed cs
    else if isAllowed c then readLiteral (c :: reversed) cs
    else none

def readMultilineLiteral (reversed : List Char) : List Char → Option (String × List Char)
  | [] => none
  | c :: cs =>
    if c = '\'' then
      match closing '\'' (c :: cs) with
      | some (extra, rest) => finish (List.replicate extra '\'' ++ reversed) rest
      | none => readMultilineLiteral (c :: reversed) cs
    else if isAllowed c || startsBreak c cs then readMultilineLiteral (c :: reversed) cs
    else none

def skipBreak : List Char → List Char
  | '\n' :: cs => cs
  | '\r' :: '\n' :: cs => cs
  | cs => cs

def readLine? : List Char → Option (String × List Char)
  | '"' :: cs => readBasic .plain [] cs
  | '\'' :: cs => readLiteral [] cs
  | _ => none

def read? : List Char → Option (String × List Char)
  | '"' :: '"' :: '"' :: cs => readMultilineBasic .plain [] (skipBreak cs)
  | '\'' :: '\'' :: '\'' :: cs => readMultilineLiteral [] (skipBreak cs)
  | cs => readLine? cs

end Text

end Toml

end DurableLists
