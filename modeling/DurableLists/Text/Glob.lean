/-!
# Glob patterns

A pattern matches a whole text, character by character: `*` stands for any run of characters, `?` for
any one character, and every other character for itself. Nothing is escaped and there are no classes.

The stars cut a pattern into pieces. The first piece has to fit at the front of the text, and the last
one, if there is a star, at its end. A piece between two stars is put at the first place where it fits,
which leaves the most text for the pieces after it; so no other place has to be tried.
-/

set_option autoImplicit false

namespace DurableLists

namespace Glob

def pieces : List Char → List (List Char)
  | [] => [[]]
  | p :: pattern =>
    if p = '*' then [] :: pieces pattern
    else
      match pieces pattern with
      | [] => [[p]]
      | piece :: later => (p :: piece) :: later

def fit? : (piece text : List Char) → Option (List Char)
  | [], text => some text
  | _ :: _, [] => none
  | p :: piece, c :: text => if p = '?' ∨ p = c then fit? piece text else none

def fits (piece text : List Char) : Bool := fit? piece text == some []

def seek? (piece : List Char) : List Char → Option (List Char)
  | [] => fit? piece []
  | c :: text =>
    match fit? piece (c :: text) with
    | some later => some later
    | none => seek? piece text

def fitsEnd (piece text : List Char) : Bool :=
  piece.length ≤ text.length && fits piece (text.drop (text.length - piece.length))

def matchesAfterStar : List (List Char) → List Char → Bool
  | [], _ => true
  | [piece], text => fitsEnd piece text
  | piece :: pieces, text =>
    match seek? piece text with
    | none => false
    | some text => matchesAfterStar pieces text

def matchesText (pattern text : List Char) : Bool :=
  match pieces pattern with
  | [] => text.isEmpty
  | [piece] => fits piece text
  | piece :: pieces =>
    match fit? piece text with
    | none => false
    | some text => matchesAfterStar pieces text

end Glob

end DurableLists
