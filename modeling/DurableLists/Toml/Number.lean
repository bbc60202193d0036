/-!
# Numbers of TOML

A word may be written like a number and have no value: there may be no digit after a radix mark, a
character that is no decimal digit after an underscore, or a value out of range. Such a word is taken
for a number, and only its use is an error. `hasValue?` tells the three cases apart.

Underscores stand between digits. An integer has a value if that fits 128 bits, signed or not; a number
with a fraction or an exponent has one if the nearest double is finite.
-/

set_option autoImplicit false

namespace DurableLists

namespace Toml

namespace Number

/-! ## Digits -/

def digit? (c : Char) : Option Nat :=
  if c.isDigit then some (c.toNat - 48)
  else if 'a' ≤ c && c ≤ 'f' then some (c.toNat - 87)
  else if 'A' ≤ c && c ≤ 'F' then some (c.toNat - 55)
  else none

def isDigitOf (base : Nat) (c : Char) : Bool := (digit? c).any fun d => d < base

/-- Whether a character can stand among digits to the given base. -/
def isDigitChar (base : Nat) (c : Char) : Bool := isDigitOf base c || c == '_'

/-- The value of digits to the given base; other characters are passed over. -/
def valueOf (base : Nat) (cs : List Char) : Nat :=
  (cs.filterMap digit?).foldl (fun n d => base * n + d) 0

/-- Whether every underscore stands between two characters that pass a test. -/
def underscoresFit (isDigit : Char → Bool) : List Char → Bool
  | [] => true
  | '_' :: _ => false
  | [_, '_'] => false
  | c :: '_' :: d :: cs => isDigit c && isDigit d && underscoresFit isDigit (d :: cs)
  | _ :: cs => underscoresFit isDigit cs

def hasLeadingZero (cs : List Char) : Bool := cs.head? == some '0' && cs.length != 1

/-! ## Integers -/

def wide : Nat := UInt64.size * UInt64.size

/-- The digits to the given base that follow a radix mark: whether there is a value, if all is well. -/
def prefixed? (base : Nat) (cs : List Char) : Option Bool :=
  if cs.all (isDigitChar base) && underscoresFit (isDigitOf 16) cs then
    some (!cs.isEmpty && valueOf base cs < wide)
  else none

/-- A decimal integer without its sign: whether it has a value, if it is one. The characters after the
first underscore are looked at no further than the underscores need. -/
def decimal? (negative : Bool) (cs : List Char) : Option Bool :=
  if hasLeadingZero cs || !underscoresFit (isDigitOf 16) cs then none
  else
    let limit := if negative then wide / 2 + 1 else wide
    some (cs.all (isDigitChar 10) && valueOf 10 cs < limit)

/-! ## Fractions and exponents -/

/-- The least number that is nearer to `2 ^ 1024` than to the greatest finite double, or as near. -/
def doubleLimit : Nat := 0x3FFFFFFFFFFFFF <<< 970

/-- Whether the double nearest to `digits * 10 ^ exponent` is finite. -/
def isFinite (digits : Nat) (exponent : Int) : Bool :=
  if digits = 0 then true
  else
    match exponent with
    | .ofNat n => n < 400 && digits * Nat.pow 10 n < doubleLimit
    | .negSucc n => digits.log2 < n || digits < doubleLimit * Nat.pow 10 (n + 1)

/-- The digits of a fraction, and what follows; without a decimal point there are none. -/
def fraction? : List Char → Option (List Char × List Char)
  | '.' :: cs =>
    let digits := cs.takeWhile (isDigitChar 10)
    if digits.any (isDigitOf 10) then some (digits, cs.dropWhile (isDigitChar 10)) else none
  | cs => some ([], cs)

/-- The value of an exponent with which a word ends; nothing need be there. -/
def exponent? : List Char → Option Int
  | [] => some 0
  | e :: cs =>
    let (negative, digits) := match cs with
      | '-' :: cs => (true, cs)
      | '+' :: cs => (false, cs)
      | cs => (false, cs)
    if (e == 'e' || e == 'E') && digits.any (isDigitOf 10) && digits.all (isDigitChar 10) then
      let n : Int := valueOf 10 digits
      some (if negative then -n else n)
    else none

/-- A number with a fraction or an exponent, without its sign: whether it has a value, if it is one. -/
def float? (cs : List Char) : Option Bool := do
  let whole := cs.takeWhile (isDigitChar 10)
  let (fraction, rest) ← fraction? (cs.dropWhile (isDigitChar 10))
  let exponent ← exponent? rest
  if !whole.any (isDigitOf 10) || hasLeadingZero whole || !underscoresFit (isDigitOf 10) cs then
    none
  else
    return isFinite (valueOf 10 (whole ++ fraction))
      (exponent - (fraction.filter (isDigitOf 10)).length)

/-! ## Words -/

def base? : Char → Option Nat
  | 'x' => some 16
  | 'o' => some 8
  | 'b' => some 2
  | _ => none

/-- A number without its sign: whether it has a value, if it is one. A word with a blank in it is no
number. -/
def unsigned? (negative : Bool) (cs : List Char) : Option Bool :=
  match cs.dropWhile Char.isDigit with
  | [] => if cs.isEmpty then none else decimal? negative cs
  | rest =>
    if rest.contains ' ' then none
    else if rest.any fun c => c == '.' || c == 'e' || c == 'E' then float? cs
    else if rest.head? = some '_' then decimal? negative cs
    else none

/-- Whether the number that a word is has a value; `none` if the word is no number. -/
def hasValue? (word : List Char) : Option Bool :=
  let (sign, cs) := match word with
    | '+' :: cs => (some '+', cs)
    | '-' :: cs => (some '-', cs)
    | cs => (none, cs)
  if cs = "inf".toList ∨ cs = "nan".toList then some true
  else
    match sign, cs with
    | none, '0' :: mark :: digits =>
      match base? mark with
      | some base => prefixed? base digits
      | none => unsigned? false cs
    | _, _ => unsigned? (sign == some '-') cs

end Number

end Toml

end DurableLists
