import DurableLists.Duration
import DurableLists.Text.Blank

/-!
# Durations as text

A duration is written as numbers with units, the greatest unit first: `1year 2months 3days 4h 5m 6s 7ms
8us 9ns`. A year has 365.25 days and a month is a twelfth of it, rounded to 30.44 days. When a text is
read, the units may come in any order and more than once, blanks may stand anywhere between characters
of a number and between a number and its unit, and a number may have a fraction, if it comes to a whole
number of nanoseconds or, for an hour and more, of seconds. A number, and any product or sum on the way,
has to stay below `2 ^ 64`.
-/

set_option autoImplicit false

namespace DurableLists

namespace Duration

/-! ## Units -/

/-- The units of time. -/
inductive TimeUnit where
  | nanosecond | microsecond | millisecond | second | minute | hour | day | week | month | year
  deriving DecidableEq, Repr

namespace TimeUnit

def ofName? : String → Option TimeUnit
  | "nanos" | "nsec" | "ns" => some .nanosecond
  | "usec" | "us" | "µs" => some .microsecond
  | "millis" | "msec" | "ms" => some .millisecond
  | "seconds" | "second" | "secs" | "sec" | "s" => some .second
  | "minutes" | "minute" | "min" | "mins" | "m" => some .minute
  | "hours" | "hour" | "hr" | "hrs" | "h" => some .hour
  | "days" | "day" | "d" => some .day
  | "weeks" | "week" | "wk" | "wks" | "w" => some .week
  | "months" | "month" | "M" => some .month
  | "years" | "year" | "yr" | "yrs" | "y" => some .year
  | _ => none

/-- The seconds of a unit of a second or more; `none` for a part of a second. -/
def seconds? : TimeUnit → Option Nat
  | .nanosecond | .microsecond | .millisecond => none
  | .second => some 1
  | .minute => some 60
  | .hour => some 3600
  | .day => some 86400
  | .week => some 604800
  | .month => some 2630016
  | .year => some 31557600

/-- The nanoseconds of a unit whose fractions are counted in nanoseconds. -/
def nanoseconds? : TimeUnit → Option Nat
  | .nanosecond => some 1
  | .microsecond => some 1000
  | .millisecond => some 1000000
  | .second => some 1000000000
  | .minute => some 60000000000
  | _ => none

end TimeUnit

/-! ## Reading -/

def word? (n : Nat) : Option Nat := if n < UInt64.size then some n else none

def digit? (c : Char) : Option Nat := if c.isDigit then some (c.toNat - 48) else none

def isUnitChar (c : Char) : Bool := c.isAlpha || c == 'µ'

def plus (d : Duration) (seconds nanoseconds : Nat) : Option Duration := do
  let _ ← word? (d.subsecond + nanoseconds)
  let sum : Duration := ⟨d.nanoseconds + seconds * perSecond + nanoseconds⟩
  let _ ← word? sum.seconds
  return sum

def whole (n : Nat) (unit : TimeUnit) : Option (Nat × Nat) :=
  match unit.seconds?, unit.nanoseconds? with
  | some size, _ => (word? (n * size)).map fun n => (n, 0)
  | none, some size => (word? (n * size)).map fun n => (0, n)
  | none, none => none

def exactly (n denominator : Nat) : Option Nat :=
  if n % denominator = 0 then some (n / denominator) else none

/-- A fraction of a unit, in seconds and nanoseconds. A nanosecond has no fractions, and those of an hour
and more are counted in seconds. -/
def part (numerator denominator : Nat) (unit : TimeUnit) : Option (Nat × Nat) :=
  match unit.nanoseconds?, unit.seconds? with
  | some 1, _ => none
  | some size, _ => do return (0, ← exactly (← word? (numerator * size)) denominator)
  | none, some size => do return (← exactly (← word? (numerator * size)) denominator, 0)
  | none, none => none

/-- Reads on in a number up to its unit, its fraction or the end. -/
def readNumber (n : Nat) : List Char → Option (Nat × List Char)
  | [] => some (n, [])
  | c :: cs =>
    match digit? c with
    | some d => (word? (10 * n + d)).bind fun n => readNumber n cs
    | none =>
      if Blank.isBlankChar c then readNumber n cs
      else if isUnitChar c || c == '.' then some (n, c :: cs)
      else none

/-- Reads on in a fraction up to its unit or the end; there has to be a digit. -/
def readFraction (numerator denominator : Nat) : List Char → Option ((Nat × Nat) × List Char)
  | [] => if denominator = 1 then none else some ((numerator, denominator), [])
  | c :: cs =>
    match digit? c with
    | some d => do
      readFraction (← word? (10 * numerator + d)) (← word? (10 * denominator)) cs
    | none =>
      if Blank.isBlankChar c then readFraction numerator denominator cs
      else if isUnitChar c && denominator != 1 then some ((numerator, denominator), c :: cs)
      else none

/-- Reads the fraction of a number if there is one; without one it is nothing of one. -/
def readPart : List Char → Option (Option (Nat × Nat) × List Char)
  | '.' :: cs => (readFraction 0 1 cs).map fun p => (some p.1, p.2)
  | cs => some (none, cs)

/-- Adds the item whose number starts with the digit `n`; answers the text after it. -/
def readItem (d : Duration) (n : Nat) (cs : List Char) : Option (Duration × List Char) := do
  let (n, cs) ← readNumber n cs
  let (fraction, cs) ← readPart cs
  let unit ← TimeUnit.ofName? (String.ofList (cs.takeWhile isUnitChar))
  let (seconds, nanoseconds) ← whole n unit
  let d ← d.plus seconds nanoseconds
  let d ←
    match fraction with
    | none => some d
    | some (numerator, denominator) => do
      let (seconds, nanoseconds) ← part numerator denominator unit
      d.plus seconds nanoseconds
  return (d, cs.dropWhile isUnitChar)

/-- Adds so many items at most; `none` if one is malformed or some are left. -/
def readItems (d : Duration) : (atMost : Nat) → List Char → Option Duration
  | 0, _ => none
  | atMost + 1, cs =>
    match cs.dropWhile Blank.isBlankChar with
    | [] => some d
    | c :: cs => do
      let (d, cs) ← readItem d (← digit? c) cs
      readItems d atMost cs

def parse? (text : String) : Option Duration :=
  if text = "0" then some ⟨0⟩
  else if Blank.isBlank text then none
  else readItems ⟨0⟩ (text.length + 1) text.toList

/-! ## Writing -/

/-- A number of a unit, if it is not zero; the unit takes an `s` in the plural where it is a word. -/
def item (n : Nat) (unit : String) (isWord : Bool) : List String :=
  if n = 0 then [] else [toString n ++ unit ++ if isWord && n > 1 then "s" else ""]

def render (d : Duration) : String :=
  if d.isZero then "0s"
  else
    let inYear := d.seconds % 31557600
    let inMonth := inYear % 2630016
    let inDay := inMonth % 86400
    " ".intercalate (
      item (d.seconds / 31557600) "year" true ++ item (inYear / 2630016) "month" true ++
      item (inMonth / 86400) "day" true ++ item (inDay / 3600) "h" false ++
      item (inDay % 3600 / 60) "m" false ++ item (inDay % 60) "s" false ++
      item (d.subsecond / 1000000) "ms" false ++ item (d.subsecond / 1000 % 1000) "us" false ++
      item (d.subsecond % 1000) "ns" false)

end Duration

end DurableLists
