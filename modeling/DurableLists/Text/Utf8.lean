import DurableLists.Bytes.LittleEndian

/-!
# UTF-8 text

`encode` writes a text as octets and `decode` reads octets back, refusing ill-formed ones with the
place where reading stopped. `decodeLossy` reads any octets, with one replacement character for each
longest start of a character that does not go on. Both look at the input one `Head` at a time, and
`head` follows the table of well-formed sequences: the first octet fixes the width and the range of
the second octet, and every later octet is a continuation.
-/

set_option autoImplicit false

namespace DurableLists

namespace Utf8

/-- What stands at the front of a nonempty octet string. -/
inductive Head where
  /-- A whole character of the given width. -/
  | scalar (width : Nat)
  /-- So many octets that begin no character, the next octet not fitting them. -/
  | malformed (width : Nat)
  /-- A character that the end of the input cuts short. -/
  | truncated
  deriving DecidableEq, Repr

def isContinuation (b : UInt8) : Bool := 0x80 ≤ b && b ≤ 0xBF

/-- The width announced by a first octet, with the least and greatest second octet; `none` if no
character starts so. -/
def lead (b : UInt8) : Option (Nat × UInt8 × UInt8) :=
  if b ≤ 0x7F then some (1, 0x00, 0xFF)
  else if b < 0xC2 then none
  else if b ≤ 0xDF then some (2, 0x80, 0xBF)
  else if b = 0xE0 then some (3, 0xA0, 0xBF)
  else if b = 0xED then some (3, 0x80, 0x9F)
  else if b ≤ 0xEF then some (3, 0x80, 0xBF)
  else if b = 0xF0 then some (4, 0x90, 0xBF)
  else if b ≤ 0xF3 then some (4, 0x80, 0xBF)
  else if b = 0xF4 then some (4, 0x80, 0x8F)
  else none

/-- Follows a character of which `seen` octets have been read and `owed` are missing. -/
def followed : (seen owed : Nat) → Bytes → Head
  | seen, 0, _ => .scalar seen
  | _, _ + 1, [] => .truncated
  | seen, owed + 1, b :: bs => if isContinuation b then followed (seen + 1) owed bs else .malformed seen

def head (b : UInt8) (rest : Bytes) : Head :=
  match lead b with
  | none => .malformed 1
  | some (0, _, _) => .malformed 1
  | some (1, _, _) => .scalar 1
  | some (width + 2, low, high) =>
    match rest with
    | [] => .truncated
    | c :: rest => if low ≤ c && c ≤ high then followed 2 width rest else .malformed 1

/-- Where the reading of ill-formed text stops. -/
inductive Fault where
  /-- So many octets at the index begin no character. -/
  | malformed (width index : Nat)
  /-- The input ends inside the character at the index. -/
  | truncated (index : Nat)
  deriving DecidableEq, Repr

def Fault.message : Fault → String
  | .malformed width index => s!"invalid utf-8 sequence of {width} bytes from index {index}"
  | .truncated index => s!"incomplete utf-8 byte sequence from index {index}"

/-- The first fault of octets that start at `index`; octets without one are cut at their end. -/
def firstFault (index : Nat) (bs : Bytes) : Fault :=
  match bs with
  | [] => .truncated index
  | b :: rest =>
    match head b rest with
    | .scalar width => firstFault (index + width) (rest.drop (width - 1))
    | .malformed width => .malformed width index
    | .truncated => .truncated index
termination_by bs.length
decreasing_by
  simp only [List.length_cons, List.length_drop]
  omega

def encode (text : String) : Bytes := text.toByteArray.data.toList

def decode (bs : Bytes) : Except Fault String :=
  match String.fromUTF8? (ByteArray.mk bs.toArray) with
  | some text => .ok text
  | none => .error (firstFault 0 bs)

def scalarOf : Bytes → Char
  | [a] => Char.ofNat a.toNat
  | [a, b] => Char.ofNat (a.toNat % 32 * 64 + b.toNat % 64)
  | [a, b, c] => Char.ofNat ((a.toNat % 16 * 64 + b.toNat % 64) * 64 + c.toNat % 64)
  | [a, b, c, d] =>
    Char.ofNat (((a.toNat % 8 * 64 + b.toNat % 64) * 64 + c.toNat % 64) * 64 + d.toNat % 64)
  | _ => '\ufffd'

/-- The characters of any octets, each ill-formed stretch read as one replacement character. -/
def decodeLossy (bs : Bytes) : List Char :=
  match bs with
  | [] => []
  | b :: rest =>
    match head b rest with
    | .scalar width => scalarOf (b :: rest.take (width - 1)) :: decodeLossy (rest.drop (width - 1))
    | .malformed width => '\ufffd' :: decodeLossy (rest.drop (width - 1))
    | .truncated => ['\ufffd']
termination_by bs.length
decreasing_by
  all_goals
    simp only [List.length_cons, List.length_drop]
    omega

end Utf8

end DurableLists
