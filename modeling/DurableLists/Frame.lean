import DurableLists.Record
import DurableLists.Checksum

/-!
# Frames

The written form of a record. All numbers are little-endian:

| field                          | octets  |
|--------------------------------|---------|
| checksum of the body           | 4       |
| length of the body             | 4       |
| transaction id                 | 8       |
| timestamp                      | 8       |
| persistence                    | 4       |
| kind                           | 2       |
| data structure                 | 2       |
| status                         | 1       |
| lengths of bucket, key, value  | 4 each  |
| bucket, key, value             | as said |

The body is all that follows the length field. `encode` writes a frame; a length that its field cannot
hold is cut to 32 bits. `decode` reads the frame at the front of a buffer and answers with what it
found and the buffer that it leaves: a frame is taken from the buffer before it is checked, while a
buffer that does not hold the whole frame, or whose length field is too small, is left alone.
-/

set_option autoImplicit false

namespace DurableLists

namespace Frame

def headerLength : Nat := 8

def fixedLength : Nat := 37

/-- The number that stands for lists among data structures. -/
def listTag : UInt16 := 3

def statusTag : Status → UInt8
  | .uncommitted => 0
  | .committed => 1

def status? (tag : UInt8) : Option Status :=
  if tag = 0 then some .uncommitted else if tag = 1 then some .committed else none

/-! ## Writing -/

def body (r : Record) : Bytes :=
  let bucket := Utf8.encode r.bucket
  Bytes.toLE 8 r.txId.toNat ++ Bytes.toLE 8 r.timestamp.toNat ++ Bytes.toLE 4 r.persistence.toNat ++
    Bytes.toLE 2 r.kind.flag.toNat ++ Bytes.toLE 2 listTag.toNat ++ [statusTag r.status] ++
    Bytes.toLE 4 bucket.length ++ Bytes.toLE 4 r.key.length ++ Bytes.toLE 4 r.value.length ++
    bucket ++ r.key ++ r.value

def encode (r : Record) : Bytes :=
  let body := body r
  Bytes.toLE 4 (Checksum.crc32c body).toNat ++ Bytes.toLE 4 body.length ++ body

def encodeAll (rs : List Record) : Bytes := rs.flatMap encode

/-! ## Reading -/

def field (offset width : Nat) (bs : Bytes) : Nat := Bytes.ofLE ((bs.drop offset).take width)

/-- Reads the bucket, the key and the value from the octets after the fixed part, and makes a record of
them and what the fixed part said. -/
def decodeFields (fixed rest : Bytes) (kind : Kind) (status : Status) : Except Corruption Record :=
  let bucketLength := field 25 4 fixed
  let keyLength := field 29 4 fixed
  let valueLength := field 33 4 fixed
  if rest.length ≠ bucketLength + keyLength + valueLength then .error .lengthMismatch
  else
    match Utf8.decode (rest.take bucketLength) with
    | .error fault => .error (.bucketNotUtf8 fault)
    | .ok bucket =>
      .ok {
        bucket
        key := (rest.drop bucketLength).take keyLength
        value := (rest.drop bucketLength).drop keyLength
        kind
        timestamp := UInt64.ofNat (field 8 8 fixed)
        persistence := UInt32.ofNat (field 16 4 fixed)
        txId := UInt64.ofNat (field 0 8 fixed)
        status }

def decodeBody (bs : Bytes) : Except Corruption Record :=
  let flag := UInt16.ofNat (field 20 2 bs)
  let tag := UInt16.ofNat (field 22 2 bs)
  let mark := UInt8.ofNat (field 24 1 bs)
  match Kind.ofFlag? flag with
  | none => .error (.unknownKind flag)
  | some kind =>
    if tag ≠ listTag then .error (.unknownStructure tag)
    else
      match status? mark with
      | none => .error (.unknownStatus mark)
      | some status => decodeFields (bs.take fixedLength) (bs.drop fixedLength) kind status

/-- What stands at the front of a buffer. -/
inductive Found where
  | record (r : Record)
  | incomplete
  | corrupt (cause : Corruption)
  deriving DecidableEq, Repr

def check (checksum : Nat) (bs : Bytes) : Found :=
  if (Checksum.crc32c bs).toNat ≠ checksum then .corrupt .checksumMismatch
  else
    match decodeBody bs with
    | .ok r => .record r
    | .error cause => .corrupt cause

/-- The octets that the frame at the front of a buffer takes, as its length field says. -/
def announced (buffer : Bytes) : Nat := headerLength + field 4 4 buffer

/-- Reads the frame at the front of a buffer and gives the buffer that is left. -/
def decode (buffer : Bytes) : Found × Bytes :=
  let bodyLength := field 4 4 buffer
  let body := (buffer.drop headerLength).take bodyLength
  if (buffer.take headerLength).length < headerLength then (.incomplete, buffer)
  else if bodyLength < fixedLength then (.corrupt (.shortBody bodyLength), buffer)
  else if body.length < bodyLength then (.incomplete, buffer)
  else (check (field 0 4 buffer) body, buffer.drop (announced buffer))

theorem length_decode_of_record {buffer rest : Bytes} {r : Record}
    (h : decode buffer = (.record r, rest)) : rest.length < buffer.length := by
  simp only [decode] at h
  split at h
  · simp at h
  · rename_i hheader
    split at h
    · simp at h
    · split at h
      · simp at h
      · have hrest := congrArg (fun p => p.2.length) h
        simp only [announced, List.length_drop] at hrest
        simp only [List.length_take] at hheader
        have hpositive : headerLength = 8 := rfl
        omega

end Frame

end DurableLists
