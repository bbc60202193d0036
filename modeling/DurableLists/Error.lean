import DurableLists.Text.Utf8
import DurableLists.Text.Decimal
import DurableLists.IndexSet

/-!
# Failures

One type for every way in which a call of the library fails, by cause. `Error.message` gives the
wording, and two errors count as the same (`Error.alike`) if they are of one kind and read alike.
-/

set_option autoImplicit false

namespace DurableLists

/-! ## Files -/

/-- Why the file system refuses a request. -/
inductive IoError where
  | notFound
  | notADirectory
  | alreadyExists
  | isADirectory
  | noSpace
  | invalidArgument
  /-- The contents that should be text are not. -/
  | notText
  | other (text : String)
  deriving DecidableEq, Repr

def IoError.message : IoError → String
  | .notFound => "No such file or directory (os error 2)"
  | .notADirectory => "Not a directory (os error 20)"
  | .alreadyExists => "File exists (os error 17)"
  | .isADirectory => "Is a directory (os error 21)"
  | .noSpace => "No space left on device (os error 28)"
  | .invalidArgument => "Invalid argument (os error 22)"
  | .notText => "stream did not contain valid UTF-8"
  | .other text => text

/-! ## Records and frames -/

/-- Why the payload of a record is no command. -/
inductive Malformation where
  | notInteger (fault : Decimal.Fault)
  | notUtf8 (fault : Utf8.Fault)
  | notIndexSet (fault : Varint.Fault)
  | trailingBytes (count : Nat)
  | countWithoutSeparator
  | keyWithoutSeparator
  | other (text : String)
  deriving DecidableEq, Repr

def Malformation.message : Malformation → String
  | .notInteger fault => "invalid integer field: " ++ fault.message
  | .notUtf8 fault => "invalid utf-8 field: " ++ fault.message
  | .notIndexSet fault => "invalid index set: " ++ fault.message
  | .trailingBytes count => s!"{count} trailing bytes after index set"
  | .countWithoutSeparator => "lrem payload has no separator"
  | .keyWithoutSeparator => "composite key has no separator"
  | .other text => text

/-- Why the octets of a log are no frame. -/
inductive Corruption where
  | shortBody (length : Nat)
  | checksumMismatch
  | unknownKind (flag : UInt16)
  | unknownStructure (tag : UInt16)
  | unknownStatus (status : UInt8)
  | lengthMismatch
  | bucketNotUtf8 (fault : Utf8.Fault)
  | other (text : String)
  deriving DecidableEq, Repr

def Corruption.message : Corruption → String
  | .shortBody length => s!"frame body of {length} bytes is shorter than the fixed header"
  | .checksumMismatch => "checksum mismatch"
  | .unknownKind flag => s!"unknown mutation flag {flag}"
  | .unknownStructure tag => s!"unknown data structure tag {tag}"
  | .unknownStatus status => s!"unknown record status {status}"
  | .lengthMismatch => "field lengths do not match frame length"
  | .bucketNotUtf8 fault => "bucket is not utf-8: " ++ fault.message
  | .other text => text

/-! ## Errors -/

/-- The kinds of failure. -/
inductive ErrorKind where
  | io | transactionClosed | transactionNotWritable | bucketNotFound | keyNotFound
  | separatorViolation | countOutOfRange | indexOutOfRange | invalidRange | emptyList
  | marshalFailure | malformedRecord | logCorrupted | readOnly | internal
  deriving DecidableEq, Repr

/-- A failure and its cause. -/
inductive Error where
  | io (cause : IoError)
  | transactionClosed
  | transactionNotWritable
  | bucketNotFound
  | keyNotFound
  | separatorViolation
  | countOutOfRange
  | indexOutOfRange
  | invalidRange
  | emptyList
  | marshalFailure (text : String)
  | malformedRecord (cause : Malformation)
  | logCorrupted (cause : Corruption)
  | readOnly (text : String)
  | internal (text : String)
  deriving DecidableEq, Repr

namespace Error

/-- The kind of a failure. -/
def kind : Error → ErrorKind
  | .io _ => .io
  | .transactionClosed => .transactionClosed
  | .transactionNotWritable => .transactionNotWritable
  | .bucketNotFound => .bucketNotFound
  | .keyNotFound => .keyNotFound
  | .separatorViolation => .separatorViolation
  | .countOutOfRange => .countOutOfRange
  | .indexOutOfRange => .indexOutOfRange
  | .invalidRange => .invalidRange
  | .emptyList => .emptyList
  | .marshalFailure _ => .marshalFailure
  | .malformedRecord _ => .malformedRecord
  | .logCorrupted _ => .logCorrupted
  | .readOnly _ => .readOnly
  | .internal _ => .internal

def message : Error → String
  | .io cause => "IO Error: " ++ cause.message
  | .transactionClosed => "Transaction has already been committed or rolled back"
  | .transactionNotWritable => "Transaction is read-only"
  | .bucketNotFound => "Bucket not found"
  | .keyNotFound => "Key not found"
  | .separatorViolation => "List key contains the reserved separator (|)"
  | .countOutOfRange => "Count is out of range"
  | .indexOutOfRange => "Index is out of range"
  | .invalidRange => "Start or end of range is invalid"
  | .emptyList => "List is empty"
  | .marshalFailure text => "Failed to marshal command payload: " ++ text
  | .malformedRecord cause => "Malformed command record: " ++ cause.message
  | .logCorrupted cause => "Command log is corrupted: " ++ cause.message
  | .readOnly text => "READONLY " ++ text
  | .internal text => "Internal Error: " ++ text

def alike (a b : Error) : Bool := a.kind == b.kind && a.message == b.message

def ofIndexSet : IndexSet.Fault → Error
  | .number fault => .malformedRecord (.notIndexSet fault)
  | .trailing count => .malformedRecord (.trailingBytes count)

def latched : Error := .readOnly "command log rejected writes after a failed append"

end Error

end DurableLists
