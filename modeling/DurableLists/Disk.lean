import Std.Data.ExtTreeMap
import DurableLists.Error
import DurableLists.Bytes.LittleEndian

/-!
# Files

A small file system: directories, regular files, and two devices, one that takes every octet and keeps
none and one that has no room for any. A path is a list of parts between slashes, walked from the root
or, if no slash is in front, from the working directory; every part but the last has to name a directory
that exists.

A regular file answers its writes and syncs by `Answers`, which fix in advance which requests fail and
how; those of a file that is created later are a part of the file system. A write may fail after it has let
some octets through, and the creation of nested directories after it has created some of them.
-/

set_option autoImplicit false

namespace DurableLists

/-- How a file answers the requests made to it, numbered from the first one on. -/
structure Answers where
  /-- Whether a write fails: how many octets it lets through first, and the cause. -/
  write : Nat → Option (Nat × IoError)
  sync : Nat → Option IoError

def Answers.reliable : Answers := ⟨fun _ => none, fun _ => none⟩

/-- A regular file. -/
structure File where
  content : Bytes
  answers : Answers
  /-- How many writes and syncs have been asked for. -/
  asked : Nat

def File.create (content : Bytes) : File := ⟨content, .reliable, 0⟩

/-- What a path can lead to. -/
inductive Node where
  | directory
  | regular (file : File)
  | null
  /-- The device that has no room, and that reads as endless zero octets. -/
  | full

/-- A place in the file system: the names that lead to it from the root. -/
abbrev Location := List String

/-- A file system. -/
structure Disk where
  nodes : Std.ExtTreeMap Location Node compare
  /-- How files answer that are created later. -/
  created : Answers

namespace Disk

def workingDirectory : Location := ["home", "work"]

def fresh : Disk where
  nodes := Std.ExtTreeMap.ofList
    [([], Node.directory), (["dev"], Node.directory), (["dev", "null"], Node.null),
      (["dev", "full"], Node.full), (["home"], Node.directory), (workingDirectory, Node.directory)]
  created := .reliable

def node? (d : Disk) (place : Location) : Option Node := d.nodes[place]?

def put (d : Disk) (place : Location) (node : Node) : Disk := { d with nodes := d.nodes.insert place node }

/-! ## Paths -/

/-- The place that one part of a path leads to from a place; nothing is above the root. -/
def follow (place : Location) (part : String) : Location :=
  if part = "." then place
  else if part = ".." then place.dropLast
  else place ++ [part]

def walk (d : Disk) (place : Location) : List String → Except IoError Location
  | [] => .ok place
  | part :: parts =>
    match d.node? place with
    | none => .error .notFound
    | some .directory => walk d (follow place part) parts
    | some _ => .error .notADirectory

def origin (path : String) : Location := if path.startsWith "/" then [] else workingDirectory

def parts (path : String) : List String := (path.splitOn "/").filter fun part => part ≠ ""

/-- Whether a path ends in a slash, and so can only name a directory. -/
def namesDirectory (path : String) : Bool := path.endsWith "/"

/-- The place that a path leads to; the last part need not exist. -/
def locate (d : Disk) (path : String) : Except IoError Location :=
  if path.isEmpty then .error .notFound else walk d (origin path) (parts path)

def find (d : Disk) (path : String) : Except IoError (Location × Node) := do
  let place ← d.locate path
  match d.node? place with
  | none => throw .notFound
  | some .directory => return (place, .directory)
  | some node => if namesDirectory path then throw .notADirectory else return (place, node)

/-! ## Directories -/

def createDirectory (d : Disk) (origin : Location) (parts : List String) : Except IoError Disk := do
  let place ← d.walk origin parts
  match d.node? place with
  | some _ => throw .alreadyExists
  | none => return d.put place .directory

def isDirectory (d : Disk) (origin : Location) (parts : List String) : Bool :=
  match d.walk origin parts with
  | .error _ => false
  | .ok place =>
    match d.node? place with
    | some .directory => true
    | _ => false

/-- Creates a directory and the directories above it that are missing; the parts are given from the
innermost outwards. A directory that exists is left as it is. Answers why it went no further, if so; the
directories created until then stay. -/
def createDirectories (d : Disk) (origin : Location) : List String → Option IoError × Disk
  | [] => (none, d)
  | part :: outer =>
    let path := (part :: outer).reverse
    match d.createDirectory origin path with
    | .ok d => (none, d)
    | .error .notFound =>
      match d.createDirectories origin outer with
      | (some cause, d) => (some cause, d)
      | (none, d) =>
        match d.createDirectory origin path with
        | .ok d => (none, d)
        | .error cause => (if d.isDirectory origin path then none else some cause, d)
    | .error cause => (if d.isDirectory origin path then none else some cause, d)

def createParents (d : Disk) (path : String) : Option IoError × Disk :=
  d.createDirectories (origin path) ((parts path).filter (· ≠ ".")).dropLast.reverse

/-! ## Reading -/

/-- How much is read of something at once. -/
def chunkSize : Nat := 8192

def chunks (size : Nat) (bs : Bytes) : List Bytes :=
  if _ : bs = [] ∨ size = 0 then []
  else bs.take size :: chunks size (bs.drop size)
termination_by bs.length
decreasing_by
  rename_i h
  have hpos : bs.length ≠ 0 := fun e => h (.inl (List.eq_nil_of_length_eq_zero e))
  simp only [List.length_drop]
  omega

/-- The chunks that reading something to its end gives. Of an endless device the first chunk stands for
all, as they are alike. -/
def readChunks : Node → Except IoError (List Bytes)
  | .directory => .error .isADirectory
  | .regular file => .ok (chunks chunkSize file.content)
  | .null => .ok []
  | .full => .ok [List.replicate chunkSize 0]

def directorySize : Nat := 4096

/-- The length that is kept about something, which can be told without reading it: a device has none. -/
def reportedLength : Node → Nat
  | .directory => directorySize
  | .regular file => file.content.length
  | .null | .full => 0

def length (d : Disk) (path : String) : Except IoError Nat := do
  let (_, node) ← d.find path
  return reportedLength node

def read (d : Disk) (path : String) : Except IoError Bytes := do
  let (_, node) ← d.find path
  return (← readChunks node).flatten

/-! ## Writing -/

/-- The place of a file opened for appending, created empty if it is missing; the path may not be one
that can only name a directory. -/
def openAppend (d : Disk) (path : String) : Except IoError (Location × Disk) := do
  let place ← d.locate path
  if namesDirectory path then throw .isADirectory
  match d.node? place with
  | some .directory => throw .isADirectory
  | some _ => return (place, d)
  | none => return (place, d.put place (.regular ⟨[], d.created, 0⟩))

/-- Puts a file with the given content where a path leads, in place of the content of a file there. -/
def write (d : Disk) (path : String) (content : Bytes) : Except IoError Disk := do
  let (place, d) ← d.openAppend path
  match d.node? place with
  | some (.regular file) => return d.put place (.regular { file with content })
  | some .full => if content.isEmpty then return d else throw .noSpace
  | _ => return d

def truncate (d : Disk) (place : Location) (length : Nat) : Disk :=
  match d.node? place with
  | some (.regular file) =>
    d.put place (.regular { file with content := file.content.take length })
  | _ => d

/-- Hands octets to the end of a file. Answers how many it took and why it took no more, if so. -/
def append (d : Disk) (place : Location) (bs : Bytes) : (Nat × Option IoError) × Disk :=
  match d.node? place with
  | some (.regular file) =>
    match file.answers.write file.asked with
    | none =>
      ((bs.length, none),
        d.put place (.regular ⟨file.content ++ bs, file.answers, file.asked + 1⟩))
    | some (taken, cause) =>
      ((min taken bs.length, some cause),
        d.put place (.regular ⟨file.content ++ bs.take taken, file.answers, file.asked + 1⟩))
  | some .full => ((0, some .noSpace), d)
  | some .null => ((bs.length, none), d)
  | some .directory | none => ((0, some .isADirectory), d)

def sync (d : Disk) (place : Location) : Option IoError × Disk :=
  match d.node? place with
  | some (.regular file) =>
    (file.answers.sync file.asked,
      d.put place (.regular { file with asked := file.asked + 1 }))
  | _ => (some .invalidArgument, d)

end Disk

end DurableLists
