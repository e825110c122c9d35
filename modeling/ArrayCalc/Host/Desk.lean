import ArrayCalc.Bindings
import ArrayCalc.Host

/-!
# Desks

A desk is a host in memory: a folder without subfolders, the input that is left, and what has been
written so far.
-/

namespace ArrayCalc

structure Desk where
  /-- The bytes of the files by name. -/
  files : Bindings (List UInt8)
  input : String
  output : String
  errors : String
deriving DecidableEq

namespace Desk

def empty : Desk := ⟨.empty, "", "", ""⟩

/-- Where a path leads in a folder. -/
inductive Location where
  | folder
  /-- The name of a file that is there or can be made. -/
  | file (name : String)
  /-- A file name with a slash behind it. -/
  | fileAsFolder (name : String)

/-- The longest name of a file, in bytes. -/
def longestName : Nat := 255

/-- The longest path, in bytes. -/
def longestPath : Nat := 4095

/-- Follows the parts of a path. -/
def follow (files : Bindings (List UInt8)) : List String → Except FileError Location
  | [] => .ok .folder
  | part :: rest =>
    if part = "" ∨ part = "." then follow files rest
    else if part = ".." then
      if rest.all fun other => ["", ".", ".."].contains other then .ok .folder else .error .missing
    else if longestName < part.utf8ByteSize then .error .nameTooLong
    else if rest.isEmpty then .ok (.file part)
    else if rest.all (· = "") then .ok (.fileAsFolder part)
    else .error (if files.contains part then .notDirectory else .missing)

/-- Where a path leads.  Outside its folder a desk has nothing but folders on the way. -/
def locate (files : Bindings (List UInt8)) (path : String) : Except FileError Location :=
  let parts := path.splitOn "/"
  if longestPath < path.utf8ByteSize then .error .nameTooLong
  else if path = "" then .error .missing
  else if parts.head? = some "" then follow files (".." :: parts)
  else follow files parts

def read (desk : Desk) (path : String) : Except FileError (List UInt8) := do
  match ← locate desk.files path with
  | .folder => .error .isDirectory
  | .file name =>
    match desk.files.get? name with
    | some bytes => return bytes
    | none => .error .missing
  | .fileAsFolder name =>
    .error (if desk.files.contains name then .notDirectory else .missing)

def write (desk : Desk) (path text : String) : Except FileError Desk := do
  match ← locate desk.files path with
  | .file name => return { desk with files := desk.files.insert name text.toUTF8.toList }
  | .folder | .fileAsFolder _ => .error .isDirectory

instance : Host (StateM Desk) where
  print text := modify fun desk => { desk with output := desk.output ++ text }
  report text := modify fun desk => { desk with errors := desk.errors ++ text }
  readFile path := do return (← get).read path
  writeFile path text := do
    match (← get).write path text with
    | .ok desk =>
      set desk
      return .ok ()
    | .error e => return .error e
  readInput := modifyGet fun desk => (desk.input, { desk with input := "" })
  isInteractive := return false

end Desk

end ArrayCalc
