import Apidoc.Error
import Apidoc.Files.Path

/-!
# Files

Files and directories as a tree, and what the system does with them.

* `Caller`                   who asks the system for something: the directory it is in, and what
  the system refuses it;
* `Entry`                    a file or a directory; the whole tree is a directory, the root;
* `Entry.find`, `Entry.put`  the entry at a place of the tree, and a tree with another one;
* `Entry.locate`             the place that a path leads to, from the root or from the directory
  of the caller;
* `isFile`, `read`, `write`, `createDirs`   the operations on paths;
* `Entry.files`              all files with their paths.

There are no links: each file has one place.
-/

namespace Apidoc

/-! ## callers -/

/-- what the system is asked for -/
inductive Request where
  | look (path : String)
  | read (path : String)
  | write (path : String)
  | makeDirectory (path : String)
  | readInput
deriving DecidableEq, Repr

structure Caller where
  /-- the place of the current directory, where relative paths start -/
  here : List String := []
  /-- Why the system refuses what could be done: a right that is missing, a full disk, a device
  that fails.  Nothing need be refused. -/
  refused : Request → Option SystemFault := fun _ => none

def Caller.ask (c : Caller) (r : Request) : Except SystemFault Unit :=
  match c.refused r with
  | some f => .error f
  | none => .ok ()

/-! ## entries -/

inductive Entry where
  | file (content : ByteArray)
  | directory (entries : List (String × Entry))

namespace Entry

def empty : Entry := .directory []

instance : Inhabited Entry := ⟨empty⟩

def isDirectory : Entry → Bool
  | directory _ => true
  | file _ => false

/-! ## places -/

/-- the entry that the names lead to -/
def find : Entry → List String → Except SystemFault Entry
  | e, [] => .ok e
  | file _, _ :: _ => .error .notDirectory
  | directory es, n :: ns =>
    match es.lookup n with
    | some e => e.find ns
    | none => .error .notFound

/-- puts an entry at a place in a directory that is there -/
def put (new : Entry) : Entry → List String → Except SystemFault Entry
  | _, [] => .ok new
  | file _, _ :: _ => .error .notDirectory
  | directory es, n :: ns =>
    match es.lookup n with
    | some e => do
      let e ← put new e ns
      .ok (.directory (insertBinding n e es))
    | none =>
      if ns.isEmpty then .ok (.directory (insertBinding n new es)) else .error .notFound

/-- Follows the pieces of a path from the place `here`.  Every piece needs a directory to start
from; only the last one may lead to a place where there is nothing. -/
def follow (root : Entry) (here : List String) : List (List Char) → Except SystemFault (List String)
  | [] => .ok here
  | p :: ps => do
    let e ← root.find here
    if !e.isDirectory then .error .notDirectory
    else if p = [] ∨ p = ['.'] then follow root here ps
    else if p = ['.', '.'] then follow root here.dropLast ps
    else follow root (here ++ [.ofList p]) ps

/-- The place that a path leads to.  Absolute paths start at the root and all others in the
directory of the caller; above the root is the root itself. -/
def locate (root : Entry) (path : String) (c : Caller := {}) : Except SystemFault (List String) :=
  if path.isEmpty then .error .notFound
  else
    follow root (if Path.isAbsolute path then [] else c.here) (Text.splitOn '/' path.toList)

def at? (root : Entry) (path : String) (c : Caller := {}) : Except SystemFault Entry := do
  root.find (← root.locate path c)

/-! ## operations

What the tree does not allow fails before the system refuses anything. -/

def look (root : Entry) (path : String) (c : Caller := {}) : Except SystemFault Entry := do
  let e ← root.at? path c
  c.ask (.look path)
  .ok e

def isFile (root : Entry) (path : String) (c : Caller := {}) : Bool :=
  match root.look path c with
  | .ok (file _) => true
  | _ => false

def isDirectoryAt (root : Entry) (path : String) (c : Caller := {}) : Bool :=
  match root.look path c with
  | .ok (directory _) => true
  | _ => false

/-- the text of a file -/
def read (root : Entry) (path : String) (c : Caller := {}) : Except SystemFault String := do
  let e ← root.at? path c
  c.ask (.read path)
  match e with
  | directory _ => .error .isDirectory
  | file b =>
    match String.fromUTF8? b with
    | some s => .ok s
    | none => .error .notText

/-- a path that ends with a slash can only be that of a directory -/
def endsWithSlash (path : String) : Bool := path.toList.getLast? == some '/'

/-- the path without the slashes at its end, unless it is nothing but slashes -/
def withoutSlashes (path : String) : String :=
  let s := (path.toList.reverse.dropWhile (· == '/')).reverse
  if s.isEmpty then path else .ofList s

def write (root : Entry) (path : String) (content : ByteArray) (c : Caller := {}) :
    Except SystemFault Entry := do
  if endsWithSlash path then
    let _ ← root.locate (withoutSlashes path) c
    .error .isDirectory
  else
    let place ← root.locate path c
    match root.find place with
    | .ok (directory _) => .error .isDirectory
    | _ =>
      let root ← put (.file content) root place
      c.ask (.write path)
      .ok root

def createDir (root : Entry) (path : String) (c : Caller := {}) : Except SystemFault Entry := do
  let place ← root.locate (withoutSlashes path) c
  match root.find place with
  | .ok _ => .error .alreadyExists
  | .error _ =>
    let root ← put empty root place
    c.ask (.makeDirectory path)
    .ok root

/-- the directory at `path`, which may be there already -/
def ensureDir (root : Entry) (path : String) (c : Caller := {}) : Except SystemFault Entry :=
  match root.createDir path c with
  | .error f => if root.isDirectoryAt path c then .ok root else .error f
  | .ok root => .ok root

/-- A directory and those that it is in.  The number bounds the steps of the path. -/
def createDirsWithin (c : Caller) : Nat → Entry → String → Except SystemFault Entry
  | 0, _, _ => .error .notFound
  | fuel + 1, root, path =>
    if path.isEmpty then .ok root
    else
      match root.ensureDir path c with
      | .error .notFound =>
        match Path.parent? path with
        | none => .error (.other "failed to create whole tree")
        | some parent => do
          let root ← createDirsWithin c fuel root parent
          root.ensureDir path c
      | r => r

def createDirs (root : Entry) (path : String) (c : Caller := {}) : Except SystemFault Entry :=
  createDirsWithin c (path.length + 1) root path

/-! ## listing -/

mutual

/-- all files below, with their paths; `place` is the path so far -/
def filesFrom (place : String) : Entry → List (String × ByteArray)
  | file b => [(place, b)]
  | directory es => filesOf place es

def filesOf (place : String) : List (String × Entry) → List (String × ByteArray)
  | [] => []
  | (n, e) :: es =>
    filesFrom (if place.isEmpty then n else place ++ "/" ++ n) e ++ filesOf place es

end

def files (root : Entry) : List (String × ByteArray) := filesFrom "" root

end Entry

end Apidoc
