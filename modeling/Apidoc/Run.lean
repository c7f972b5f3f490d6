import Apidoc.CommandLine
import Apidoc.Files
import Apidoc.Manifest

/-!
# Running

What a command does is written once, for any `Host` that has files and streams; one such host
is a `World` of pure data.

* `Host`           what a command needs of its surroundings;
* `Failure`        why a command fails, and `Failure.chain`, the messages from the outermost to
  that of the root cause;
* `loadManifest`, `writeFile`   the manifest in a file, and a file with its directories;
* `run`            a whole command: it reads its input, and then writes its result;
* `World`, `World.host`   the tree of all files, the current directory in it, what the system
  refuses, standard input and output as data.
-/

namespace Apidoc

structure Host (m : Type → Type) where
  isFile : String → m Bool
  read : String → m (Except SystemFault String)
  /-- all of the standard input -/
  readInput : m (Except SystemFault String)
  createDirs : String → m (Except SystemFault Unit)
  write : (path text : String) → m (Except SystemFault Unit)
  /-- writes to the standard output -/
  print : String → m Unit

inductive Failure where
  | missingInput (path : String)
  | blankModelName
  | unreadableInput (f : SystemFault)
  | unreadableFile (path : String) (f : SystemFault)
  | manifest (path : String) (e : Error)
  | library (e : Error)
  | directory (path : String) (f : SystemFault)
  | unwritableFile (path : String) (f : SystemFault)
deriving DecidableEq, Repr

def Failure.chain : Failure → List String
  | missingInput path => ["Input file does not exist: " ++ path]
  | blankModelName => ["Schema name must not be empty"]
  | unreadableInput f => ["Failed to read docstring from stdin", f.message]
  | unreadableFile path f => ["Failed to read " ++ path, f.message]
  | manifest path e => ("Failed to load manifest: " ++ path) :: e.chain
  | library e => e.chain
  | directory path f => ["Failed to create directory: " ++ path, f.message]
  | unwritableFile path f => ["Failed to write to file: " ++ path, f.message]

section
variable {m : Type → Type} [Monad m]

/-! ## files -/

/-- the path that stands for the standard input -/
def inputPath : String := "-"

/-- JSON in files whose names say so, and YAML in all others -/
def languageOf (path : String) : Syntax :=
  if Path.hasExtension path "json" then .json else .yaml

/-- the manifest that a text in the file `path` is, if nothing is wrong with it -/
def readManifest (path text : String) : Except Error Manifest := do
  let manifest ← (Manifest.read (languageOf path) text).mapError (·.inManifest path)
  match manifest.problem? with
  | some p => .error (.manifest path p)
  | none => .ok manifest

def loadManifest (h : Host m) (path : String) : m (Except Error Manifest) := do
  match ← h.read path with
  | .error f => return .error (.system f)
  | .ok text => return readManifest path text

/-- writes a file and creates the directories that it is in -/
def writeFile (h : Host m) (path text : String) : m (Except Failure Unit) := do
  let write : m (Except Failure Unit) := do
    return (← h.write path text).mapError (.unwritableFile path)
  match Path.parent? path with
  | none => write
  | some parent =>
    match ← h.createDirs parent with
    | .error f => return .error (.directory parent f)
    | .ok _ => write

/-! ## commands -/

/-- the docstring that a path leads to -/
def readDocstring (h : Host m) (path : String) : m (Except Failure String) := do
  if Path.same path inputPath then return (← h.readInput).mapError .unreadableInput
  else return (← h.read path).mapError (.unreadableFile path)

/-- what a docstring says, as an operation or as a model -/
def describe (model : Option String) (doc : String) : Value :=
  match model with
  | none => (OperationDoc.ofText doc).encode
  | some name => (ModelDoc.ofText name doc).encode

/-- the result of a command -/
def result (h : Host m) (c : Command) : m (Except Failure Value) := do
  match c with
  | .parse file model => return (← readDocstring h file).map (describe model)
  | .build path =>
    match ← loadManifest h path with
    | .error e => return .error (.manifest path e)
    | .ok manifest => return manifest.document.map Document.encode |>.mapError .library

/-- what is wrong with a command before anything is read -/
def check (h : Host m) (c : Command) : m (Except Failure Unit) := do
  if !Path.same c.input inputPath && !(← h.isFile c.input) then
    return .error (.missingInput c.input)
  match c with
  | .parse _ (some name) =>
    return if Manifest.isBlank name then .error .blankModelName else .ok ()
  | _ => return .ok ()

/-- writes a text to a file, or prints it with a line break after it -/
def emit (h : Host m) (output : Option String) (text : String) : m (Except Failure Unit) := do
  match output with
  | some path => writeFile h path text
  | none =>
    h.print (text ++ "\n")
    return .ok ()

def run (h : Host m) (a : Arguments) : m (Except Failure Unit) := do
  match ← check h a.command with
  | .error f => return .error f
  | .ok _ =>
    match ← result h a.command with
    | .error f => return .error f
    | .ok v => emit h a.output (a.format.print v)

end

/-! ## pure hosts -/

structure World where
  /-- the whole tree, from its root -/
  files : Entry := .empty
  /-- who runs commands: the directory they are run in, and what the system refuses them -/
  caller : Caller := {}
  input : ByteArray := .empty
  output : String := ""

namespace World

/-- the standard input as a text -/
def inputText (w : World) : Except SystemFault String := do
  w.caller.ask .readInput
  match String.fromUTF8? w.input with
  | some s => .ok s
  | none => .error .notText

/-- changes the files, unless that fails -/
def change (f : Caller → Entry → Except SystemFault Entry) :
    StateM World (Except SystemFault Unit) := do
  let w ← get
  match f w.caller w.files with
  | .error e => return .error e
  | .ok files =>
    set { w with files }
    return .ok ()

def host : Host (StateM World) where
  isFile path := return (← get).files.isFile path (← get).caller
  read path := return (← get).files.read path (← get).caller
  readInput := return (← get).inputText
  createDirs path := change fun c root => root.createDirs path c
  write path text := change fun c root => root.write path text.toUTF8 c
  print s := modify fun w => { w with output := w.output ++ s }

end World

end Apidoc
