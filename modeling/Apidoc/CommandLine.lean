import Apidoc.Format
import Apidoc.Text.Split

/-!
# The command line

    parse [options] FILE       prints what a docstring says
    build [options] MANIFEST   prints the document that a manifest describes

* `Arguments`          what a run is asked to do;
* `Stop`               why there is nothing to do: help was asked for, or the usage is wrong;
* `Arguments.read`     the arguments in a list of words.

Words are read from left to right, and the first one that asks for help or is wrong decides.
-/

namespace Apidoc

/-! ## what is asked for -/

inductive Command where
  /-- `model` is the name of the model that the docstring documents, if it does -/
  | parse (file : String) (model : Option String)
  | build (manifest : String)
deriving DecidableEq, Repr

structure Arguments where
  command : Command
  verbose : Bool
  format : Format
  /-- the file to write, if it is not the standard output -/
  output : Option String
deriving DecidableEq, Repr

/-- what a command reads -/
def Command.input : Command → String
  | parse file _ => file
  | build manifest => manifest

inductive Stop where
  | help
  | version
  | usage
deriving DecidableEq, Repr

/-- the exit code -/
def Stop.code : Stop → Nat
  | help => 0
  | version => 0
  | usage => 2

/-! ## options -/

/-- an option that has a value -/
inductive Setting where
  | format
  | output
  | model
deriving DecidableEq, Repr

/-- what was read of the words after a command -/
structure Draft where
  /-- whether the docstring may be that of a model -/
  takesModel : Bool
  input : Option String := none
  model : Option String := none
  format : Option Format := none
  output : Option String := none
  verbose : Bool := false
deriving DecidableEq, Repr

namespace Draft

def formatOf? (s : String) : Option Format :=
  if s = "yaml" then some .yaml else if s = "json" then some .json else none

/-- sets what is not set yet -/
def setOnce {α : Type} (old : Option α) (new : α) : Except Stop (Option α) :=
  match old with
  | none => .ok (some new)
  | some _ => .error .usage

/-- gives a setting its value, which it has none yet -/
def set (d : Draft) (k : Setting) (v : String) : Except Stop Draft :=
  match k with
  | .format =>
    match formatOf? v with
    | some f => do .ok { d with format := ← setOnce d.format f }
    | none => .error .usage
  | .output =>
    if v.isEmpty then .error .usage else do .ok { d with output := ← setOnce d.output v }
  | .model => do .ok { d with model := ← setOnce d.model v }

/-- the one word that is no option -/
def setInput (d : Draft) (v : String) : Except Stop Draft :=
  if v.isEmpty then .error .usage else do .ok { d with input := ← setOnce d.input v }

def setVerbose (d : Draft) : Except Stop Draft :=
  if d.verbose then .error .usage else .ok { d with verbose := true }

/-! ## words -/

/-- what a word of the command line is -/
inductive Word where
  /-- two dashes, after which no word is an option -/
  | rest
  /-- `--name` or `--name=value` -/
  | long (name : List Char) (value : Option (List Char))
  /-- letters after a single dash -/
  | short (letters : List Char)
  | plain (s : String)
deriving DecidableEq, Repr

def Word.of (s : String) : Word :=
  match s.toList with
  | ['-', '-'] => .rest
  | '-' :: '-' :: s =>
    match Text.cutAt '=' s with
    | some (name, value) => .long name (some value)
    | none => .long s none
  | '-' :: c :: s => .short (c :: s)
  | _ => .plain s

/-- the setting that a long option names -/
def longSetting? (d : Draft) (name : List Char) : Option Setting :=
  if name = "format".toList then some .format
  else if name = "output".toList then some .output
  else if name = "schema".toList ∧ d.takesModel then some .model
  else none

def shortSetting? (c : Char) : Option Setting :=
  if c = 'f' then some .format else if c = 'o' then some .output else none

/-- The letters after a dash.  A setting takes the letters after it as its value; if there are
none, it waits for one. -/
def readLetters (d : Draft) : List Char → Except Stop (Draft × Option Setting)
  | [] => .ok (d, none)
  | c :: s =>
    if c = 'h' then .error .help
    else if c = 'v' then do readLetters (← d.setVerbose) s
    else
      match shortSetting? c with
      | none => .error .usage
      | some k =>
        match s with
        | [] => .ok (d, some k)
        | '=' :: v => do .ok (← d.set k (.ofList v), none)
        | v => do .ok (← d.set k (.ofList v), none)

/-- a long option; a setting without a value waits for one -/
def readLong (d : Draft) (name : List Char) (value : Option (List Char)) :
    Except Stop (Draft × Option Setting) :=
  if name = "help".toList then .error (if value.isNone then .help else .usage)
  else if name = "verbose".toList then
    if value.isNone then do .ok (← d.setVerbose, none) else .error .usage
  else
    match d.longSetting? name with
    | none => .error .usage
    | some k =>
      match value with
      | some v => do .ok (← d.set k (.ofList v), none)
      | none => .ok (d, some k)

/-- the words after a command; `waiting` is a setting whose value comes next -/
def readWords (d : Draft) (waiting : Option Setting) : List String → Except Stop Draft
  | [] => if waiting.isSome then .error .usage else .ok d
  | w :: ws =>
    match waiting, Word.of w with
    | some k, .plain v => do readWords (← d.set k v) none ws
    | some _, _ => .error .usage
    | none, .plain v => do readWords (← d.setInput v) none ws
    | none, .rest => ws.foldlM setInput d
    | none, .long name value => do
      let (d, waiting) ← d.readLong name value
      readWords d waiting ws
    | none, .short letters => do
      let (d, waiting) ← d.readLetters letters
      readWords d waiting ws

end Draft

/-! ## commands -/

namespace Arguments

/-- the words after `parse` -/
def readParse (verbose : Bool) (ws : List String) : Except Stop Arguments := do
  let d ← Draft.readWords { takesModel := true } none ws
  match d.input with
  | none => .error .usage
  | some file =>
    .ok { command := .parse file d.model, verbose := verbose || d.verbose
          format := d.format.getD .yaml, output := d.output }

/-- the words after `build` -/
def readBuild (verbose : Bool) (ws : List String) : Except Stop Arguments := do
  let d ← Draft.readWords { takesModel := false } none ws
  match d.input with
  | none => .error .usage
  | some manifest =>
    .ok { command := .build manifest, verbose := verbose || d.verbose
          format := d.format.getD .yaml, output := d.output }

/-- help about everything or about one command -/
def readHelp : List String → Stop
  | [] => .help
  | [w] => if ["parse", "build", "help"].contains w then .help else .usage
  | _ => .usage

/-- letters after a dash, before the command; whether the run is verbose after them -/
def readLetters (verbose : Bool) : List Char → Except Stop Bool
  | [] => .ok verbose
  | c :: s =>
    if c = 'h' then .error .help
    else if c = 'V' then .error .version
    else if c = 'v' ∧ !verbose then readLetters true s
    else .error .usage

/-- a long option before the command -/
def readLong (verbose : Bool) (name : List Char) : Except Stop Bool :=
  if name = "help".toList then .error .help
  else if name = "version".toList then .error .version
  else if name = "verbose".toList ∧ !verbose then .ok true
  else .error .usage

/-- all words, after some that made the run verbose or not -/
def readWords (verbose : Bool) : List String → Except Stop Arguments
  | [] => .error .usage
  | w :: ws =>
    match Draft.Word.of w with
    | .plain "parse" => readParse verbose ws
    | .plain "build" => readBuild verbose ws
    | .plain "help" => .error (readHelp ws)
    | .long name none => do readWords (← readLong verbose name) ws
    | .short letters => do readWords (← readLetters verbose letters) ws
    | _ => .error .usage

def read (ws : List String) : Except Stop Arguments := readWords false ws

end Arguments

end Apidoc
