import Apidoc.Run
import Apidoc.Proofs.FileContents

/-!
# What a run leaves behind

* `World.docstring`, `World.answer`   the result of a command, from the files and the input of a
  world, or why there is none;
* `World.SameFiles`                   all files have the content that they had;
* `World.Leaves`                      how a run may end, and what it leaves behind then.

All that is read before the output is written leaves the world alone (`run_check`, `run_result`).
A world also says in which directory the command is run and what the system refuses it, so the
statements are about every directory and about all rights to files.

Main statement: a run that fails changes no file and prints nothing; one that succeeds prints its
result or writes it to the output file, and changes nothing else (`leaves_run`).
-/

namespace Apidoc

open Entry (content? saved)

namespace World

/-! ## results -/

/-- the docstring that a path leads to -/
def docstring (w : World) (path : String) : Except Failure String :=
  if Path.same path inputPath then w.inputText.mapError .unreadableInput
  else (w.files.read path w.caller).mapError (.unreadableFile path)

/-- the document of the manifest in a file -/
def manifestDocument (w : World) (path : String) : Except Failure Value :=
  match w.files.read path w.caller with
  | .error f => .error (.manifest path (.system f))
  | .ok text =>
    match readManifest path text with
    | .error e => .error (.manifest path e)
    | .ok manifest => (manifest.document.map Document.encode).mapError .library

/-- whether there is anything to read, and a name for a model -/
def problem? (w : World) (c : Command) : Option Failure :=
  if !Path.same c.input inputPath && !w.files.isFile c.input w.caller then
    some (.missingInput c.input)
  else match c with
    | .parse _ (some name) => if Manifest.isBlank name then some .blankModelName else none
    | _ => none

/-- what a command makes of the world -/
def value (w : World) : Command → Except Failure Value
  | .parse file model => (w.docstring file).map (describe model)
  | .build path => w.manifestDocument path

/-- the result of a command, or the first thing that is in its way -/
def answer (w : World) (c : Command) : Except Failure Value :=
  match w.problem? c with
  | some f => .error f
  | none => w.value c

theorem run_bind {α β : Type} {x : StateM World α} {w w' : World} {a : α} (h : x.run w = (a, w'))
    (f : α → StateM World β) : (x >>= f).run w = (f a).run w' := by
  rw [StateT.run_bind, h]
  rfl

theorem run_get (w : World) : (get : StateM World World).run w = (w, w) := rfl

section
variable (w : World)

theorem run_check (c : Command) :
    (check host c).run w = (match w.problem? c with | some f => .error f | none => .ok (), w) := by
  have hfile : (host.isFile c.input).run w = (w.files.isFile c.input w.caller, w) := rfl
  refine (run_bind hfile _).trans ?_
  unfold problem?
  cases hmissing : !Path.same c.input inputPath && !w.files.isFile c.input w.caller with
  | true => rfl
  | false =>
    rcases c with ⟨file, _ | name⟩ | path
    · rfl
    · cases hblank : Manifest.isBlank name <;> simp [hblank] <;> rfl
    · rfl

theorem run_readDocstring (path : String) :
    (readDocstring host path).run w = (w.docstring path, w) := by
  unfold readDocstring docstring
  cases Path.same path inputPath with
  | false => rfl
  | true => rfl

theorem run_loadManifest (path : String) :
    (loadManifest host path).run w = (match w.files.read path w.caller with
      | .error f => .error (.system f)
      | .ok text => readManifest path text, w) := by
  have hread : (host.read path).run w = (w.files.read path w.caller, w) := rfl
  refine (run_bind hread _).trans ?_
  cases w.files.read path w.caller <;> rfl

theorem run_result (c : Command) :
    (result host c).run w = (w.value c, w) := by
  cases c with
  | parse file model => exact run_bind (run_readDocstring w file) _
  | build path =>
    refine (run_bind (run_loadManifest w path) _).trans ?_
    dsimp only [value, manifestDocument]
    cases w.files.read path w.caller with
    | error f => rfl
    | ok text =>
      simp only
      cases readManifest path text <;> rfl

/-! ## outputs -/

theorem run_change (f : Caller → Entry → Except SystemFault Entry) :
    (change f).run w = match f w.caller w.files with
      | .error fault => (.error fault, w)
      | .ok files => (.ok (), { w with files }) := by
  refine (run_bind (run_get w) _).trans ?_
  cases f w.caller w.files <;> rfl

theorem run_writeFile (path text : String) :
    (writeFile host path text).run w = match w.files.prepared path w.caller with
      | .error f => (.error (.directory ((Path.parent? path).getD "") f), w)
      | .ok dirs =>
        match dirs.write path text.toUTF8 w.caller with
        | .error f => (.error (.unwritableFile path f), { w with files := dirs })
        | .ok files => (.ok (), { w with files }) := by
  have hstore : ∀ w' : World,
      (do return (← host.write path text).mapError (.unwritableFile path) :
        StateM World (Except Failure Unit)).run w'
      = match w'.files.write path text.toUTF8 w'.caller with
        | .error f => (.error (.unwritableFile path f), w')
        | .ok files => (.ok (), { w' with files }) := by
    intro w'
    refine (run_bind (run_change w' fun c root => root.write path text.toUTF8 c) _).trans ?_
    cases w'.files.write path text.toUTF8 w'.caller <;> rfl
  unfold writeFile Entry.prepared
  cases Path.parent? path with
  | none => exact hstore w
  | some parent =>
    refine (run_bind (run_change w fun c root => root.createDirs parent c) _).trans ?_
    dsimp only
    cases w.files.createDirs parent w.caller with
    | error f => rfl
    | ok dirs => exact hstore { w with files := dirs }

/-- the world is as it was until there is a result to write -/
theorem run_run (a : Arguments) :
    (run host a).run w = match w.answer a.command with
      | .error f => (.error f, w)
      | .ok v => (emit host a.output (a.format.print v)).run w := by
  refine (run_bind (run_check w a.command) _).trans ?_
  unfold answer
  cases w.problem? a.command with
  | some f => rfl
  | none =>
    refine (run_bind (run_result w a.command) _).trans ?_
    dsimp only
    cases w.value a.command <;> rfl

end

/-! ## runs -/

/-- the content of every file is the same in two worlds -/
def SameFiles (w w' : World) : Prop := w'.files.content? = w.files.content?

/-- how a run with the given arguments ends, and the world that it leaves behind -/
inductive Leaves (a : Arguments) (w : World) : Except Failure Unit × World → Prop
  /-- there is no result -/
  | failed {f : Failure} (h : w.answer a.command = .error f) : Leaves a w (.error f, w)
  /-- there is a result, but it cannot be written -/
  | unwritable {f : Failure} {w' : World} {v : Value} {path : String} {fault : SystemFault}
      (h : w.answer a.command = .ok v) (hpath : a.output = some path)
      (hsaved : w.files.saved path (a.format.print v) w.caller = .error fault)
      (hf : f = .directory ((Path.parent? path).getD "") fault ∨ f = .unwritableFile path fault)
      (houtput : w'.output = w.output) (hfiles : w.SameFiles w') : Leaves a w (.error f, w')
  | printed {v : Value} (h : w.answer a.command = .ok v) (hpath : a.output = none) :
      Leaves a w (.ok (), { w with output := w.output ++ (a.format.print v ++ "\n") })
  | written {w' : World} {v : Value} {path : String} {place : List String}
      (h : w.answer a.command = .ok v) (hpath : a.output = some path)
      (hsaved : w.files.saved path (a.format.print v) w.caller = .ok w'.files)
      (houtput : w'.output = w.output) (hplace : w'.files.locate path w.caller = .ok place)
      (hfiles : w'.files.content?
        = Function.update w.files.content? place (some (a.format.print v).toUTF8)) :
      Leaves a w (.ok (), w')

theorem leaves_writeFile {a : Arguments} {w : World} {v : Value} {path : String}
    (h : w.answer a.command = .ok v) (hpath : a.output = some path) :
    Leaves a w ((writeFile host path (a.format.print v)).run w) := by
  rw [run_writeFile]
  cases hdirs : w.files.prepared path w.caller with
  | error fault =>
    have hsaved : w.files.saved path (a.format.print v) w.caller = .error fault := by
      rw [saved, hdirs]
      rfl
    exact .unwritable h hpath hsaved (.inl rfl) rfl rfl
  | ok dirs =>
    have hsaved : w.files.saved path (a.format.print v) w.caller
        = dirs.write path (a.format.print v).toUTF8 w.caller := by
      rw [saved, hdirs]
      rfl
    dsimp only
    cases hwrite : dirs.write path (a.format.print v).toUTF8 w.caller with
    | error fault =>
      exact .unwritable h hpath (hsaved.trans hwrite) (.inr rfl) rfl (Entry.content?_prepared hdirs)
    | ok files =>
      obtain ⟨place, hplace, hfiles⟩ := Entry.exists_of_saved (hsaved.trans hwrite)
      exact .written h hpath (hsaved.trans hwrite) rfl hplace hfiles

/-- **A run that fails changes no file and prints nothing.**  One that succeeds prints its result
or writes it to the output file, and changes nothing else. -/
theorem leaves_run (a : Arguments) (w : World) : Leaves a w ((run host a).run w) := by
  rw [run_run]
  cases hanswer : w.answer a.command with
  | error f => exact .failed hanswer
  | ok v =>
    cases hpath : a.output with
    | none => exact .printed hanswer hpath
    | some path => exact leaves_writeFile hanswer hpath

/-! ## four commands in one directory

An operation is printed, a model is written over the docstring that it is read from, a document
goes into a new directory, and a file that may not be written is left alone. -/

section
variable {w : World} {a : Arguments} {path text : String}

theorem run_of_answer {v : Value} (h : w.answer a.command = .ok v)
    (htext : a.format.print v = text) : (run host a).run w = (emit host a.output text).run w := by
  rw [run_run, h, ← htext]

theorem answer_eq_value {c : Command} (h : w.problem? c = none) : w.answer c = w.value c := by
  unfold answer
  rw [h]

theorem answer_parse {file : String} {model : Option String}
    (hproblem : w.problem? (.parse file model) = none) (hfile : Path.same file inputPath = false)
    (hread : w.files.read file w.caller = .ok text) :
    w.answer (.parse file model) = .ok (describe model text) := by
  rw [answer_eq_value hproblem]
  show (w.docstring file).map (describe model) = _
  rw [docstring, hfile, hread]
  rfl

theorem answer_build {man : Manifest} {d : Document} (hproblem : w.problem? (.build path) = none)
    (hread : w.files.read path w.caller = .ok text) (hman : readManifest path text = .ok man)
    (hd : man.document = .ok d) : w.answer (.build path) = .ok d.encode := by
  rw [answer_eq_value hproblem]
  show w.manifestDocument path = _
  rw [manifestDocument, hread]
  dsimp only
  rw [hman]
  dsimp only
  rw [hd]
  rfl

end

/-- the directory `/t` with a docstring and further entries, beside a manifest -/
def petTree (doc : String) (more : List (String × Entry)) : Entry :=
  .directory [("api.json", .file "\x7b\x7d".toUTF8),
    ("t", .directory (("doc.txt", .file doc.toUTF8) :: more))]

def petDoc : String := "Get a pet.\n"

def inPets : World := { files := petTree petDoc [], caller := { here := ["t"] } }

def noRight : SystemFault := .other "Permission denied (os error 13)"

/-- the same directory, in which no file may be written -/
def lockedPets : World :=
  { inPets with
    caller := { inPets.caller with
      refused := fun r => match r with
        | .write _ => some noRight
        | _ => none } }

def printPet : Arguments :=
  { command := .parse "doc.txt" none, verbose := false, format := .json, output := none }

def writePet : Arguments :=
  { command := .parse "/t/doc.txt" (some "Pet"), verbose := false, format := .yaml,
    output := some "../t/doc.txt" }

def buildPets : Arguments :=
  { command := .build "../api.json", verbose := true, format := .json,
    output := some "docs/api.json" }

def petOperation : String :=
  "\x7b\n  \"summary\": \"Get a pet.\\n\",\n  \"description\": \"\",
  \"path_params\": \x7b\x7d,\n  \"query_params\": \x7b\x7d,\n  \"header_params\": \x7b\x7d,
  \"cookie_params\": \x7b\x7d,\n  \"body_params\": \x7b\x7d,\n  \"responses\": \x7b\x7d,
  \"tags\": \x7b\x7d,\n  \"deprecated\": false,\n  \"properties\": \x7b\x7d\n\x7d"

def petModel : String :=
  "name: Pet\nsummary: |
  Get a pet.\ndescription: \x27\x27\ndeprecated: false\nproperties: \x7b\x7d\n"

def petDocument : String :=
  "\x7b\n  \"openapi\": \"3.0.0\",\n  \"info\": \x7b\n    \"title\": \"Your API\",
    \"description\": \"No description\",\n    \"version\": \"v1.0\"
  \x7d,\n  \"paths\": \x7b\x7d\n\x7d"

set_option maxRecDepth 10000 in
theorem print_petOperation : Format.print .json (describe none petDoc) = petOperation := by rfl

set_option maxRecDepth 10000 in
theorem print_petModel : Format.print .yaml (describe (some "Pet") petDoc) = petModel := by rfl

set_option maxRecDepth 10000 in
theorem print_petDocument : (readManifest "../api.json" "\x7b\x7d" >>= fun m => m.document).map
    (fun d => Format.print .json d.encode) = .ok petDocument := by rfl

theorem run_printPet : (run host printPet).run inPets
    = (.ok (), { inPets with output := petOperation ++ "\n" }) := by
  have hread : inPets.files.read "doc.txt" inPets.caller = .ok petDoc := by decide +kernel
  have hanswer : inPets.answer printPet.command = .ok (describe none petDoc) :=
    answer_parse rfl rfl hread
  rw [run_of_answer hanswer print_petOperation]
  show (_, { inPets with output := "" ++ (petOperation ++ "\n") }) = _
  rw [String.empty_append]

theorem run_writePet : (run host writePet).run inPets
    = (.ok (), { inPets with files := petTree petModel [] }) := by
  have hread : inPets.files.read "/t/doc.txt" inPets.caller = .ok petDoc := by decide +kernel
  have hanswer : inPets.answer writePet.command = .ok (describe (some "Pet") petDoc) :=
    answer_parse rfl rfl hread
  rw [run_of_answer hanswer print_petModel]
  exact run_writeFile inPets "../t/doc.txt" petModel

theorem run_writePet_locked : (run host writePet).run lockedPets
    = (.error (.unwritableFile "../t/doc.txt" noRight), lockedPets) := by
  have hread : lockedPets.files.read "/t/doc.txt" lockedPets.caller = .ok petDoc := by
    decide +kernel
  have hanswer : lockedPets.answer writePet.command = .ok (describe (some "Pet") petDoc) :=
    answer_parse rfl rfl hread
  rw [run_of_answer hanswer print_petModel]
  exact run_writeFile lockedPets "../t/doc.txt" petModel

theorem run_buildPets : (run host buildPets).run inPets
    = (.ok (), { inPets with
        files := petTree petDoc [("docs", .directory [("api.json", .file petDocument.toUTF8)])] }) := by
  have hread : inPets.files.read "../api.json" inPets.caller = .ok "\x7b\x7d" := by
    decide +kernel
  obtain ⟨d, hd, hprint⟩ := map_eq_ok_iff.1 print_petDocument
  obtain ⟨man, hman, hd⟩ := bind_eq_ok_iff.1 hd
  have hanswer : inPets.answer buildPets.command = .ok d.encode := answer_build rfl hread hman hd
  rw [run_of_answer hanswer hprint]
  exact run_writeFile inPets "docs/api.json" petDocument

theorem leaves_pets :
    Arguments.read ["parse", "doc.txt", "-fjson"] = .ok printPet
      ∧ Leaves printPet inPets (.ok (), { inPets with output := petOperation ++ "\n" })
      ∧ Arguments.read ["parse", "/t/doc.txt", "--schema=Pet", "-o", "../t/doc.txt"]
        = .ok writePet
      ∧ Leaves writePet inPets (.ok (), { inPets with files := petTree petModel [] })
      ∧ Leaves writePet lockedPets
        (.error (.unwritableFile "../t/doc.txt" noRight), lockedPets)
      ∧ Arguments.read ["build", "-v", "../api.json", "--format", "json", "--output=docs/api.json"]
        = .ok buildPets
      ∧ Leaves buildPets inPets (.ok (), { inPets with
        files := petTree petDoc [("docs", .directory [("api.json", .file petDocument.toUTF8)])] }) := by
  refine ⟨by decide +kernel, ?_, by decide +kernel, ?_, ?_, by decide +kernel, ?_⟩
  · exact run_printPet ▸ leaves_run printPet inPets
  · exact run_writePet ▸ leaves_run writePet inPets
  · exact run_writePet_locked ▸ leaves_run writePet lockedPets
  · exact run_buildPets ▸ leaves_run buildPets inPets

end World

end Apidoc
