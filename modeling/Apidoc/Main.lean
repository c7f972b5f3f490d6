import Apidoc.Run

/-!
# The program

Runs the command line with the files and streams of the system.
-/

namespace Apidoc

/-- what the system reports, as far as the library tells faults apart -/
def SystemFault.ofReport : IO.Error → SystemFault
  | .noFileOrDirectory .. => .notFound
  | .alreadyExists .. => .alreadyExists
  | .inappropriateType .. => .notDirectory
  | e => .other (toString e)

/-- runs an action, and turns what the system reports into a fault -/
def tryIt {α : Type} (act : IO α) : IO (Except SystemFault α) := do
  match ← act.toBaseIO with
  | .ok a => return .ok a
  | .error e => return .error (.ofReport e)

/-- the text of some bytes -/
def textOf (r : Except SystemFault ByteArray) : Except SystemFault String := do
  match String.fromUTF8? (← r) with
  | some s => .ok s
  | none => .error .notText

/-- the files and streams of the system -/
def systemHost : Host IO where
  isFile path := return (← tryIt (IO.FS.readBinFile path)).isOk
  read path := return textOf (← tryIt (IO.FS.readBinFile path))
  readInput := do return textOf (← tryIt (do (← IO.getStdin).readBinToEnd))
  createDirs path := do
    if path.isEmpty then return .ok () else tryIt (IO.FS.createDirAll path)
  write path text := tryIt (IO.FS.writeFile path text)
  print s := IO.print s

def usageText : String :=
  "usage: apidoc [-v] parse [-f yaml|json] [-o FILE] [--schema NAME] FILE\n" ++
  "       apidoc [-v] build [-f yaml|json] [-o FILE] MANIFEST"

def versionText : String := "apidoc 0.1.0"

/-- what is printed when there is nothing to do -/
def Stop.report : Stop → IO Unit
  | .help => IO.println usageText
  | .version => IO.println versionText
  | .usage => IO.eprintln usageText

/-- the messages of a failure, with the causes below -/
def reportFailure (f : Failure) : IO Unit := do
  match f.chain with
  | [] => return ()
  | message :: causes =>
    IO.eprintln ("Error: " ++ message)
    for cause in causes do
      IO.eprintln ("  caused by: " ++ cause)

end Apidoc

open Apidoc in
def main (args : List String) : IO UInt32 := do
  match Arguments.read args with
  | .error stop =>
    stop.report
    return stop.code.toUInt32
  | .ok a =>
    match ← run systemHost a with
    | .ok _ => return 0
    | .error f =>
      reportFailure f
      return 1
