import Apidoc.Docstring.OperationDoc
import Apidoc.Text.Line

/-!
# Reading docstrings

A docstring is read line by line.  Its first paragraph is the summary and those after it the
description, up to the first header that begins the text or follows a blank line; from there on
every header begins a section.

* `LineKind.of`           blank lines, headers, and all others;
* `Stage`                 what part of the docstring is being read, and what of it was read;
* `Reading.step`          the reading after one more line;
* `OperationDoc.ofText`   all that a docstring says.
-/

namespace Apidoc

open Text (trim trimStart)

inductive LineKind where
  | blank
  | header
  | plain
deriving DecidableEq, Repr

def LineKind.of (line : List Char) : LineKind :=
  if Text.allBlank line then .blank else if isHeader line then .header else .plain

/-- A part of a docstring; `buffer` holds the lines of the part so far. -/
inductive Stage where
  /-- before the summary -/
  | start
  | summary (buffer : List Char)
  /-- between paragraphs -/
  | between
  | description (buffer : List Char)
  | inSection (header buffer : List Char)
deriving DecidableEq, Repr

structure Reading where
  stage : Stage := .start
  doc : OperationDoc := {}

namespace Reading

/-- adds a section, if its header is in the vocabulary -/
def addSection (d : OperationDoc) (header buffer : List Char) : OperationDoc :=
  match Section.ofHeader? header with
  | some sec => d.apply sec buffer
  | none => d

def addSummary (d : OperationDoc) (buffer : List Char) : OperationDoc :=
  { d with summary := .ofList buffer }

def addParagraph (d : OperationDoc) (buffer : List Char) : OperationDoc :=
  { d with description := d.description ++ .ofList buffer }

/-- One more line.  Within a paragraph a header is passed over. -/
def step (r : Reading) (line : List Char) : Reading :=
  let text := trimStart line
  match r.stage, LineKind.of line with
  | .start, .blank => r
  | .start, .header => { r with stage := .inSection line [] }
  | .start, .plain => { r with stage := .summary text }
  | .summary b, .blank => ⟨.between, addSummary r.doc b⟩
  | .summary _, .header => r
  | .summary b, .plain => { r with stage := .summary (b ++ text) }
  | .between, .blank => r
  | .between, .header => { r with stage := .inSection line [] }
  | .between, .plain => { r with stage := .description text }
  | .description b, .blank => ⟨.between, addParagraph r.doc b⟩
  | .description _, .header => r
  | .description b, .plain => { r with stage := .description (b ++ text) }
  | .inSection h b, .header => ⟨.inSection line [], addSection r.doc h b⟩
  | .inSection h b, _ => { r with stage := .inSection h (b ++ text) }

/-- what was read when the text ends -/
def finish (r : Reading) : OperationDoc :=
  match r.stage with
  | .start => r.doc
  | .summary b => addSummary r.doc b
  | .between => r.doc
  | .description b => addParagraph r.doc b
  | .inSection h b => addSection r.doc h b

end Reading

def OperationDoc.ofChars (s : List Char) : OperationDoc :=
  ((Text.rawLines (Text.unixBreaks s)).foldl Reading.step {}).finish

def OperationDoc.ofText (s : String) : OperationDoc := .ofChars s.toList

end Apidoc
