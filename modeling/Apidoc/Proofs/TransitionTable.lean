import Apidoc.Docstring.Reading
import Apidoc.Proofs.Trimming

/-!
# Reading by a table

Docstrings are read once more, by a machine with one buffer and one header whose moves are the
rows of a table.  The first row that fits is taken; a line that no row fits is passed over.

* `Transition`, `transitions`   the rows in their order;
* `Machine.perform`             what is done at a row;
* `Machine.feed`                the machine after one more line, or after the end of the text;
* `Machine.read`                all that the machine reads in a docstring;
* `Reading.machine`             the machine as it is when so much was read.

A stage of the reading has a buffer only if the part of the docstring has one.  The machine always
has one, and it is empty wherever the stage has none (`Reading.machine`): nothing of one part of a
docstring gets into the next.

Main statement: both read the same in every docstring (`Machine.read_eq_ofText`).
-/

namespace Apidoc

open Text (trim trimStart)

/-! ## the table -/

inductive MachineState where
  | start
  | summary
  | description
  | blank
  | inSection
  | done
deriving DecidableEq, Repr

/-- what a row asks of a line; the end of the text is a line of no kind -/
inductive Condition where
  | plain
  | blank
  | header
  | ending
  /-- a plain or a blank line -/
  | text
deriving DecidableEq, Repr

def Condition.accepts : Condition → Option LineKind → Bool
  | plain, k => k == some .plain
  | blank, k => k == some .blank
  | header, k => k == some .header
  | ending, k => k == none
  | text, k => k == some .plain || k == some .blank

inductive MachineAction where
  | buffer
  | flushSummary
  | flushDescription
  | recordHeader
  | dispatch
  | dispatchAndRecord
deriving DecidableEq, Repr

structure Transition where
  source : MachineState
  condition : Condition
  target : MachineState
  action : MachineAction

def Transition.fits (state : MachineState) (kind : Option LineKind) (t : Transition) : Bool :=
  t.source == state && t.condition.accepts kind

def transitions : List Transition :=
  [⟨.start, .plain, .summary, .buffer⟩,
    ⟨.summary, .plain, .summary, .buffer⟩,
    ⟨.summary, .blank, .blank, .flushSummary⟩,
    ⟨.summary, .ending, .done, .flushSummary⟩,
    ⟨.blank, .plain, .description, .buffer⟩,
    ⟨.description, .plain, .description, .buffer⟩,
    ⟨.description, .blank, .blank, .flushDescription⟩,
    ⟨.start, .header, .inSection, .recordHeader⟩,
    ⟨.blank, .header, .inSection, .recordHeader⟩,
    ⟨.inSection, .text, .inSection, .buffer⟩,
    ⟨.inSection, .header, .inSection, .dispatchAndRecord⟩,
    ⟨.inSection, .ending, .done, .dispatch⟩,
    ⟨.start, .ending, .done, .dispatch⟩,
    ⟨.blank, .ending, .done, .dispatch⟩,
    ⟨.description, .ending, .done, .flushDescription⟩]

/-! ## the machine -/

structure Machine where
  state : MachineState := .start
  buffer : List Char := []
  header : Option (List Char) := none
  doc : OperationDoc := {}

namespace Machine

def recordHeader (m : Machine) (line : Option (List Char)) : Machine :=
  match line with
  | some l => { m with buffer := [], header := some (trim l) }
  | none => { m with buffer := [] }

def dispatch (m : Machine) : Machine :=
  match m.header with
  | some h => { m with buffer := [], header := none, doc := Reading.addSection m.doc h m.buffer }
  | none => { m with buffer := [] }

def perform (m : Machine) (line : Option (List Char)) : MachineAction → Machine
  | .buffer =>
    match line with
    | some l => { m with buffer := m.buffer ++ trimStart l }
    | none => m
  | .flushSummary => { m with buffer := [], doc := Reading.addSummary m.doc m.buffer }
  | .flushDescription => { m with buffer := [], doc := Reading.addParagraph m.doc m.buffer }
  | .recordHeader => m.recordHeader line
  | .dispatch => m.dispatch
  | .dispatchAndRecord => m.dispatch.recordHeader line

/-- takes the first row that fits a line of the given kind -/
def move (m : Machine) (kind : Option LineKind) (line : Option (List Char)) : Machine :=
  match transitions.find? (Transition.fits m.state kind) with
  | some t => { m.perform line t.action with state := t.target }
  | none => m

/-- the machine after a line, or after the end of the text -/
def feed (m : Machine) (line : Option (List Char)) : Machine := m.move (line.map LineKind.of) line

def read (s : String) : OperationDoc :=
  (((Text.rawLines (Text.unixBreaks s.toList)).map some ++ [none]).foldl feed {}).doc

end Machine

/-! ## stages -/

/-- the machine when a reading has come so far -/
def Reading.machine (r : Reading) : Machine :=
  match r.stage with
  | .start => { doc := r.doc }
  | .summary b => { state := .summary, buffer := b, doc := r.doc }
  | .between => { state := .blank, doc := r.doc }
  | .description b => { state := .description, buffer := b, doc := r.doc }
  | .inSection h b =>
    { state := .inSection, buffer := b, header := some (trim h), doc := r.doc }

theorem addSection_trim (d : OperationDoc) (h b : List Char) :
    Reading.addSection d (trim h) b = Reading.addSection d h b := by
  rw [Reading.addSection, Reading.addSection, Section.ofHeader?, Section.ofHeader?,
    Text.trim_trim]

namespace Machine

/-- the step: the row for a line, if there is one, does what the stage does -/
theorem feed_machine (r : Reading) (line : List Char) :
    r.machine.feed (some line) = (r.step line).machine := by
  obtain ⟨stage, d⟩ := r
  rw [feed, Option.map_some, Reading.step]
  cases LineKind.of line with
  | blank => cases stage <;> rfl
  | plain => cases stage <;> rfl
  | header =>
    cases stage with
    | inSection h b =>
      -- the stage keeps the header as it is written, the machine without the blanks around it
      exact congrArg (Machine.mk .inSection [] (some (trim line))) (addSection_trim d h b)
    | _ => rfl

theorem foldl_feed (lines : List (List Char)) (r : Reading) :
    (lines.map some).foldl feed r.machine = (lines.foldl Reading.step r).machine := by
  induction lines generalizing r with
  | nil => rfl
  | cons line lines ih => rw [List.map_cons, List.foldl_cons, List.foldl_cons, feed_machine, ih]

/-- every part of a docstring has a row for the end of the text -/
theorem feed_none (r : Reading) :
    (r.machine.feed none).state = .done ∧ (r.machine.feed none).doc = r.finish := by
  obtain ⟨stage, d⟩ := r
  cases stage with
  | start => exact ⟨rfl, rfl⟩
  | summary b => exact ⟨rfl, rfl⟩
  | between => exact ⟨rfl, rfl⟩
  | description b => exact ⟨rfl, rfl⟩
  | inSection h b => exact ⟨rfl, addSection_trim d h b⟩

/-- **The table reads in a docstring what the stages do.** -/
theorem read_eq_ofText (s : String) : read s = OperationDoc.ofText s := by
  have hstart : ({} : Machine) = Reading.machine {} := rfl
  rw [read, List.foldl_append, hstart, foldl_feed]
  exact (feed_none _).2

end Machine

end Apidoc
