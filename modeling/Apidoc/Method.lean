import Apidoc.Error
import Apidoc.Text.Blank
import Apidoc.Text.Case

/-!
# HTTP methods

* `Method`            the seven methods;
* `Method.read`       the method that a text names, in any ASCII case and with blanks around it.
-/

namespace Apidoc

inductive Method where
  | get
  | post
  | put
  | patch
  | delete
  | options
  | head
deriving DecidableEq, Repr

namespace Method

/-- in the order in which the operations of a path are listed -/
def all : List Method := [get, post, put, patch, delete, options, head]

/-- the methods that are documented unless others are asked for -/
def usual : List Method := [get, post, put, patch, delete]

def name : Method → String
  | get => "get"
  | post => "post"
  | put => "put"
  | patch => "patch"
  | delete => "delete"
  | options => "options"
  | head => "head"

def ofName? (s : String) : Option Method := all.find? (·.name == s)

theorem ofName?_name (m : Method) : ofName? m.name = some m := by
  cases m <;> decide

/-- the form of a text in which it is compared with the names -/
def normalize (s : String) : String := .ofList ((Text.trim s.toList).map Text.lowerAscii)

def read (s : String) : Except Error Method :=
  match ofName? (normalize s) with
  | some m => .ok m
  | none => .error (.argument (.unknownMethod (normalize s)))

end Method

end Apidoc
