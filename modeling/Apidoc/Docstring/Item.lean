import Apidoc.DataType

/-!
# Documented items

* `Place`          where an item belongs in an operation or a model;
* `Item`           a parameter, body field, response, property or tag;
* `Items.sorted`   the items of a table in the order in which they were declared;
* `Items.extend`   puts further items behind those of a table.
-/

namespace Apidoc

inductive Place where
  | path
  | query
  | header
  | cookie
  | body
  | response
  | property
  | tag
deriving DecidableEq, Repr, Inhabited

def Place.name : Place → String
  | .path => "path"
  | .query => "query"
  | .header => "header"
  | .cookie => "cookie"
  | .body => "body"
  | .response => "response"
  | .property => "property"
  | .tag => "tags"

structure Item where
  /-- for a response, its status code -/
  name : String
  type : DataType
  place : Place
  required : Bool
  /-- without annotations -/
  description : String
  /-- grows from each item to those declared after it -/
  order : Nat
deriving Inhabited

def Item.encode (i : Item) : Value :=
  .object [("name", .text i.name), ("type", i.type.encode), ("kind", .text i.place.name),
    ("required", .bool i.required), ("description", .text i.description),
    ("order", .integer i.order)]

/-! ## tables of items -/

abbrev Items := Table Item

namespace Items

/-- in the order of declaration; items of the same order stay in key order -/
def sorted (t : Items) : List Item := t.values.mergeSort fun a b => a.order ≤ b.order

def names (t : Items) : List String := (sorted t).map Item.name

def requiredNames (t : Items) : List String :=
  ((sorted t).filter Item.required).map Item.name

/-- the least order that is greater than those in the table -/
def nextOrder (t : Items) : Nat := t.values.foldl (fun n i => max n (i.order + 1)) 0

/-- adds items, which come after those in the table; an item replaces one of the same name -/
def extend (t : Items) (is : List Item) : Items :=
  t.insertAll (is.map fun i => (i.name, { i with order := i.order + nextOrder t }))

def encode (t : Items) : Value := .ofTable (t.map Item.encode)

end Items

end Apidoc
