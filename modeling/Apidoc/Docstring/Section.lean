import Apidoc.Text.Blank
import Apidoc.Text.Case
import Apidoc.Text.Word
import Apidoc.Value

/-!
# Sections of a docstring

A section begins with a header line such as `Query Parameters:`.

* `Section`            what a section documents;
* `Phrase`             a way of writing a header, with `Phrase.match?`;
* `vocabulary`         the phrases for every kind of section;
* `Section.ofHeader?`  the section that a header begins, if the header is in the vocabulary;
* `isHeader`           whether a line looks like a header, in the vocabulary or not.

Case does not matter, and neither do blanks around a header.
-/

namespace Apidoc

open Text (isBlank isWord isDigit trim dropWord?)

inductive Section where
  | query
  | path
  | body
  | cookie
  | header
  /-- lines with a status code and a description -/
  | errors
  /-- the answer with one status code -/
  | response (code : String)
  | properties
  | tags
  | deprecated
deriving DecidableEq, Repr

/-! ## phrases -/

/-- a part of a phrase -/
inductive Part where
  /-- a word, given in small letters, in any case -/
  | word (w : String)
  /-- blanks, at least one -/
  | gap
  /-- blanks, or nothing -/
  | mayGap
  /-- digits, at least one; they are what the phrase captures -/
  | digits
deriving DecidableEq, Repr

abbrev Phrase := List Part

/-- what the phrase captures, if it is all of the text -/
def Phrase.match? : Phrase → List Char → Option (List Char)
  | [], [] => some []
  | [], _ :: _ => none
  | .word w :: ps, s => do match? ps (← dropWord? w.toList s)
  | .gap :: ps, s => if s.head?.any isBlank then match? ps (s.dropWhile isBlank) else none
  | .mayGap :: ps, s => match? ps (s.dropWhile isBlank)
  | .digits :: ps, s =>
    let ds := s.takeWhile isDigit
    if ds.isEmpty then none else (match? ps (s.dropWhile isDigit)).map (ds ++ ·)

/-! ## the vocabulary -/

/-- singular and plural -/
def numbers (word : String) : List String := [word ++ ":", word ++ "s:"]

/-- the ways to end a header about parameters -/
def parameterWords : List String := numbers "param" ++ numbers "parameter"

def queryPhrases : List Phrase := parameterWords.map fun w => [.word "query", .gap, .word w]

def pathPhrases : List Phrase :=
  ["path", "url"].flatMap fun p => parameterWords.map fun w => [.word p, .gap, .word w]

def bodyPhrases : List Phrase := [[.word "body:"], [.word "request", .gap, .word "body:"]]

def cookiePhrases : List Phrase :=
  (numbers "cookie").map (fun w => [.word w])
    ++ parameterWords.map fun w => [.word "cookie", .mayGap, .word w]

def headerPhrases : List Phrase :=
  (numbers "header").flatMap fun w =>
    [[.word w], [.word "http", .gap, .word w], [.word "request", .gap, .word w],
      [.word "http", .gap, .word "request", .gap, .word w]]

def errorPhrases : List Phrase :=
  (numbers "error").map (fun w => [.word w])
    ++ ["error", "default"].flatMap fun p =>
      (numbers "response").map fun w => [.word p, .mayGap, .word w]

def responsePhrases : List Phrase :=
  [[.word "response:"], [.word "return:"], [.word "returns:"],
    [.digits, .gap, .word "response:"],
    [.word "http", .gap, .digits, .gap, .word "response:"]]

def propertyPhrases : List Phrase := [[.word "property:"], [.word "properties:"]]

def tagPhrases : List Phrase := (numbers "tag").map fun w => [.word w]

def deprecatedPhrases : List Phrase := [[.word "deprecated"], [.word "[deprecated]"]]

/-- the status code of a response whose header has none -/
def usualCode : String := "200"

def responseOf (code : List Char) : Section :=
  .response (if code.isEmpty then usualCode else .ofList code)

/-- the phrases of each kind of section, and the section that they begin -/
def vocabulary : List (List Phrase × (List Char → Section)) :=
  [(queryPhrases, fun _ => .query), (pathPhrases, fun _ => .path), (bodyPhrases, fun _ => .body),
    (cookiePhrases, fun _ => .cookie), (headerPhrases, fun _ => .header),
    (errorPhrases, fun _ => .errors), (responsePhrases, responseOf),
    (propertyPhrases, fun _ => .properties), (tagPhrases, fun _ => .tags),
    (deprecatedPhrases, fun _ => .deprecated)]

def Section.ofHeader? (line : List Char) : Option Section :=
  let s := trim line
  vocabulary.findSome? fun (phrases, f) => (phrases.findSome? (·.match? s)).map f

/-! ## header lines -/

/-- words and spaces, at least one character, before a colon at the end -/
def endsWithColon (s : List Char) : Bool :=
  match s.reverse with
  | ':' :: r => !r.isEmpty && r.all fun c => isWord c || c == ' '
  | _ => false

def isHeader (line : List Char) : Bool :=
  let s := trim line
  endsWithColon s || deprecatedPhrases.any fun p => (p.match? s).isSome

/-! ## values -/

/-- the name of a section, and its status code if it has one -/
def Section.name : Section → String
  | .query => "query"
  | .path => "path"
  | .body => "body"
  | .cookie => "cookie"
  | .header => "header"
  | .errors => "errors"
  | .response _ => "response"
  | .properties => "properties"
  | .tags => "tags"
  | .deprecated => "deprecated"

def Section.encode : Section → Value
  | .response code => .object [("section", .text "response"), ("code", .text code)]
  | s => .object [("section", .text s.name)]

end Apidoc
