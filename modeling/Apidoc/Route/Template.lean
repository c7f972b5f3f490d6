import Apidoc.Text.Split

/-!
# Path templates

The address of a route may be a pattern: its groups in parentheses are the parameters of the
path.  The path of a document has a name in braces in the place of each.

* `readGroup`       the text of a group up to its closing parenthesis;
* `groupName?`      the name that a group gives itself;
* `UrlPiece`, `urlPieces`   a pattern as characters and groups;
* `fill`            writes the pieces, with names for the groups that have none;
* `nameSegment`     a segment `:name` is a parameter too;
* `pathTemplate`    the path of a route.

A backslash makes the character after it literal.  A `^` at the start and a `$` at the end of a
pattern are left out.
-/

namespace Apidoc

open Text (cutAt dropStart? dropEnd? splitOn joinWith)

/-! ## groups -/

/-- the text of a group inside `depth` further groups, and what follows its parenthesis -/
def readGroup (depth : Nat) : List Char → List Char × List Char
  | [] => ([], [])
  | '\\' :: c :: s =>
    let (g, rest) := readGroup depth s
    ('\\' :: c :: g, rest)
  | '(' :: s =>
    let (g, rest) := readGroup (depth + 1) s
    ('(' :: g, rest)
  | ')' :: s =>
    match depth with
    | 0 => ([], s)
    | depth + 1 =>
      let (g, rest) := readGroup depth s
      (')' :: g, rest)
  | c :: s =>
    let (g, rest) := readGroup depth s
    (c :: g, rest)

theorem length_readGroup_le (depth : Nat) (s : List Char) :
    (readGroup depth s).2.length ≤ s.length := by
  fun_induction readGroup depth s <;> simp_all <;> omega

/-- a group names itself with `?P<name>` or `?<name>` -/
def groupName? (group : List Char) : Option (List Char) := do
  let rest ← (dropStart? "?P<".toList group).or (dropStart? "?<".toList group)
  let (name, _) ← cutAt '>' rest
  some name

/-! ## patterns -/

inductive UrlPiece where
  | char (c : Char)
  | group (name : Option (List Char))
deriving DecidableEq, Repr

/-- a backslash at the very end stands for nothing -/
def urlPieces : List Char → List UrlPiece
  | [] => []
  | '\\' :: s =>
    match s with
    | [] => []
    | c :: s => .char c :: urlPieces s
  | '(' :: s =>
    let r := readGroup 0 s
    .group (groupName? r.1) :: urlPieces r.2
  | c :: s => .char c :: urlPieces s
termination_by s => s.length
decreasing_by
  · simp only [List.length_cons]; omega
  · exact Nat.lt_succ_of_le (length_readGroup_le 0 s)
  · simp

/-- the name of a group without a name, after the names have run out; groups count from one -/
def numberedName (n : Nat) : List Char := "param".toList ++ Nat.toDigits 10 n

def inBraces (name : List Char) : List Char := '{' :: name ++ ['}']

/-- Writes the pieces.  `count` groups were written before, and `names` are left for groups
without a name. -/
def fill (names : List (List Char)) (count : Nat) : List UrlPiece → List Char
  | [] => []
  | .char c :: ps => c :: fill names count ps
  | .group (some name) :: ps => inBraces name ++ fill names (count + 1) ps
  | .group none :: ps =>
    match names with
    | name :: names => inBraces name ++ fill names (count + 1) ps
    | [] => inBraces (numberedName (count + 1)) ++ fill [] (count + 1) ps

/-! ## segments -/

def nameSegment (s : List Char) : List Char :=
  match s with
  | ':' :: c :: s => inBraces (c :: s)
  | s => s

def nameSegments (s : List Char) : List Char :=
  joinWith ['/'] ((splitOn '/' s).map nameSegment)

/-! ## routes -/

def dropAnchors (s : List Char) : List Char :=
  let s := (dropStart? ['^'] s).getD s
  (dropEnd? ['$'] s).getD s

/-- the path of the route `url`; `names` are the path parameters in order -/
def pathTemplate (url : String) (names : List String) : String :=
  .ofList (nameSegments (fill (names.map String.toList) 0 (urlPieces (dropAnchors url.toList))))

end Apidoc
