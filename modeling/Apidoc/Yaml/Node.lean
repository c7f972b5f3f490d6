import Apidoc.Yaml.Token

/-!
# Reading YAML

As in JSON, a text is read as far as it makes sense, and what was read is a `Yaml.Node` in which
`unreadable` stands, or a list or table is `cut`, where the text stops being YAML.

* `Node`        scalars, lists, tables and aliases;
* `read`        the node that a text holds, and whether nothing follows it;
* `marked`      the nodes that aliases may stand for.

A node with an anchor has a number: as many as there are different anchors before it.  An alias
stands for the last node with the number that its anchor has at the place of the alias.
-/

namespace Apidoc.Yaml

inductive Node where
  | unreadable
  | alias (target : Nat)
  | scalar (mark : Option Nat) (tag : Option (List Char)) (plain : Bool) (text : List Char)
  | list (mark : Option Nat) (items : List Node) (cut : Bool)
  | table (mark : Option Nat) (entries : List (Node × Node)) (cut : Bool)
deriving Repr, Inhabited

namespace Node

/-- what stands where no node is written -/
def empty : Node := .scalar none none true []

/-! ## places -/

/-- a place between two tokens -/
structure Place where
  tokens : List Token
  /-- the anchors so far, each with the number of its last node -/
  anchors : List (List Char × Nat) := []
  /-- what the handles of tags stand for -/
  handles : List (List Char × List Char)

namespace Place

def goTo (p : Place) (tokens : List Token) : Place := { p with tokens }

/-- one of `ts` comes next -/
def faces (p : Place) (ts : List Token) : Bool := p.tokens.head?.any ts.contains

def addAnchor (p : Place) (name : List Char) : Place :=
  { p with anchors := (name, p.anchors.length) :: p.anchors.filter (·.1 != name) }

def tag? (p : Place) (handle suffix : List Char) : Option (List Char) :=
  if handle.isEmpty then some suffix
  else (p.handles.lookup handle).map (· ++ suffix)

end Place

/-- what stands in front of a node -/
structure Properties where
  mark : Option Nat := none
  tag : Option (List Char) := none

def Properties.isEmpty (a : Properties) : Bool := a.mark.isNone && a.tag.isNone

def readAnchor (p : Place) : Option Nat × Place :=
  match p.tokens with
  | .anchor name :: ts => (some p.anchors.length, (p.addAnchor name).goTo ts)
  | _ => (none, p)

/-- the tag that comes next, if any; its handle must be known -/
def readTag? (p : Place) : Option (Option (List Char) × Place) :=
  match p.tokens with
  | .tag handle suffix :: ts => (p.tag? handle suffix).map fun t => (some t, p.goTo ts)
  | _ => some (none, p)

/-- an anchor and a tag, in either order -/
def readProperties? (p : Place) : Option (Properties × Place) :=
  match readAnchor p with
  | (some m, p) => (readTag? p).map fun (t, p) => (⟨some m, t⟩, p)
  | (none, p) =>
    match readTag? p with
    | none => none
    | some (none, p) => some ({}, p)
    | some (some t, p) =>
      let (m, p) := readAnchor p
      some (⟨m, some t⟩, p)

/-- a scalar with the tag `!` has no tag -/
def ofScalar (a : Properties) (plain : Bool) (text : List Char) : Node :=
  .scalar a.mark (a.tag.filter (· != ['!'])) plain text

/-! ## nodes

Every reader returns what it read and the place after it; there is no such place where the text
turned out to be unreadable.  The number bounds the calls. -/

mutual

/-- A node.  With `block` it may be a block; with `flat` it may be a list whose dashes stand in
the column of the key before. -/
def node : Nat → (block flat : Bool) → Place → Node × Option Place
  | 0, _, _, _ => (.unreadable, none)
  | fuel + 1, block, flat, p =>
    match p.tokens with
    | .alias name :: ts =>
      match p.anchors.lookup name with
      | some i => (.alias i, some (p.goTo ts))
      | none => (.unreadable, none)
    | _ =>
      match readProperties? p with
      | none => (.unreadable, none)
      | some (a, p) =>
        let list (r : List Node × Option Place) : Node × Option Place :=
          (.list a.mark r.1 r.2.isNone, r.2)
        let table (r : List (Node × Node) × Option Place) : Node × Option Place :=
          (.table a.mark r.1 r.2.isNone, r.2)
        let bare : Node × Option Place :=
          if a.isEmpty then (.unreadable, none) else (.scalar a.mark a.tag true [], some p)
        match p.tokens with
        | .scalar plain text :: ts => (ofScalar a plain text, some (p.goTo ts))
        | .bracketOpen :: ts => list (bracketItems fuel true (p.goTo ts))
        | .braceOpen :: ts => table (braceEntries fuel true (p.goTo ts))
        | .blockItem :: _ => if flat then list (flatItems fuel p) else bare
        | .blockListStart :: ts => if block then list (blockItems fuel (p.goTo ts)) else bare
        | .blockTableStart :: ts => if block then table (blockEntries fuel (p.goTo ts)) else bare
        | _ => bare

/-- a node, or an empty one before one of the tokens `stops` -/
def nodeUnless : Nat → (stops : List Token) → (block flat : Bool) → Place → Node × Option Place
  | 0, _, _, _, _ => (.unreadable, none)
  | fuel + 1, stops, block, flat, p =>
    if p.faces stops then (empty, some p) else node fuel block flat p

/-- the value after a key: a node after a `value` token, else an empty one -/
def entryValue : Nat → (stops : List Token) → (block : Bool) → Place → Node × Option Place
  | 0, _, _, _ => (.unreadable, none)
  | fuel + 1, stops, block, p =>
    match p.tokens with
    | .value :: ts => nodeUnless fuel stops block block (p.goTo ts)
    | .unreadable :: _ => (.unreadable, none)
    | _ => (empty, some p)

def blockItems : Nat → Place → List Node × Option Place
  | 0, _ => ([], none)
  | fuel + 1, p =>
    match p.tokens with
    | .blockItem :: ts =>
      match nodeUnless fuel [.blockItem, .blockEnd] true false (p.goTo ts) with
      | (n, none) => ([n], none)
      | (n, some p) =>
        let (ns, rest) := blockItems fuel p
        (n :: ns, rest)
    | .blockEnd :: ts => ([], some (p.goTo ts))
    | _ => ([], none)

/-- the items of a list that ends with its last dash -/
def flatItems : Nat → Place → List Node × Option Place
  | 0, _ => ([], none)
  | fuel + 1, p =>
    match p.tokens with
    | .blockItem :: ts =>
      match nodeUnless fuel [.blockItem, .key, .value, .blockEnd] true false (p.goTo ts) with
      | (n, none) => ([n], none)
      | (n, some p) =>
        let (ns, rest) := flatItems fuel p
        (n :: ns, rest)
    | .unreadable :: _ => ([], none)
    | _ => ([], some p)

def blockEntries : Nat → Place → List (Node × Node) × Option Place
  | 0, _ => ([], none)
  | fuel + 1, p =>
    match p.tokens with
    | .key :: ts =>
      match nodeUnless fuel [.key, .value, .blockEnd] true true (p.goTo ts) with
      | (k, none) => ([(k, .unreadable)], none)
      | (k, some p) =>
        match entryValue fuel [.key, .value, .blockEnd] true p with
        | (v, none) => ([(k, v)], none)
        | (v, some p) =>
          let (es, rest) := blockEntries fuel p
          ((k, v) :: es, rest)
    | .blockEnd :: ts => ([], some (p.goTo ts))
    | _ => ([], none)

/-- The items between brackets.  An item that begins with a question mark, or that is a key, is
a table with one entry.  Where the key is missing the token after the question mark is lost. -/
def bracketItems : Nat → (first : Bool) → Place → List Node × Option Place
  | 0, _, _ => ([], none)
  | fuel + 1, first, p =>
    let go (r : Node × Option Place) : List Node × Option Place :=
      match r with
      | (n, none) => ([n], none)
      | (n, some p) =>
        let (ns, rest) := bracketItems fuel false p
        (n :: ns, rest)
    let item (ts : List Token) : List Node × Option Place :=
      match ts with
      | .key :: ts => go (bracketEntry fuel (p.goTo ts))
      | .bracketClose :: ts => ([], some (p.goTo ts))
      | ts => go (node fuel false false (p.goTo ts))
    match p.tokens with
    | .bracketClose :: ts => ([], some (p.goTo ts))
    | .comma :: ts => if first then item p.tokens else item ts
    | ts => if first then item ts else ([], none)

/-- the table that an entry between brackets is -/
def bracketEntry : Nat → Place → Node × Option Place
  | 0, _ => (.unreadable, none)
  | fuel + 1, p =>
    let (k, q) :=
      if p.faces [.value, .comma, .bracketClose] then (empty, some (p.goTo p.tokens.tail))
      else node fuel false false p
    match q with
    | none => (.table none [(k, .unreadable)] true, none)
    | some p =>
      let (v, rest) := entryValue fuel [.comma, .bracketClose] false p
      (.table none [(k, v)] rest.isNone, rest)

/-- the entries between braces; an entry without a question mark or a colon is a key alone -/
def braceEntries : Nat → (first : Bool) → Place → List (Node × Node) × Option Place
  | 0, _, _ => ([], none)
  | fuel + 1, first, p =>
    let go (k : Node) (r : Node × Option Place) : List (Node × Node) × Option Place :=
      match r with
      | (v, none) => ([(k, v)], none)
      | (v, some p) =>
        let (es, rest) := braceEntries fuel false p
        ((k, v) :: es, rest)
    let entry (ts : List Token) : List (Node × Node) × Option Place :=
      match ts with
      | .key :: ts =>
        match nodeUnless fuel [.value, .comma, .braceClose] false false (p.goTo ts) with
        | (k, none) => ([(k, .unreadable)], none)
        | (k, some p) => go k (entryValue fuel [.comma, .braceClose] false p)
      | .braceClose :: ts => ([], some (p.goTo ts))
      | ts =>
        match node fuel false false (p.goTo ts) with
        | (k, none) => ([(k, .unreadable)], none)
        | (k, some p) => go k (if p.faces [.unreadable] then (.unreadable, none) else (empty, some p))
    match p.tokens with
    | .braceClose :: ts => ([], some (p.goTo ts))
    | .comma :: ts => if first then entry p.tokens else entry ts
    | ts => if first then entry ts else ([], none)

end

/-- each call reads a token, or is one of three between two that do -/
def callsFor (ts : List Token) : Nat := 4 * ts.length + 8

/-! ## aliases -/

mutual

/-- the nodes with a number, in the order in which they begin -/
def marked : Node → List (Nat × Node)
  | .unreadable => []
  | .alias _ => []
  | .scalar mark tag plain text =>
    (mark.map fun i => (i, Node.scalar mark tag plain text)).toList
  | .list mark items cut =>
    (mark.map fun i => (i, Node.list mark items cut)).toList ++ markedItems items
  | .table mark entries cut =>
    (mark.map fun i => (i, Node.table mark entries cut)).toList ++ markedEntries entries

def markedItems : List Node → List (Nat × Node)
  | [] => []
  | n :: ns => n.marked ++ markedItems ns

def markedEntries : List (Node × Node) → List (Nat × Node)
  | [] => []
  | (k, v) :: es => k.marked ++ v.marked ++ markedEntries es

end

end Node

/-! ## texts -/

/-- the handles that need no directive -/
def standardHandles : List (List Char × List Char) :=
  [(['!'], ['!']), (['!', '!'], "tag:yaml.org,2002:".toList)]

/-- The directives in front of a text: one version, 1.1 or 1.2, and handles that differ. -/
def readDirectives? (versioned : Bool) (handles : List (List Char × List Char)) :
    List Token → Option (List (List Char × List Char) × List Token)
  | .versionDirective major minor :: ts =>
    if versioned || major ≠ 1 || (minor ≠ 1 && minor ≠ 2) then none
    else readDirectives? true handles ts
  | .tagDirective handle expansion :: ts =>
    if (handles.lookup handle).isSome then none
    else readDirectives? versioned ((handle, expansion) :: handles) ts
  | .documentStart :: ts => some (handles, ts)
  | _ => none

def isDirective : Token → Bool
  | .versionDirective _ _ => true
  | .tagDirective _ _ => true
  | _ => false

/-- what may come where the content of a text that begins with `---` is missing -/
def endsContent (t : Token) : Bool :=
  isDirective t || t == .documentStart || t == .documentEnd || t == .streamEnd

/-- the node that the tokens of a text make up, and the place after it -/
def readDocument (ts : List Token) : Node × Option Node.Place :=
  let content (handles : List (List Char × List Char)) (ts : List Token) :
      Node × Option Node.Place :=
    Node.node (Node.callsFor ts) true false ⟨ts, [], handles ++ standardHandles⟩
  match ts with
  | [] => (.unreadable, none)
  | t :: _ =>
    if t = .streamEnd then (.empty, some ⟨ts, [], []⟩)
    else if isDirective t || t = .documentStart then
      match readDirectives? false [] ts with
      | none => (.unreadable, none)
      | some (handles, ts) =>
        if ts.head?.any endsContent then (.empty, some ⟨ts, [], []⟩) else content handles ts
    else content [] ts

/-- the node that a text holds, and whether nothing but end marks follows it -/
def read (s : List Char) : Node × Bool :=
  match readDocument (tokens s) with
  | (n, none) => (n, false)
  | (n, some p) => (n, (p.tokens.dropWhile (· == .documentEnd)).head? == some .streamEnd)

end Apidoc.Yaml
