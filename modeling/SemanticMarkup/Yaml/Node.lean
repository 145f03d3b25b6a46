import SemanticMarkup.Yaml.Tag
import SemanticMarkup.Yaml.Token

/-!
# Nodes of YAML

A document is a tree of scalars, sequences and mappings. A node may have an
anchor, by which other nodes refer to it; such a reference is a leaf of the tree,
and what it refers to is found in the table of anchors.

## Implementation notes

The readers for nodes and their parts call each other; `fuel` bounds the number
of calls on the way to a node and is chosen so large that it is never used up:
of two calls in a row at least one moves over a token.
-/

namespace SemanticMarkup.Yaml

/-- A node. -/
inductive Node where
  /-- A scalar with its text. -/
  | scalar (tag : Tag) (codes : List Nat)
  /-- A sequence. -/
  | sequence (tag : Tag) (items : List Node)
  /-- A mapping. -/
  | mapping (tag : Tag) (entries : List (Node × Node))
  /-- A reference to a node with an anchor. -/
  | alias (anchor : String)
  deriving Inhabited, Repr

/-- The characters of a text, with a replacement for code points that no character has. -/
def charsOf (codes : List Nat) : List Char :=
  codes.map fun code => if code.isValidChar then Char.ofNat code else '\ufffd'

/-- The node of a place where nothing is written. -/
def Node.empty : Node := .scalar .null []

/-- What is known between two nodes. -/
structure Assembly where
  /-- The tokens to come. -/
  tokens : List Token
  /-- What tags with a handle start with. -/
  handles : List (String × String)
  /-- The anchors so far. -/
  anchors : List String
  /-- The nodes with anchors that are complete, in that order. -/
  nodes : List (String × Node)
  /-- Whether a node refers to one that it is a part of. -/
  isLooped : Bool

namespace Assembly

/-- A step of the assembly. -/
abbrev Step (α : Type) := StateT Assembly (Except Refusal) α

/-- Refuses the tokens here. -/
def refuse {α : Type} : Step α :=
  throw .malformed

/-- The next token. -/
def peek : Step Token := do
  match (← get).tokens with
  | [] => return .finish
  | .refusal r :: _ => throw r
  | t :: _ => return t

/-- Moves over a token. -/
def advance : Step Unit :=
  modify fun a => { a with tokens := a.tokens.drop 1 }

/-- Moves over a token if it comes next. -/
def accept (t : Token) : Step Bool := do
  if (← peek) == t then
    advance
    return true
  else return false

/-- Moves over a token that must come next. -/
def expect (t : Token) : Step Unit := do
  if !(← accept t) then refuse

/-- Whether one of some tokens comes next. -/
def isNext (tokens : List Token) : Step Bool := do
  return tokens.contains (← peek)

/-- An anchor that comes next. -/
def takeAnchor : Step (Option String) := do
  match ← peek with
  | .anchor name => do
      advance
      return some name
  | _ => return none

/-- A tag that comes next. -/
def takeTag : Step (Option WrittenTag) := do
  match ← peek with
  | .tag t => do
      advance
      return some t
  | _ => return none

/-- The full name of a tag. -/
def tagName (t : WrittenTag) : Step String := do
  match t.handle with
  | none => return t.suffix
  | some handle =>
      match (← get).handles.lookup handle with
      | some start => return start ++ t.suffix
      | none => refuse

/-- The name of the tag that leaves the choice to the form of a node. -/
def openTag : String := "!"

/-- The tag of a collection, given the name that is written. -/
def collectionTag (usual : Tag) (name : Option String) : Tag :=
  match name with
  | none => usual
  | some name => if name = openTag then usual else .ofName name

/-- The tag of a scalar, given the name that is written. -/
def scalarTag (plain : Bool) (codes : List Nat) (name : Option String) : Tag :=
  match name with
  | none => if plain then .ofPlain (charsOf codes) else .str
  | some name => if name = openTag then .ofPlain (charsOf codes) else .ofName name

/-- Says that a node with an anchor starts. -/
def begin : Option String → Step Unit
  | none => return
  | some name => do
      if (← get).anchors.contains name then refuse
      else modify fun a => { a with anchors := name :: a.anchors }

/-- Enters a node under its anchor, if it has one. -/
def complete (anchor : Option String) (node : Node) : Step Node := do
  match anchor with
  | none => return node
  | some name => do
      modify fun a => { a with nodes := a.nodes ++ [(name, node)] }
      return node

/-- A reference to an anchor. -/
def refer (name : String) : Step Node := do
  let a ← get
  if !a.anchors.contains name then refuse
  else
    let isOpen := (a.nodes.lookup name).isNone
    set { a with isLooped := a.isLooped || isOpen }
    return .alias name

mutual

/-- Reads a node. In some places a collection cannot be opened by indentation; in some a sequence
may start without being indented. -/
def readNode (block flat : Bool) : Nat → Step Node
  | 0 => refuse
  | fuel + 1 => do
      match ← peek with
      | .alias name => do
          advance
          refer name
      | _ => do
          let early ← takeAnchor
          let written ← takeTag
          let late ← if early.isNone then takeAnchor else pure none
          let anchor := early <|> late
          let name ← match written with
            | none => pure none
            | some t => do pure (some (← tagName t))
          let next ← peek
          if flat && next == .blockEntry then do
            begin anchor
            complete anchor (.sequence (collectionTag .seq name) (← readFlatItems fuel))
          else match next with
            | .scalar plain codes => do
                advance
                begin anchor
                complete anchor (.scalar (scalarTag plain codes name) codes)
            | .flowSequence => do
                advance
                begin anchor
                complete anchor (.sequence (collectionTag .seq name) (← readFlowItems true fuel))
            | .flowMapping => do
                advance
                begin anchor
                complete anchor
                  (.mapping (collectionTag .map name) (← readFlowEntries true fuel))
            | _ => do
                if block && next == .blockSequence then
                  advance
                  begin anchor
                  complete anchor (.sequence (collectionTag .seq name) (← readItems fuel))
                else if block && next == .blockMapping then
                  advance
                  begin anchor
                  complete anchor (.mapping (collectionTag .map name) (← readEntries fuel))
                else if anchor.isSome || name.isSome then
                  begin anchor
                  complete anchor (.scalar (scalarTag true [] name) [])
                else refuse

/-- Reads a node, or nothing if one of some tokens comes next. -/
def readUnless (ends : List Token) (block flat : Bool) : Nat → Step Node
  | 0 => refuse
  | fuel + 1 => do
      if ← isNext ends then return .empty else readNode block flat fuel

/-- Reads the items of a sequence that indentation has opened. -/
def readItems : Nat → Step (List Node)
  | 0 => refuse
  | fuel + 1 => do
      if ← accept .blockEntry then
        let item ← readUnless [.blockEntry, .blockEnd] true false fuel
        return item :: (← readItems fuel)
      else
        expect .blockEnd
        return []

/-- Reads the items of a sequence that is not indented. -/
def readFlatItems : Nat → Step (List Node)
  | 0 => refuse
  | fuel + 1 => do
      if ← accept .blockEntry then
        let item ← readUnless [.blockEntry, .key, .value, .blockEnd] true false fuel
        return item :: (← readFlatItems fuel)
      else return []

/-- Reads the value of a key, if there is one. -/
def readValue (ends : List Token) (block : Bool) : Nat → Step Node
  | 0 => refuse
  | fuel + 1 => do
      if ← accept .value then readUnless ends block block fuel else return .empty

/-- Reads the entries of a mapping that indentation has opened. -/
def readEntries : Nat → Step (List (Node × Node))
  | 0 => refuse
  | fuel + 1 => do
      if ← accept .key then
        let ends := [Token.key, .value, .blockEnd]
        let key ← readUnless ends true true fuel
        let value ← readValue ends true fuel
        return (key, value) :: (← readEntries fuel)
      else
        expect .blockEnd
        return []

/-- Reads the items of a sequence in brackets. Items are separated by commas; an item with a key
is a mapping of its own. -/
def readFlowItems (first : Bool) : Nat → Step (List Node)
  | 0 => refuse
  | fuel + 1 => do
      if ← accept .flowSequenceEnd then return []
      else
        if !first then expect .flowEntry
        if ← accept .key then
          let key ← readUnless [.value, .flowEntry, .flowSequenceEnd] false false fuel
          let value ← readValue [.flowEntry, .flowSequenceEnd] false fuel
          return .mapping .map [(key, value)] :: (← readFlowItems false fuel)
        else if ← accept .flowSequenceEnd then return []
        else
          let item ← readNode false false fuel
          return item :: (← readFlowItems false fuel)

/-- Reads the entries of a mapping in braces. An item without a key indicator is a key without a
value. -/
def readFlowEntries (first : Bool) : Nat → Step (List (Node × Node))
  | 0 => refuse
  | fuel + 1 => do
      if ← accept .flowMappingEnd then return []
      else
        if !first then expect .flowEntry
        if ← accept .key then
          let key ← readUnless [.value, .flowEntry, .flowMappingEnd] false false fuel
          let value ← readValue [.flowEntry, .flowMappingEnd] false fuel
          return (key, value) :: (← readFlowEntries false fuel)
        else if ← accept .flowMappingEnd then return []
        else
          let key ← readNode false false fuel
          return (key, .empty) :: (← readFlowEntries false fuel)

end

/-! ## Documents -/

/-- The handles that every document knows. -/
def usualHandles : List (String × String) :=
  [("!", "!"), ("!!", Tag.family)]

/-- Reads the directives in front of a document: at most one version, which must be of the first
kind, and at most one start for each handle. -/
def readDirectives (versioned : Bool) (handles : List (String × String)) :
    Nat → Step (List (String × String))
  | 0 => refuse
  | fuel + 1 => do
      match ← peek with
      | .directive (.version major _) => do
          advance
          if versioned || major != 1 then refuse else readDirectives true handles fuel
      | .directive (.handle name start) => do
          advance
          if (handles.lookup name).isSome then refuse
          else readDirectives versioned ((name, start) :: handles) fuel
      | .directive .other => do
          advance
          readDirectives versioned handles fuel
      | _ => return handles ++ usualHandles

/-- Moves over the marks at the ends of documents. -/
def skipEnds : Nat → Step Unit
  | 0 => return
  | fuel + 1 => do
      if ← accept .documentEnd then skipEnds fuel

/-- Reads the only document of a text; nothing if the text has none. -/
def readDocument (fuel : Nat) : Step (Option Node) := do
  let marked ← match ← peek with
    | .directive _ => pure true
    | .documentStart => pure true
    | _ => pure false
  if !marked && (← peek) == .finish then return none
  else
    if marked then
      let handles ← readDirectives false [] fuel
      modify fun a => { a with handles := handles }
      expect .documentStart
    let next ← peek
    let isBare := marked && match next with
      | .directive _ => true
      | .documentStart => true
      | .documentEnd => true
      | .finish => true
      | _ => false
    let node ← if isBare then pure .empty else readNode true false fuel
    skipEnds fuel
    expect .finish
    return some node

end Assembly

/-- A tree of nodes with the table of its anchors. -/
structure Graph where
  /-- The root. -/
  root : Node
  /-- The nodes with anchors, each behind those it is made of. -/
  anchored : List (String × Node)
  /-- Whether a node refers to one that it is a part of. -/
  isLooped : Bool
  /-- A bound for the depth of the nodes. -/
  size : Nat

/-- The nodes that tokens write; nothing if there is no document. -/
def Graph.ofTokens (tokens : List Token) : Except Refusal (Option Graph) := do
  let size := tokens.length
  let start : Assembly :=
    { tokens := tokens, handles := Assembly.usualHandles, anchors := [], nodes := [],
      isLooped := false }
  let (root, a) ← (Assembly.readDocument (4 * size + 8)).run start
  return root.map fun root =>
    { root := root, anchored := a.nodes, isLooped := a.isLooped, size := size }

end SemanticMarkup.Yaml
