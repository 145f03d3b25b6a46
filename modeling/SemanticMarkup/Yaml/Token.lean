import SemanticMarkup.Yaml.Property
import SemanticMarkup.Yaml.Scalar

/-!
# Tokens of YAML

A YAML text as a row of tokens. Indentation becomes tokens that open and close
collections, so that what follows needs no columns any more.

A mapping key without an indicator is only known by the colon behind it. So
every token that may be such a key is remembered; when the colon comes, the
token for a key is entered in front of it.

## Implementation notes

`Lexer` is the state between two tokens. Where the text cannot be read any
further the row of tokens ends with a refusal behind the tokens that are certain
by then; it takes effect when it is reached.
-/

namespace SemanticMarkup.Yaml

/-- A token. -/
inductive Token where
  /-- The end of the text. -/
  | finish
  /-- A directive. -/
  | directive (d : Directive)
  /-- The mark at the start of a document. -/
  | documentStart
  /-- The mark at the end of a document. -/
  | documentEnd
  /-- The start of a sequence by indentation. -/
  | blockSequence
  /-- The start of a mapping by indentation. -/
  | blockMapping
  /-- The end of a collection by indentation. -/
  | blockEnd
  /-- The start of a sequence in brackets. -/
  | flowSequence
  /-- The end of a sequence in brackets. -/
  | flowSequenceEnd
  /-- The start of a mapping in braces. -/
  | flowMapping
  /-- The end of a mapping in braces. -/
  | flowMappingEnd
  /-- The hyphen in front of an item. -/
  | blockEntry
  /-- The comma between items. -/
  | flowEntry
  /-- A key follows. -/
  | key
  /-- The value of a key follows. -/
  | value
  /-- A reference to an anchor. -/
  | alias (name : String)
  /-- An anchor of the node that follows. -/
  | anchor (name : String)
  /-- The tag of the node that follows. -/
  | tag (t : WrittenTag)
  /-- A scalar; `plain` tells whether it is written plainly. -/
  | scalar (plain : Bool) (codes : List Nat)
  /-- The text cannot be read any further. -/
  | refusal (r : Refusal)
  deriving DecidableEq, Repr

/-- A token that may be a mapping key. -/
structure PossibleKey where
  /-- The number of brackets around it. -/
  level : Nat
  /-- The number of tokens in front of it. -/
  place : Nat
  /-- Whether nothing but a key can stand there. -/
  required : Bool
  /-- The number of characters in front of it. -/
  index : Nat
  /-- Its line. -/
  line : Nat
  /-- Its column. -/
  column : Nat
  deriving Repr

/-- What is known between two tokens. -/
structure Lexer where
  /-- The rest of the text. -/
  source : Source
  /-- The tokens so far, the last one first. -/
  tokens : List Token
  /-- The number of tokens so far. -/
  count : Nat
  /-- The number of brackets around this place. -/
  flow : Nat
  /-- The columns of the collections around this place, the innermost first. -/
  indents : List Nat
  /-- Whether a key may start here. -/
  allowKey : Bool
  /-- The tokens that may be keys. -/
  keys : List PossibleKey

namespace Lexer

/-- A step of the lexer. -/
abbrev Step (α : Type) := StateT Lexer (Except Refusal) α

/-- The state at the start of a text. -/
def start (cs : List Char) : Lexer where
  source := Source.ofText cs
  tokens := []
  count := 0
  flow := 0
  indents := []
  allowKey := true
  keys := []

/-- Refuses the text here. -/
def refuse {α : Type} : Step α :=
  throw .malformed

/-- Adds a token. -/
def push (t : Token) : Step Unit :=
  modify fun l => { l with tokens := t :: l.tokens, count := l.count + 1 }

/-- Enters a token behind a number of others. -/
def insert (place : Nat) (t : Token) : Step Unit :=
  modify fun l =>
    let behind := l.count - place
    let tokens := l.tokens.take behind ++ t :: l.tokens.drop behind
    { l with tokens := tokens, count := l.count + 1 }

/-- Moves to a place. -/
def moveTo (s : Source) : Step Unit :=
  modify fun l => { l with source := s }

/-- Moves over a number of characters. -/
def skip (count : Nat) : Step Unit :=
  modify fun l => { l with source := l.source.skip count }

/-- Says whether a key may start here. -/
def setAllowKey (allowed : Bool) : Step Unit :=
  modify fun l => { l with allowKey := allowed }

/-- What a reader finds here; the lexer moves behind it. -/
def take {α : Type} (read : Source → Except Refusal (α × Source)) : Step α := do
  let l ← get
  match read l.source with
  | .ok (a, s) => do
      moveTo s
      return a
  | .error e => throw e

/-- Moves over spaces, comments and line breaks. Behind a line break outside brackets a key may
start. -/
def skipGap : Nat → Step Unit
  | 0 => return
  | fuel + 1 => do
      let l ← get
      let s := l.source.skipWhile (· == ' ')
      let s := if s.startsWith '#' then s.skipWhile (!isBreak ·) else s
      match s.takeBreak with
      | ([], _) => moveTo s
      | (_, after) => do
          set { l with source := after, allowKey := l.allowKey || l.flow == 0 }
          skipGap fuel

/-- The greatest number of characters of a key and the gap behind it. -/
def keyLength : Nat := 1024

/-- Whether a colon here would come too late for a key. -/
def isStale (l : Lexer) (k : PossibleKey) : Bool :=
  k.line != l.source.line || keyLength < l.source.index - k.index

/-- Forgets the keys that a colon here would come too late for. -/
def dropStaleKeys : Step Unit := do
  let l ← get
  if l.keys.any fun k => l.isStale k && k.required then refuse
  else set { l with keys := l.keys.filter (!l.isStale ·) }

/-- Forgets the key between the same brackets. -/
def dropKey : Step Unit := do
  let l ← get
  if l.keys.any fun k => k.level == l.flow && k.required then refuse
  else set { l with keys := l.keys.filter (·.level != l.flow) }

/-- Remembers that the next token may be a key. -/
def saveKey : Step Unit := do
  if (← get).allowKey then
    dropKey
    modify fun l =>
      let s := l.source
      let required := l.flow == 0 && l.indents.head? == some s.column
      let key : PossibleKey :=
        { level := l.flow, place := l.count, required := required, index := s.index,
          line := s.line, column := s.column }
      { l with keys := key :: l.keys }

/-- Closes the collections whose columns do not satisfy a condition. -/
def closeUntil (keeps : Nat → Bool) : Step Unit := do
  let l ← get
  if l.flow == 0 then
    let closed := l.indents.takeWhile (!keeps ·)
    let ends := closed.map fun _ => Token.blockEnd
    let count := l.count + closed.length
    set { l with
      tokens := ends ++ l.tokens, count := count, indents := l.indents.drop closed.length }

/-- Closes all collections that indentation has opened. -/
def closeAll : Step Unit :=
  closeUntil fun _ => false

/-- Whether a column lies further in than the collection around this place. -/
def isDeeper (column : Nat) (l : Lexer) : Bool :=
  l.indents.head?.all (· < column)

/-- Opens a collection at a column. -/
def openAt (column : Nat) : Step Unit :=
  modify fun l => { l with indents := column :: l.indents }

/-- Opens a collection of items here, if it lies further in than the one around it. -/
def openHere (t : Token) : Step Unit := do
  let l ← get
  if isDeeper l.source.column l then
    openAt l.source.column
    push t

/-- Reads the end of the text. -/
def readFinish : Step Unit := do
  closeAll
  dropKey
  push .finish

/-- Reads a directive. -/
def readDirectiveToken : Step Unit := do
  closeAll
  dropKey
  setAllowKey false
  push (.directive (← take readDirective))

/-- Reads a mark between documents. -/
def readMark (t : Token) : Step Unit := do
  closeAll
  dropKey
  setAllowKey false
  skip 3
  push t

/-- Reads an opening bracket. -/
def readOpening (t : Token) : Step Unit := do
  saveKey
  modify fun l => { l with flow := l.flow + 1, allowKey := true }
  skip 1
  push t

/-- Reads a closing bracket. -/
def readClosing (t : Token) : Step Unit := do
  if (← get).flow == 0 then refuse
  else
    dropKey
    modify fun l => { l with flow := l.flow - 1, allowKey := false }
    skip 1
    push t

/-- Reads a comma. -/
def readFlowEntry : Step Unit := do
  dropKey
  setAllowKey true
  skip 1
  push .flowEntry

/-- Reads the hyphen in front of an item. -/
def readBlockEntry : Step Unit := do
  let l ← get
  if l.flow == 0 then
    if l.allowKey then openHere .blockSequence else refuse
  setAllowKey true
  dropKey
  skip 1
  push .blockEntry

/-- Reads the indicator of a key. -/
def readKey : Step Unit := do
  let l ← get
  if l.flow == 0 then
    if l.allowKey then openHere .blockMapping else refuse
  setAllowKey (l.flow == 0)
  dropKey
  skip 1
  push .key

/-- Reads the colon in front of a value. If a token may be its key, it becomes one. -/
def readValue : Step Unit := do
  let l ← get
  match l.keys.find? (·.level == l.flow) with
  | some key => do
      set { l with keys := l.keys.filter (·.level != l.flow) }
      insert key.place .key
      if l.flow == 0 && isDeeper key.column l then
        openAt key.column
        insert key.place .blockMapping
      setAllowKey false
  | none => do
      if l.flow == 0 then
        if l.allowKey then openHere .blockMapping else refuse
      setAllowKey (l.flow == 0)
      dropKey
  skip 1
  push .value

/-- Reads a token that may be a key or stand in front of one. -/
def readNodeStart (read : Source → Except Refusal (Token × Source)) : Step Unit := do
  saveKey
  setAllowKey false
  push (← take read)

/-- Reads a block of lines. -/
def readBlockScalar (fold : Bool) : Step Unit := do
  setAllowKey true
  dropKey
  skip 1
  let outer := (← get).indents.head?
  push (.scalar false (← take (readBlock fold outer)))

/-- Reads a plain scalar. -/
def readPlainScalar : Step Unit := do
  saveKey
  let l ← get
  let column := l.indents.head?.elim 0 (· + 1)
  let plain := readPlain (l.flow != 0) column (l.source.rest.length + 1) ⟨[], false, l.source⟩
  setAllowKey plain.breaks
  moveTo plain.after
  push (.scalar true (codesOf plain.text))

/-- The characters that do not start a plain scalar. -/
def indicators : List Char :=
  ['-', '?', ':', ',', '[', ']', '\x7b', '\x7d', '#', '&', '*', '!', '|', '>', '\x27', '\x22',
    '%', '@', '\x60']

/-- Whether a plain scalar starts with these characters. Some indicators start one in front of
what is no gap. -/
def startsPlain (flow : Bool) (c : Char) (next : Option Char) : Bool :=
  !(isGap c || isBreak c || indicators.contains c)
    || (!endsWord next && (c == '-' || (!flow && (c == '?' || c == ':'))))

/-- Reads the token that starts with a character. -/
def readToken (c : Char) : Step Unit := do
  let l ← get
  let flow := l.flow != 0
  let next := l.source.next.peek
  let separated := flow || endsWord next
  let atLineStart := l.source.column == 0
  if c == '%' && atLineStart then readDirectiveToken
  else if atLineStart && l.source.atMark Source.startMark then readMark .documentStart
  else if atLineStart && l.source.atMark Source.endMark then readMark .documentEnd
  else if c == '[' then readOpening .flowSequence
  else if c == '\x7b' then readOpening .flowMapping
  else if c == ']' then readClosing .flowSequenceEnd
  else if c == '\x7d' then readClosing .flowMappingEnd
  else if c == ',' then readFlowEntry
  else if c == '-' && endsWord next then readBlockEntry
  else if c == '?' && separated then readKey
  else if c == ':' && separated then readValue
  else if c == '*' then readNodeStart fun s => do
    let (name, after) ← readAnchor s.next
    return (.alias name, after)
  else if c == '&' then readNodeStart fun s => do
    let (name, after) ← readAnchor s.next
    return (.anchor name, after)
  else if c == '!' then readNodeStart fun s => do
    let (tag, after) ← readTag s
    return (.tag tag, after)
  else if c == '|' && !flow then readBlockScalar false
  else if c == '>' && !flow then readBlockScalar true
  else if c == '\x27' || c == '\x22' then readNodeStart fun s => do
    let (codes, after) ← readQuoted (c == '\x22') (s.rest.length + 1) s.next
    return (.scalar false codes, after)
  else if startsPlain flow c next then readPlainScalar
  else refuse

/-- Reads one token, with those that indentation puts in front of it; false at the end of the
text. -/
def step : Step Bool := do
  skipGap ((← get).source.rest.length + 1)
  dropStaleKeys
  let column := (← get).source.column
  closeUntil (· ≤ column)
  match (← get).source.peek with
  | none => do
      readFinish
      return false
  | some c => do
      readToken c
      return true

/-- The tokens that are certain; a token that may still become a key is not. -/
def certain (l : Lexer) : List Token :=
  let fresh := l.keys.filter (!l.isStale ·)
  let count := fresh.foldl (fun n k => min n k.place) l.count
  l.tokens.drop (l.count - count)

/-- Reads up to a number of tokens; the last one comes first. -/
def run : Nat → Lexer → List Token
  | 0, l => l.tokens
  | fuel + 1, l =>
      match step.run l with
      | .ok (true, l) => run fuel l
      | .ok (false, l) => l.tokens
      | .error r => .refusal r :: l.certain

end Lexer

/-- The tokens of a text. -/
def tokens (cs : List Char) : List Token :=
  if cs.all isAllowed then (Lexer.run (cs.length + 1) (Lexer.start cs)).reverse
  else [.refusal .malformed]

end SemanticMarkup.Yaml
