import SemanticMarkup.Yaml.Source

/-!
# The texts of scalars

A scalar is written in quotes, as a block of lines, or plainly. Each way has its
rules for escapes and for what becomes of line breaks. Texts are given by code
points, since an escape may stand for half of a surrogate pair.
-/

namespace SemanticMarkup.Yaml

/-- The code points of characters. -/
def codesOf (cs : List Char) : List Nat :=
  cs.map Char.toNat

/-- What a first line break and the breaks after it become between two words: a single break
becomes a space. -/
def folded (first breaks : List Char) : List Char :=
  if first != ['\n'] then first ++ breaks
  else if breaks.isEmpty then [' '] else breaks

/-! ## Quoted scalars -/

/-- The code point that an escape of one character stands for. -/
def escapeCode? (c : Char) : Option Nat :=
  match c with
  | '0' => some 0x00
  | 'a' => some 0x07
  | 'b' => some 0x08
  | 't' => some 0x09
  | '\t' => some 0x09
  | 'n' => some 0x0A
  | 'v' => some 0x0B
  | 'f' => some 0x0C
  | 'r' => some 0x0D
  | 'e' => some 0x1B
  | ' ' => some 0x20
  | '\x22' => some 0x22
  | '\x5c' => some 0x5C
  | '/' => some 0x2F
  | 'N' => some 0x85
  | '_' => some 0xA0
  | 'L' => some 0x2028
  | 'P' => some 0x2029
  | _ => none

/-- The number of hexadecimal digits behind the letter of an escape. -/
def escapeWidth? (c : Char) : Option Nat :=
  match c with
  | 'x' => some 2
  | 'u' => some 4
  | 'U' => some 8
  | _ => none

/-- The number that hexadecimal digits write. -/
def hexNumber? (cs : List Char) : Option Nat :=
  cs.foldlM (fun n c => (Text.hexDigit? c).map (16 * n + ·)) 0

/-- The code point that an escape by number stands for. The last code point is `10FFFF`; a
number beyond 31 bits is not even compared with it. -/
def codePoint (n : Nat) : Except Refusal Nat :=
  if n ≤ 0x10FFFF then .ok n
  else if n < Nat.pow 2 31 then .error (.fault .wrongValue)
  else .error (.fault .overflow)

/-- The line breaks that come next in a quoted scalar, with the gaps at the starts of lines
skipped. No mark between documents may stand there. -/
def quotedBreaks : Nat → Source → Except Refusal (List Char × Source)
  | 0, s => .ok ([], s)
  | fuel + 1, s =>
      if s.atDocumentMark then malformed
      else
        let s := s.skipWhile isGap
        match s.takeBreak with
        | ([], _) => .ok ([], s)
        | (first, after) => do
            let (breaks, after) ← quotedBreaks fuel after
            return (first ++ breaks, after)

/-- Reads an escape behind the backslash. -/
def readEscape (s : Source) : Except Refusal (List Nat × Source) :=
  match s.peek with
  | none => malformed
  | some c =>
      match escapeCode? c, escapeWidth? c with
      | some code, _ => .ok ([code], s.next)
      | none, some width =>
          let digits := s.next.rest.take width
          match hexNumber? digits with
          | none => malformed
          | some n =>
              if digits.length < width then malformed
              else do
                let code ← codePoint n
                return ([code], s.next.skip width)
      | none, none =>
          if isBreak c then do
            let (breaks, after) ← quotedBreaks (s.rest.length + 1) s.takeBreak.2
            return (codesOf breaks, after)
          else malformed

/-- Reads the gap or line breaks that come next in a quoted scalar. -/
def readQuotedGap (s : Source) : Except Refusal (List Nat × Source) :=
  let (gap, s) := s.span isGap
  match s.peek, s.takeBreak with
  | none, _ => malformed
  | some _, ([], _) => .ok (codesOf gap, s)
  | some _, (first, after) => do
      let (breaks, after) ← quotedBreaks (s.rest.length + 1) after
      return (codesOf (folded first breaks), after)

/-- Reads a quoted scalar behind its opening quote. In single quotes a quote is written twice,
in double quotes there are escapes. -/
def readQuoted (double : Bool) : Nat → Source → Except Refusal (List Nat × Source)
  | 0, _ => malformed
  | fuel + 1, s =>
      let quote := if double then '\x22' else '\x27'
      match s.rest with
      | [] => malformed
      | c :: rest =>
          let more (codes : List Nat) (after : Source) : Except Refusal (List Nat × Source) := do
            let (others, after) ← readQuoted double fuel after
            return (codes ++ others, after)
          if c = quote then
            if !double && rest.head? == some quote then more [quote.toNat] (s.skip 2)
            else .ok ([], s.next)
          else if isGap c || isBreak c then
            match readQuotedGap s with
            | .ok (codes, after) => more codes after
            | .error e => .error e
          else if double && c == '\x5c' then
            match readEscape s.next with
            | .ok (codes, after) => more codes after
            | .error e => .error e
          else more [c.toNat] s.next

/-! ## Blocks of lines -/

/-- What becomes of the line breaks at the end of a block. -/
inductive Chomping where
  /-- They are dropped. -/
  | strip
  /-- One is kept. -/
  | clip
  /-- All are kept. -/
  | keep
  deriving DecidableEq, Repr

/-- The chomping that a sign asks for. -/
def Chomping.ofSign? (c : Char) : Option Chomping :=
  if c = '+' then some .keep else if c = '-' then some .strip else none

/-- The header of a block. -/
structure BlockHeader where
  /-- What becomes of the line breaks at the end. -/
  chomping : Chomping
  /-- The indentation of the lines against what surrounds the block, if it is given. -/
  increment : Option Nat
  deriving Repr

/-- The chomping sign that comes next. -/
def takeChomping (s : Source) : Option Chomping × Source :=
  match s.peek.bind Chomping.ofSign? with
  | some chomping => (some chomping, s.next)
  | none => (none, s)

/-- The digit of an indentation that comes next. -/
def takeIncrement (s : Source) : Option Nat × Source :=
  match s.peek.bind Text.asciiDigit? with
  | some d => (some d, s.next)
  | none => (none, s)

/-- Reads the header of a block: a sign and a digit in either order, and a comment. -/
def readHeader (s : Source) : Except Refusal (BlockHeader × Source) :=
  let (early, s) := takeChomping s
  let (increment, s) := takeIncrement s
  let (late, s) := match early, increment with
    | none, some _ => takeChomping s
    | _, _ => (none, s)
  if increment == some 0 || !endsName s.peek then malformed
  else s.endLine { chomping := (early <|> late).getD .clip, increment := increment }

/-- The place behind the spaces that come next, but not beyond a column. -/
def skipIndent (column : Nat) (s : Source) : Source :=
  s.skip (min (column - s.column) (s.rest.takeWhile (· == ' ')).length)

/-- The line breaks that come next in a block whose lines are indented to a column. -/
def blockBreaks (column : Nat) : Nat → Source → List Char × Source
  | 0, s => ([], s)
  | fuel + 1, s =>
      let s := skipIndent column s
      match s.takeBreak with
      | ([], _) => ([], s)
      | (first, after) =>
          let (breaks, after) := blockBreaks column fuel after
          (first ++ breaks, after)

/-- The line breaks and spaces that come next in a block whose indentation is not given, with the
greatest column that spaces reach. -/
def blockLead : Nat → Source → List Char × Nat × Source
  | 0, s => ([], 0, s)
  | fuel + 1, s =>
      let (spaces, s) := s.span (· == ' ')
      let column := if spaces.isEmpty then 0 else s.column
      match s.takeBreak with
      | ([], _) => ([], column, s)
      | (first, after) =>
          let (breaks, others, after) := blockLead fuel after
          (first ++ breaks, max column others, after)

/-- The lines of a block. -/
structure BlockLines where
  /-- The text without the last line break. -/
  text : List Char
  /-- The last line break. -/
  final : List Char
  /-- The breaks of the empty lines behind it. -/
  breaks : List Char
  /-- The place behind the block. -/
  after : Source

/-- Whether a line of a block starts here. -/
def atBlockLine (column : Nat) (s : Source) : Bool :=
  s.column == column && !s.rest.isEmpty

/-- Reads the lines of a block behind some breaks. In a folded block a single break between two
lines that start without a gap becomes a space. -/
def readLines (fold : Bool) (column : Nat) : Nat → List Char → Source → BlockLines
  | 0, breaks, s => ⟨[], [], breaks, s⟩
  | fuel + 1, breaks, s =>
      if atBlockLine column s then
        let flush := !s.startsIn isGap
        let (line, s) := s.span (!isBreak ·)
        let (first, s) := s.takeBreak
        let (others, s) := blockBreaks column (s.rest.length + 1) s
        if atBlockLine column s then
          let between :=
            if fold && first == ['\n'] && flush && !s.startsIn isGap then
              (if others.isEmpty then [' '] else [])
            else first
          let lines := readLines fold column fuel others s
          { lines with text := breaks ++ line ++ between ++ lines.text }
        else ⟨breaks ++ line, first, others, s⟩
      else ⟨[], [], breaks, s⟩

/-- Reads a block behind its indicator, inside something that is indented to a column, or inside
nothing. -/
def readBlock (fold : Bool) (outer : Option Nat) (s : Source) :
    Except Refusal (List Nat × Source) := do
  let (header, s) ← readHeader s
  let least := max 1 (outer.elim 0 (· + 1))
  let fuel := s.rest.length + 1
  let (breaks, column, s) := match header.increment with
    | some increment =>
        let column := least + increment - 1
        let (breaks, s) := blockBreaks column fuel s
        (breaks, column, s)
    | none =>
        let (breaks, column, s) := blockLead fuel s
        (breaks, max least column, s)
  let lines := readLines fold column fuel breaks s
  let ending := match header.chomping with
    | .strip => []
    | .clip => lines.final
    | .keep => lines.final ++ lines.breaks
  return (codesOf (lines.text ++ ending), lines.after)

/-! ## Plain scalars -/

/-- Whether a character separates the parts of a collection in brackets. -/
def isFlowMark (c : Char) : Bool :=
  c == ',' || c == '[' || c == ']' || c == '\x7b' || c == '\x7d'

/-- The row of characters that come next in a plain scalar. `flow` tells whether it is inside
brackets. -/
def plainRun (flow : Bool) : List Char → List Char
  | [] => []
  | c :: rest =>
      let next := rest.head?
      if isGap c || isBreak c || (flow && (isFlowMark c || c == '?')) then []
      else if c == ':' && (endsWord next || (flow && next.any isFlowMark)) then []
      else c :: plainRun flow rest

/-- The line breaks that come next in a plain scalar, with the spaces at the starts of lines
skipped, or nothing if a mark between documents stands there. -/
def plainBreaks : Nat → Source → Option (List Char) × Source
  | 0, s => (some [], s)
  | fuel + 1, s =>
      if s.atDocumentMark then (none, s)
      else
        let s := s.skipWhile (· == ' ')
        match s.takeBreak with
        | ([], _) => (some [], s)
        | (first, after) =>
            let (breaks, after) := plainBreaks fuel after
            (breaks.map (first ++ ·), after)

/-- What lies between two words of a plain scalar. -/
structure PlainGap where
  /-- What it becomes; nothing if the scalar ends here. -/
  text : List Char
  /-- Whether it crosses a line break. -/
  breaks : Bool
  /-- The place behind it. -/
  after : Source

/-- The gap that comes next in a plain scalar. -/
def readPlainGap (s : Source) : PlainGap :=
  let (spaces, s) := s.span (· == ' ')
  match s.takeBreak with
  | ([], _) => ⟨spaces, false, s⟩
  | (first, after) =>
      match plainBreaks (s.rest.length + 1) after with
      | (none, after) => ⟨[], true, after⟩
      | (some breaks, after) => ⟨folded first breaks, true, after⟩

/-- A plain scalar as it was read. -/
structure PlainText where
  /-- The text. -/
  text : List Char
  /-- Whether a line break comes behind it. -/
  breaks : Bool
  /-- The place behind it and the gap after it. -/
  after : Source

/-- Reads a plain scalar, or its continuation behind a gap. Outside brackets its lines start at
a column at least. -/
def readPlain (flow : Bool) (column : Nat) : Nat → PlainGap → PlainText
  | 0, gap => ⟨[], gap.breaks, gap.after⟩
  | fuel + 1, gap =>
      let s := gap.after
      let run := if s.startsWith '#' then [] else plainRun flow s.rest
      if run.isEmpty then ⟨[], gap.breaks, s⟩
      else
        let next := readPlainGap (s.skip run.length)
        let ends := next.text.isEmpty || next.after.startsWith '#'
          || (!flow && next.after.column < column)
        if ends then ⟨gap.text ++ run, next.breaks, next.after⟩
        else
          let more := readPlain flow column fuel next
          { more with text := gap.text ++ run ++ more.text }

end SemanticMarkup.Yaml
