import SemanticMarkup.Text.Base64
import SemanticMarkup.Yaml.Node
import SemanticMarkup.Yaml.Numeral

/-!
# Values of YAML

The value of a node is made by its tag. The entries of a merged mapping come
before those of the mapping itself, and of the values under a key the last one
stays. The keys of a mapping are scalars.

If several values cannot be made, the fault nearest to the root counts, and of
equally near ones the first. An anchor inside its own node stands for that node
again; such a value is unfolded to a depth that is greater than what any reader
of documents looks at.

## Implementation notes

`Attempt` carries the depth of a fault below the node that is looked at. The
depth of a node is the number of collections around it.
-/

namespace SemanticMarkup.Yaml

open SemanticMarkup.Text

/-- A value, or the fault that prevents it with its depth. -/
abbrev Attempt (α : Type) := Except (Nat × Refusal) α

namespace Attempt

/-- A fault at the node itself. -/
def here {α : Type} : Except Refusal α → Attempt α
  | .ok a => .ok a
  | .error r => .error (0, r)

/-- A fault at the node itself, which is no YAML. -/
def malformed {α : Type} : Attempt α :=
  .error (0, .malformed)

/-- The value of something inside a collection. -/
def inside {α : Type} : Attempt α → Attempt α
  | .ok a => .ok a
  | .error (depth, r) => .error (depth + 1, r)

/-- Two values. The fault that is nearer to the root counts, else the first one. -/
def both {α β : Type} : Attempt α → Attempt β → Attempt (α × β)
  | .ok a, .ok b => .ok (a, b)
  | .error e, .ok _ => .error e
  | .ok _, .error f => .error f
  | .error e, .error f => if f.1 < e.1 then .error f else .error e

/-- A row of values. -/
def all {α : Type} : List (Attempt α) → Attempt (List α)
  | [] => .ok []
  | a :: rest =>
      match both a (all rest) with
      | .ok (a, as) => .ok (a :: as)
      | .error e => .error e

end Attempt

/-! ## Scalars -/

/-- The words for truth values in small letters. -/
def truthWords : List (String × Bool) :=
  [("yes", true), ("no", false), ("true", true), ("false", false), ("on", true), ("off", false)]

/-- The value of a scalar with a tag. -/
def scalarValue (tag : Tag) (codes : List Nat) : Except Refusal Value :=
  let cs := charsOf codes
  match tag with
  | .null => .ok .null
  | .bool =>
      match truthWords.lookup (String.ofList (Number.lowered cs)) with
      | some b => .ok (.bool b)
      | none => impossible .missingKey
  | .int => do return .int (← readInteger cs)
  | .float => do return .float (← readFloat cs)
  | .timestamp =>
      match Timestamp.read? (withoutFinalBreak cs) with
      | some t => found t.value?
      | none => impossible .missingAttribute
  | .binary =>
      if codes.any (0x80 ≤ ·) then malformed
      else match base64? cs with
        | some bs => .ok (.bytes bs)
        | none => malformed
  | .str => .ok (Value.ofCodes codes)
  | _ => malformed

/-! ## Collections -/

namespace Graph

/-- The node that a node is or refers to. -/
def target (g : Graph) : Node → Node
  | .alias name => (g.anchored.lookup name).getD .empty
  | node => node

/-- The tag of a node. -/
def tagOf (g : Graph) (node : Node) : Tag :=
  match g.target node with
  | .scalar tag _ => tag
  | .sequence tag _ => tag
  | .mapping tag _ => tag
  | .alias _ => .other

/-- The anchor that a node refers to, in front of others. -/
def markSeen (node : Node) (seen : List String) : List String :=
  match node with
  | .alias name => name :: seen
  | _ => seen

/-- Whether a node refers to one of some anchors. -/
def isSeen (node : Node) (seen : List String) : Bool :=
  match node with
  | .alias name => seen.contains name
  | _ => false

mutual

/-- The entries of a mapping with those of merged mappings in front. An equals sign as a key is a
text. -/
def flatten (g : Graph) : Nat → List String → List (Node × Node) →
    Except Refusal (List (Node × Node))
  | 0, _, _ => .ok []
  | fuel + 1, seen, entries => do
      let merged ← (entries.filter fun e => g.tagOf e.1 == .merge).mapM fun e =>
        mergedEntries g fuel seen e.2
      let own := (entries.filter fun e => g.tagOf e.1 != .merge).map fun e =>
        match g.target e.1 with
        | .scalar .value codes => (.scalar .str codes, e.2)
        | _ => e
      return merged.flatten ++ own

/-- The entries that a merged node brings: those of a mapping, or those of a sequence of
mappings, of which the last one comes first. -/
def mergedEntries (g : Graph) : Nat → List String → Node → Except Refusal (List (Node × Node))
  | 0, _, _ => .ok []
  | fuel + 1, seen, node =>
      if isSeen node seen then .ok []
      else
        let seen := markSeen node seen
        match g.target node with
        | .mapping _ entries => flatten g fuel seen entries
        | .sequence _ items => do
            let rows ← items.mapM fun item =>
              if isSeen item seen then .ok []
              else match g.target item with
                | .mapping _ entries => flatten g fuel (markSeen item seen) entries
                | _ => malformed
            return rows.reverse.flatten
        | _ => malformed

end

/-- The text of a scalar; a mapping with an entry under an equals sign counts as the scalar
there. -/
def scalarText (g : Graph) : Nat → Node → Except Refusal (List Nat)
  | 0, _ => malformed
  | fuel + 1, node =>
      match g.target node with
      | .scalar _ codes => .ok codes
      | .mapping _ entries =>
          match entries.find? fun e => g.tagOf e.1 == .value with
          | some e => scalarText g fuel e.2
          | none => malformed
      | _ => malformed

/-- The values of anchors that are known. -/
abbrev Known := List (String × Attempt Value)

/-- Two nodes as the key and value of an entry; only scalars are keys. -/
def entryOf (g : Graph) (value : Node → Attempt Value) (e : Node × Node) :
    Attempt (Value × Value) :=
  let key := if (g.tagOf e.1).isCollection then .malformed else value e.1
  key.both (value e.2)

/-- The only entry of a mapping as a pair. -/
def pairOf (g : Graph) (value : Node → Attempt Value) (node : Node) : Attempt Value :=
  match g.target node with
  | .mapping _ [(k, v)] => ((value k).both (value v)).map fun p => .tuple [p.1, p.2]
  | _ => .malformed

/-- The entries of a mapping and of those that are merged into it. -/
def entriesOf (g : Graph) (value : Node → Attempt Value) (entries : List (Node × Node)) :
    Attempt Entries :=
  match flatten g (2 * g.size + 2) [] entries with
  | .error r => .error (0, r)
  | .ok entries => (Attempt.all (entries.map (entryOf g value))).map Entries.ofPairs

/-- The value of a node, given those of the anchors. -/
def valueOf (g : Graph) (known : Known) : Nat → Node → Attempt Value
  | 0, _ => .ok .null
  | fuel + 1, node =>
      match node with
      | .alias name => (known.lookup name).getD (.ok .null)
      | .scalar tag codes =>
          if tag.isCollection then Attempt.inside .malformed else .here (scalarValue tag codes)
      | .sequence tag items =>
          match tag with
          | .seq => (Attempt.all (items.map (valueOf g known fuel))).inside.map Value.list
          | .omap => (Attempt.all (items.map (pairOf g (valueOf g known fuel)))).inside.map .list
          | .pairs => (Attempt.all (items.map (pairOf g (valueOf g known fuel)))).inside.map .list
          | .map => Attempt.inside .malformed
          | .set => Attempt.inside .malformed
          | _ => .malformed
      | .mapping tag entries =>
          match tag with
          | .map => (entriesOf g (valueOf g known fuel) entries).inside.map Value.dict
          | .set =>
              (entriesOf g (valueOf g known fuel) entries).inside.map fun es =>
                .set (es.map Prod.fst)
          | .seq => Attempt.inside .malformed
          | .omap => Attempt.inside .malformed
          | .pairs => Attempt.inside .malformed
          | .other => .malformed
          | .merge => .malformed
          | .value => .malformed
          | .timestamp =>
              match scalarText g (g.size + 1) node with
              | .ok _ => .error (0, .fault .wrongType)
              | .error r => .error (0, r)
          | _ => .here do scalarValue tag (← scalarText g (g.size + 1) node)

/-- The values of the anchors, given what is known of those that are made later. -/
def learn (g : Graph) (known : Known) : Known :=
  g.anchored.foldl (fun known a => (a.1, valueOf g known (g.size + 1) a.2) :: known) known

/-- How often a value that is part of itself is unfolded. -/
def unfoldings : Nat := 256

/-- The values of the anchors. -/
def learnTimes (g : Graph) : Nat → Known
  | 0 => []
  | k + 1 => (learn g (learnTimes g k)).take g.anchored.length

/-- The value of the root. -/
def value (g : Graph) : Except Refusal Value :=
  let known := learnTimes g (if g.isLooped then unfoldings else 1)
  match valueOf g known (g.size + 1) g.root with
  | .ok v => .ok v
  | .error (_, r) => .error r

end Graph

/-- Reads a text as one value; a text without a document holds no value. -/
def read (cs : List Char) : Except Refusal Value := do
  match ← Graph.ofTokens (tokens cs) with
  | none => return .null
  | some g => g.value

end SemanticMarkup.Yaml
