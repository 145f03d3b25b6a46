import SemanticMarkup.Proofs.Yaml.Nodes
import SemanticMarkup.Yaml.Value

/-!
# Why a value cannot be made from nodes

The nodes of a text that is YAML may stand for no value. Two reasons for that are not
merely that the text is refused as YAML: a scalar whose text cannot be read as its tag
says, and a mapping in the place of a timestamp. Whatever else is built around them,
by merging, aliases or collections, no other fault comes up.
-/

namespace SemanticMarkup.Yaml

variable {ts : List Token} {α β : Type}

/-- The faults of values that some tokens write. -/
inductive Unconvertible (ts : List Token) : Fault → Prop where
  /-- A scalar cannot be read as its tag says. -/
  | scalar {tag : Tag} {codes : List Nat} {f : Fault} (hcodes : IsWritten ts codes)
      (htag : MayTag ts codes tag) (hvalue : scalarValue tag codes = .error (.fault f)) :
      Unconvertible ts f
  /-- A mapping is tagged as a timestamp. -/
  | mapping (htag : HasTag ts) : Unconvertible ts .wrongType

/-- Why nodes may be refused. -/
def MayFail (ts : List Token) : Refusal → Prop
  | .malformed => True
  | .fault f => Unconvertible ts f

theorem mayFail_scalarValue {tag : Tag} {codes : List Nat} (hcodes : IsWritten ts codes)
    (htag : MayTag ts codes tag) : Gives (MayFail ts) anything (scalarValue tag codes) := by
  cases hvalue : scalarValue tag codes with
  | ok v => exact trivial
  | error r =>
      cases r with
      | malformed => exact trivial
      | fault f => exact .scalar hcodes htag hvalue

/-! ## Attempts -/

/-- An attempt that only fails for some reasons, however deep in a node. -/
abbrev Attempt.Fair (ts : List Token) (a : Attempt α) : Prop :=
  Gives (fun e => MayFail ts e.2) anything a

namespace Attempt.Fair

theorem here {made : Except Refusal α} (h : Gives (MayFail ts) anything made) :
    (Attempt.here made).Fair ts := by
  cases made with
  | ok a => exact trivial
  | error r => exact h

theorem malformed : (Attempt.malformed : Attempt α).Fair ts := trivial

theorem inside {a : Attempt α} (h : a.Fair ts) : a.inside.Fair ts := by
  cases a with
  | ok a => exact trivial
  | error e => exact h

/-- Of two faults one counts, and both have a reason. -/
theorem both {a : Attempt α} {b : Attempt β} (ha : a.Fair ts) (hb : b.Fair ts) :
    (a.both b).Fair ts := by
  cases a with
  | ok a =>
      cases b with
      | ok b => exact trivial
      | error f => exact hb
  | error e =>
      cases b with
      | ok b => exact ha
      | error f =>
          rw [Attempt.both]
          split
          · exact hb
          · exact ha

theorem all {rows : List (Attempt α)} (h : ∀ a ∈ rows, a.Fair ts) :
    (Attempt.all rows).Fair ts := by
  induction rows with
  | nil => exact trivial
  | cons a rest ih =>
      obtain ⟨ha, hrest⟩ := List.forall_mem_cons.mp h
      have hboth := both ha (ih hrest)
      rw [Attempt.all]
      cases hmade : Attempt.both a (Attempt.all rest) with
      | ok made => exact trivial
      | error e =>
          rw [hmade] at hboth
          exact hboth

end Attempt.Fair

/-! ## Merged mappings -/

namespace Graph

open Assembly (FromAll FromEntries)

variable {g : Graph}

theorem target_from (hg : g.From ts) {node : Node} (hnode : node.From ts) :
    (g.target node).From ts := by
  unfold target
  split
  · rename_i name
    cases hfound : g.anchored.lookup name with
    | none => exact .empty
    | some found =>
        obtain ⟨before, behind, heq, -⟩ := List.lookup_eq_some_iff.mp hfound
        exact hg.anchored (name, found) (heq ▸ List.mem_append_right _ List.mem_cons_self)
  · exact hnode

/-- Entries that are gathered from good ones are good, or merging them is no YAML. -/
abbrev Gathers (ts : List Token) (gathered : Except Refusal (List (Node × Node))) : Prop :=
  Gives (· = .malformed) (FromEntries ts) gathered

theorem gathers_none : Gathers ts (.ok []) := nofun

theorem fromEntries_flatten {rows : List (List (Node × Node))}
    (h : ∀ row ∈ rows, FromEntries ts row) : FromEntries ts rows.flatten := by
  intro e he
  obtain ⟨row, hrow, he⟩ := List.mem_flatten.mp he
  exact h row hrow e he

/-- The entries that a mapping has of its own, with equals signs read as texts. -/
theorem fromEntries_own (hg : g.From ts) {entries : List (Node × Node)}
    (h : FromEntries ts entries) :
    FromEntries ts ((entries.filter fun e => g.tagOf e.1 != .merge).map fun e =>
      match g.target e.1 with
      | .scalar .value codes => (.scalar .str codes, e.2)
      | _ => e) := by
  intro own hown
  obtain ⟨e, hmem, rfl⟩ := List.mem_map.mp hown
  have he := h e (List.mem_filter.mp hmem).1
  have htarget := target_from hg he.1
  split
  · rename_i codes heq
    rw [heq] at htarget
    cases htarget with
    | scalar hcodes htag => exact ⟨.scalar hcodes (.inl rfl), he.2⟩
  · exact he

section

variable {fuel : Nat}

theorem gathers_flatten_succ
    (hmerged : ∀ seen {node : Node}, node.From ts → Gathers ts (mergedEntries g fuel seen node))
    (hg : g.From ts) (seen : List String) {entries : List (Node × Node)}
    (h : FromEntries ts entries) : Gathers ts (flatten g (fuel + 1) seen entries) := by
  unfold flatten
  have hrows := Gives.mapM fun e he =>
    hmerged seen (h e (List.mem_filter (p := fun e => g.tagOf e.1 == .merge).mp he).1).2
  refine hrows.bind fun merged hmerged => ?_
  exact List.forall_mem_append.mpr ⟨fromEntries_flatten hmerged, fromEntries_own hg h⟩

theorem gathers_mergedEntries_succ
    (hflatten : ∀ seen {entries}, FromEntries ts entries →
      Gathers ts (flatten g fuel seen entries))
    (hg : g.From ts) (seen : List String) {node : Node} (h : node.From ts) :
    Gathers ts (mergedEntries g (fuel + 1) seen node) := by
  have htarget := target_from hg h
  unfold mergedEntries
  split
  · exact gathers_none
  · dsimp only
    split
    · rename_i heq
      exact hflatten _ (.of_mapping (heq ▸ htarget))
    · rename_i heq
      have hitems : FromAll ts _ := .of_sequence (heq ▸ htarget)
      refine Gives.bind (Gives.mapM fun item hitem => (?_ : Gathers ts _)) fun rows hrows => ?_
      · have htarget := target_from hg (hitems item hitem)
        split
        · exact gathers_none
        · split
          · rename_i heq
            exact hflatten _ (.of_mapping (heq ▸ htarget))
          · exact rfl
      · exact fromEntries_flatten fun row hrow => hrows row (List.mem_reverse.mp hrow)
    · exact rfl

end

/-- The readers of entries call each other; by induction on the number of calls they gather good
entries. -/
theorem gathers (hg : g.From ts) (fuel : Nat) :
    (∀ seen {entries}, FromEntries ts entries → Gathers ts (flatten g fuel seen entries)) ∧
    (∀ seen {node : Node}, node.From ts → Gathers ts (mergedEntries g fuel seen node)) := by
  induction fuel with
  | zero => exact ⟨fun _ _ _ => gathers_none, fun _ _ _ => gathers_none⟩
  | succ fuel ih =>
      exact ⟨gathers_flatten_succ ih.2 hg, gathers_mergedEntries_succ ih.1 hg⟩

/-! ## Values -/

/-- The text of a node that counts as a scalar is written. -/
theorem gives_scalarText (hg : g.From ts) (fuel : Nat) {node : Node} (h : node.From ts) :
    Gives (MayFail ts) (IsWritten ts) (scalarText g fuel node) := by
  induction fuel generalizing node with
  | zero => exact trivial
  | succ fuel ih =>
      have htarget := target_from hg h
      unfold scalarText
      split
      · rename_i heq
        rw [heq] at htarget
        cases htarget with
        | scalar hcodes htag => exact hcodes
      · rename_i heq
        have hentries : FromEntries ts _ := .of_mapping (heq ▸ htarget)
        split
        · rename_i e hfind
          exact ih (hentries e (List.mem_of_find?_eq_some hfind)).2
        · exact trivial
      · exact trivial

/-- Known values of anchors that only fail for some reasons. -/
def FairKnown (ts : List Token) (known : Known) : Prop :=
  ∀ k ∈ known, k.2.Fair ts

section

variable {value : Node → Attempt Value}
  (hvalue : ∀ node : Node, node.From ts → (value node).Fair ts)
include hvalue

theorem fair_entryOf {e : Node × Node} (he : e.1.From ts ∧ e.2.From ts) :
    (entryOf g value e).Fair ts := by
  refine Attempt.Fair.both ?_ (hvalue e.2 he.2)
  split
  · exact .malformed
  · exact hvalue e.1 he.1

theorem fair_pairOf (hg : g.From ts) {node : Node} (h : node.From ts) :
    (pairOf g value node).Fair ts := by
  have htarget := target_from hg h
  unfold pairOf
  split
  · rename_i k v heq
    have hentries : FromEntries ts _ := .of_mapping (heq ▸ htarget)
    obtain ⟨hk, hv⟩ := hentries (k, v) List.mem_cons_self
    exact Gives.map (Attempt.Fair.both (hvalue k hk) (hvalue v hv)) _
  · exact .malformed

end

theorem mayTag_mapping {tag : Tag} {codes : List Nat} {entries : List (Node × Node)}
    (h : (Node.mapping tag entries).From ts) (htag : tag ≠ .map) : MayTag ts codes tag := by
  cases h with
  | mapping hwritten hkeys hvalues => exact .inr (.inr (hwritten.resolve_left htag))

/-- The entries of a mapping, where their values are fair. -/
theorem fair_entriesOf (hg : g.From ts) {value : Node → Attempt Value}
    (hvalue : ∀ node : Node, node.From ts → (value node).Fair ts) {entries : List (Node × Node)}
    (h : FromEntries ts entries) : Attempt.Fair ts (entriesOf g value entries) := by
  have hgathered := (gathers hg (2 * g.size + 2)).1 [] h
  unfold entriesOf
  cases hflat : flatten g (2 * g.size + 2) [] entries with
  | error r =>
      rw [hflat] at hgathered
      obtain rfl : r = .malformed := hgathered
      exact trivial
  | ok flat =>
      rw [hflat] at hgathered
      refine Gives.map (Attempt.Fair.all fun a ha => ?_) _
      obtain ⟨e, he, rfl⟩ := List.mem_map.mp ha
      exact fair_entryOf hvalue (hgathered e he)

/-- The value of a mapping, whose tag says what it counts as. -/
theorem fair_valueOf_mapping (hg : g.From ts) {known : Known} {fuel : Nat}
    (ih : ∀ node : Node, node.From ts → (valueOf g known fuel node).Fair ts) {tag : Tag}
    {entries : List (Node × Node)} (h : (Node.mapping tag entries).From ts) :
    (valueOf g known (fuel + 1) (.mapping tag entries)).Fair ts := by
  have hentries := fair_entriesOf hg ih (.of_mapping h)
  have hscalar (htag : tag ≠ .map) : Attempt.Fair ts
      (.here (scalarText g (g.size + 1) (.mapping tag entries) >>= scalarValue tag)) := by
    refine .here (Gives.bind (gives_scalarText hg _ h) fun codes hcodes => ?_)
    exact mayFail_scalarValue hcodes (mayTag_mapping h htag)
  cases tag with
  | map => exact Gives.map hentries.inside _
  | set => exact Gives.map hentries.inside _
  | seq | omap | pairs | other | merge | value => exact trivial
  | timestamp =>
      have htext := gives_scalarText hg (g.size + 1) h
      unfold valueOf
      dsimp only
      split
      · cases h with
        | mapping hwritten hkeys hvalues => exact .mapping (hwritten.resolve_left nofun)
      · rename_i r heq
        rw [heq] at htext
        exact htext
  | null | bool | int | float | binary | str => exact hscalar nofun

/-- By induction on the depth to which a node is looked at, its value only fails for what its tokens
write. -/
theorem fair_valueOf (hg : g.From ts) {known : Known} (hknown : FairKnown ts known) (fuel : Nat)
    (node : Node) (h : node.From ts) : (valueOf g known fuel node).Fair ts := by
  induction fuel generalizing node with
  | zero => exact trivial
  | succ fuel ih =>
      cases node with
      | «alias» name =>
          change Attempt.Fair ts ((known.lookup name).getD (.ok .null))
          cases hfound : known.lookup name with
          | none => exact trivial
          | some found =>
              obtain ⟨before, behind, heq, -⟩ := List.lookup_eq_some_iff.mp hfound
              exact hknown (name, found) (heq ▸ List.mem_append_right _ List.mem_cons_self)
      | scalar tag codes =>
          unfold valueOf
          dsimp only
          split
          · exact trivial
          · cases h with
            | scalar hcodes htag => exact .here (mayFail_scalarValue hcodes htag)
      | sequence tag items =>
          have hitems : FromAll ts items := .of_sequence h
          have hvalues : (Attempt.all (items.map (valueOf g known fuel))).Fair ts := by
            refine Attempt.Fair.all fun a ha => ?_
            obtain ⟨item, hitem, rfl⟩ := List.mem_map.mp ha
            exact ih item (hitems item hitem)
          have hpairs : (Attempt.all (items.map (pairOf g (valueOf g known fuel)))).Fair ts := by
            refine Attempt.Fair.all fun a ha => ?_
            obtain ⟨item, hitem, rfl⟩ := List.mem_map.mp ha
            exact fair_pairOf ih hg (hitems item hitem)
          cases tag with
          | seq => exact Gives.map hvalues.inside _
          | omap | pairs => exact Gives.map hpairs.inside _
          | _ => exact trivial
      | mapping tag entries => exact fair_valueOf_mapping hg ih h

/-- Each anchor that is learnt is looked at with what is known so far. -/
theorem fairKnown_learn (hg : g.From ts) {known : Known} (hknown : FairKnown ts known) :
    FairKnown ts (learn g known) := by
  have hlearn : ∀ (anchored : List (String × Node)) (known : Known),
      (∀ n ∈ anchored, n.2.From ts) → FairKnown ts known →
      FairKnown ts (anchored.foldl
        (fun known a => (a.1, valueOf g known (g.size + 1) a.2) :: known) known) := by
    intro anchored
    induction anchored with
    | nil => exact fun known _ hknown => hknown
    | cons n rest ih =>
        intro known hanchored hknown
        obtain ⟨hn, hrest⟩ := List.forall_mem_cons.mp hanchored
        exact ih _ hrest (List.forall_mem_cons.mpr ⟨fair_valueOf hg hknown _ n.2 hn, hknown⟩)
  exact hlearn g.anchored known hg.anchored hknown

theorem fairKnown_learnTimes (hg : g.From ts) (k : Nat) : FairKnown ts (learnTimes g k) := by
  induction k with
  | zero => exact nofun
  | succ k ih => exact fun n hn => fairKnown_learn hg ih n (List.mem_of_mem_take hn)

/-- The value of a graph only fails for what the tokens of its nodes write. -/
theorem gives_value (hg : g.From ts) : Gives (MayFail ts) anything g.value := by
  have hroot := fair_valueOf hg
    (fairKnown_learnTimes hg (if g.isLooped = true then unfoldings else 1)) (g.size + 1) g.root
    hg.root
  unfold Graph.value
  dsimp only
  split
  · exact trivial
  · rename_i heq
    rw [heq] at hroot
    exact hroot

end Graph

end SemanticMarkup.Yaml
