import SemanticMarkup.Proofs.Steps
import SemanticMarkup.Yaml.Node

/-!
# What nodes are made from

The nodes of a document are made from its tokens: the text of a scalar is that of a
token, and its tag is a written one unless the form of the scalar gives it. Tokens
are refused where they do not fit together, which is no YAML, or where one of them is
a refusal itself.
-/

namespace SemanticMarkup.Yaml

variable {ts : List Token} {node : Node}

/-- Whether tags are written among some tokens. -/
def HasTag (ts : List Token) : Prop :=
  ∃ t, Token.tag t ∈ ts

/-- The texts of scalars that some tokens write; where nothing is written there is an empty one. -/
def IsWritten (ts : List Token) (codes : List Nat) : Prop :=
  codes = [] ∨ ∃ plain, Token.scalar plain codes ∈ ts

/-- The tags of a scalar with a text: that of texts, that of its form if it is written plainly, or,
where tags are written, any other. -/
def MayTag (ts : List Token) (codes : List Nat) (tag : Tag) : Prop :=
  tag = .str ∨ (tag = .ofPlain (charsOf codes) ∧ (codes = [] ∨ Token.scalar true codes ∈ ts)) ∨
    HasTag ts

/-- The nodes that may be made from some tokens. -/
inductive Node.From (ts : List Token) : Node → Prop where
  /-- A scalar. -/
  | scalar {tag : Tag} {codes : List Nat} (hcodes : IsWritten ts codes)
      (htag : MayTag ts codes tag) :
      From ts (.scalar tag codes)
  /-- A sequence. -/
  | sequence {tag : Tag} {items : List Node} (hitems : ∀ item ∈ items, From ts item) :
      From ts (.sequence tag items)
  /-- A mapping. -/
  | mapping {tag : Tag} {entries : List (Node × Node)} (htag : tag = .map ∨ HasTag ts)
      (hkeys : ∀ e ∈ entries, From ts e.1) (hvalues : ∀ e ∈ entries, From ts e.2) :
      From ts (.mapping tag entries)
  /-- A reference. -/
  | alias {name : String} : From ts (.alias name)

/-- A place where nothing is written. -/
theorem Node.From.empty : Node.From ts .empty :=
  .scalar (.inl rfl) (.inr (.inl ⟨rfl, .inl rfl⟩))

/-- The reasons for which tokens are refused. -/
def IsReason (ts : List Token) (r : Refusal) : Prop :=
  r = .malformed ∨ Token.refusal r ∈ ts

namespace Assembly

/-- A state in which some of the tokens are left and nodes were made from them. -/
structure Inside (ts : List Token) (a : Assembly) : Prop where
  /-- The tokens to come. -/
  tokens : ∀ t ∈ a.tokens, t ∈ ts
  /-- The nodes with anchors. -/
  nodes : ∀ n ∈ a.nodes, n.2.From ts

/-- A step that makes something good from tokens. -/
abbrev Makes {α : Type} (ts : List Token) (good : α → Prop) (step : Step α) : Prop :=
  Keeps (Inside ts) (IsReason ts) good step

variable {α : Type} {good : α → Prop}

/-! ## Parts of steps -/

theorem makes_refuse : Makes ts good (refuse : Step α) :=
  .throw (.inl rfl)

/-- The next token is one of those that are read, unless all of them were. -/
theorem makes_peek : Makes ts (fun t => t = .finish ∨ t ∈ ts) peek := by
  refine Keeps.bind .get fun a ha => ?_
  split
  · exact .pure (.inl rfl)
  · rename_i r rest heq
    exact .throw (.inr (ha.tokens _ (heq ▸ List.mem_cons_self)))
  · rename_i t rest _ heq
    exact .pure (.inr (ha.tokens _ (heq ▸ List.mem_cons_self)))

theorem makes_advance : Makes ts anything advance :=
  .modify fun _ ha => ⟨fun t ht => ha.tokens t (List.mem_of_mem_drop ht), ha.nodes⟩

theorem makes_accept (t : Token) : Makes ts anything (accept t) := by
  refine makes_peek.andThen fun next => .ite ?_ (.pure trivial)
  exact makes_advance.andThen fun _ => .pure trivial

theorem makes_expect (t : Token) : Makes ts anything (expect t) :=
  (makes_accept t).andThen fun _ => .ite makes_refuse (.pure trivial)

theorem makes_isNext (ends : List Token) : Makes ts anything (isNext ends) :=
  makes_peek.andThen fun _ => .pure trivial

theorem makes_takeAnchor : Makes ts anything takeAnchor := by
  refine makes_peek.andThen fun next => ?_
  split
  · exact makes_advance.andThen fun _ => .pure trivial
  · exact .pure trivial

theorem makes_takeTag : Makes ts (fun t => t.isSome = true → HasTag ts) takeTag := by
  refine makes_peek.bind fun next hnext => ?_
  split
  · rename_i t
    have htag : Token.tag t ∈ ts := hnext.resolve_left nofun
    exact makes_advance.andThen fun _ => .pure fun _ => ⟨t, htag⟩
  · exact .pure nofun

theorem makes_tagName (t : WrittenTag) : Makes ts anything (tagName t) := by
  unfold tagName
  split
  · exact .pure trivial
  · refine Keeps.andThen .get fun a => ?_
    split
    · exact .pure trivial
    · exact makes_refuse

theorem makes_begin (anchor : Option String) : Makes ts anything (begin anchor) := by
  unfold begin
  split
  · exact .pure trivial
  · exact Keeps.andThen .get fun a => .ite makes_refuse (.modify fun _ ha => ⟨ha.tokens, ha.nodes⟩)

theorem makes_complete (anchor : Option String) (hnode : node.From ts) :
    Makes ts (Node.From ts) (complete anchor node) := by
  unfold complete
  split
  · exact .pure hnode
  · refine Keeps.andThen (.modify fun a ha => ⟨ha.tokens, fun n hn => ?_⟩) fun _ => .pure hnode
    obtain hn | hn := List.mem_append.mp hn
    · exact ha.nodes n hn
    · rw [List.mem_singleton.mp hn]
      exact hnode

theorem makes_refer (name : String) : Makes ts (Node.From ts) (refer name) := by
  refine Keeps.bind .get fun a ha => .ite makes_refuse ?_
  exact Keeps.andThen (.set ⟨ha.tokens, ha.nodes⟩) fun _ => .pure .alias

theorem mayTag_scalarTag {plain : Bool} {codes : List Nat} {name : Option String}
    (hcodes : codes = [] ∨ Token.scalar plain codes ∈ ts)
    (hname : name.isSome = true → HasTag ts) : MayTag ts codes (scalarTag plain codes name) := by
  cases name with
  | none =>
      cases plain with
      | true => exact .inr (.inl ⟨rfl, hcodes⟩)
      | false => exact .inl rfl
  | some name => exact .inr (.inr (hname rfl))

theorem collectionTag_eq (usual : Tag) {name : Option String}
    (hname : name.isSome = true → HasTag ts) : collectionTag usual name = usual ∨ HasTag ts := by
  cases name with
  | none => exact .inl rfl
  | some name => exact .inr (hname rfl)

/-! ## Nodes -/

/-- Good items of a sequence. -/
def FromAll (ts : List Token) (items : List Node) : Prop :=
  ∀ item ∈ items, item.From ts

/-- Good entries of a mapping. -/
def FromEntries (ts : List Token) (entries : List (Node × Node)) : Prop :=
  ∀ e ∈ entries, e.1.From ts ∧ e.2.From ts

theorem FromAll.cons {items : List Node} (hnode : node.From ts) (hitems : FromAll ts items) :
    FromAll ts (node :: items) :=
  List.forall_mem_cons.mpr ⟨hnode, hitems⟩

theorem FromEntries.cons {key value : Node} {entries : List (Node × Node)} (hkey : key.From ts)
    (hvalue : value.From ts) (hentries : FromEntries ts entries) :
    FromEntries ts ((key, value) :: entries) :=
  List.forall_mem_cons.mpr ⟨⟨hkey, hvalue⟩, hentries⟩

theorem FromEntries.mapping {tag : Tag} {entries : List (Node × Node)}
    (htag : tag = .map ∨ HasTag ts) (h : FromEntries ts entries) :
    (Node.mapping tag entries).From ts :=
  .mapping htag (fun e he => (h e he).1) (fun e he => (h e he).2)

theorem FromEntries.of_mapping {tag : Tag} {entries : List (Node × Node)}
    (h : (Node.mapping tag entries).From ts) : FromEntries ts entries := by
  cases h with
  | mapping htag hkeys hvalues => exact fun e he => ⟨hkeys e he, hvalues e he⟩

theorem FromAll.of_sequence {tag : Tag} {items : List Node}
    (h : (Node.sequence tag items).From ts) : FromAll ts items := by
  cases h with
  | sequence hitems => exact hitems

/-- The readers with so many calls left make good nodes. -/
structure Readers (ts : List Token) (fuel : Nat) : Prop where
  node : ∀ block flat, Makes ts (Node.From ts) (readNode block flat fuel)
  optional : ∀ ends block flat, Makes ts (Node.From ts) (readUnless ends block flat fuel)
  items : Makes ts (FromAll ts) (readItems fuel)
  flatItems : Makes ts (FromAll ts) (readFlatItems fuel)
  value : ∀ ends block, Makes ts (Node.From ts) (readValue ends block fuel)
  entries : Makes ts (FromEntries ts) (readEntries fuel)
  flowItems : ∀ first, Makes ts (FromAll ts) (readFlowItems first fuel)
  flowEntries : ∀ first, Makes ts (FromEntries ts) (readFlowEntries first fuel)

section

variable {fuel : Nat} (ih : Readers ts fuel)
include ih

/-- A node: its anchor and its tag are read first, then what it is made of. -/
theorem makes_readNode (block flat : Bool) :
    Makes ts (Node.From ts) (readNode block flat (fuel + 1)) := by
  unfold readNode
  refine makes_peek.andThen fun t => ?_
  split
  · exact makes_advance.andThen fun _ => makes_refer _
  · refine makes_takeAnchor.andThen fun early => ?_
    refine makes_takeTag.bind fun written hwritten => ?_
    extract_lets tagged
    have htagged (late : Option String) : Makes ts (Node.From ts) (tagged late) := by
      unfold tagged
      extract_lets anchor content
      have hcontent (name : Option String) (hname : name.isSome = true → HasTag ts) :
          Makes ts (Node.From ts) (content name) := by
        have hsequence {items : List Node} (hitems : FromAll ts items) :
            Makes ts (Node.From ts) (complete anchor (.sequence (collectionTag .seq name) items)) :=
          makes_complete anchor (.sequence hitems)
        have hmapping {entries : List (Node × Node)} (hentries : FromEntries ts entries) :
            Makes ts (Node.From ts)
              (complete anchor (.mapping (collectionTag .map name) entries)) :=
          makes_complete anchor (hentries.mapping (collectionTag_eq .map hname))
        refine makes_peek.bind fun next hnext => .ite ?_ ?_
        · exact (makes_begin anchor).andThen fun _ => ih.flatItems.bind fun items => hsequence
        · split
          · rename_i plain codes
            have hmem : Token.scalar plain codes ∈ ts := hnext.resolve_left nofun
            have hnode : (Node.scalar (scalarTag plain codes name) codes).From ts :=
              .scalar (.inr ⟨plain, hmem⟩) (mayTag_scalarTag (.inr hmem) hname)
            refine makes_advance.andThen fun _ => (makes_begin anchor).andThen fun _ => ?_
            exact makes_complete anchor hnode
          · refine makes_advance.andThen fun _ => (makes_begin anchor).andThen fun _ => ?_
            exact (ih.flowItems true).bind fun items => hsequence
          · refine makes_advance.andThen fun _ => (makes_begin anchor).andThen fun _ => ?_
            exact (ih.flowEntries true).bind fun entries => hmapping
          · refine .ite ?_ (.ite ?_ (.ite ?_ makes_refuse))
            · refine makes_advance.andThen fun _ => (makes_begin anchor).andThen fun _ => ?_
              exact ih.items.bind fun items => hsequence
            · refine makes_advance.andThen fun _ => (makes_begin anchor).andThen fun _ => ?_
              exact ih.entries.bind fun entries => hmapping
            · refine (makes_begin anchor).andThen fun _ => ?_
              exact makes_complete anchor (.scalar (.inl rfl) (mayTag_scalarTag (.inl rfl) hname))
      split
      · exact hcontent none nofun
      · exact (makes_tagName _).andThen fun name => hcontent name fun _ => hwritten rfl
    refine .ite ?_ ?_
    · exact makes_takeAnchor.andThen htagged
    · exact htagged none

theorem makes_readUnless (ends : List Token) (block flat : Bool) :
    Makes ts (Node.From ts) (readUnless ends block flat (fuel + 1)) :=
  (makes_isNext ends).andThen fun _ => .ite (.pure .empty) (ih.node block flat)

theorem makes_readItems : Makes ts (FromAll ts) (readItems (fuel + 1)) := by
  unfold readItems
  refine (makes_accept _).andThen fun _ => .ite ?_ ?_
  · refine (ih.optional _ _ _).bind fun item hitem => ?_
    exact ih.items.bind fun items hitems => .pure (.cons hitem hitems)
  · exact (makes_expect _).andThen fun _ => .pure nofun

theorem makes_readFlatItems : Makes ts (FromAll ts) (readFlatItems (fuel + 1)) := by
  unfold readFlatItems
  refine (makes_accept _).andThen fun _ => .ite ?_ (.pure nofun)
  refine (ih.optional _ _ _).bind fun item hitem => ?_
  exact ih.flatItems.bind fun items hitems => .pure (.cons hitem hitems)

theorem makes_readValue (ends : List Token) (block : Bool) :
    Makes ts (Node.From ts) (readValue ends block (fuel + 1)) := by
  unfold readValue
  exact (makes_accept _).andThen fun _ => .ite (ih.optional _ _ _) (.pure .empty)

theorem makes_readEntries : Makes ts (FromEntries ts) (readEntries (fuel + 1)) := by
  unfold readEntries
  refine (makes_accept _).andThen fun _ => .ite ?_ ?_
  · refine (ih.optional _ _ _).bind fun key hkey => ?_
    refine (ih.value _ _).bind fun value hvalue => ?_
    exact ih.entries.bind fun entries hentries => .pure (.cons hkey hvalue hentries)
  · exact (makes_expect _).andThen fun _ => .pure nofun

/-- An item with a key is a mapping of one entry. -/
theorem makes_readFlowItems (first : Bool) :
    Makes ts (FromAll ts) (readFlowItems first (fuel + 1)) := by
  unfold readFlowItems
  refine (makes_accept _).andThen fun _ => .ite (.pure nofun) ?_
  extract_lets rest
  have hrest (u : Unit) : Makes ts (FromAll ts) (rest u) := by
    unfold rest
    refine (makes_accept _).andThen fun _ => .ite ?_ ?_
    · refine (ih.optional _ _ _).bind fun key hkey => ?_
      refine (ih.value _ _).bind fun value hvalue => ?_
      have hentry : FromEntries ts [(key, value)] := .cons hkey hvalue nofun
      exact (ih.flowItems false).bind fun items hitems =>
        .pure (.cons (hentry.mapping (.inl rfl)) hitems)
    · refine (makes_accept _).andThen fun _ => .ite (.pure nofun) ?_
      refine (ih.node _ _).bind fun item hitem => ?_
      exact (ih.flowItems false).bind fun items hitems => .pure (.cons hitem hitems)
  exact .ite ((makes_expect _).andThen hrest) (hrest ())

theorem makes_readFlowEntries (first : Bool) :
    Makes ts (FromEntries ts) (readFlowEntries first (fuel + 1)) := by
  unfold readFlowEntries
  refine (makes_accept _).andThen fun _ => .ite (.pure nofun) ?_
  extract_lets rest
  have hrest (u : Unit) : Makes ts (FromEntries ts) (rest u) := by
    unfold rest
    refine (makes_accept _).andThen fun _ => .ite ?_ ?_
    · refine (ih.optional _ _ _).bind fun key hkey => ?_
      refine (ih.value _ _).bind fun value hvalue => ?_
      exact (ih.flowEntries false).bind fun entries hentries =>
        .pure (.cons hkey hvalue hentries)
    · refine (makes_accept _).andThen fun _ => .ite (.pure nofun) ?_
      refine (ih.node _ _).bind fun key hkey => ?_
      exact (ih.flowEntries false).bind fun entries hentries =>
        .pure (.cons hkey .empty hentries)
  exact .ite ((makes_expect _).andThen hrest) (hrest ())

end

/-- The readers call each other; by induction on the number of calls all they make is good. -/
theorem readers (ts : List Token) (fuel : Nat) : Readers ts fuel := by
  induction fuel with
  | zero =>
      exact ⟨fun _ _ => makes_refuse, fun _ _ _ => makes_refuse, makes_refuse, makes_refuse,
        fun _ _ => makes_refuse, makes_refuse, fun _ => makes_refuse, fun _ => makes_refuse⟩
  | succ fuel ih =>
      exact ⟨makes_readNode ih, makes_readUnless ih, makes_readItems ih, makes_readFlatItems ih,
        makes_readValue ih, makes_readEntries ih, makes_readFlowItems ih, makes_readFlowEntries ih⟩

/-! ## Documents -/

theorem makes_readDirectives (fuel : Nat) (versioned : Bool) (handles : List (String × String)) :
    Makes ts anything (readDirectives versioned handles fuel) := by
  induction fuel generalizing versioned handles with
  | zero => exact makes_refuse
  | succ fuel ih =>
      unfold readDirectives
      refine makes_peek.andThen fun next => ?_
      split
      · exact makes_advance.andThen fun _ => .ite makes_refuse (ih _ _)
      · exact makes_advance.andThen fun _ => .ite makes_refuse (ih _ _)
      · exact makes_advance.andThen fun _ => ih _ _
      · exact .pure trivial

theorem makes_skipEnds (fuel : Nat) : Makes ts anything (skipEnds fuel) := by
  induction fuel with
  | zero => exact .pure trivial
  | succ fuel ih => exact (makes_accept _).andThen fun _ => .ite ih (.pure trivial)

/-- A good root, if there is one. -/
def FromSome (ts : List Token) (root : Option Node) : Prop :=
  ∀ node ∈ root, node.From ts

theorem makes_readDocument (fuel : Nat) : Makes ts (FromSome ts) (readDocument fuel) := by
  unfold readDocument
  refine makes_peek.andThen fun next => ?_
  extract_lets finish body
  have hfinish {node : Node} (hnode : node.From ts) : Makes ts (FromSome ts) (finish node) := by
    refine (makes_skipEnds _).andThen fun _ => (makes_expect _).andThen fun _ => .pure ?_
    intro root hroot
    obtain rfl := Option.some.inj hroot
    exact hnode
  have hbody (marked : Bool) : Makes ts (FromSome ts) (body marked) := by
    unfold body
    refine makes_peek.andThen fun next => .ite (.pure nofun) ?_
    extract_lets content
    have hcontent (u : Unit) : Makes ts (FromSome ts) (content u) := by
      refine makes_peek.andThen fun next => ?_
      exact .ite (hfinish .empty) (((readers ts fuel).node _ _).bind fun node => hfinish)
    refine .ite ?_ (hcontent ())
    refine (makes_readDirectives _ _ _).andThen fun handles => ?_
    refine Keeps.andThen (.modify fun a ha => ⟨ha.tokens, ha.nodes⟩) fun _ => ?_
    exact (makes_expect _).andThen hcontent
  split
  · exact hbody true
  · exact hbody true
  · exact hbody false

end Assembly

/-- A graph whose nodes are made from some tokens. -/
structure Graph.From (ts : List Token) (g : Graph) : Prop where
  /-- The root. -/
  root : g.root.From ts
  /-- The nodes with anchors. -/
  anchored : ∀ n ∈ g.anchored, n.2.From ts

/-- What tokens write: a graph of nodes made from them, or a reason to refuse them. -/
theorem Graph.ofTokens_cases (ts : List Token) :
    Gives (IsReason ts) (fun found => ∀ g ∈ found, g.From ts) (Graph.ofTokens ts) := by
  let start : Assembly :=
    { tokens := ts, handles := Assembly.usualHandles, anchors := [], nodes := []
      isLooped := false }
  have hstart : Assembly.Inside ts start := ⟨fun t ht => ht, nofun⟩
  have hmade := Assembly.makes_readDocument (4 * ts.length + 8) start hstart
  have hrun : Graph.ofTokens ts = ((Assembly.readDocument (4 * ts.length + 8)).run start >>=
      fun made => pure (made.1.map fun root =>
        { root := root, anchored := made.2.nodes, isLooped := made.2.isLooped,
          size := ts.length })) := rfl
  rw [hrun]
  cases hread : (Assembly.readDocument (4 * ts.length + 8)).run start with
  | error r =>
      rw [hread] at hmade
      exact hmade
  | ok made =>
      rw [hread] at hmade
      intro g hg
      obtain ⟨root, hroot, rfl⟩ := Option.map_eq_some_iff.mp hg
      exact ⟨hmade.2 root hroot, hmade.1.nodes⟩

end SemanticMarkup.Yaml
