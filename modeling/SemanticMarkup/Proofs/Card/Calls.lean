import SemanticMarkup.Proofs.Card.Embedding

/-!
# The render calls of building

While a card is built, every microformat that it embeds is rendered once: those
inside before the one around them, and neighbours in the order of their list.
Each is rendered one level below the one around it, by the engine that its entry
names, or else by the engine of the one around it.

## Implementation notes

The calls are said without building anything, by recursion on the embedded
microformats. A name that the registry does not know has no calls; building fails
then.
-/

namespace SemanticMarkup

namespace Traced

variable {α β : Type}

@[simp] theorem calls_pure (a : α) : (pure a : Traced α).calls = [] := rfl

@[simp] theorem calls_lift (o : Outcome α) : (liftM o : Traced α).calls = [] := rfl

/-- Behind a first step that succeeds, the calls of the second one follow. -/
theorem calls_bind_of_ok {t : Traced α} {next : α → Traced β} {a : α} (h : t.outcome = .ok a) :
    (t >>= next).calls = t.calls ++ (next a).calls := by
  change (t.andThen next).calls = _
  rw [andThen, h]

/-- A first step without calls of its own adds none. -/
theorem calls_lift_bind_of_ok {o : Outcome α} {next : α → Traced β} {a : α} (h : o = .ok a) :
    ((liftM o : Traced α) >>= next).calls = (next a).calls := by
  rw [calls_bind_of_ok ((outcome_lift o).trans h), calls_lift, List.nil_append]

theorem calls_forEach_cons {f : Nat → α → Traced β} {i : Nat} {a : α} {rest : List α} {b : β}
    {bs : List β} (hfirst : (f i a).outcome = .ok b)
    (hrest : (forEach f (i + 1) rest).outcome = .ok bs) :
    (forEach f i (a :: rest)).calls = (f i a).calls ++ (forEach f (i + 1) rest).calls := by
  change ((f i a) >>= fun b => (forEach f (i + 1) rest) >>= fun bs => pure (b :: bs)).calls = _
  rw [calls_bind_of_ok hfirst, calls_bind_of_ok hrest, calls_pure, List.append_nil]

end Traced

namespace Embedding

/-- The engine with a name, or else the one around. -/
def engineIn (registry : Registry) (enclosing : Engine) : Option String → Option Engine
  | none => some enclosing
  | some name => registry.lookup name

mutual

/-- The calls that render an embedded microformat and all inside it, from the inside out, around
which there is an engine at a depth. -/
def calls (registry : Registry) (enclosing : Engine) (depth : Int) :
    Embedding → Option (List RenderCall)
  | .node root name within => do
      let engine ← engineIn registry enclosing name
      let inside ← forestCalls registry engine (depth + 1) within
      return inside ++ [{ engine := engine, root := root, depth := depth + 1 }]

/-- The calls that render some embedded microformats, one after the other. -/
def forestCalls (registry : Registry) (enclosing : Engine) (depth : Int) :
    List Embedding → Option (List RenderCall)
  | [] => some []
  | e :: rest => do
      let first ← calls registry enclosing depth e
      let others ← forestCalls registry enclosing depth rest
      return first ++ others

end

variable {registry : Registry} {enclosing : Engine} {depth : Int}

theorem forestCalls_append {front back : List Embedding} {cs ds : List RenderCall}
    (hfront : forestCalls registry enclosing depth front = some cs)
    (hback : forestCalls registry enclosing depth back = some ds) :
    forestCalls registry enclosing depth (front ++ back) = some (cs ++ ds) := by
  induction front generalizing cs with
  | nil =>
      cases hfront
      exact hback
  | cons e rest ih =>
      simp only [forestCalls, Option.bind_eq_bind, Option.bind_eq_some_iff, Option.pure_def,
        Option.some.injEq] at hfront
      obtain ⟨first, hfirst, others, hothers, rfl⟩ := hfront
      rw [List.cons_append, forestCalls, hfirst, ih hothers]
      simp

theorem forestCalls_singleton {e : Embedding} {cs : List RenderCall}
    (h : calls registry enclosing depth e = some cs) :
    forestCalls registry enclosing depth [e] = some cs := by
  rw [forestCalls, h]
  simp [forestCalls]

end Embedding

namespace Card

open SemanticMarkup.Embedding

variable {site : Site} {p : Prepared}

/-- A renderer of requests makes the calls of the microformats that are embedded, and its own. -/
def MakesCalls (registry : Registry) (nested : Request → Traced String) : Prop :=
  ∀ r html, (nested r).outcome = .ok html → ∃ root depth cs,
    r.root = .text root ∧ r.depth = some depth ∧
    forestCalls registry r.engine depth (embeddings r.attributes) = some cs ∧
    (nested r).calls = cs ++ [{ engine := r.engine, root := root, depth := depth }]

/-- The engine of an embedded microformat is the one that its entry names. -/
theorem engineIn_of_nestedEngine {registry : Registry} {enclosing engine : Engine}
    {entries : Entries} (h : nestedEngine registry enclosing entries = .ok engine) :
    engineIn registry enclosing (engineName? entries) = some engine := by
  rw [nestedEngine] at h
  rw [engineName?]
  split at h
  · rename_i name hname
    rw [Registry.engineOf] at h
    split at h
    · rename_i found hfound
      rw [hname, ← Except.ok.inj h]
      exact hfound
    · cases h
  · cases h
  · rename_i hno _
    rw [← Except.ok.inj h]
    split
    · rename_i name hname
      exact absurd hname (hno name)
    · rfl

/-- Rendering an embedded microformat makes its calls. -/
theorem calls_embed {nested : Request → Traced String} {entries : Entries} {place : String}
    {r : Record} (hnested : MakesCalls site.registry nested)
    (h : (embed nested site p entries place).outcome = .ok r) :
    Embedding.calls site.registry p.engine p.depth
        (embeddingOf entries (embeddings (entries.valueOf "attributes"))) =
      some (embed nested site p entries place).calls := by
  obtain ⟨hallowed, hfaults, request, html, hrequest, hhtml, rfl⟩ := outcome_embed_eq_ok_iff.mp h
  obtain ⟨root, depth, cs, hroot, hdepth, hcs, hcalls⟩ := hnested request html hhtml
  have hcheck : Rules.check entries place = .ok () :=
    (Rules.check_eq_ok_iff entries place).mpr hfaults
  have hmade : (embed nested site p entries place).calls = (nested request).calls := by
    simp only [embed, hallowed]
    rw [Traced.calls_lift_bind_of_ok hcheck, Traced.calls_lift_bind_of_ok hrequest,
      Traced.calls_bind_of_ok hhtml, Traced.calls_pure, List.append_nil]
  obtain ⟨options, engine, -, hengine, rfl⟩ := nestedRequest_eq_ok_iff.mp hrequest
  cases hdepth
  rw [hmade, hcalls, embeddingOf, Embedding.calls, engineIn_of_nestedEngine hengine]
  simp only [Option.bind_eq_bind, Option.bind_some, hcs, Option.pure_def]
  have hname : textOf (entries.valueOf "microformat") = root := by
    rw [show entries.valueOf "microformat" = .text root from hroot]
    rfl
  rw [hname]

/-- An entry makes the calls of the microformat that it embeds, if it does. -/
theorem calls_recordOf {nested : Request → Traced String} {i : Nat} {raw : Value}
    {shown : Option Record} (hnested : MakesCalls site.registry nested)
    (h : (recordOf nested site p i raw).outcome = .ok shown) :
    forestCalls site.registry p.engine p.depth (entryEmbeddings raw) =
      some (recordOf nested site p i raw).calls := by
  simp only [recordOf, Traced.outcome_bind, Traced.outcome_lift, Outcome.bind_eq_ok_iff] at h
  obtain ⟨entries, he, h⟩ := h
  rw [recordOf, Traced.calls_lift_bind_of_ok he, entryEmbeddings_eq he, embeds]
  by_cases hh : isHidden entries = true
  · rw [if_pos hh, hh, Traced.calls_pure]
    rfl
  · rw [if_neg hh] at h ⊢
    rw [Bool.eq_false_iff.mpr hh]
    by_cases hn : (entries.valueOf "microformat").isNull = true
    · rw [if_pos hn, Traced.outcome_bind, Outcome.bind_eq_ok_iff] at h
      obtain ⟨r, hf, -⟩ := h
      rw [if_pos hn, hn, Traced.calls_bind_of_ok hf, Traced.calls_lift, Traced.calls_pure]
      rfl
    · rw [if_neg hn, Traced.outcome_bind, Outcome.bind_eq_ok_iff] at h
      obtain ⟨r, hf, -⟩ := h
      rw [if_neg hn, Bool.eq_false_iff.mpr hn, Traced.calls_bind_of_ok hf, Traced.calls_pure,
        List.append_nil]
      exact forestCalls_singleton (calls_embed hnested hf)

/-- Entries make their calls one after the other. -/
theorem calls_forEach {nested : Request → Traced String} {items : List Value} {i : Nat}
    {shown : List (Option Record)} (hnested : MakesCalls site.registry nested)
    (h : (Traced.forEach (recordOf nested site p) i items).outcome = .ok shown) :
    forestCalls site.registry p.engine p.depth (itemsEmbeddings items) =
      some (Traced.forEach (recordOf nested site p) i items).calls := by
  induction items generalizing i shown with
  | nil => rfl
  | cons raw rest ih =>
      simp only [Traced.outcome_forEach_cons, Outcome.bind_eq_ok_iff] at h
      obtain ⟨first, hfirst, others, hothers, -⟩ := h
      rw [Traced.calls_forEach_cons hfirst hothers, itemsEmbeddings]
      exact forestCalls_append (calls_recordOf hnested hfirst) (ih hothers)

/-- Rendering a request whose records `build` makes adds its own call to those of `build`. -/
theorem makesCalls_renderWith {build : Prepared → Traced (List Record)}
    (hbuild : ∀ p records, (build p).outcome = .ok records →
      forestCalls site.registry p.engine p.depth (embeddings p.attributes) = some (build p).calls) :
    MakesCalls site.registry (renderWith build site) := by
  intro r html h
  obtain ⟨inner, records, markup, hinner, hrecords, hmarkup, rfl⟩ :=
    outcome_renderWith_eq_ok_iff.mp h
  obtain ⟨root, depth, options, template, hroot, hdepth, -, -, rfl⟩ :=
    Request.prepare_eq_ok_iff.mp hinner
  obtain ⟨hdepth, -⟩ := Request.checkDepth_eq_ok_iff.mp hdepth
  refine ⟨root, depth, _, Request.eq_text_of_checkRoot hroot, hdepth, hbuild _ _ hrecords, ?_⟩
  rw [renderWith, Traced.calls_lift_bind_of_ok hinner, Traced.calls_bind_of_ok hrecords, render,
    Traced.calls_lift_bind_of_ok hmarkup, Traced.calls_bind_of_ok (Traced.outcome_call _)]
  rfl

/-- Building the records of a card makes the calls of all that is embedded. The induction is on the
levels that are left; one level is used for what an entry embeds. -/
theorem calls_buildRecords {room : Nat} {records : List Record}
    (h : (buildRecords site room p).outcome = .ok records) :
    forestCalls site.registry p.engine p.depth (embeddings p.attributes) =
      some (buildRecords site room p).calls := by
  induction room generalizing p records with
  | zero => cases h
  | succ room ih =>
      have hnested : MakesCalls site.registry (renderWith (buildRecords site room) site) :=
        makesCalls_renderWith fun _ _ hrecords => ih hrecords
      simp only [buildRecords, normalize, Traced.outcome_bind, Traced.outcome_lift,
        Outcome.bind_eq_ok_iff] at h
      obtain ⟨items, hitems, shown, hshown, -⟩ := h
      rw [buildRecords, normalize, Traced.calls_lift_bind_of_ok hitems,
        Traced.calls_bind_of_ok hshown, Traced.calls_pure, List.append_nil,
        embeddings_eq_of_entryList hitems]
      exact calls_forEach hnested hshown

/-- Building a card makes one call for every embedded microformat, from the inside out. -/
theorem calls_build {c : Card} (h : (build site p).outcome = .ok c) :
    forestCalls site.registry c.engine c.depth (embeddings p.attributes) =
      some (build site p).calls := by
  obtain ⟨records, hrecords, rfl⟩ := outcome_build_eq_ok_iff_records.mp h
  rw [build, Traced.calls_bind_of_ok hrecords, Traced.calls_pure, List.append_nil]
  exact calls_buildRecords hrecords

/-- Rendering a card makes its own call, if it succeeds, and no other. -/
theorem calls_render (c : Card) :
    c.render.calls = if c.render.outcome.isOk then
      [{ engine := c.engine, root := c.root, depth := c.depth }] else [] := by
  rw [outcome_render]
  cases hm : c.markup with
  | error e =>
      simp only [render, hm]
      rfl
  | ok markup =>
      rw [render, Traced.calls_lift_bind_of_ok hm,
        Traced.calls_bind_of_ok (Traced.outcome_call _)]
      rfl

end Card

end SemanticMarkup
