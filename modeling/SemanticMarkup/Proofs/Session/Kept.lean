import SemanticMarkup.Proofs.Session.Frame

/-!
# Cards that are kept

A card is kept under a name as it was built. Whatever other operations are carried
out after that, fail or not, the card is rendered as directly after it was built:
models, engines, variables and global settings may change without an effect on it.
-/

namespace SemanticMarkup

open Stateful

/-- The checks of a request leave the engines that it is given, and only read the request. -/
theorem Site.of_prepare {given : Option Settings} {formatter : Option Formatter}
    {registry : Registry} {r : Request} {g g' : Globals} {site : Site} {p : Prepared}
    (h : run (Site.prepare given formatter registry r) g = (.ok (site, p), g')) :
    site.registry = registry ∧ r.prepare site.settings = .ok p := by
  simp only [Site.prepare, run_bind_eq_ok_iff] at h
  obtain ⟨settings, g₁, -, prepared, g₂, hprepared, h⟩ := h
  rw [run_lift, Prod.mk.injEq] at hprepared
  obtain ⟨hprepared, -⟩ := hprepared
  cases formatter with
  | some f =>
      cases h
      exact ⟨rfl, hprepared⟩
  | none =>
      obtain ⟨f, g₃, -, h⟩ := run_bind_eq_ok_iff.mp h
      cases h
      exact ⟨rfl, hprepared⟩

namespace Session

variable {name engine : String} {o : Opening} {s t : Session} {c : Card}

/-- A request is prepared for the engines of the session. -/
theorem site_of_prepare {site : Site} {p : Prepared} (h : run (prepare o) s = (.ok (site, p), t)) :
    site.registry = s.registry ∧ o.request.prepare site.settings = .ok p := by
  simp only [prepare, prepareFor, run_bind_eq_ok_iff] at h
  obtain ⟨given, s₁, hgiven, formatter, s₂, hformatter, request, s₃, hrequest, s', s₄, hget, h⟩ := h
  cases hrequest
  cases hget
  rw [run_onGlobals, Prod.mk.injEq] at h
  obtain ⟨hregistry, hprepared⟩ := Site.of_prepare (Prod.ext h.1 rfl)
  have hone : s₁.registry = s.registry := (leaves_loadSettings? _).eq hgiven
  have htwo : s₂.registry = s₁.registry := (leaves_formatter? (fun _ _ => rfl) _).eq hformatter
  exact ⟨hregistry.trans (htwo.trans hone), hprepared⟩

/-- The session in which a card is built: without the one that was kept under its name. -/
def cleared (name : String) (s : Session) : Session :=
  { s with cards := without name s.cards, models := without name s.models }

/-- The opening for an engine. -/
def Opening.withEngine (o : Opening) (e : Engine) : Opening :=
  { o with request := { o.request with engine := e } }

/-- A card that is created was built by the engine with the name, and is kept under its own. -/
theorem of_create (h : run (create name engine o) s = (.ok c, t)) :
    ∃ (e : Engine) (site : Site) (p : Prepared) (r : Session),
      s.registry.engineOf engine = .ok e ∧
      run (prepare (o.withEngine e)) (cleared name s) = (.ok (site, p), r) ∧
      (Card.build site p).outcome = .ok c ∧
      t = { r with
        calls := r.calls ++ (Card.build site p).calls
        cards := (name, c) :: r.cards
        models := (name, o.request.model) :: r.models } := by
  simp only [create, build, engineOf, run_bind_eq_ok_iff] at h
  obtain ⟨_, _, hclear, e, _, ⟨_, _, hget, hengine⟩, _, _, ⟨⟨site, p⟩, r, hprepare, hbuild⟩, _, _,
    hkeep, hreturn⟩ := h
  cases hclear
  cases hget
  rw [run_lift, Prod.mk.injEq] at hengine
  obtain ⟨hengine, rfl⟩ := hengine
  rw [run_traced, Prod.mk.injEq] at hbuild
  obtain ⟨hbuild, rfl⟩ := hbuild
  cases hkeep
  cases hreturn
  exact ⟨e, site, p, r, hengine, hprepare, hbuild, rfl⟩

theorem lookup_of_create (h : run (create name engine o) s = (.ok c, t)) :
    t.cards.lookup name = some c := by
  obtain ⟨e, site, p, r, -, -, -, rfl⟩ := of_create h
  exact List.lookup_cons_self

/-- Other names keep what they stand for. -/
theorem lookup_without {α : Type} {other : String} (named : List (String × α)) (h : name ≠ other) :
    (without other named).lookup name = named.lookup name := by
  induction named with
  | nil => rfl
  | cons e rest ih =>
      obtain ⟨k, a⟩ := e
      by_cases hk : k = other
      · have hname : (name == k) = false := by
          rw [hk]
          exact beq_eq_false_iff_ne.mpr h
        rw [List.lookup_cons, hname, ← ih, without, List.filter_cons_of_neg (by simp [hk]), without]
      · rw [without, List.filter_cons_of_pos (by simp [hk]), List.lookup_cons, List.lookup_cons,
          ← without, ih]

/-- The card under a name is a steady part of the session. -/
theorem isSteady_card (name : String) : IsSteady fun s : Session => s.cards.lookup name :=
  ⟨fun _ _ => rfl, fun _ _ => rfl⟩

/-- The name under which an operation puts a new card, if it does. -/
def Operation.created? : Operation → Option String
  | .create name _ _ => some name
  | _ => none

/-- Building a card under another name leaves a card that is kept. -/
theorem leaves_create {other : String} (h : name ≠ other) (engine : String) (o : Opening) :
    Leaves (fun s : Session => s.cards.lookup name) (create other engine o) := by
  refine (Leaves.modify fun s => lookup_without s.cards h).bind fun _ => ?_
  refine (leaves_engineOf engine).bind fun _ => ?_
  refine (leaves_build (isSteady_card name) _).bind fun card => ?_
  refine Leaves.map (Leaves.modify fun s => ?_) _
  rw [List.lookup_cons, beq_eq_false_iff_ne.mpr h]

theorem leaves_setModel (name other : String) (key value : Value) :
    Leaves (fun s : Session => s.cards.lookup name) (setModel other key value) := by
  intro s
  simp only [setModel, run_bind, run_get, run_lift]
  cases kept s.models other with
  | error e => rfl
  | ok model => cases model <;> rfl

/-- No operation but the building of a new card under a name changes the card under it. -/
theorem leaves_perform {op : Operation} (h : op.created? ≠ some name) :
    Leaves (fun s : Session => s.cards.lookup name) op.perform := by
  have hpart := isSteady_card name
  cases op with
  | create other engine o =>
      exact (leaves_create (fun heq => h (congrArg some heq.symm)) engine o).map _
  | reply answer => exact (Leaves.lift _).map _
  | register other mark =>
      refine Leaves.map ?_ _
      cases mark with
      | none => exact .lift _
      | some mark => exact .modify fun _ => rfl
  | unregister other | setVariables changes =>
      refine Leaves.map ?_ _
      exact .modify fun _ => rfl
  | available | log => exact Leaves.get.map _
  | isBasic other => exact (leaves_engineOf other).map _
  | globalSettings | reloadSettings => exact (leaves_onGlobals hpart.globals _).map _
  | loadSettings arguments | logging arguments => exact (leaves_loadSettings arguments).map _
  | renderCard other =>
      exact (leaves_card other).bind fun _ => (leaves_traced hpart.calls _).map _
  | cardContent other =>
      exact (leaves_card other).bind fun _ => (Leaves.lift _).map _
  | cardOptions other => exact (leaves_card other).map _
  | cardRecord other index place =>
      exact (leaves_card other).bind fun _ => (Leaves.lift _).bind fun _ => (Leaves.lift _).map _
  | setModel other key value => exact (leaves_setModel name other key value).map _
  | render o => exact (leaves_render hpart o).map _
  | renderContent o => exact (leaves_renderContent hpart o).map _
  | renderDocument content language r o =>
      exact (leaves_renderDocument hpart content language r o).map _
  | normalize o attributes again => exact (leaves_normalize hpart o attributes again).map _
  | renderRecord settings standard record root index =>
      exact (leaves_renderAlone hpart settings standard record root index).map _
  | showValue settings value format =>
      exact (leaves_formatterFor hpart.globals settings).bind fun _ => (Leaves.lift _).map _
  | showCoordinate axis checked value format standard symbols hemispheres =>
      exact (leaves_showCoordinate hpart axis checked value format standard symbols
        hemispheres).map _

/-- Going on in any case leaves what the attempt leaves. -/
theorem leaves_attempt {α γ : Type} {part : Session → γ} {u : Use α} (h : Leaves part u) :
    Leaves part (attempt u) := h

/-- Operations that build no new card under a name leave the card under it, in any number. -/
theorem leaves_carryOut {ops : List Operation} (h : ∀ op ∈ ops, op.created? ≠ some name) :
    Leaves (fun s : Session => s.cards.lookup name) (carryOut ops) := by
  induction ops with
  | nil => exact .pure _
  | cons op rest ih =>
      obtain ⟨hop, hrest⟩ := List.forall_mem_cons.mp h
      exact (leaves_attempt (leaves_perform hop)).bind fun _ => (ih hrest).map _

/-- What is rendered or shown of a card that is kept. -/
inductive View where
  /-- The card. -/
  | card
  /-- Its content. -/
  | content
  /-- Its options. -/
  | options
  /-- The record at an index, as the one at a place. -/
  | record (index place : Int)

/-- The operation that asks for a view of the card under a name. -/
def View.operation (name : String) : View → Operation
  | .card => .renderCard name
  | .content => .cardContent name
  | .options => .cardOptions name
  | .record index place => .cardRecord name index place

/-- The view of a card. -/
def View.of (c : Card) : View → Outcome Answer
  | .card => c.render.outcome.map .text
  | .content => c.content.map .text
  | .options => .ok (.ordered c.options)
  | .record index place => do
      let r ← recordAt c index
      (c.renderRecord r place).map .text

theorem run_card (h : s.cards.lookup name = some c) : run (card name) s = (.ok c, s) := by
  rw [card, run_bind_of_ok (run_get s), run_lift, kept, h]

/-- Rendering a card that is kept adds its calls and changes nothing else. -/
theorem run_renderCard (h : s.cards.lookup name = some c) :
    run (Operation.renderCard name).perform s =
      (c.render.outcome.map .text, { s with calls := s.calls ++ c.render.calls }) := by
  rw [Operation.perform, run_bind_of_ok (run_card h), run_map, run_traced]

/-- A view depends on nothing but the card that is kept. -/
theorem answer_view (h : s.cards.lookup name = some c) (v : View) :
    (run (v.operation name).perform s).1 = v.of c := by
  cases v with
  | card => rw [View.operation, run_renderCard h, View.of]
  | content =>
      rw [View.operation, Operation.perform, run_bind_of_ok (run_card h), run_map, run_lift,
        View.of]
  | options => rw [View.operation, Operation.perform, run_map, run_card h, View.of]; rfl
  | record index place =>
      rw [View.operation, Operation.perform, run_bind_of_ok (run_card h), run_bind, run_lift,
        View.of]
      cases recordAt c index with
      | error e => rfl
      | ok r => simp only [run_map, run_lift, Outcome.ok_bind]

/-- The session after some operations. -/
def later (ops : List Operation) (s : Session) : Session :=
  (run (carryOut ops) s).2

/-- A card that was created is kept until a new card is built under its name. -/
theorem lookup_later (hnew : run (create name engine o) s = (.ok c, t)) {ops : List Operation}
    (hothers : ∀ op ∈ ops, op.created? ≠ some name) :
    (later ops t).cards.lookup name = some c :=
  (leaves_carryOut hothers t).trans (lookup_of_create hnew)

/-- After a card was built, other operations leave all views of it as they are. -/
theorem answer_frozen (hnew : run (create name engine o) s = (.ok c, t)) {ops : List Operation}
    (hothers : ∀ op ∈ ops, op.created? ≠ some name) (v : View) :
    (run (v.operation name).perform (later ops t)).1 = (run (v.operation name).perform t).1 ∧
      (run (v.operation name).perform t).1 = v.of c := by
  rw [answer_view (lookup_of_create hnew), answer_view (lookup_later hnew hothers)]
  exact ⟨rfl, rfl⟩

/-- A request for a card with a nested one, whose values and labels come from the model. -/
def tracedOpening : Opening where
  request := {
    engine := .basic
    root := .text "h-card"
    model := .dict (Entries.ofFields [("name", .text "Ada"), ("born", .float (.ofInt 2))])
    attributes := .list [.text "p-name", .text "p-lat:born:latitude",
      .dict (Entries.ofFields [("microformat", .text "h-adr"), ("class", .text "framed"),
        ("attributes", .list [.text "p-name"])])]
    template := .null
    options := .null
    depth := some 0 }
  settings := none
  formatter := none

/-- A session with an engine of its own. -/
def framedSession : Session :=
  { start [] with registry := [("framed", .marked "F"), (Registry.basicName, .basic)] }

/-- Operations that change all that a card is built from. -/
def disturbances : List Operation :=
  [.setModel "ada" (.text "name") (.text "Eve"), .unregister "framed",
    .register Registry.basicName (some "B"),
    .setVariables [("MICROFORMATS_COORDINATE_FORMAT", some "%d"),
      ("MICROFORMATS_CONTAINER_TAG", some "p")],
    .reloadSettings, .create "eve" Registry.basicName tracedOpening, .renderCard "eve",
    .renderCard "ada"]

theorem answer_frozen_disturbances :
    ∃ c t, run (create "ada" "framed" tracedOpening) framedSession = (.ok c, t) ∧
      (run (View.card.operation "ada").perform (later disturbances t)).1 =
          (run (View.card.operation "ada").perform t).1 ∧
        (run (View.card.operation "ada").perform t).1 = View.card.of c := by
  obtain ⟨c, t, hnew⟩ := exists_of_isOk (u := create "ada" "framed" tracedOpening)
    (s := framedSession) (by decide +kernel)
  exact ⟨c, t, hnew, answer_frozen hnew (by decide) .card⟩

end Session

end SemanticMarkup
