import SemanticMarkup.Proofs.Session.Kept

/-!
# The loads of the global settings

Global settings are loaded when they are asked for first, and whenever they are
loaded anew. A `History` keeps the environment and the environment at the last
load that succeeded, and nothing else. The global settings of a session are those
that loading gives there: variables that were set later are not seen, a load that
fails changes nothing, and as long as none has succeeded every operation that asks
for the settings tries again.

## Implementation notes

`Asks` is about an operation as a whole: it may ask again in later steps, but then
the settings are loaded. `Settled` says that of these steps.
-/

namespace SemanticMarkup

open Stateful

/-! ## Asking for the settings in use -/

namespace Globals

variable {g : Globals} {x : Settings}

theorem run_reload (g : Globals) :
    Stateful.run reload g = match Settings.load g.environment [] with
      | .ok x => (.ok x, { g with loaded := some x })
      | .error e => (.error e, g) := by
  rw [reload, run_bind_of_ok (run_get g), run_bind, run_lift]
  cases Settings.load g.environment [] <;> rfl

/-- Settings that are loaded are given without a load. -/
theorem run_obtain_of_loaded (h : g.loaded = some x) : Stateful.run obtain g = (.ok x, g) := by
  rw [obtain, run_bind_of_ok (run_get g), h]
  rfl

theorem run_obtain_of_none (h : g.loaded = none) :
    Stateful.run obtain g = Stateful.run reload g := by
  rw [obtain, run_bind_of_ok (run_get g), h]

/-- The globals after the settings were asked for. -/
def obtained (g : Globals) : Globals := (Stateful.run obtain g).2

theorem obtained_of_isSome (h : g.loaded.isSome = true) : g.obtained = g := by
  obtain ⟨x, hx⟩ := Option.isSome_iff_exists.mp h
  rw [obtained, run_obtain_of_loaded hx]

/-- Whoever is given settings leaves settings in use. -/
theorem loaded_of_obtain (h : (Stateful.run obtain g).1.isOk = true) :
    g.obtained.loaded.isSome = true := by
  cases hg : g.loaded with
  | some x => rw [obtained, run_obtain_of_loaded hg, hg, Option.isSome_some]
  | none =>
      rw [run_obtain_of_none hg, run_reload] at h
      rw [obtained, run_obtain_of_none hg, run_reload]
      cases hload : Settings.load g.environment [] with
      | ok x => rfl
      | error e =>
          rw [hload] at h
          cases h

end Globals

section asks

variable {σ α β : Type} {part : σ → Globals} {u : Stateful σ α} {f : α → Stateful σ β}

/-- An operation asks for the global settings and does not succeed without them. -/
structure Asks (part : σ → Globals) (u : Stateful σ α) : Prop where
  globals : ∀ s, part (run u s).2 = (part s).obtained
  loaded : ∀ s, (run u s).1.isOk = true → (part s).obtained.loaded.isSome = true

/-- An operation changes no globals with loaded settings. -/
def Settled (part : σ → Globals) (u : Stateful σ α) : Prop :=
  ∀ s, (part s).loaded.isSome = true → part (run u s).2 = part s

theorem Stateful.Leaves.settled (h : Leaves part u) : Settled part u :=
  fun s _ => h s

theorem Asks.settled (h : Asks part u) : Settled part u := by
  intro s hs
  rw [h.globals, Globals.obtained_of_isSome hs]

theorem Settled.bind (hu : Settled part u) (hf : ∀ a, Settled part (f a)) :
    Settled part (u >>= f) := by
  intro s hs
  have hfirst := hu s hs
  rw [run_bind]
  generalize run u s = first at hfirst
  obtain ⟨result, t⟩ := first
  cases result with
  | error e => exact hfirst
  | ok a =>
      have hsecond : part (run (f a) t).2 = part t := hf a t (by rw [hfirst]; exact hs)
      exact hsecond.trans hfirst

/-- Once the settings were asked for, later steps find them loaded. -/
theorem Asks.bind (hu : Asks part u) (hf : ∀ a, Settled part (f a)) : Asks part (u >>= f) := by
  have hrun : ∀ s, part (run (u >>= f) s).2 = (part s).obtained ∧
      ((run (u >>= f) s).1.isOk = true → (part s).obtained.loaded.isSome = true) := by
    intro s
    have hglobals := hu.globals s
    have hloaded := hu.loaded s
    rw [run_bind]
    generalize run u s = first at hglobals hloaded
    obtain ⟨result, t⟩ := first
    cases result with
    | error e => exact ⟨hglobals, nofun⟩
    | ok a =>
        have hsome := hloaded rfl
        refine ⟨?_, fun _ => hsome⟩
        have hsecond : part (run (f a) t).2 = part t := hf a t (by rw [hglobals]; exact hsome)
        exact hsecond.trans hglobals
  exact ⟨fun s => (hrun s).1, fun s => (hrun s).2⟩

/-- What is made of the result in the end does not matter. -/
theorem Asks.map (hu : Asks part u) (g : α → β) : Asks part (u >>= fun a => pure (g a)) :=
  hu.bind fun _ => (Leaves.pure _).settled

/-- The state may be looked at first. -/
theorem Asks.of_get {f : σ → Stateful σ β} (hf : ∀ s, Asks part (f s)) : Asks part (get >>= f) where
  globals s := by
    rw [run_bind_of_ok (run_get s)]
    exact (hf s).globals s
  loaded s := by
    rw [run_bind_of_ok (run_get s)]
    exact (hf s).loaded s

end asks

theorem Globals.asks_obtain : Asks id Globals.obtain :=
  ⟨fun _ => rfl, fun _ => loaded_of_obtain⟩

/-- Whether coordinates are to be shown with something that is missing. -/
def Coordinates.isIncomplete (format symbols hemispheres : Value) : Bool :=
  !(format.isTrue && symbols.isTrue && hemispheres.isTrue)

/-- What is missing for coordinates is asked for. -/
theorem Coordinates.asks_make {format symbols hemispheres : Value}
    (h : isIncomplete format symbols hemispheres = true) :
    Asks id (make format symbols hemispheres) := by
  rw [isIncomplete, Bool.not_eq_true'] at h
  rw [make]
  simp only [h, Bool.false_eq_true, if_false, pure_bind]
  refine Globals.asks_obtain.bind fun s => ?_
  exact ((Leaves.lift _).bind fun _ => (Leaves.lift _).map _).settled

theorem Coordinates.leaves_make {format symbols hemispheres : Value}
    (h : isIncomplete format symbols hemispheres = false) :
    Leaves id (make format symbols hemispheres) := by
  rw [isIncomplete, Bool.not_eq_false'] at h
  rw [make]
  simp only [h, if_true, pure_bind]
  exact (Leaves.lift _).bind fun _ => (Leaves.lift _).map _

theorem Coordinates.settled_make (format symbols hemispheres : Value) :
    Settled id (make format symbols hemispheres) := by
  cases h : isIncomplete format symbols hemispheres with
  | true => exact (asks_make h).settled
  | false => exact (leaves_make h).settled

theorem Formatter.settled_make (s : Settings) : Settled id (make s) :=
  (Coordinates.settled_make _ _ _).bind fun _ => (Leaves.pure _).settled

/-- Without given settings, a request is prepared under the global ones. -/
theorem Site.asks_prepare (registry : Registry) (r : Request) :
    Asks id (prepare none none registry r) := by
  refine Globals.asks_obtain.bind fun s => ?_
  refine (Leaves.lift _).settled.bind fun p => ?_
  exact (Formatter.settled_make s).bind fun _ => (Leaves.pure _).settled

namespace Session

variable {α : Type} {o : Opening}

theorem asks_onGlobals {operation : Globals.Use α} (h : Asks id operation) :
    Asks Session.globals (onGlobals operation) where
  globals s := by
    rw [run_onGlobals]
    exact h.globals s.globals
  loaded s := by
    rw [run_onGlobals]
    exact h.loaded s.globals

/-- No calls are among the globals. -/
theorem leaves_globals_traced (t : Traced α) : Leaves Session.globals (traced t) :=
  leaves_traced (fun _ _ => rfl) t

/-- An opening without settings of its own, and without those of a formatter. -/
def Opening.isImplicit (o : Opening) : Bool :=
  o.settings.isNone && o.formatter.isNone

theorem Opening.eq_none_of_isImplicit (h : o.isImplicit = true) :
    o.settings = none ∧ o.formatter = none := by
  rw [isImplicit, Bool.and_eq_true] at h
  exact ⟨Option.isNone_iff_eq_none.mp h.1, Option.isNone_iff_eq_none.mp h.2⟩

theorem asks_prepare (h : o.isImplicit = true) : Asks Session.globals (prepare o) := by
  obtain ⟨hsettings, hformatter⟩ := Opening.eq_none_of_isImplicit h
  rw [prepare, prepareFor, hsettings, hformatter]
  simp only [loadSettings?, formatter?, pure_bind]
  exact Asks.of_get fun s => asks_onGlobals (Site.asks_prepare s.registry o.request)

theorem asks_build (h : o.isImplicit = true) : Asks Session.globals (build o) :=
  (asks_prepare h).bind fun _ => (leaves_globals_traced _).settled

theorem asks_render (h : o.isImplicit = true) : Asks Session.globals (render o) :=
  (asks_prepare h).bind fun _ => (leaves_globals_traced _).settled

theorem asks_renderContent (h : o.isImplicit = true) : Asks Session.globals (renderContent o) :=
  (asks_build h).bind fun _ => (Leaves.lift _).settled

theorem asks_normalize (h : o.isImplicit = true) (attributes : Value) (again : Nat) :
    Asks Session.globals (normalize o attributes again) := by
  have hasked : Opening.isImplicit { o with
      request := { o.request with attributes := .list [] } } = true := h
  refine (asks_prepare hasked).bind fun ⟨site, prepared⟩ => ?_
  refine Leaves.settled ?_
  refine (leaves_globals_traced _).bind fun first => Leaves.map ?_ _
  induction again generalizing first with
  | zero => exact .pure _
  | succ again ih => exact (leaves_globals_traced _).bind fun next => (ih next).map _

theorem asks_formatterFor : Asks Session.globals (formatterFor none) :=
  asks_onGlobals (Globals.asks_obtain.bind Formatter.settled_make)

theorem settled_placeIn (root : Value) : Settled Session.globals (placeIn root) := by
  rw [placeIn]
  split
  · exact (Leaves.pure _).settled
  · exact ((asks_build rfl).map _).settled

/-- A record that is rendered on its own is shown with a formatter; its empty card comes later. -/
theorem asks_renderAlone (standard record root : Outcome Value) (index : Int) :
    Asks Session.globals (renderAlone none standard record root index) :=
  asks_formatterFor.bind fun _ => (Leaves.lift _).settled.bind fun _ =>
    (Leaves.lift _).settled.bind fun _ => (Leaves.lift _).settled.bind fun _ =>
      (settled_placeIn _).bind fun _ => (Leaves.lift _).settled

end Session

/-! ## The history of the settings -/

/-- The environment, and the environment at the last load that succeeded, if there was one. -/
structure History where
  /-- The variables of the environment. -/
  environment : Variables
  /-- The variables at the last load that succeeded. -/
  source : Option Variables
  /-- Loading succeeds there. -/
  loads : ∀ e ∈ source, (Settings.load e []).isOk = true

namespace History

/-- The settings that loading gave. -/
def settings? (h : History) : Option Settings :=
  h.source.bind fun e => (Settings.load e []).toOption

/-- The globals with these settings. -/
def globals (h : History) : Globals :=
  { environment := h.environment, loaded := h.settings? }

/-- Nothing was loaded yet. -/
def start (environment : Variables) : History :=
  { environment := environment, source := none, loads := nofun }

/-- The environment is another one. -/
def changed (h : History) (environment : Variables) : History :=
  { h with environment := environment }

/-- A load succeeds in the environment as it is, or nothing happens. -/
def reloaded (h : History) : History :=
  if hok : (Settings.load h.environment []).isOk = true then
    { h with
      source := some h.environment
      loads := fun _ he => Option.some.inj he ▸ hok }
  else h

/-- There is a load if there was none that succeeded. -/
def asked (h : History) : History :=
  if h.source.isSome then h else h.reloaded

variable {h : History}

/-- There are settings exactly if a load succeeded. -/
theorem isSome_settings? (h : History) : h.settings?.isSome = h.source.isSome := by
  cases hsource : h.source with
  | none => rw [settings?, hsource]; rfl
  | some e =>
      obtain ⟨x, hx⟩ := Outcome.exists_of_isOk (h.loads e hsource)
      rw [settings?, hsource, Option.bind_some, hx]
      rfl

/-- Either no load succeeded and there are no settings, or there are those of the last one. -/
theorem settings?_cases (h : History) :
    (h.source = none ∧ h.settings? = none) ∨
      ∃ e x, h.source = some e ∧ Settings.load e [] = .ok x ∧ h.settings? = some x := by
  cases hsource : h.source with
  | none => exact .inl ⟨rfl, by rw [settings?, hsource]; rfl⟩
  | some e =>
      obtain ⟨x, hx⟩ := Outcome.exists_of_isOk (h.loads e hsource)
      refine .inr ⟨e, x, rfl, hx, ?_⟩
      rw [settings?, hsource, Option.bind_some, hx]
      rfl

theorem globals_reloaded (h : History) : h.reloaded.globals = (run Globals.reload h.globals).2 := by
  have henvironment : h.globals.environment = h.environment := rfl
  rw [Globals.run_reload, henvironment, reloaded]
  by_cases hok : (Settings.load h.environment []).isOk = true
  · obtain ⟨x, hx⟩ := Outcome.exists_of_isOk hok
    rw [dif_pos hok]
    simp only [globals, settings?, Option.bind_some, hx]
    rfl
  · rw [dif_neg hok]
    cases hload : Settings.load h.environment [] with
    | error e => rfl
    | ok x =>
        rw [hload] at hok
        exact absurd rfl hok

theorem globals_asked (h : History) : h.asked.globals = h.globals.obtained := by
  have hsome : h.globals.loaded.isSome = h.source.isSome := isSome_settings? h
  rw [asked]
  split
  · rename_i hsource
    rw [Globals.obtained_of_isSome (hsome.trans hsource)]
  · rename_i hsource
    have hnone : h.globals.loaded = none := by
      rw [← Option.not_isSome_iff_eq_none, hsome]
      exact hsource
    rw [globals_reloaded, Globals.obtained, Globals.run_obtain_of_none hnone]

end History

namespace Session

/-! ## What operations ask for -/

/-- Whether an operation is carried out without settings of its own. -/
def Operation.isImplicit : Operation → Bool
  | .create _ _ o => o.isImplicit
  | .render o => o.isImplicit
  | .renderContent o => o.isImplicit
  | .renderDocument _ _ _ o => o.isImplicit
  | .normalize o _ _ => o.isImplicit
  | .renderRecord settings _ _ _ _ => settings.isNone
  | .showValue settings _ _ => settings.isNone
  | _ => true

/-- Whether an operation without settings of its own asks for the global ones: whatever builds a
card does as soon as its engine and its entries are known, whatever shows values does, and
coordinates do if something is missing. -/
def Operation.asks (s : Session) : Operation → Bool
  | .globalSettings => true
  | .create _ engine _ => (s.registry.engineOf engine).isOk
  | .render _ => true
  | .renderContent _ => true
  | .renderDocument content language _ _ => (Document.parse content language).isOk
  | .normalize _ _ _ => true
  | .renderRecord _ _ _ _ _ => true
  | .showValue _ _ _ => true
  | .showCoordinate _ _ _ _ standard symbols hemispheres =>
      Coordinates.isIncomplete standard symbols hemispheres
  | _ => false

/-- The history behind an operation. -/
def Operation.recorded (s : Session) (h : History) : Operation → History
  | .setVariables changes =>
      h.changed (changes.foldl (fun vs c => Variables.assign vs c.1 c.2) h.environment)
  | .reloadSettings => h.reloaded
  | op => if op.asks s then h.asked else h

/-- The history behind some operations, one after the other. -/
def recorded : Session → History → List Operation → History
  | _, h, [] => h
  | s, h, op :: rest => recorded (run op.perform s).2 (op.recorded s h) rest

variable {s : Session} {h : History}

/-- An operation that asks changes the globals as a history changes that was asked. -/
theorem globals_of_asks {α : Type} {u : Use α} (hu : Asks Session.globals u)
    (hs : s.globals = h.globals) : (run u s).2.globals = h.asked.globals := by
  rw [hu.globals, hs, History.globals_asked]

theorem globals_of_leaves {α : Type} {u : Use α} (hu : Leaves Session.globals u)
    (hs : s.globals = h.globals) : (run u s).2.globals = h.globals :=
  (hu s).trans hs

/-- A card is built for an engine that is known; otherwise nothing is asked for. -/
theorem globals_create (name engine : String) {o : Opening} (ho : o.isImplicit = true)
    (hs : s.globals = h.globals) :
    (run (create name engine o) s).2.globals =
      (if (s.registry.engineOf engine).isOk then h.asked else h).globals := by
  have hbuild : ∀ e, Asks Session.globals (build (o.withEngine e)) := fun _ => asks_build ho
  have hkeep : ∀ card, Leaves Session.globals (modify fun s : Session =>
      { s with cards := (name, card) :: s.cards, models := (name, o.request.model) :: s.models } :
        Use PUnit) :=
    fun card => .modify fun _ => rfl
  have hcleared : (cleared name s).globals = h.globals := hs
  have hclear : run (modify fun s : Session => { s with
      cards := without name s.cards, models := without name s.models } : Use PUnit) s =
      (.ok ⟨⟩, cleared name s) := rfl
  rw [create, run_bind_of_ok hclear, run_bind]
  have hengine : run (engineOf engine) (cleared name s) =
      (s.registry.engineOf engine, cleared name s) := rfl
  rw [hengine]
  cases s.registry.engineOf engine with
  | error e => exact hcleared
  | ok e =>
      exact globals_of_asks ((hbuild e).bind fun card => ((hkeep card).map _).settled) hcleared

/-- A document is read before anything is asked for. -/
theorem globals_renderDocument (content : String) (language : Option String)
    (r : Document.Replacements) {o : Opening} (ho : o.isImplicit = true)
    (hs : s.globals = h.globals) :
    (run (renderDocument content language r o) s).2.globals =
      (if (Document.parse content language).isOk then h.asked else h).globals := by
  obtain ⟨hsettings, hformatter⟩ := Opening.eq_none_of_isImplicit ho
  have hprepare : ∀ request : Request, Asks Session.globals
      (get >>= fun s : Session => onGlobals (Site.prepare none none s.registry request)) :=
    fun request => Asks.of_get fun s => asks_onGlobals (Site.asks_prepare s.registry request)
  rw [renderDocument, prepareFor, hsettings, hformatter]
  simp only [loadSettings?, formatter?, pure_bind, bind_assoc]
  rw [run_bind, run_lift]
  cases Document.parse content language with
  | error e => exact hs
  | ok d =>
      refine globals_of_asks ?_ hs
      exact Asks.of_get fun s => (asks_onGlobals (Site.asks_prepare s.registry _)).bind fun _ =>
        (leaves_globals_traced _).settled

/-- Coordinates are shown with what is given, or what is missing is asked for. -/
theorem globals_showCoordinate (axis : Axis) (checked : Bool)
    (value format standard symbols hemispheres : Value) (hs : s.globals = h.globals) :
    (run (showCoordinate axis checked value format standard symbols hemispheres) s).2.globals =
      (if Coordinates.isIncomplete standard symbols hemispheres then h.asked else h).globals := by
  have hshow : ∀ c : Coordinates, Leaves Session.globals
      (if checked then liftM (c.renderValid axis value format : Outcome String)
        else liftM (c.render axis value format : Outcome String) : Use String) := by
    intro c
    cases checked <;> exact .lift _
  cases hmissing : Coordinates.isIncomplete standard symbols hemispheres with
  | true =>
      refine globals_of_asks ?_ hs
      exact (asks_onGlobals (Coordinates.asks_make hmissing)).bind fun c => (hshow c).settled
  | false =>
      refine globals_of_leaves ?_ hs
      have hmake :
          Leaves Session.globals (onGlobals (Coordinates.make standard symbols hemispheres)) :=
        fun s => Coordinates.leaves_make hmissing s.globals
      exact hmake.bind hshow

/-- One operation: the globals behind it are those of the history behind it. -/
theorem globals_perform {op : Operation} (hop : op.isImplicit = true) (hs : s.globals = h.globals) :
    (run op.perform s).2.globals = (op.recorded s h).globals := by
  cases op with
  | setVariables changes =>
      have henvironment : s.globals.environment = h.environment := by rw [hs]; rfl
      have hloaded : s.globals.loaded = h.settings? := by rw [hs]; rfl
      rw [Operation.perform, run_map, Operation.recorded, ← henvironment]
      exact congrArg (Globals.mk _) hloaded
  | reloadSettings =>
      rw [Operation.perform, run_map, run_onGlobals, Operation.recorded,
        History.globals_reloaded, hs]
  | globalSettings =>
      exact globals_of_asks ((asks_onGlobals Globals.asks_obtain).map _) hs
  | create name engine o =>
      rw [Operation.perform, run_map]
      exact globals_create name engine hop hs
  | render o => exact globals_of_asks ((asks_render hop).map _) hs
  | renderContent o => exact globals_of_asks ((asks_renderContent hop).map _) hs
  | renderDocument content language r o =>
      rw [Operation.perform, run_map]
      exact globals_renderDocument content language r hop hs
  | normalize o attributes again =>
      exact globals_of_asks ((asks_normalize hop attributes again).map _) hs
  | renderRecord settings standard record root index =>
      obtain rfl := Option.isNone_iff_eq_none.mp hop
      exact globals_of_asks ((asks_renderAlone standard record root index).map _) hs
  | showValue settings value format =>
      obtain rfl := Option.isNone_iff_eq_none.mp hop
      exact globals_of_asks
        (asks_formatterFor.bind fun _ => ((Leaves.lift _).map _).settled) hs
  | showCoordinate axis checked value format standard symbols hemispheres =>
      rw [Operation.perform, run_map]
      exact globals_showCoordinate axis checked value format standard symbols hemispheres hs
  | reply answer => exact globals_of_leaves ((Leaves.lift _).map _) hs
  | register name mark =>
      refine globals_of_leaves (Leaves.map ?_ _) hs
      cases mark with
      | none => exact .lift _
      | some mark => exact .modify fun _ => rfl
  | unregister name =>
      refine globals_of_leaves (Leaves.map ?_ _) hs
      exact .modify fun _ => rfl
  | available | log => exact globals_of_leaves (Leaves.get.map _) hs
  | isBasic name => exact globals_of_leaves ((leaves_engineOf name).map _) hs
  | loadSettings arguments | logging arguments =>
      exact globals_of_leaves ((leaves_loadSettings arguments).map _) hs
  | renderCard name =>
      exact globals_of_leaves
        ((leaves_card name).bind fun _ => (leaves_globals_traced _).map _) hs
  | cardContent name =>
      exact globals_of_leaves ((leaves_card name).bind fun _ => (Leaves.lift _).map _) hs
  | cardOptions name => exact globals_of_leaves ((leaves_card name).map _) hs
  | cardRecord name index place =>
      exact globals_of_leaves ((leaves_card name).bind fun _ => (Leaves.lift _).bind fun _ =>
        (Leaves.lift _).map _) hs
  | setModel name key value =>
      refine globals_of_leaves (Leaves.map (fun s => ?_) _) hs
      simp only [setModel, run_bind, run_get, run_lift]
      cases kept s.models name with
      | error e => rfl
      | ok model => cases model <;> rfl

theorem later_cons (op : Operation) (rest : List Operation) (s : Session) :
    later (op :: rest) s = later rest (run op.perform s).2 := by
  have hattempt : run (attempt op.perform) s =
      (.ok (run op.perform s).1, (run op.perform s).2) := rfl
  rw [later, carryOut, run_bind_of_ok hattempt, run_map, later]

/-- Some operations: by induction, each one keeps the globals and the history together. -/
theorem globals_later_of_eq {ops : List Operation} (hops : ∀ op ∈ ops, op.isImplicit = true)
    (hs : s.globals = h.globals) : (later ops s).globals = (recorded s h ops).globals := by
  induction ops generalizing s h with
  | nil => exact hs
  | cons op rest ih =>
      obtain ⟨hop, hrest⟩ := List.forall_mem_cons.mp hops
      rw [later_cons, recorded]
      exact ih hrest (globals_perform hop hs)

/-- A load that fails leaves the session as it was, and the failure is the answer. -/
theorem run_reloadSettings_of_error {e : Failure}
    (hload : Settings.load s.globals.environment [] = .error e) :
    run Operation.reloadSettings.perform s = (.error e, s) := by
  rw [Operation.perform, run_map, run_onGlobals, Globals.run_reload, hload]
  rfl

/-- Asked for settings, a session gives those in use; without any it loads them. -/
theorem run_globalSettings (s : Session) :
    run Operation.globalSettings.perform s = match s.globals.loaded with
      | some x => (.ok (.settings x), s)
      | none => run Operation.reloadSettings.perform s := by
  cases hloaded : s.globals.loaded with
  | some x =>
      rw [Operation.perform, run_map, run_onGlobals, Globals.run_obtain_of_loaded hloaded]
      rfl
  | none =>
      rw [Operation.perform, run_map, run_onGlobals, Globals.run_obtain_of_none hloaded,
        Operation.perform, run_map, run_onGlobals]

/-- The global settings follow the last load that succeeded. However many operations there were, as
long as no load succeeded there are none, and afterwards they are those of the environment at the
last such load. Variables that are set change nothing in them, a load that fails leaves the session
as it is, and without settings whoever asks for them tries to load them again. -/
theorem globals_follow_loads (environment : Variables) {ops : List Operation}
    (hops : ∀ op ∈ ops, op.isImplicit = true) :
    let s := later ops (Session.start environment)
    let h := recorded (Session.start environment) (.start environment) ops
    s.globals.environment = h.environment ∧
      ((h.source = none ∧ s.globals.loaded = none) ∨
        ∃ e x, h.source = some e ∧ Settings.load e [] = .ok x ∧ s.globals.loaded = some x) ∧
      (∀ changes, (run (Operation.setVariables changes).perform s).2.globals.loaded =
        s.globals.loaded) ∧
      (∀ e, Settings.load s.globals.environment [] = .error e →
        run Operation.reloadSettings.perform s = (.error e, s)) ∧
      run Operation.globalSettings.perform s = match s.globals.loaded with
        | some x => (.ok (.settings x), s)
        | none => run Operation.reloadSettings.perform s := by
  intro s h
  have hglobals : s.globals = h.globals := globals_later_of_eq hops rfl
  have hloaded : s.globals.loaded = h.settings? := by rw [hglobals]; rfl
  refine ⟨by rw [hglobals]; rfl, ?_, fun changes => rfl,
    fun e hload => run_reloadSettings_of_error hload, run_globalSettings s⟩
  rw [hloaded]
  exact h.settings?_cases

/-- An environment that no settings can be loaded from. -/
def blockedEnvironment : Variables := [("MICROFORMATS_MAX_EMBED_DEPTH", "deep")]

/-- Operations between which the environment changes: the first one asks in vain, the card is built
under the settings of its time, and in the end loading fails. -/
def shiftingOperations : List Operation :=
  [.showValue none (.int 1) (.text "text"),
    .setVariables [("MICROFORMATS_MAX_EMBED_DEPTH", none), ("MICROFORMATS_DATE_FORMAT", some "%Y")],
    .create "ada" Registry.basicName tracedOpening,
    .setVariables [("MICROFORMATS_DATE_FORMAT", some "%m")],
    .globalSettings,
    .setVariables [("MICROFORMATS_BOOLEAN_FORMAT", some "[")],
    .reloadSettings]

theorem globals_follow_loads_shifting :
    ∃ x, Settings.load [("MICROFORMATS_DATE_FORMAT", "%Y")] [] = .ok x ∧
      (later shiftingOperations (Session.start blockedEnvironment)).globals.loaded = some x ∧
      (later (shiftingOperations.take 1) (Session.start blockedEnvironment)).globals.loaded =
        none := by
  have hsource : (recorded (Session.start blockedEnvironment) (.start blockedEnvironment)
      shiftingOperations).source = some [("MICROFORMATS_DATE_FORMAT", "%Y")] := by decide +kernel
  have hblocked : (recorded (Session.start blockedEnvironment) (.start blockedEnvironment)
      (shiftingOperations.take 1)).source = none := by decide +kernel
  have hops : ∀ op ∈ shiftingOperations, op.isImplicit = true := by decide
  have hfirst : ∀ op ∈ shiftingOperations.take 1, op.isImplicit = true := by decide
  obtain ⟨-, hall, -⟩ := globals_follow_loads blockedEnvironment hops
  obtain ⟨-, hone, -⟩ := globals_follow_loads blockedEnvironment hfirst
  rw [hsource] at hall
  rw [hblocked] at hone
  obtain ⟨hnone, -⟩ | ⟨e, x, he, hx, hloaded⟩ := hall
  · cases hnone
  · cases he
    obtain ⟨-, hnone⟩ | ⟨e, y, he, -⟩ := hone
    · exact ⟨x, hx, hloaded, hnone⟩
    · cases he

end Session

end SemanticMarkup
