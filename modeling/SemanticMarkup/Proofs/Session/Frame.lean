import SemanticMarkup.Proofs.Session.Stateful
import SemanticMarkup.Session.Operation

/-!
# What operations leave as it is

Whatever is built, rendered or shown, a session changes at two places only: the
global settings may be loaded, and the render calls are added. A part of the
session that depends on neither is left as it is. A card that is kept under a
name is such a part, and only building a new card under that name replaces it.
-/

namespace SemanticMarkup.Session

open Stateful

/-- A part of a session that depends neither on the global settings nor on the calls. -/
structure IsSteady {γ : Type} (part : Session → γ) : Prop where
  globals : ∀ s g, part { s with globals := g } = part s
  calls : ∀ s cs, part { s with calls := cs } = part s

variable {α γ : Type} {part : Session → γ}

theorem run_onGlobals (operation : Globals.Use α) (s : Session) :
    run (onGlobals operation) s =
      ((run operation s.globals).1, { s with globals := (run operation s.globals).2 }) := rfl

theorem run_traced (t : Traced α) (s : Session) :
    run (traced t) s = (t.outcome, { s with calls := s.calls ++ t.calls }) := rfl

theorem leaves_engineOf (name : String) : Leaves part (engineOf name) :=
  Leaves.get.bind fun _ => .lift _

theorem leaves_card (name : String) : Leaves part (card name) :=
  Leaves.get.bind fun _ => .lift _

theorem leaves_loadSettings (arguments : Fields) : Leaves part (loadSettings arguments) :=
  Leaves.get.bind fun _ => .lift _

theorem leaves_loadSettings? (arguments : Option Fields) :
    Leaves part (loadSettings? arguments) := by
  cases arguments with
  | none => exact .pure _
  | some arguments => exact (leaves_loadSettings arguments).map _

section globals

variable (hglobals : ∀ s g, part { s with globals := g } = part s)

include hglobals

theorem leaves_onGlobals (operation : Globals.Use α) : Leaves part (onGlobals operation) := by
  intro s
  rw [run_onGlobals]
  exact hglobals s _

theorem leaves_formatterFor (arguments : Option Fields) :
    Leaves part (formatterFor arguments) :=
  (leaves_loadSettings? arguments).bind fun _ => leaves_onGlobals hglobals _

theorem leaves_formatter? (arguments : Option Fields) : Leaves part (formatter? arguments) := by
  cases arguments with
  | none => exact .pure _
  | some arguments => exact (leaves_formatterFor hglobals _).map _

theorem leaves_prepareFor (settings formatter : Option Fields) {request : Use Request}
    (hrequest : Leaves part request) : Leaves part (prepareFor settings formatter request) :=
  (leaves_loadSettings? settings).bind fun _ =>
    (leaves_formatter? hglobals formatter).bind fun _ =>
      hrequest.bind fun _ => Leaves.get.bind fun _ => leaves_onGlobals hglobals _

theorem leaves_prepare (o : Opening) : Leaves part (prepare o) :=
  leaves_prepareFor hglobals _ _ (.pure _)

end globals

theorem leaves_traced (hcalls : ∀ s cs, part { s with calls := cs } = part s) (t : Traced α) :
    Leaves part (traced t) := by
  intro s
  rw [run_traced]
  exact hcalls s _

section steady

variable (hpart : IsSteady part)

include hpart

theorem leaves_build (o : Opening) : Leaves part (build o) :=
  (leaves_prepare hpart.globals o).bind fun _ => leaves_traced hpart.calls _

theorem leaves_render (o : Opening) : Leaves part (render o) :=
  (leaves_prepare hpart.globals o).bind fun _ => leaves_traced hpart.calls _

theorem leaves_renderContent (o : Opening) : Leaves part (renderContent o) :=
  (leaves_build hpart o).bind fun _ => .lift _

theorem leaves_renderDocument (content : String) (language : Option String)
    (r : Document.Replacements) (o : Opening) :
    Leaves part (renderDocument content language r o) :=
  (leaves_prepareFor hpart.globals _ _ ((Leaves.lift _).map _)).bind fun _ =>
    leaves_traced hpart.calls _

theorem leaves_normalize (o : Opening) (attributes : Value) (again : Nat) :
    Leaves part (normalize o attributes again) := by
  refine (leaves_prepare hpart.globals _).bind fun ⟨site, prepared⟩ => ?_
  refine (leaves_traced hpart.calls _).bind fun first => ?_
  refine Leaves.map ?_ _
  induction again generalizing first with
  | zero => exact .pure _
  | succ again ih =>
      exact (leaves_traced hpart.calls _).bind fun next => (ih next).map _

theorem leaves_placeIn (root : Value) : Leaves part (placeIn root) := by
  rw [placeIn]
  split
  · exact .pure _
  · exact (leaves_build hpart _).map _

theorem leaves_renderAlone (settings : Option Fields) (standard record root : Outcome Value)
    (index : Int) : Leaves part (renderAlone settings standard record root index) :=
  (leaves_formatterFor hpart.globals settings).bind fun _ =>
    (Leaves.lift _).bind fun _ => (Leaves.lift _).bind fun _ => (Leaves.lift _).bind fun _ =>
      (leaves_placeIn hpart _).bind fun _ => .lift _

theorem leaves_showCoordinate (axis : Axis) (checked : Bool)
    (value format standard symbols hemispheres : Value) :
    Leaves part (showCoordinate axis checked value format standard symbols hemispheres) := by
  refine (leaves_onGlobals hpart.globals _).bind fun c => ?_
  cases checked
  · exact .lift _
  · exact .lift _

end steady

end SemanticMarkup.Session
