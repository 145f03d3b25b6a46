import SemanticMarkup.Failure

/-!
# Traced outcomes

Building a card may render others that are embedded in it. A traced outcome is
an outcome together with the render calls that were completed on the way, also
if it failed in the end.
-/

namespace SemanticMarkup

/-- A class of engines: the basic one, or one that puts its output into a mark. -/
inductive Engine where
  /-- The basic engine. -/
  | basic
  /-- An engine whose output stands in parentheses behind a mark. -/
  | marked (mark : String)
  deriving DecidableEq, Repr

/-- A completed render call. -/
structure RenderCall where
  /-- The engine. -/
  engine : Engine
  /-- The root type. -/
  root : String
  /-- The depth. -/
  depth : Int
  deriving DecidableEq, Repr

/-- An outcome with the render calls completed on the way to it. -/
structure Traced (α : Type) where
  /-- The outcome. -/
  outcome : Outcome α
  /-- The calls, in order. -/
  calls : List RenderCall

namespace Traced

/-- An outcome without any call. -/
def ofOutcome {α : Type} (o : Outcome α) : Traced α := ⟨o, []⟩

/-- Goes on with what a traced outcome results in; the calls add up. -/
def andThen {α β : Type} (t : Traced α) (next : α → Traced β) : Traced β :=
  match t.outcome with
  | .ok a => ⟨(next a).outcome, t.calls ++ (next a).calls⟩
  | .error e => ⟨.error e, t.calls⟩

instance : Monad Traced where
  pure a := ofOutcome (.ok a)
  bind := andThen

instance : MonadLift (Except Failure) Traced where
  monadLift := ofOutcome

/-- Records a call. -/
def call (c : RenderCall) : Traced Unit := ⟨.ok (), [c]⟩

/-- Nothing is added before what follows a plain value. -/
theorem andThen_ok {α β : Type} (a : α) (next : α → Traced β) :
    (ofOutcome (.ok a)).andThen next = next a := by
  simp [andThen, ofOutcome]

/-- The outcome of two steps is that of their outcomes. -/
@[simp] theorem outcome_bind {α β : Type} (t : Traced α) (next : α → Traced β) :
    (t >>= next).outcome = t.outcome >>= fun a => (next a).outcome := by
  change (t.andThen next).outcome = _
  cases h : t.outcome <;> simp [andThen, h]

@[simp] theorem outcome_pure {α : Type} (a : α) : (pure a : Traced α).outcome = .ok a := rfl

@[simp] theorem outcome_lift {α : Type} (o : Outcome α) :
    (liftM o : Traced α).outcome = o := rfl

@[simp] theorem outcome_call (c : RenderCall) : (call c).outcome = .ok () := rfl

/-- The traced results for all items of a list, numbered from `i` on. -/
def forEach {α β : Type} (f : Nat → α → Traced β) : Nat → List α → Traced (List β)
  | _, [] => ofOutcome (.ok [])
  | i, a :: rest => (f i a).andThen fun b => (forEach f (i + 1) rest).andThen fun bs =>
      ofOutcome (.ok (b :: bs))

@[simp] theorem outcome_forEach_nil {α β : Type} (f : Nat → α → Traced β) (i : Nat) :
    (forEach f i []).outcome = .ok [] := rfl

/-- The first item comes first, and its failure is that of the list. -/
theorem outcome_forEach_cons {α β : Type} (f : Nat → α → Traced β) (i : Nat) (a : α)
    (rest : List α) :
    (forEach f i (a :: rest)).outcome = do
      let b ← (f i a).outcome
      let bs ← (forEach f (i + 1) rest).outcome
      return b :: bs := by
  change ((f i a) >>= fun b => (forEach f (i + 1) rest) >>= fun bs => pure (b :: bs)).outcome = _
  simp

/-- A plain value adds no call, and calls add up in order, however steps are grouped. -/
instance : LawfulMonad Traced :=
  .mk' Traced
    (fun t => by
      obtain ⟨o, calls⟩ := t
      cases o with
      | ok a => exact congrArg (Traced.mk (.ok a)) (List.append_nil calls)
      | error e => rfl)
    andThen_ok
    (fun t next last => by
      obtain ⟨o, calls⟩ := t
      cases o with
      | error e => rfl
      | ok a =>
          change Traced.andThen ⟨(next a).outcome, calls ++ (next a).calls⟩ last =
            Traced.andThen ⟨.ok a, calls⟩ fun a => (next a).andThen last
          cases h : (next a).outcome <;> simp [andThen, h])

@[simp] theorem outcome_map {α β : Type} (f : α → β) (t : Traced α) :
    (f <$> t).outcome = t.outcome >>= fun a => .ok (f a) := by
  rw [← bind_pure_comp, outcome_bind]
  rfl

theorem forEach_cons {α β : Type} (f : Nat → α → Traced β) (i : Nat) (a : α) (rest : List α) :
    forEach f i (a :: rest) = do
      let b ← f i a
      let bs ← forEach f (i + 1) rest
      return b :: bs := rfl

/-- The results for a row of two lists; the numbers go on behind the first one. -/
theorem forEach_append {α β : Type} (f : Nat → α → Traced β) (i : Nat) (front back : List α) :
    forEach f i (front ++ back) = do
      let bs ← forEach f i front
      let cs ← forEach f (i + front.length) back
      return bs ++ cs := by
  induction front generalizing i with
  | nil =>
      have hnil : forEach f i ([] : List α) = pure [] := rfl
      rw [hnil, pure_bind, List.nil_append, List.length_nil, Nat.add_zero]
      exact (bind_pure _).symm
  | cons a rest ih =>
      rw [List.cons_append, forEach_cons, forEach_cons, ih, List.length_cons,
        Nat.add_right_comm i, ← Nat.add_assoc]
      simp only [bind_assoc, pure_bind, List.cons_append]

end Traced

end SemanticMarkup
