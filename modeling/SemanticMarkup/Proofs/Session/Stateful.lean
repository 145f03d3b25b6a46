import SemanticMarkup.Failure

/-!
# Operations on a state

An operation on a state may fail. What it did to the state before stays done.
The lemmas say what such an operation results in, step by step, and which parts
of the state it leaves as they are.
-/

namespace SemanticMarkup

/-- An operation on a state that may fail. -/
abbrev Stateful (σ α : Type) := ExceptT Failure (StateM σ) α

namespace Stateful

variable {σ α β γ : Type} {u : Stateful σ α} {f : α → Stateful σ β}

/-- The result of an operation and the state behind it. -/
def run (u : Stateful σ α) (s : σ) : Outcome α × σ := u s

@[simp] theorem run_pure (a : α) (s : σ) : run (pure a) s = (.ok a, s) := rfl

@[simp] theorem run_lift (o : Outcome α) (s : σ) : run (liftM o) s = (o, s) := rfl

@[simp] theorem run_get (s : σ) : run (get : Stateful σ σ) s = (.ok s, s) := rfl

/-- The second step is carried out on the state that the first one leaves, if that succeeds. -/
theorem run_bind (u : Stateful σ α) (f : α → Stateful σ β) (s : σ) :
    run (u >>= f) s = match run u s with
      | (.ok a, t) => run (f a) t
      | (.error e, t) => (.error e, t) := by
  change run (ExceptT.bindCont (m := StateM σ) f (run u s).1) (run u s).2 = _
  obtain ⟨result, t⟩ := run u s
  cases result <;> rfl

theorem run_bind_of_ok {s t : σ} {a : α} (h : run u s = (.ok a, t)) :
    run (u >>= f) s = run (f a) t := by
  rw [run_bind, h]

/-- What is made of the result in the end is made of what it is. -/
theorem run_map (u : Stateful σ α) (g : α → β) (s : σ) :
    run (u >>= fun a => pure (g a)) s = ((run u s).1.map g, (run u s).2) := by
  rw [run_bind]
  obtain ⟨result, t⟩ := run u s
  cases result <;> rfl

/-- Two steps succeed if the first one does, and the second one behind it. -/
theorem run_bind_eq_ok_iff {s t : σ} {b : β} :
    run (u >>= f) s = (.ok b, t) ↔ ∃ a r, run u s = (.ok a, r) ∧ run (f a) r = (.ok b, t) := by
  rw [run_bind]
  obtain ⟨result, r⟩ := run u s
  cases result with
  | error e => simp
  | ok a =>
      constructor
      · exact fun h => ⟨a, r, rfl, h⟩
      · rintro ⟨_, _, hfirst, h⟩
        cases hfirst
        exact h

theorem exists_of_isOk {s : σ} (h : (run u s).1.isOk = true) :
    ∃ a t, run u s = (.ok a, t) := by
  obtain ⟨a, ha⟩ := Outcome.exists_of_isOk h
  exact ⟨a, (run u s).2, Prod.ext ha rfl⟩

/-- An operation leaves a part of the state as it is, whether it succeeds or fails. -/
def Leaves (part : σ → γ) (u : Stateful σ α) : Prop :=
  ∀ s, part (run u s).2 = part s

variable {part : σ → γ}

theorem Leaves.pure (a : α) : Leaves part (Pure.pure a : Stateful σ α) := fun _ => rfl

theorem Leaves.lift (o : Outcome α) : Leaves part (liftM o : Stateful σ α) := fun _ => rfl

theorem Leaves.get : Leaves part (MonadState.get : Stateful σ σ) := fun _ => rfl

theorem Leaves.modify {change : σ → σ} (h : ∀ s, part (change s) = part s) :
    Leaves part (modify change : Stateful σ PUnit) := h

/-- What both steps leave as it is, they leave together. -/
theorem Leaves.bind (hu : Leaves part u) (hf : ∀ a, Leaves part (f a)) :
    Leaves part (u >>= f) := by
  intro s
  have hfirst := hu s
  rw [run_bind]
  generalize run u s = first at hfirst
  obtain ⟨result, t⟩ := first
  cases result with
  | error e => exact hfirst
  | ok a => exact (hf a t).trans hfirst

/-- What is made of the result in the end does not matter. -/
theorem Leaves.map (hu : Leaves part u) (g : α → β) :
    Leaves part (u >>= fun a => Pure.pure (g a)) :=
  hu.bind fun _ => .pure _

/-- The part is the same behind an operation that leaves it. -/
theorem Leaves.eq {s t : σ} {result : Outcome α} (hu : Leaves part u)
    (h : run u s = (result, t)) : part t = part s := by
  rw [← hu s, h]

end Stateful

end SemanticMarkup
