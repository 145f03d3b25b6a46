/-!
# Steps that may fail

What is known of a computation that gives a result or fails: whatever it gives is good,
and it only fails for one of some reasons. A step from one state to the next keeps an
invariant if in addition every state that it ends in has it.
-/

namespace SemanticMarkup

variable {ε σ α β : Type} {reason : ε → Prop} {good : α → Prop} {fine : β → Prop}

/-- Whatever there is. -/
abbrev anything (_ : α) : Prop := True

/-- A computation that only gives good results and only fails for some reasons. -/
def Gives (reason : ε → Prop) (good : α → Prop) : Except ε α → Prop
  | .ok a => good a
  | .error e => reason e

namespace Gives

/-- The second computation may count on what is known of the first result. -/
theorem bind {first : Except ε α} {next : α → Except ε β} (hfirst : Gives reason good first)
    (hnext : ∀ a, good a → Gives reason fine (next a)) : Gives reason fine (first >>= next) := by
  cases first with
  | error e => exact hfirst
  | ok a => exact hnext a hfirst

theorem imp {other : ε → Prop} {made : Except ε α} (h : Gives reason good made)
    (himp : ∀ e, reason e → other e) : Gives other good made := by
  cases made with
  | error e => exact himp e h
  | ok a => exact h

theorem mono {better : α → Prop} {made : Except ε α} (h : Gives reason good made)
    (himp : ∀ a, good a → better a) : Gives reason better made := by
  cases made with
  | error e => exact h
  | ok a => exact himp a h

theorem map {made : Except ε α} (h : Gives reason good made) (f : α → β) :
    Gives reason anything (made.map f) := by
  cases made with
  | error e => exact h
  | ok a => exact trivial

theorem of_ok {made : Except ε α} {a : α} (h : Gives reason good made) (ha : made = .ok a) :
    good a := by
  subst ha
  exact h

/-- What a computation gives is its result. -/
theorem eq_ok {made : Except ε α} (h : Gives reason good made) :
    Gives reason (fun a => made = .ok a ∧ good a) made := by
  cases made with
  | error e => exact h
  | ok a => exact ⟨rfl, h⟩

theorem mapM {f : α → Except ε β} {as : List α} (h : ∀ a ∈ as, Gives reason fine (f a)) :
    Gives reason (fun bs => ∀ b ∈ bs, fine b) (as.mapM f) := by
  induction as with
  | nil => exact nofun
  | cons a rest ih =>
      obtain ⟨ha, hrest⟩ := List.forall_mem_cons.mp h
      rw [List.mapM_cons]
      refine ha.bind fun b hb => (ih hrest).bind fun bs hbs => ?_
      exact List.forall_mem_cons.mpr ⟨hb, hbs⟩

end Gives

/-- A step that, in a state with an invariant, ends in such a state with a good result, or fails for
one of some reasons. -/
def Keeps (inv : σ → Prop) (reason : ε → Prop) (good : α → Prop)
    (step : StateT σ (Except ε) α) : Prop :=
  ∀ s, inv s → Gives reason (fun found => inv found.2 ∧ good found.1) (step.run s)

namespace Keeps

variable {inv : σ → Prop}

theorem pure {a : α} (h : good a) :
    Keeps inv reason good (pure a : StateT σ (Except ε) α) :=
  fun _ hs => ⟨hs, h⟩

theorem throw {e : ε} (h : reason e) :
    Keeps inv reason good (throw e : StateT σ (Except ε) α) :=
  fun _ _ => h

theorem get : Keeps inv reason inv (get : StateT σ (Except ε) σ) :=
  fun _ hs => ⟨hs, hs⟩

theorem set {s : σ} (h : inv s) :
    Keeps inv reason anything (set s : StateT σ (Except ε) PUnit) :=
  fun _ _ => ⟨h, trivial⟩

theorem modify {f : σ → σ} (h : ∀ s, inv s → inv (f s)) :
    Keeps inv reason anything (modify f : StateT σ (Except ε) PUnit) :=
  fun s hs => ⟨h s hs, trivial⟩

/-- The second step may count on what is known of the first result. -/
theorem bind {step : StateT σ (Except ε) α} {next : α → StateT σ (Except ε) β}
    (hstep : Keeps inv reason good step) (hnext : ∀ a, good a → Keeps inv reason fine (next a)) :
    Keeps inv reason fine (step >>= next) :=
  fun s hs => (hstep s hs).bind fun found hfound => hnext found.1 hfound.2 found.2 hfound.1

/-- A step whose result does not matter in front of another one. -/
theorem andThen {step : StateT σ (Except ε) α} {next : α → StateT σ (Except ε) β}
    (hstep : Keeps inv reason good step) (hnext : ∀ a, Keeps inv reason fine (next a)) :
    Keeps inv reason fine (step >>= next) :=
  hstep.bind fun a _ => hnext a

theorem ite {c : Prop} [Decidable c] {step other : StateT σ (Except ε) α}
    (hstep : Keeps inv reason good step) (hother : Keeps inv reason good other) :
    Keeps inv reason good (if c then step else other) := by
  split
  · exact hstep
  · exact hother

end Keeps

end SemanticMarkup
