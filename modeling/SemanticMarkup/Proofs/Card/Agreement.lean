import SemanticMarkup.Card.Build

/-!
# Agreement of two runs

Two runs agree if they make the same calls and lead to related results, or to
failures that are the same but for the number of the entry that they tell. The
lemmas carry agreement through the steps that cards are built in, so a statement
about two runs is proved step by step like one about a single run.

## Implementation notes

A message tells the place of an entry once for every field that breaks a rule.
So two messages are compared as rows of the same texts, with one place between
neighbours in the first message and the other place in the second.
-/

namespace SemanticMarkup

/-- The error with another place in it, if it tells one. -/
def ConfigError.atPlace (place : String) : ConfigError → ConfigError
  | .forbiddenField _ field => .forbiddenField place field
  | .engineOfPlain _ => .engineOfPlain place
  | .noValue _ => .noValue place
  | .brokenRules _ faults => .brokenRules place faults
  | e => e

/-- Two failures are the same but for the number of the entry that they tell. -/
inductive Failure.SameUpToIndex : Failure → Failure → Prop
  /-- The same failure. -/
  | same (e : Failure) : SameUpToIndex e e
  /-- The same error at two places. -/
  | moved (e : ConfigError) (i j : Nat) :
      SameUpToIndex (.config (e.atPlace (Card.placeName i)))
        (.config (e.atPlace (Card.placeName j)))

/-- A row of texts that each begin with a place is a row of texts with the place between. -/
theorem exists_pieces_of_row (start : String) (texts : List String) :
    ∃ pieces, pieces ≠ [] ∧ ∀ place : String,
      start ++ "; ".intercalate (texts.map fun t => place ++ t) = place.intercalate pieces := by
  induction texts generalizing start with
  | nil =>
      refine ⟨[start], List.cons_ne_nil _ _, fun place => ?_⟩
      rw [String.intercalate_singleton]
      exact String.append_empty
  | cons t rest ih =>
      by_cases hr : rest = []
      · subst hr
        refine ⟨[start, t], List.cons_ne_nil _ _, fun place => ?_⟩
        rw [List.map_singleton, String.intercalate_singleton, String.intercalate_cons_cons,
          String.intercalate_singleton, String.append_assoc]
      · obtain ⟨pieces, hne, hpieces⟩ := ih (t ++ "; ")
        refine ⟨start :: pieces, List.cons_ne_nil _ _, fun place => ?_⟩
        rw [List.map_cons, String.intercalate_cons_of_ne_nil (mt List.map_eq_nil_iff.mp hr),
          String.intercalate_cons_of_ne_nil hne, ← hpieces place]
        simp only [String.append_assoc]

/-- A place with a text behind it. -/
theorem append_eq_joined (place text : String) : place ++ text = place.intercalate ["", text] := by
  rw [String.intercalate_cons_cons, String.intercalate_singleton, String.empty_append]

/-- The message of an error tells its place between texts that do not depend on it. -/
theorem ConfigError.exists_pieces (e : ConfigError) :
    ∃ pieces, ∀ place : String, place ≠ "" →
      (e.atPlace place).message = place.intercalate pieces := by
  cases e with
  | forbiddenField _ field =>
      refine ⟨_, fun place _ => Eq.trans ?_ (append_eq_joined place
        (": \"" ++ (field ++ "\" must not be specified for embedded microformats")))⟩
      have hmessage : (ConfigError.forbiddenField place field).message =
          place ++ ": \"" ++ field ++ "\" must not be specified for embedded microformats" := rfl
      rw [atPlace, hmessage, String.append_assoc, String.append_assoc]
  | engineOfPlain _ => exact ⟨_, fun place _ => append_eq_joined place _⟩
  | noValue _ =>
      refine ⟨_, fun place _ => Eq.trans ?_ (append_eq_joined place
        (": cannot determine value to display; the attribute configuration "
          ++ "requires the \"attribute\", \"property\" or \"value\" element"))⟩
      exact String.append_assoc
  | brokenRules _ faults =>
      obtain ⟨pieces, -, hpieces⟩ := exists_pieces_of_row "Invalid attribute specification: "
        (faults.map fun f => "." ++ (f.1 ++ (": " ++ f.2.message)))
      refine ⟨pieces, fun place hplace => Eq.trans ?_ (hpieces place)⟩
      rw [List.map_map]
      refine congrArg (fun texts => _ ++ "; ".intercalate texts) (List.map_congr_left fun f _ => ?_)
      simp only [placed, if_neg hplace, Function.comp_apply, String.append_assoc]
  | _ => exact ⟨[_], fun place _ => String.intercalate_singleton.symm⟩

theorem Card.placeName_ne_empty (index : Nat) : Card.placeName index ≠ "" := by
  intro h
  have hlist := congrArg String.toList h
  rw [placeName, String.toList_append, String.toList_append] at hlist
  cases hlist

/-- The messages of two failures are the same texts, with the place of an entry between them. -/
theorem Failure.SameUpToIndex.exists_pieces {e e' : Failure} (h : e.SameUpToIndex e') :
    ∃ (pieces : Option (List String)) (i j : Nat),
      e.message? = pieces.map (String.intercalate (Card.placeName i)) ∧
        e'.message? = pieces.map (String.intercalate (Card.placeName j)) := by
  cases h with
  | same =>
      refine ⟨e.message?.map fun message => [message], 0, 0, ?_, ?_⟩
      all_goals
        rw [Option.map_map]
        cases e.message? with
        | none => rfl
        | some message => exact congrArg some String.intercalate_singleton.symm
  | moved error i j =>
      obtain ⟨pieces, hpieces⟩ := error.exists_pieces
      exact ⟨some pieces, i, j, congrArg some (hpieces _ (Card.placeName_ne_empty i)),
        congrArg some (hpieces _ (Card.placeName_ne_empty j))⟩

/-- Two outcomes agree: related results, or failures that are the same up to the index. -/
inductive Outcome.Agree {α β : Type} (R : α → β → Prop) : Outcome α → Outcome β → Prop
  /-- Both succeed. -/
  | ok {a b} (h : R a b) : Agree R (.ok a) (.ok b)
  /-- Both fail. -/
  | error {e e'} (h : e.SameUpToIndex e') : Agree R (.error e) (.error e')

namespace Outcome.Agree

variable {α β γ δ : Type} {R : α → β → Prop} {S : γ → δ → Prop}

theorem refl (o : Outcome α) : Agree Eq o o := by
  cases o with
  | ok a => exact .ok rfl
  | error e => exact .error (.same e)

theorem mono {T : α → β → Prop} {x : Outcome α} {y : Outcome β} (h : Agree R x y)
    (hsub : ∀ a b, R a b → T a b) : Agree T x y := by
  cases h with
  | ok h => exact .ok (hsub _ _ h)
  | error h => exact .error h

/-- Outcomes that agree succeed with the same result. -/
theorem eq_ok_iff {x y : Outcome α} (h : Agree Eq x y) (a : α) : x = .ok a ↔ y = .ok a := by
  cases h with
  | ok h => rw [h]
  | error h => simp

/-- If the first of two outcomes that agree fails, so does the second. -/
theorem exists_eq_error {x : Outcome α} {y : Outcome β} (h : Agree R x y) {e : Failure}
    (he : x = .error e) : ∃ e', y = .error e' ∧ e.SameUpToIndex e' := by
  cases h with
  | ok h => cases he
  | error h =>
      cases he
      exact ⟨_, rfl, h⟩

/-- Agreement is kept by steps that agree on related results. -/
theorem bind {x : Outcome α} {y : Outcome β} {f : α → Outcome γ} {g : β → Outcome δ}
    (h : Agree R x y) (hnext : ∀ a b, R a b → Agree S (f a) (g b)) :
    Agree S (x >>= f) (y >>= g) := by
  cases h with
  | ok h => exact hnext _ _ h
  | error h => exact .error h

/-- Agreement is kept by steps behind the same result. -/
theorem bind_eq {x : Outcome α} {f : α → Outcome γ} {g : α → Outcome δ}
    (hnext : ∀ a, Agree S (f a) (g a)) : Agree S (x >>= f) (x >>= g) :=
  (refl x).bind fun a _ h => h ▸ hnext a

/-- The same error at two places. -/
theorem configError_atPlace (e : ConfigError) (i j : Nat) :
    Agree R (configError (e.atPlace (Card.placeName i)))
      (configError (e.atPlace (Card.placeName j))) :=
  .error (.moved e i j)

end Outcome.Agree

/-- Two runs agree: the same calls, and outcomes that agree. -/
structure Traced.Agree {α β : Type} (R : α → β → Prop) (t : Traced α) (u : Traced β) : Prop where
  outcome : Outcome.Agree R t.outcome u.outcome
  calls : t.calls = u.calls

namespace Traced.Agree

variable {α β γ δ : Type} {R : α → β → Prop} {S : γ → δ → Prop}

theorem refl (t : Traced α) : Agree Eq t t :=
  ⟨.refl t.outcome, rfl⟩

theorem lift {x : Outcome α} {y : Outcome β} (h : Outcome.Agree R x y) :
    Agree R (liftM x : Traced α) (liftM y : Traced β) :=
  ⟨h, rfl⟩

theorem pure {a : α} {b : β} (h : R a b) :
    Agree R (Pure.pure a : Traced α) (Pure.pure b : Traced β) :=
  ⟨.ok h, rfl⟩

/-- Agreement is kept by steps that agree on related results; the calls add up on both sides. -/
theorem bind {t : Traced α} {u : Traced β} {f : α → Traced γ} {g : β → Traced δ}
    (h : Agree R t u) (hnext : ∀ a b, R a b → Agree S (f a) (g b)) :
    Agree S (t >>= f) (u >>= g) := by
  obtain ⟨x, calls⟩ := t
  obtain ⟨y, others⟩ := u
  obtain ⟨houtcome, rfl⟩ := h
  cases houtcome with
  | @ok a b h =>
      obtain ⟨hboth, hcalls⟩ := hnext a b h
      exact ⟨hboth, congrArg (calls ++ ·) hcalls⟩
  | error h => exact ⟨.error h, rfl⟩

/-- Agreement is kept by a plain step of the second run alone. -/
theorem map_right {T : α → δ → Prop} {t : Traced α} {u : Traced β} {g : β → δ} (h : Agree R t u)
    (hstep : ∀ a b, R a b → T a (g b)) :
    Agree T t (u >>= fun b => Pure.pure (g b)) := by
  obtain ⟨x, calls⟩ := t
  obtain ⟨y, others⟩ := u
  obtain ⟨houtcome, rfl⟩ := h
  cases houtcome with
  | ok h => exact ⟨.ok (hstep _ _ h), (List.append_nil calls).symm⟩
  | error h => exact ⟨.error h, rfl⟩

end Traced.Agree

/-- An entry breaks the same rules at every place. -/
theorem Rules.agree_check (entries : Entries) (i j : Nat) :
    Outcome.Agree Eq (check entries (Card.placeName i)) (check entries (Card.placeName j)) := by
  refine .bind_eq fun broken => ?_
  by_cases h : broken.isEmpty = true
  · rw [if_pos h, if_pos h]
    exact .ok rfl
  · rw [if_neg h, if_neg h]
    exact .bind_eq fun named => .configError_atPlace (.brokenRules "" named) i j

namespace Card

/-- The label and the value of an entry do not depend on its place. -/
theorem agree_labelAndValue (model : Value) (entries : Entries) (name : Option String) (i j : Nat) :
    Outcome.Agree Eq (labelAndValue model entries name (placeName i))
      (labelAndValue model entries name (placeName j)) := by
  cases name with
  | some name => exact .refl _
  | none =>
      rw [labelAndValue, labelAndValue]
      by_cases h : (entries.valueOf "value").isNull = true
      · rw [if_pos h, if_pos h]
        exact .configError_atPlace (.noValue "") i j
      · rw [if_neg h, if_neg h]
        exact .refl _

/-- The record of a plain entry does not depend on its place. -/
theorem agree_fillPlain (settings : Settings) (model : Value) (entries : Entries) (i j : Nat) :
    Outcome.Agree Eq (fillPlain settings model entries (placeName i))
      (fillPlain settings model entries (placeName j)) := by
  rw [fillPlain, fillPlain]
  by_cases h : (!(entries.valueOf "class").isNull) = true
  · rw [if_pos h, if_pos h]
    exact .configError_atPlace (.engineOfPlain "") i j
  · rw [if_neg h, if_neg h]
    refine (Rules.agree_check entries i j).bind fun _ _ _ => .bind_eq fun name => ?_
    refine (agree_labelAndValue model entries name i j).bind fun shown _ hshown => ?_
    subst hshown
    exact .refl _

end Card

end SemanticMarkup
