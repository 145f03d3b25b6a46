import SemanticMarkup.Proofs.Yaml.Readers
import SemanticMarkup.Yaml.Token

/-!
# Why a YAML text is refused before its nodes are made

The lexer moves forwards in a text and only refuses it for what the readers of single
tokens refuse. So the refusal in a row of tokens says that the text is no YAML, or
that it holds a number that cannot be made.
-/

namespace SemanticMarkup.Yaml

variable {whole : List Char}

/-- Whether a token stands for a part of a text. A plain scalar does not end with a line break. -/
def Token.IsPart : Token → Prop
  | .refusal _ => False
  | .scalar true codes => codes.getLast? ≠ some 0x0A
  | _ => True

namespace Lexer

/-- A state in which the lexer is at a place of a text and has only read parts of it. -/
structure Inside (whole : List Char) (l : Lexer) : Prop where
  /-- The place. -/
  source : l.source.Inside whole
  /-- The tokens so far. -/
  tokens : ∀ t ∈ l.tokens, t.IsPart

/-- A step that stays inside a text and only refuses it for a number in it. -/
abbrev Goes {α : Type} (whole : List Char) (step : Step α) : Prop :=
  Keeps (Inside whole) (MayRefuse whole) anything step

theorem inside_start (cs : List Char) : Inside cs (start cs) where
  source := by
    cases cs with
    | nil => exact List.suffix_refl []
    | cons c rest =>
        unfold start Source.ofText
        dsimp only
        split
        · exact List.suffix_cons c rest
        · exact List.suffix_refl _
  tokens := fun _ ht => nomatch ht

/-! ## Parts of steps -/

theorem goes_refuse {α : Type} : Goes whole (refuse : Step α) :=
  .throw trivial

theorem goes_get : Keeps (Inside whole) (MayRefuse whole) (Inside whole) (get : Step Lexer) :=
  .get

theorem goes_push {t : Token} (ht : t.IsPart) : Goes whole (push t) := by
  refine .modify fun l hl => ⟨hl.source, fun u hu => ?_⟩
  obtain rfl | hu := List.mem_cons.mp hu
  · exact ht
  · exact hl.tokens u hu

theorem goes_insert (place : Nat) {t : Token} (ht : t.IsPart) : Goes whole (insert place t) := by
  refine .modify fun l hl => ⟨hl.source, fun u hu => ?_⟩
  obtain hu | hu := List.mem_append.mp hu
  · exact hl.tokens u (List.mem_of_mem_take hu)
  · obtain rfl | hu := List.mem_cons.mp hu
    · exact ht
    · exact hl.tokens u (List.mem_of_mem_drop hu)

theorem goes_moveTo {s : Source} (hs : s.Inside whole) : Goes whole (moveTo s) :=
  .modify fun _ hl => ⟨hs, hl.tokens⟩

theorem goes_skip (count : Nat) : Goes whole (skip count) :=
  .modify fun _ hl => ⟨hl.source.skip count, hl.tokens⟩

theorem goes_setAllowKey (allowed : Bool) : Goes whole (setAllowKey allowed) :=
  .modify fun _ hl => ⟨hl.source, hl.tokens⟩

theorem keeps_take {α : Type} {good : α → Prop} {read : Source → Except Refusal (α × Source)}
    (hread : ∀ s, s.Inside whole → Ends whole good (read s)) :
    Keeps (Inside whole) (MayRefuse whole) good (take read) := by
  refine goes_get.bind fun l hl => ?_
  have h := hread l.source hl.source
  split
  · rename_i heq
    rw [heq] at h
    exact (goes_moveTo h.1).andThen fun _ => .pure h.2
  · rename_i heq
    rw [heq] at h
    exact .throw h

theorem goes_skipGap (fuel : Nat) : Goes whole (skipGap fuel) := by
  induction fuel with
  | zero => exact .pure trivial
  | succ fuel ih =>
      refine goes_get.bind fun l hl => ?_
      have hcomment := (hl.source.skipWhile (· == ' ')).skipComment
      have hbreak := hcomment.takeBreak
      dsimp only
      split
      · exact goes_moveTo hcomment
      · rename_i heq
        rw [heq] at hbreak
        exact Keeps.andThen (.set ⟨hbreak, hl.tokens⟩) fun _ => ih

theorem goes_dropStaleKeys : Goes whole dropStaleKeys := by
  refine goes_get.bind fun l hl => ?_
  exact .ite goes_refuse (.set ⟨hl.source, hl.tokens⟩)

theorem goes_dropKey : Goes whole dropKey := by
  refine goes_get.bind fun l hl => ?_
  exact .ite goes_refuse (.set ⟨hl.source, hl.tokens⟩)

theorem goes_saveKey : Goes whole saveKey := by
  refine goes_get.andThen fun l => .ite ?_ (.pure trivial)
  exact goes_dropKey.andThen fun _ => .modify fun l hl => ⟨hl.source, hl.tokens⟩

theorem goes_closeUntil (keeps : Nat → Bool) : Goes whole (closeUntil keeps) := by
  refine goes_get.bind fun l hl => .ite ?_ (.pure trivial)
  refine .set ⟨hl.source, fun t ht => ?_⟩
  obtain ht | ht := List.mem_append.mp ht
  · obtain ⟨_, -, rfl⟩ := List.mem_map.mp ht
    exact trivial
  · exact hl.tokens t ht

theorem goes_openHere {t : Token} (ht : t.IsPart) : Goes whole (openHere t) := by
  refine goes_get.andThen fun l => .ite ?_ (.pure trivial)
  exact Keeps.andThen (.modify fun l hl => ⟨hl.source, hl.tokens⟩) fun _ => goes_push ht

/-! ## Tokens -/

theorem goes_readFinish : Goes whole readFinish :=
  (goes_closeUntil _).andThen fun _ => goes_dropKey.andThen fun _ => goes_push trivial

theorem goes_readDirectiveToken : Goes whole readDirectiveToken := by
  refine (goes_closeUntil _).andThen fun _ => ?_
  refine goes_dropKey.andThen fun _ => ?_
  refine (goes_setAllowKey _).andThen fun _ => ?_
  exact (keeps_take fun s hs => ends_readDirective hs).andThen fun d => goes_push trivial

theorem goes_readMark {t : Token} (ht : t.IsPart) : Goes whole (readMark t) := by
  refine (goes_closeUntil _).andThen fun _ => ?_
  refine goes_dropKey.andThen fun _ => ?_
  refine (goes_setAllowKey _).andThen fun _ => ?_
  exact (goes_skip 3).andThen fun _ => goes_push ht

theorem goes_readOpening {t : Token} (ht : t.IsPart) : Goes whole (readOpening t) := by
  refine goes_saveKey.andThen fun _ => ?_
  refine Keeps.andThen (.modify fun l hl => ⟨hl.source, hl.tokens⟩) fun _ => ?_
  exact (goes_skip 1).andThen fun _ => goes_push ht

theorem goes_readClosing {t : Token} (ht : t.IsPart) : Goes whole (readClosing t) := by
  refine goes_get.andThen fun l => .ite goes_refuse ?_
  refine goes_dropKey.andThen fun _ => ?_
  refine Keeps.andThen (.modify fun l hl => ⟨hl.source, hl.tokens⟩) fun _ => ?_
  exact (goes_skip 1).andThen fun _ => goes_push ht

theorem goes_readFlowEntry : Goes whole readFlowEntry := by
  refine goes_dropKey.andThen fun _ => ?_
  refine (goes_setAllowKey _).andThen fun _ => ?_
  exact (goes_skip 1).andThen fun _ => goes_push trivial

theorem goes_readBlockEntry : Goes whole readBlockEntry := by
  have hend : Goes whole (do
      setAllowKey true
      dropKey
      skip 1
      push .blockEntry) := by
    refine (goes_setAllowKey _).andThen fun _ => ?_
    refine goes_dropKey.andThen fun _ => ?_
    exact (goes_skip 1).andThen fun _ => goes_push trivial
  refine goes_get.andThen fun l => .ite (.ite ?_ ?_) hend
  · exact (goes_openHere (t := .blockSequence) trivial).andThen fun _ => hend
  · exact goes_refuse.andThen fun _ => hend

theorem goes_readKey : Goes whole readKey := by
  have hend (allowed : Bool) : Goes whole (do
      setAllowKey allowed
      dropKey
      skip 1
      push .key) := by
    refine (goes_setAllowKey _).andThen fun _ => ?_
    refine goes_dropKey.andThen fun _ => ?_
    exact (goes_skip 1).andThen fun _ => goes_push trivial
  refine goes_get.andThen fun l => .ite (.ite ?_ ?_) (hend _)
  · exact (goes_openHere (t := .blockMapping) trivial).andThen fun _ => hend _
  · exact goes_refuse.andThen fun _ => hend _

/-- With a token for its key in front of it, or without one. -/
theorem goes_readValue : Goes whole readValue := by
  have hend : Goes whole (do
      skip 1
      push .value) :=
    (goes_skip 1).andThen fun _ => goes_push trivial
  have hkeyed : Goes whole (do
      setAllowKey false
      skip 1
      push .value) :=
    (goes_setAllowKey _).andThen fun _ => hend
  have hbare (allowed : Bool) : Goes whole (do
      setAllowKey allowed
      dropKey
      skip 1
      push .value) :=
    (goes_setAllowKey _).andThen fun _ => goes_dropKey.andThen fun _ => hend
  refine goes_get.bind fun l hl => ?_
  dsimp only
  split
  · refine Keeps.andThen (.set ⟨hl.source, hl.tokens⟩) fun _ => ?_
    refine (goes_insert _ (t := .key) trivial).andThen fun _ => .ite ?_ hkeyed
    refine Keeps.andThen (.modify fun l hl => ⟨hl.source, hl.tokens⟩) fun _ => ?_
    exact (goes_insert _ (t := .blockMapping) trivial).andThen fun _ => hkeyed
  · refine .ite (.ite ?_ ?_) (hbare _)
    · exact (goes_openHere (t := .blockMapping) trivial).andThen fun _ => hbare _
    · exact goes_refuse.andThen fun _ => hbare _

theorem goes_readNodeStart {read : Source → Except Refusal (Token × Source)}
    (hread : ∀ s, s.Inside whole → Ends whole Token.IsPart (read s)) :
    Goes whole (readNodeStart read) := by
  refine goes_saveKey.andThen fun _ => ?_
  refine (goes_setAllowKey _).andThen fun _ => ?_
  exact (keeps_take hread).bind fun t ht => goes_push ht

theorem goes_readBlockScalar (fold : Bool) : Goes whole (readBlockScalar fold) := by
  refine (goes_setAllowKey _).andThen fun _ => ?_
  refine goes_dropKey.andThen fun _ => ?_
  refine (goes_skip 1).andThen fun _ => ?_
  refine goes_get.andThen fun l => ?_
  exact (keeps_take fun s hs => ends_readBlock fold _ hs).andThen fun codes => goes_push trivial

theorem goes_readPlainScalar : Goes whole readPlainScalar := by
  refine goes_saveKey.andThen fun _ => ?_
  refine goes_get.bind fun l hl => ?_
  refine (goes_setAllowKey _).andThen fun _ => ?_
  refine (goes_moveTo (inside_readPlain _ _ _ hl.source)).andThen fun _ => ?_
  exact goes_push (getLast_readPlain _ _ _ _)

/-- One case for each way in which a token starts. -/
theorem goes_readToken (c : Char) : Goes whole (readToken c) := by
  have hname (make : String → Token) (hmake : ∀ name, (make name).IsPart) (s : Source)
      (hs : s.Inside whole) : Ends whole Token.IsPart
        (readAnchor s.next >>= fun name => pure (make name.1, name.2)) :=
    Ends.bind (ends_readAnchor hs.next) fun name after hafter _ => .ok hafter (hmake name)
  refine goes_get.andThen fun l => ?_
  refine .ite goes_readDirectiveToken ?_
  refine .ite (goes_readMark trivial) ?_
  refine .ite (goes_readMark trivial) ?_
  refine .ite (goes_readOpening trivial) ?_
  refine .ite (goes_readOpening trivial) ?_
  refine .ite (goes_readClosing trivial) ?_
  refine .ite (goes_readClosing trivial) ?_
  refine .ite goes_readFlowEntry ?_
  refine .ite goes_readBlockEntry ?_
  refine .ite goes_readKey ?_
  refine .ite goes_readValue ?_
  refine .ite (goes_readNodeStart (hname .alias fun _ => trivial)) ?_
  refine .ite (goes_readNodeStart (hname .anchor fun _ => trivial)) ?_
  refine .ite (goes_readNodeStart fun s hs => ?_) (.ite (goes_readBlockScalar false) ?_)
  · exact Ends.bind (ends_readTag hs) fun t after hafter _ => .ok hafter trivial
  refine .ite (goes_readBlockScalar true) ?_
  refine .ite (goes_readNodeStart fun s hs => ?_) (.ite goes_readPlainScalar goes_refuse)
  exact Ends.bind (ends_readQuoted _ _ hs.next) fun codes after hafter _ => .ok hafter trivial

theorem goes_step : Goes whole step := by
  refine goes_get.andThen fun l => ?_
  refine (goes_skipGap _).andThen fun _ => ?_
  refine goes_dropStaleKeys.andThen fun _ => ?_
  refine goes_get.andThen fun l => ?_
  refine (goes_closeUntil _).andThen fun _ => ?_
  refine goes_get.andThen fun l => ?_
  split
  · exact goes_readFinish.andThen fun _ => .pure trivial
  · exact (goes_readToken _).andThen fun _ => .pure trivial

/-! ## Rows of tokens -/

/-- A whole run, by induction on the number of steps: the tokens are parts of the text, and only a
step that fails adds a refusal, whose reason is in the text. -/
theorem mem_run {l : Lexer} (hl : Inside whole l) {fuel : Nat} {t : Token} (h : t ∈ run fuel l) :
    t.IsPart ∨ ∃ r, t = .refusal r ∧ MayRefuse whole r := by
  induction fuel generalizing l with
  | zero => exact .inl (hl.tokens t h)
  | succ fuel ih =>
      have hstep := goes_step l hl
      unfold run at h
      split at h
      · rename_i heq
        rw [heq] at hstep
        exact ih hstep.1 h
      · rename_i heq
        rw [heq] at hstep
        exact .inl (hstep.1.tokens t h)
      · rename_i heq
        rw [heq] at hstep
        obtain rfl | h := List.mem_cons.mp h
        · exact .inr ⟨_, rfl, hstep⟩
        · exact .inl (hl.tokens t (List.mem_of_mem_drop h))

end Lexer

/-- The tokens of a text are parts of it, and refusals that it is a reason for. -/
theorem mem_tokens {cs : List Char} {t : Token} (h : t ∈ tokens cs) :
    t.IsPart ∨ ∃ r, t = .refusal r ∧ MayRefuse cs r := by
  unfold tokens at h
  split at h
  · exact Lexer.mem_run (Lexer.inside_start cs) (List.mem_reverse.mp h)
  · exact .inr ⟨.malformed, List.mem_singleton.mp h, trivial⟩

/-- A refusal in the tokens of a text that is not merely that it is no YAML comes from a number
in the text. -/
theorem unwritable_of_mem_tokens {cs : List Char} {f : Fault}
    (h : Token.refusal (.fault f) ∈ tokens cs) : Unwritable cs f := by
  obtain hpart | ⟨r, hr, hreason⟩ := mem_tokens h
  · exact hpart.elim
  · cases hr
    exact hreason

/-- Behind a plain scalar a line break does not belong to it. -/
theorem getLast_of_mem_tokens {cs : List Char} {codes : List Nat}
    (h : Token.scalar true codes ∈ tokens cs) : codes.getLast? ≠ some 0x0A := by
  obtain hpart | ⟨r, hr, -⟩ := mem_tokens h
  · exact hpart
  · cases hr

end SemanticMarkup.Yaml
