import SemanticMarkup.Proofs.Steps
import SemanticMarkup.Yaml.Property
import SemanticMarkup.Yaml.Scalar

/-!
# Where a YAML text holds a number that cannot be made

The readers of anchors, tags, directives and scalars only move forwards in a text.
Most of what they refuse is no YAML. Only two of them make a number that may be too
great: an escape by eight hexadecimal digits, and the version in a directive. Where
one of them fails, such digits are written in the text.
-/

namespace SemanticMarkup.Yaml

open SemanticMarkup.Number

variable {α β : Type} {whole : List Char} {s : Source} {good : α → Prop} {fine : β → Prop}

/-- The faults of the numbers that a text writes in escapes and versions. -/
inductive Unwritable (whole : List Char) : Fault → Prop where
  /-- An escape stands for no code point. -/
  | escape {digits : List Char} {n : Nat} {f : Fault}
      (hwritten : '\x5c' :: 'U' :: digits <:+: whole)
      (hlength : digits.length = 8) (hnumber : hexNumber? digits = some n)
      (hcode : codePoint n = .error (.fault f)) : Unwritable whole f
  /-- A version has a number that is too long. -/
  | version (hlong : HasLongRow whole) : Unwritable whole .wrongValue

/-- Why a text may be refused. -/
def MayRefuse (whole : List Char) : Refusal → Prop
  | .malformed => True
  | .fault f => Unwritable whole f

/-- A place in a text. -/
def Source.Inside (whole : List Char) (s : Source) : Prop :=
  s.rest <:+ whole

/-- The place behind the next character is that behind it alone. -/
theorem Source.rest_next (s : Source) : s.next.rest = s.rest.tail := by
  unfold Source.next
  split
  · rename_i hnil
    rw [hnil]
    rfl
  · rename_i hcons
    rw [hcons]
    dsimp only
    split <;> rfl

namespace Source.Inside

theorem next (h : s.Inside whole) : s.next.Inside whole := by
  rw [Source.Inside, Source.rest_next]
  exact (List.tail_suffix s.rest).trans h

theorem skip (h : s.Inside whole) (count : Nat) : (s.skip count).Inside whole := by
  induction count generalizing s with
  | zero => exact h
  | succ count ih => exact ih h.next

theorem span (h : s.Inside whole) (kind : Char → Bool) : (s.span kind).2.Inside whole :=
  h.skip _

theorem skipWhile (h : s.Inside whole) (kind : Char → Bool) : (s.skipWhile kind).Inside whole :=
  h.span kind

theorem takeBreak (h : s.Inside whole) : s.takeBreak.2.Inside whole := by
  unfold Source.takeBreak
  split
  · exact h.skip 2
  · split
    · exact h.next
    · exact h
  · exact h

/-- The place behind a comment. -/
theorem skipComment (h : s.Inside whole) :
    (if s.startsWith '#' then s.skipWhile (!isBreak ·) else s).Inside whole := by
  split
  · exact h.skipWhile _
  · exact h

/-- The row that a reader takes is written in the text. -/
theorem span_within (h : s.Inside whole) (kind : Char → Bool) : (s.span kind).1 <:+: whole :=
  (List.takeWhile_prefix kind).isInfix.trans h.isInfix

end Source.Inside

/-- A reader inside a text that ends at a place of the text, with a good result, or refuses the text
for a reason in it. -/
abbrev Ends (whole : List Char) (good : α → Prop) (r : Except Refusal (α × Source)) : Prop :=
  Gives (MayRefuse whole) (fun found => found.2.Inside whole ∧ good found.1) r

namespace Ends

theorem ok {a : α} (h : s.Inside whole) (ha : good a) : Ends whole good (.ok (a, s)) := ⟨h, ha⟩

theorem place {a : α} (h : s.Inside whole) : Ends whole anything (.ok (a, s)) := ⟨h, trivial⟩

theorem malformed : Ends whole good (Yaml.malformed : Except Refusal (α × Source)) := trivial

/-- A reader behind another one starts where that one has ended. -/
theorem bind {r : Except Refusal (α × Source)} {f : α × Source → Except Refusal (β × Source)}
    (hr : Ends whole good r) (hf : ∀ a s, s.Inside whole → good a → Ends whole fine (f (a, s))) :
    Ends whole fine (r >>= f) :=
  Gives.bind hr fun found hfound => hf found.1 found.2 hfound.1 hfound.2

end Ends

theorem Source.Inside.endLine {read : α} (h : s.Inside whole) :
    Ends whole anything (s.endLine read) := by
  have hend := (h.skipWhile (· == ' ')).skipComment
  unfold Source.endLine
  dsimp only
  generalize (if (s.skipWhile (· == ' ')).startsWith '#' = true
    then (s.skipWhile (· == ' ')).skipWhile (!isBreak ·) else s.skipWhile (· == ' ')) = stop
    at hend ⊢
  split
  · exact .place hend.takeBreak
  · exact .malformed

/-! ## Anchors and tags -/

theorem ends_readAnchor (h : s.Inside whole) : Ends whole anything (readAnchor s) := by
  unfold readAnchor
  dsimp only
  split
  · exact .malformed
  · split
    · exact .place (h.span _)
    · exact .malformed

theorem ends_uriBytes (fuel : Nat) (h : s.Inside whole) :
    Ends whole anything (uriBytes fuel s) := by
  induction fuel generalizing s with
  | zero => exact .place h
  | succ fuel ih =>
      unfold uriBytes
      split
      · split
        · exact Ends.bind (ih (h.skip 3)) fun bytes after hafter _ => .place hafter
        · exact .malformed
      · exact .malformed
      · exact .place h

theorem ends_uriChars (fuel : Nat) (h : s.Inside whole) :
    Ends whole anything (uriChars fuel s) := by
  induction fuel generalizing s with
  | zero => exact .place h
  | succ fuel ih =>
      unfold uriChars
      refine Ends.bind (ends_uriBytes fuel (h.span isUriChar)) fun bytes after hafter _ => ?_
      dsimp only
      split
      · exact .place (h.span _)
      · split
        · exact .malformed
        · exact Ends.bind (ih hafter) fun others after hafter _ => .place hafter

theorem ends_readUri (h : s.Inside whole) : Ends whole anything (readUri s) := by
  unfold readUri
  refine Ends.bind (ends_uriChars _ h) fun cs after hafter _ => ?_
  dsimp only
  split
  · exact .malformed
  · exact .place hafter

theorem ends_readHandle (h : s.Inside whole) : Ends whole anything (readHandle s) := by
  unfold readHandle
  dsimp only
  split
  · exact .malformed
  · split
    · exact .place h.next
    · split
      · exact .place (h.next.span _).next
      · exact .malformed

theorem ends_readTag (h : s.Inside whole) : Ends whole anything (readTag s) := by
  have hend (t : WrittenTag) {after : Source} (hafter : after.Inside whole) : Ends whole anything
      (if endsName after.peek = true then pure (t, after) else Yaml.malformed) := by
    split
    · exact .place hafter
    · exact .malformed
  unfold readTag
  dsimp only
  split
  · refine Ends.bind (ends_readUri h.next.next) fun name after hafter _ => ?_
    dsimp only
    split
    · exact Ends.bind (.place hafter.next) fun t after hafter _ => hend t hafter
    · exact .malformed
  · split
    · exact Ends.bind (.place h.next) fun t after hafter _ => hend t hafter
    · split
      · refine Ends.bind (ends_readHandle h) fun handle start hstart _ => ?_
        refine Ends.bind (ends_readUri hstart) fun suffix after hafter _ => ?_
        exact Ends.bind (.place hafter) fun t after hafter _ => hend t hafter
      · refine Ends.bind (.place h.next) fun handle start hstart _ => ?_
        refine Ends.bind (ends_readUri hstart) fun suffix after hafter _ => ?_
        exact Ends.bind (.place hafter) fun t after hafter _ => hend t hafter

/-! ## Directives -/

theorem ends_readCount (h : s.Inside whole) : Ends whole anything (readCount s) := by
  unfold readCount
  dsimp only
  split
  · exact .malformed
  · split
    · exact .version ⟨_, h.span_within Char.isDigit, List.all_takeWhile, ‹_›⟩
    · exact .place (h.span _)

theorem ends_readVersion (h : s.Inside whole) : Ends whole anything (readVersion s) := by
  unfold readVersion
  refine Ends.bind (ends_readCount (h.skipWhile _)) fun major after hafter _ => ?_
  dsimp only
  split
  · exact .malformed
  · refine Ends.bind (ends_readCount hafter.next) fun minor after hafter _ => ?_
    dsimp only
    split
    · exact .place hafter
    · exact .malformed

theorem ends_readHandleStart (h : s.Inside whole) : Ends whole anything (readHandleStart s) := by
  unfold readHandleStart
  refine Ends.bind (ends_readHandle (h.skipWhile _)) fun name after hafter _ => ?_
  dsimp only
  split
  · exact .malformed
  · refine Ends.bind (ends_readUri (hafter.skipWhile _)) fun start after hafter _ => ?_
    dsimp only
    split
    · exact .place hafter
    · exact .malformed

theorem ends_readDirective (h : s.Inside whole) : Ends whole anything (readDirective s) := by
  have hname := h.next.span isNameChar
  unfold readDirective
  dsimp only
  split
  · exact .malformed
  · split
    · exact Ends.bind (ends_readVersion hname) fun d behind hbehind _ => hbehind.endLine
    · split
      · exact Ends.bind (ends_readHandleStart hname) fun d behind hbehind _ => hbehind.endLine
      · exact Ends.bind (.place (hname.skipWhile _)) fun d behind hbehind _ => hbehind.endLine

/-! ## Quoted scalars -/

theorem ends_quotedBreaks (fuel : Nat) (h : s.Inside whole) :
    Ends whole anything (quotedBreaks fuel s) := by
  induction fuel generalizing s with
  | zero => exact .place h
  | succ fuel ih =>
      unfold quotedBreaks
      split
      · exact .malformed
      · have hbreak := (h.skipWhile isGap).takeBreak
        dsimp only
        split
        · exact .place (h.skipWhile isGap)
        · rename_i heq
          rw [heq] at hbreak
          exact Ends.bind (ih hbreak) fun breaks after hafter _ => .place hafter

/-- The digits of the number that an escape stands for are written behind its letter. -/
theorem digits_within {c : Char} (h : '\x5c' :: s.rest <:+ whole) (hpeek : s.peek = some c)
    (width : Nat) : '\x5c' :: c :: s.next.rest.take width <:+: whole := by
  obtain ⟨rest, hrest⟩ := List.head?_eq_some_iff.mp hpeek
  rw [s.rest_next, hrest]
  rw [hrest] at h
  exact (List.take_prefix (width + 2) ('\x5c' :: c :: rest)).isInfix.trans h.isInfix

theorem hexDigit_lt {c : Char} {d : Nat} (h : Text.hexDigit? c = some d) : d < 16 := by
  unfold Text.hexDigit? at h
  split at h
  · rename_i hdigit
    simp only [Char.isDigit, Bool.and_eq_true, decide_eq_true_eq] at hdigit
    have hc : c.toNat ≤ 57 := hdigit.2
    have hd := Option.some.inj h
    omega
  · split at h
    · rename_i hletter
      have hc : c.toNat ≤ 102 := hletter.2
      have hd := Option.some.inj h
      omega
    · split at h
      · rename_i hletter
        have hc : c.toNat ≤ 70 := hletter.2
        have hd := Option.some.inj h
        omega
      · cases h

/-- A number of few digits is small, whatever was read before them. -/
theorem foldlM_hexDigit_lt {digits : List Char} {start n : Nat}
    (h : digits.foldlM (fun n c => (Text.hexDigit? c).map (16 * n + ·)) start = some n) :
    n < (start + 1) * Nat.pow 16 digits.length := by
  induction digits generalizing start with
  | nil =>
      rw [← Option.some.inj h]
      exact Nat.lt_of_lt_of_eq start.lt_succ_self (Nat.mul_one _).symm
  | cons c rest ih =>
      rw [List.foldlM_cons] at h
      obtain ⟨next, hnext, hrest⟩ := Option.bind_eq_some_iff.mp h
      obtain ⟨d, hd, rfl⟩ := Option.map_eq_some_iff.mp hnext
      have hlt := hexDigit_lt hd
      calc n < (16 * start + d + 1) * Nat.pow 16 rest.length := ih hrest
        _ ≤ (start + 1) * 16 * Nat.pow 16 rest.length := Nat.mul_le_mul_right _ (by omega)
        _ = (start + 1) * Nat.pow 16 (c :: rest).length := by
            rw [Nat.mul_assoc, Nat.mul_comm 16]
            rfl

theorem hexNumber_lt {digits : List Char} {n : Nat} (h : hexNumber? digits = some n) :
    n < Nat.pow 16 digits.length := by
  have hlt := foldlM_hexDigit_lt h
  rwa [Nat.zero_add, Nat.one_mul] at hlt

/-- Only an escape by eight digits can stand for no code point. -/
theorem width_of_codePoint_error {c : Char} {width n : Nat} {digits : List Char} {r : Refusal}
    (hwidth : escapeWidth? c = some width) (hlength : digits.length ≤ width)
    (hnumber : hexNumber? digits = some n) (hcode : codePoint n = .error r) :
    c = 'U' ∧ width = 8 := by
  have hlarge : 0x10FFFF < n := by
    refine Nat.lt_of_not_le fun hsmall => ?_
    rw [codePoint, if_pos hsmall] at hcode
    cases hcode
  have hlt : n < Nat.pow 16 width :=
    Nat.lt_of_lt_of_le (hexNumber_lt hnumber) (Nat.pow_le_pow_right (by decide) hlength)
  unfold escapeWidth? at hwidth
  split at hwidth
  · cases hwidth
    have hsmall : n < 256 := hlt
    omega
  · cases hwidth
    have hsmall : n < 65536 := hlt
    omega
  · exact ⟨rfl, (Option.some.inj hwidth).symm⟩
  · cases hwidth

theorem codePoint_error {n : Nat} {r : Refusal} (h : codePoint n = .error r) :
    ∃ f, r = .fault f := by
  unfold codePoint at h
  split at h
  · cases h
  · split at h
    · exact ⟨_, (Except.error.inj h).symm⟩
    · exact ⟨_, (Except.error.inj h).symm⟩

theorem ends_readEscape (h : '\x5c' :: s.rest <:+ whole) :
    Ends whole anything (readEscape s) := by
  have hs : s.Inside whole := (List.suffix_cons _ _).trans h
  unfold readEscape
  split
  · exact .malformed
  · rename_i c hpeek
    split
    · exact .place hs.next
    · rename_i width _ hwidth
      dsimp only
      split
      · exact .malformed
      · rename_i n hnumber
        split
        · exact .malformed
        · rename_i hlong
          have hlength : (s.next.rest.take width).length ≤ width := List.length_take_le _ _
          cases hcode : codePoint n with
          | ok code => exact .place (hs.next.skip width)
          | error r =>
              obtain ⟨f, rfl⟩ := codePoint_error hcode
              obtain ⟨rfl, rfl⟩ := width_of_codePoint_error hwidth hlength hnumber hcode
              exact Unwritable.escape (digits_within h hpeek 8)
                (Nat.le_antisymm hlength (Nat.le_of_not_lt hlong)) hnumber hcode
    · split
      · exact Ends.bind (ends_quotedBreaks _ hs.takeBreak) fun breaks after hafter _ =>
          .place hafter
      · exact .malformed

theorem ends_readQuotedGap (h : s.Inside whole) : Ends whole anything (readQuotedGap s) := by
  have hbreak := (h.span isGap).takeBreak
  unfold readQuotedGap
  dsimp only
  split
  · exact .malformed
  · exact .place (h.span isGap)
  · rename_i heq
    rw [heq] at hbreak
    exact Ends.bind (ends_quotedBreaks _ hbreak) fun breaks after hafter _ => .place hafter

theorem ends_readQuoted (double : Bool) (fuel : Nat) (h : s.Inside whole) :
    Ends whole anything (readQuoted double fuel s) := by
  induction fuel generalizing s with
  | zero => exact .malformed
  | succ fuel ih =>
      have hmore (codes : List Nat) {after : Source} (hafter : after.Inside whole) :
          Ends whole anything (readQuoted double fuel after >>= fun others =>
            pure (codes ++ others.1, others.2)) :=
        Ends.bind (ih hafter) fun others after hafter _ => .place hafter
      unfold readQuoted
      dsimp only
      generalize (if double = true then '\x22' else '\x27') = quote
      split
      · exact .malformed
      · rename_i c rest hrest
        split
        · split
          · exact hmore _ (h.skip 2)
          · exact .place h.next
        · split
          · have hgap := ends_readQuotedGap h
            split
            · rename_i hread
              rw [hread] at hgap
              exact hmore _ hgap.1
            · rename_i hread
              rw [hread] at hgap
              exact hgap
          · split
            · rename_i hbackslash
              obtain rfl : c = '\x5c' := beq_iff_eq.mp (Bool.and_eq_true_iff.mp hbackslash).2
              have hbehind : '\x5c' :: s.next.rest <:+ whole := by
                rw [s.rest_next, hrest, List.tail_cons, ← hrest]
                exact h
              have hescape := ends_readEscape hbehind
              split
              · rename_i hread
                rw [hread] at hescape
                exact hmore _ hescape.1
              · rename_i hread
                rw [hread] at hescape
                exact hescape
            · exact hmore _ h.next

/-! ## Blocks and plain scalars -/

theorem inside_takeChomping (h : s.Inside whole) : (takeChomping s).2.Inside whole := by
  unfold takeChomping
  split
  · exact h.next
  · exact h

theorem inside_takeIncrement (h : s.Inside whole) : (takeIncrement s).2.Inside whole := by
  unfold takeIncrement
  split
  · exact h.next
  · exact h

theorem ends_readHeader (h : s.Inside whole) : Ends whole anything (readHeader s) := by
  have hend {header : BlockHeader} {stop : Source} (hstop : stop.Inside whole) (refused : Bool) :
      Ends whole anything (if refused = true then Yaml.malformed else stop.endLine header) := by
    split
    · exact .malformed
    · exact hstop.endLine
  have hearly := inside_takeIncrement (inside_takeChomping h)
  unfold readHeader
  dsimp only
  split
  · exact hend (inside_takeChomping hearly) _
  · exact hend hearly _

theorem inside_skipIndent (column : Nat) (h : s.Inside whole) :
    (skipIndent column s).Inside whole :=
  h.skip _

theorem inside_blockBreaks (column fuel : Nat) (h : s.Inside whole) :
    (blockBreaks column fuel s).2.Inside whole := by
  induction fuel generalizing s with
  | zero => exact h
  | succ fuel ih =>
      have hindent := inside_skipIndent column h
      have hbreak := hindent.takeBreak
      unfold blockBreaks
      dsimp only
      split
      · exact hindent
      · rename_i heq
        rw [heq] at hbreak
        exact ih hbreak

theorem inside_blockLead (fuel : Nat) (h : s.Inside whole) :
    (blockLead fuel s).2.2.Inside whole := by
  induction fuel generalizing s with
  | zero => exact h
  | succ fuel ih =>
      have hbreak := (h.span (· == ' ')).takeBreak
      unfold blockLead
      dsimp only
      split
      · exact h.span _
      · rename_i heq
        rw [heq] at hbreak
        exact ih hbreak

theorem inside_readLines (fold : Bool) (column fuel : Nat) (breaks : List Char)
    (h : s.Inside whole) : (readLines fold column fuel breaks s).after.Inside whole := by
  induction fuel generalizing s breaks with
  | zero => exact h
  | succ fuel ih =>
      have hline := inside_blockBreaks column
        ((s.span (!isBreak ·)).2.takeBreak.2.rest.length + 1) (h.span (!isBreak ·)).takeBreak
      unfold readLines
      split
      · dsimp only
        split
        · exact ih _ hline
        · exact hline
      · exact h

theorem ends_readBlock (fold : Bool) (outer : Option Nat) (h : s.Inside whole) :
    Ends whole anything (readBlock fold outer s) := by
  unfold readBlock
  refine Ends.bind (ends_readHeader h) fun header after hafter _ => ?_
  dsimp only
  split
  · exact .place (inside_readLines _ _ _ _ (inside_blockBreaks _ _ hafter))
  · exact .place (inside_readLines _ _ _ _ (inside_blockLead _ hafter))

theorem inside_plainBreaks (fuel : Nat) (h : s.Inside whole) :
    (plainBreaks fuel s).2.Inside whole := by
  induction fuel generalizing s with
  | zero => exact h
  | succ fuel ih =>
      have hbreak := (h.skipWhile (· == ' ')).takeBreak
      unfold plainBreaks
      split
      · exact h
      · dsimp only
        split
        · exact h.skipWhile _
        · rename_i heq
          rw [heq] at hbreak
          exact ih hbreak

theorem inside_readPlainGap (h : s.Inside whole) : (readPlainGap s).after.Inside whole := by
  have hbreak := (h.span (· == ' ')).takeBreak
  unfold readPlainGap
  dsimp only
  split
  · exact h.span _
  · rename_i heq
    rw [heq] at hbreak
    have hbreaks := inside_plainBreaks ((s.span (· == ' ')).2.rest.length + 1) hbreak
    split
    · rename_i heq
      rw [heq] at hbreaks
      exact hbreaks
    · rename_i heq
      rw [heq] at hbreaks
      exact hbreaks

theorem inside_readPlain (flow : Bool) (column fuel : Nat) {gap : PlainGap}
    (h : gap.after.Inside whole) : (readPlain flow column fuel gap).after.Inside whole := by
  induction fuel generalizing gap with
  | zero => exact h
  | succ fuel ih =>
      unfold readPlain
      dsimp only
      generalize
        (if gap.after.startsWith '#' = true then [] else plainRun flow gap.after.rest) = run
      have hgap := inside_readPlainGap (h.skip run.length)
      split
      · exact h
      · split
        · exact hgap
        · exact ih hgap

theorem isBreak_of_mem_plainRun {flow : Bool} {cs : List Char} {c : Char}
    (h : c ∈ plainRun flow cs) : isBreak c = false := by
  induction cs with
  | nil => cases h
  | cons d rest ih =>
      unfold plainRun at h
      dsimp only at h
      split at h
      · cases h
      · rename_i hplain
        split at h
        · cases h
        · obtain rfl | h := List.mem_cons.mp h
          · simp only [Bool.or_eq_true, not_or, Bool.not_eq_true] at hplain
            exact hplain.1.2
          · exact ih h

/-- A plain scalar ends with a row of characters, not with what lies behind it. -/
theorem isBreak_of_getLast_readPlain (flow : Bool) (column fuel : Nat) (gap : PlainGap) {c : Char}
    (h : (readPlain flow column fuel gap).text.getLast? = some c) : isBreak c = false := by
  induction fuel generalizing gap with
  | zero => cases h
  | succ fuel ih =>
      unfold readPlain at h
      dsimp only at h
      generalize hrun : (if gap.after.startsWith '#' = true then []
        else plainRun flow gap.after.rest) = run at h
      split at h
      · cases h
      · rename_i hne
        have hlast (hc : (gap.text ++ run).getLast? = some c) : isBreak c = false := by
          rw [List.getLast?_append, Option.or_eq_some_iff] at hc
          obtain hc | ⟨hnil, -⟩ := hc
          case inr => exact absurd (List.isEmpty_iff.mpr (List.getLast?_eq_none_iff.mp hnil)) hne
          have hmem : c ∈ run := List.mem_of_getLast? hc
          rw [← hrun] at hmem
          split at hmem
          · cases hmem
          · exact isBreak_of_mem_plainRun hmem
        split at h
        · exact hlast h
        · rw [List.getLast?_append, Option.or_eq_some_iff] at h
          obtain hmore | ⟨-, hc⟩ := h
          · exact ih _ hmore
          · exact hlast hc

theorem getLast_readPlain (flow : Bool) (column fuel : Nat) (gap : PlainGap) :
    (codesOf (readPlain flow column fuel gap).text).getLast? ≠ some 0x0A := by
  intro h
  rw [codesOf, List.getLast?_map] at h
  obtain ⟨c, hc, hcode⟩ := Option.map_eq_some_iff.mp h
  obtain rfl : c = '\n' := Char.toNat_inj.mp hcode
  exact absurd (isBreak_of_getLast_readPlain flow column fuel gap hc) (by decide)

end SemanticMarkup.Yaml
