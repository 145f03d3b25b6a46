import Mathlib.Computability.Language
import Mathlib.Order.CompletePartialOrder
import SemanticMarkup.Proofs.Entry.RoundTrip

/-!
# The language of shorthands

The texts that are read as shorthands, as a language over characters, beside the
language in which a part is written only behind the one before it. The texts of
the second one that stand in one line are those that are read without a gap.

## Implementation notes

Reading takes a part that does not fit to be left out. So each of the parts may
be missing on its own, and one line of any text may follow the property.
-/

namespace SemanticMarkup

open SemanticMarkup.Text
open scoped Computability

namespace Grammar

/-- One or more characters of a kind. -/
def run (kind : Char → Bool) : Language Char :=
  {cs | cs ≠ [] ∧ ∀ c ∈ cs, kind c = true}

/-- A single character. -/
def mark (c : Char) : Language Char :=
  {[c]}

/-- One or more runs with a separator between neighbours. -/
def chain (sep : Char) (kind : Char → Bool) : Language Char :=
  run kind * (mark sep * run kind)∗

/-- Two or more words of small letters with hyphens between. -/
def property : Language Char :=
  run isSmallLetter * (mark '-' * chain '-' isSmallLetter)

/-- One or more words with points between. -/
def path : Language Char :=
  chain '.' isWordChar

/-- A word. -/
def word : Language Char :=
  run isWordChar

/-- Any text in one line. -/
def line : Language Char :=
  {cs | '\n' ∉ cs}

/-- Nothing, or a part behind a colon. -/
def optionally (part : Language Char) : Language Char :=
  1 + mark ':' * part

/-- The shorthands in which a part is present only if the one before it is, with any text as the
label. -/
def nested : Language Char :=
  property * optionally (path * optionally (word * optionally ⊤))

/-- The shorthands in which each part but the property may be missing on its own, with one line as
the label. -/
def accepted : Language Char :=
  property * (optionally path * (optionally word * optionally line))

theorem mem_run_iff {kind : Char → Bool} {cs : List Char} :
    cs ∈ run kind ↔ (!cs.isEmpty && cs.all kind) = true := by
  rw [Bool.and_eq_true, Bool.not_eq_true', List.isEmpty_eq_false_iff, List.all_eq_true]
  rfl

theorem mem_mark_mul_iff {c : Char} {part : Language Char} {cs : List Char} :
    cs ∈ mark c * part ↔ ∃ rest ∈ part, cs = c :: rest := by
  constructor
  · rintro ⟨_, rfl, rest, hrest, rfl⟩
    exact ⟨rest, hrest, rfl⟩
  · rintro ⟨rest, hrest, rfl⟩
    exact Language.append_mem_mul (show [c] ∈ mark c from rfl) hrest

theorem mem_optionally_iff {part : Language Char} {cs : List Char} :
    cs ∈ optionally part ↔ ∃ rest : Option (List Char), (∀ r ∈ rest, r ∈ part) ∧
      Shorthand.behindColon rest = cs := by
  rw [optionally, Language.mem_add, Language.mem_one, mem_mark_mul_iff]
  constructor
  · rintro (rfl | ⟨rest, hrest, rfl⟩)
    · exact ⟨none, nofun, rfl⟩
    · refine ⟨some rest, ?_, rfl⟩
      rintro _ ⟨⟩
      exact hrest
  · rintro ⟨rest, hrest, rfl⟩
    cases rest with
    | none => exact .inl rfl
    | some r => exact .inr ⟨r, hrest r rfl, rfl⟩

theorem behindColon_mem_optionally {part : Language Char} {rest : Option (List Char)}
    (h : ∀ r ∈ rest, r ∈ part) : Shorthand.behindColon rest ∈ optionally part :=
  mem_optionally_iff.mpr ⟨rest, h, rfl⟩

section Chain

variable {sep : Char} {kind : Char → Bool}

theorem not_mem_of_mem_run (hsep : kind sep = false) {cs : List Char} (h : cs ∈ run kind) :
    sep ∉ cs := by
  intro hmem
  rw [h.2 sep hmem] at hsep
  cases hsep

/-- A chain is a single run, or a run and a chain behind the separator. -/
theorem chain_eq : chain sep kind = run kind + run kind * (mark sep * chain sep kind) := by
  calc chain sep kind
      = run kind * (1 + mark sep * run kind * (mark sep * run kind)∗) := by
        rw [Language.one_add_self_mul_kstar_eq_kstar, chain]
    _ = run kind + run kind * (mark sep * chain sep kind) := by
        rw [mul_add, mul_one, mul_assoc (mark sep), ← chain]

theorem intercalate_mem_chain {pieces : List (List Char)} (hne : pieces ≠ [])
    (h : ∀ piece ∈ pieces, piece ∈ run kind) : [sep].intercalate pieces ∈ chain sep kind := by
  induction pieces with
  | nil => exact absurd rfl hne
  | cons piece rest ih =>
      rw [chain_eq, Language.mem_add]
      have hpiece := h piece List.mem_cons_self
      cases rest with
      | nil => exact .inl (List.intercalate_singleton ▸ hpiece)
      | cons next rest =>
          rw [intercalate_cons_cons]
          have htail := ih (List.cons_ne_nil _ _) fun p hp => h p (List.mem_cons_of_mem _ hp)
          exact .inr (Language.append_mem_mul hpiece (mem_mark_mul_iff.mpr ⟨_, htail, rfl⟩))

theorem splitOn_of_mem_chain (hsep : kind sep = false) {runs : List (List Char)}
    (hruns : ∀ r ∈ runs, r ∈ mark sep * run kind) {first : List Char} (hfirst : first ∈ run kind) :
    ∀ piece ∈ (first ++ runs.flatten).splitOn sep, piece ∈ run kind := by
  induction runs generalizing first with
  | nil =>
      rw [List.flatten_nil, List.append_nil,
        List.splitOn_eq_singleton (not_mem_of_mem_run hsep hfirst)]
      rintro piece hp
      rwa [List.mem_singleton.mp hp]
  | cons r rest ih =>
      obtain ⟨next, hnext, rfl⟩ := mem_mark_mul_iff.mp (hruns r List.mem_cons_self)
      rw [List.flatten_cons, List.cons_append,
        List.splitOn_append_cons_self_of_not_mem (not_mem_of_mem_run hsep hfirst)]
      rintro piece hp
      obtain rfl | hp := List.mem_cons.mp hp
      · exact hfirst
      · exact ih (fun r hr => hruns r (List.mem_cons_of_mem _ hr)) hnext piece hp

/-- A text is a chain if all pieces between separators are runs. -/
theorem mem_chain_iff (hsep : kind sep = false) {cs : List Char} :
    cs ∈ chain sep kind ↔ ∀ piece ∈ cs.splitOn sep, piece ∈ run kind := by
  constructor
  · rintro ⟨first, hfirst, _, ⟨runs, rfl, hruns⟩, rfl⟩
    exact splitOn_of_mem_chain hsep hruns hfirst
  · intro h
    have hjoin : [sep].intercalate (cs.splitOn sep) = cs := List.intercalate_splitOn sep
    rw [← hjoin]
    exact intercalate_mem_chain (List.splitOn_ne_nil sep cs) h

end Chain

theorem mem_path_iff {cs : List Char} : cs ∈ path ↔ isPath cs = true := by
  rw [path, mem_chain_iff (by decide), isPath, List.all_eq_true]
  exact forall₂_congr fun _ _ => mem_run_iff

theorem mem_word_iff {cs : List Char} : cs ∈ word ↔ isWord cs = true :=
  mem_run_iff

theorem isHyphenated_iff {cs : List Char} :
    isHyphenated cs = true ↔
      2 ≤ (cs.splitOn '-').length ∧ ∀ piece ∈ cs.splitOn '-', piece ∈ run isSmallLetter := by
  rw [isHyphenated, Bool.and_eq_true, decide_eq_true_eq, List.all_eq_true]
  exact and_congr_right' (forall₂_congr fun _ _ => mem_run_iff.symm)

/-- The properties of the grammar are the hyphenated names. -/
theorem mem_property_iff {cs : List Char} : cs ∈ property ↔ isHyphenated cs = true := by
  have hhyphen : isSmallLetter '-' = false := by decide
  rw [isHyphenated_iff]
  constructor
  · rintro ⟨first, hfirst, tail, htail, rfl⟩
    obtain ⟨rest, hrest, rfl⟩ := mem_mark_mul_iff.mp htail
    dsimp only
    rw [List.splitOn_append_cons_self_of_not_mem (not_mem_of_mem_run hhyphen hfirst),
      List.forall_mem_cons]
    exact ⟨Nat.succ_le_succ (List.length_pos_of_ne_nil (List.splitOn_ne_nil '-' rest)), hfirst,
      (mem_chain_iff hhyphen).mp hrest⟩
  · rintro ⟨hlong, hwords⟩
    have hjoin := cutAt_join '-' cs
    rw [splitOn_eq_cutAt] at hlong hwords
    cases hcut : cutAt '-' cs with
    | mk first tail =>
        rw [hcut] at hlong hwords hjoin
        cases tail with
        | none => exact absurd hlong (Nat.not_succ_le_self 1)
        | some rest =>
            obtain ⟨hfirst, hrest⟩ := List.forall_mem_cons.mp hwords
            dsimp only at hjoin
            rw [← hjoin]
            exact Language.append_mem_mul hfirst
              (mem_mark_mul_iff.mpr ⟨rest, (mem_chain_iff hhyphen).mpr hrest, rfl⟩)

theorem optionally_mono {part other : Language Char} (h : part ≤ other) :
    optionally part ≤ optionally other := by
  rintro cs hcs
  obtain ⟨rest, hrest, rfl⟩ := mem_optionally_iff.mp hcs
  exact behindColon_mem_optionally fun r hr => h (hrest r hr)

theorem one_le_optionally (part : Language Char) : 1 ≤ optionally part := by
  rintro cs rfl
  exact mem_optionally_iff.mpr ⟨none, nofun, rfl⟩

theorem path_le_line : path ≤ line :=
  fun _ h => Shorthand.not_mem_of_isPath (mem_path_iff.mp h) (by decide) (by decide)

theorem word_le_line : word ≤ line :=
  fun _ h => Shorthand.not_mem_of_isWord (mem_word_iff.mp h) (by decide)

theorem property_le_line : property ≤ line :=
  fun _ h => Shorthand.not_mem_of_isHyphenated (mem_property_iff.mp h) (by decide) (by decide)

/-- A line with a colon may be followed by another one. -/
theorem optionally_line_mul_self : optionally line * optionally line ≤ optionally line := by
  intro cs hcs
  obtain ⟨_, hfirst, _, hsecond, rfl⟩ := Language.mem_mul.mp hcs
  obtain ⟨first, hline, rfl⟩ := mem_optionally_iff.mp hfirst
  obtain ⟨second, hnext, rfl⟩ := mem_optionally_iff.mp hsecond
  cases first with
  | none => exact hsecond
  | some cs =>
      cases second with
      | none => rwa [Shorthand.behindColon, List.append_nil]
      | some others =>
          refine mem_optionally_iff.mpr ⟨some (cs ++ ':' :: others), ?_, rfl⟩
          rintro _ ⟨⟩ hmem
          rw [List.mem_append, List.mem_cons] at hmem
          obtain hmem | hmem | hmem := hmem
          · exact hline cs rfl hmem
          · exact absurd hmem (by decide)
          · exact hnext others rfl hmem

/-- One line of any text may stand behind the colon of the property. -/
theorem accepted_eq : accepted = property * optionally line := by
  have hparts : optionally path * (optionally word * optionally line) = optionally line := by
    apply le_antisymm
    · calc optionally path * (optionally word * optionally line)
          ≤ optionally line * (optionally line * optionally line) :=
            mul_le_mul' (optionally_mono path_le_line)
              (mul_le_mul' (optionally_mono word_le_line) le_rfl)
        _ ≤ optionally line * optionally line := mul_le_mul' le_rfl optionally_line_mul_self
        _ ≤ optionally line := optionally_line_mul_self
    · calc optionally line
          = 1 * (1 * optionally line) := by rw [one_mul, one_mul]
        _ ≤ optionally path * (optionally word * optionally line) :=
            mul_le_mul' (one_le_optionally path) (mul_le_mul' (one_le_optionally word) le_rfl)
  rw [accepted, hparts]

/-- An accepted text is one line. -/
theorem accepted_le_line : accepted ≤ line := by
  rw [accepted_eq]
  intro cs hcs
  obtain ⟨first, hfirst, _, htail, rfl⟩ := Language.mem_mul.mp hcs
  obtain ⟨rest, hrest, rfl⟩ := mem_optionally_iff.mp htail
  intro hmem
  obtain hmem | hmem := List.mem_append.mp hmem
  · exact property_le_line hfirst hmem
  cases rest with
  | none => cases hmem
  | some r =>
      obtain hcolon | hmem := List.mem_cons.mp hmem
      · exact absurd hcolon (by decide)
      · exact hrest r rfl hmem

/-- The parts of the grammar, each behind its colon, make up an accepted text. -/
theorem written_mem_accepted {short : Shorthand} (h : short.PartsFit) :
    short.written.toList ∈ accepted := by
  rw [Shorthand.toList_written]
  refine Language.append_mem_mul (mem_property_iff.mpr h.property) (Language.append_mem_mul ?_
    (Language.append_mem_mul ?_ ?_)) <;>
    refine behindColon_mem_optionally (Option.forall_mem_map.mpr ?_)
  · exact fun name hname => mem_path_iff.mpr (h.path name hname)
  · exact fun name hname => mem_word_iff.mpr (h.format name hname)
  · exact h.label

/-- Every accepted text is read. -/
theorem exists_read?_of_mem_accepted {s : String} (h : s.toList ∈ accepted) :
    ∃ short, Shorthand.read? s = some short := by
  rw [accepted_eq] at h
  obtain ⟨first, hfirst, tail, htail, hs⟩ := h
  obtain ⟨rest, hrest, rfl⟩ := mem_optionally_iff.mp htail
  have hproperty := mem_property_iff.mp hfirst
  have hcolon : ':' ∉ first :=
    Shorthand.not_mem_of_isHyphenated hproperty (by decide) (by decide)
  have hcut : cutAt ':' s.toList = (first, rest) := by
    rw [← hs]
    cases rest with
    | none => exact (congrArg _ (List.append_nil first)).trans (cutAt_of_not_mem hcolon)
    | some cs => exact cutAt_append hcolon cs
  exact ⟨_, Shorthand.read?_of_cutAt hcut hproperty fun cs hcs => hrest cs hcs⟩

theorem mem_accepted_iff {s : String} :
    s.toList ∈ accepted ↔ ∃ short, Shorthand.read? s = some short := by
  constructor
  · exact exists_read?_of_mem_accepted
  · rintro ⟨short, hshort⟩
    obtain ⟨hfit, rfl⟩ := Shorthand.partsFit_of_read? hshort
    exact written_mem_accepted hfit

theorem mem_mul_optionally {part next : Language Char} {cs : List Char} (h : cs ∈ part) :
    cs ∈ part * optionally next := by
  have halone := Language.append_mem_mul h (one_le_optionally next Language.nil_mem_one)
  rwa [List.append_nil] at halone

theorem append_mem_mul_optionally {part next : Language Char} {cs rest : List Char} (h : cs ∈ part)
    (hrest : rest ∈ next) : cs ++ ':' :: rest ∈ part * optionally next := by
  refine Language.append_mem_mul h (mem_optionally_iff.mpr ⟨some rest, ?_, rfl⟩)
  rintro _ ⟨⟩
  exact hrest

/-- A text is a part alone, or a part with another one behind its colon. -/
theorem exists_of_mem_mul_optionally {part next : Language Char} {cs : List Char}
    (h : cs ∈ part * optionally next) : ∃ first : String, first.toList ∈ part ∧
      (cs = first.toList ∨ ∃ rest ∈ next, cs = first.toList ++ ':' :: rest) := by
  obtain ⟨first, hfirst, tail, htail, rfl⟩ := Language.mem_mul.mp h
  refine ⟨String.ofList first, by rwa [String.toList_ofList], ?_⟩
  rw [String.toList_ofList]
  obtain ⟨rest, hrest, rfl⟩ := mem_optionally_iff.mp htail
  cases rest with
  | none => exact .inl (List.append_nil first)
  | some r => exact .inr ⟨r, hrest r rfl, rfl⟩

/-- A text of the nested grammar in one line is the written form of a shorthand without a gap. The
cases are the parts behind which the text ends. -/
theorem exists_wellFormed_of_mem_nested {s : String} (h : s.toList ∈ nested)
    (hline : '\n' ∉ s.toList) : ∃ short : Shorthand, short.WellFormed ∧ short.written = s := by
  obtain ⟨name, hname, hs | ⟨_, hrest, hs⟩⟩ := exists_of_mem_mul_optionally h
  · refine ⟨_, Shorthand.wellFormed_property (mem_property_iff.mp hname), ?_⟩
    rw [Shorthand.written_property, String.toList_injective hs]
  obtain ⟨steps, hsteps, rfl | ⟨_, hlast, rfl⟩⟩ := exists_of_mem_mul_optionally hrest
  · refine ⟨_, Shorthand.wellFormed_path (mem_property_iff.mp hname) (mem_path_iff.mp hsteps),
      String.toList_injective ?_⟩
    rw [Shorthand.written_path, hs]
    simp
  obtain ⟨kind, hkind, rfl | ⟨text, -, rfl⟩⟩ := exists_of_mem_mul_optionally hlast
  · refine ⟨_, Shorthand.wellFormed_format (mem_property_iff.mp hname) (mem_path_iff.mp hsteps)
      (mem_word_iff.mp hkind), String.toList_injective ?_⟩
    rw [Shorthand.written_format, hs]
    simp
  · have htext : '\n' ∉ (String.ofList text).toList := by
      rw [String.toList_ofList]
      refine fun hmem => hline ?_
      rw [hs]
      simp [hmem]
    refine ⟨_, Shorthand.wellFormed_label (mem_property_iff.mp hname) (mem_path_iff.mp hsteps)
      (mem_word_iff.mp hkind) htext, String.toList_injective ?_⟩
    rw [Shorthand.written_label, hs]
    simp

/-- The written form of a shorthand without a gap follows the nested grammar. -/
theorem written_mem_nested {short : Shorthand} (h : short.WellFormed) :
    short.written.toList ∈ nested := by
  have hparts := h.parts
  have hname := mem_property_iff.mpr h.property
  have hpath := fun steps hs => mem_path_iff.mpr (h.path steps hs)
  have hformat := fun kind hk => mem_word_iff.mpr (h.format kind hk)
  obtain ⟨name, steps, kind, label⟩ := short
  obtain ⟨rfl, rfl, rfl⟩ | ⟨steps, rfl, rfl, rfl⟩ | ⟨steps, kind, rfl, rfl, rfl⟩ |
    ⟨steps, kind, label, rfl, rfl, rfl⟩ := hparts
  all_goals
    simp only [Shorthand.toList_written, Option.map_none, Option.map_some, Shorthand.behindColon,
      List.cons_append, List.append_nil]
  · exact mem_mul_optionally hname
  · exact append_mem_mul_optionally hname (mem_mul_optionally (hpath steps rfl))
  · exact append_mem_mul_optionally hname (append_mem_mul_optionally (hpath steps rfl)
      (mem_mul_optionally (hformat kind rfl)))
  · exact append_mem_mul_optionally hname (append_mem_mul_optionally (hpath steps rfl)
      (append_mem_mul_optionally (hformat kind rfl) trivial))

/-- The texts of the nested grammar that stand in one line are the written forms of the
shorthands without a gap. -/
theorem mem_nested_iff {s : String} :
    s.toList ∈ nested ∧ '\n' ∉ s.toList ↔
      ∃ short : Shorthand, short.WellFormed ∧ short.written = s := by
  constructor
  · rintro ⟨h, hline⟩
    exact exists_wellFormed_of_mem_nested h hline
  · rintro ⟨short, hshort, rfl⟩
    exact ⟨written_mem_nested hshort, accepted_le_line (written_mem_accepted hshort.partsFit)⟩

end Grammar

/-- A text is read as a shorthand if it is accepted, and refused by its own message if it is not.
What is read follows the grammar part by part and is written as the text; it has no gap if the
text is one line of the nested grammar. -/
theorem Shorthand.ofText_accepted (s : String) :
    (s.toList ∈ Grammar.accepted ↔ ∃ short : Shorthand, short.PartsFit ∧ short.written = s ∧
        Entry.ofText s = .ok (Entry.ofShorthand short)) ∧
      (s.toList ∉ Grammar.accepted ↔ Entry.ofText s = Outcome.configError (.shorthand s)) ∧
      (s.toList ∈ Grammar.nested ∧ '\n' ∉ s.toList ↔
        ∃ short : Shorthand, short.WellFormed ∧ Shorthand.read? s = some short) := by
  refine ⟨⟨?_, ?_⟩, ⟨?_, ?_⟩, ?_⟩
  · intro h
    obtain ⟨short, hshort⟩ := Grammar.exists_read?_of_mem_accepted h
    obtain ⟨hfit, hwritten⟩ := partsFit_of_read? hshort
    exact ⟨short, hfit, hwritten, by rw [Entry.ofText, hshort]⟩
  · rintro ⟨short, hfit, rfl, -⟩
    exact Grammar.written_mem_accepted hfit
  · intro h
    rw [Grammar.mem_accepted_iff, not_exists] at h
    rw [Entry.ofText, Option.eq_none_iff_forall_ne_some.mpr h]
  · intro h haccepted
    obtain ⟨short, hshort⟩ := Grammar.exists_read?_of_mem_accepted haccepted
    rw [Entry.ofText, hshort] at h
    cases h
  · rw [Grammar.mem_nested_iff]
    refine exists_congr fun short => and_congr_right fun hshort => ⟨?_, ?_⟩
    · rintro rfl
      exact read?_written hshort
    · exact fun hread => (partsFit_of_read? hread).2

/-- A text with a gap is read although a part is missing before its label, and a label in two
lines is refused although it stands behind all other parts. -/
theorem Shorthand.ofText_gap :
    ("p-name:given name".toList ∉ Grammar.nested ∧
        Entry.ofText "p-name:given name" =
          .ok (parts "p-name" "name" "text" (some "given name"))) ∧
      "p-name:name:text:a\nb".toList ∈ Grammar.nested ∧
      Entry.ofText "p-name:name:text:a\nb" =
        Outcome.configError (.shorthand "p-name:name:text:a\nb") := by
  have hgap : read? "p-name:given name" = some ⟨"p-name", none, none, some "given name"⟩ := by
    decide
  have hlines : read? "p-name:name:text:a\nb" = none := by decide
  refine ⟨⟨fun h => ?_, ?_⟩, ?_, ?_⟩
  · obtain ⟨short, hshort, hwritten⟩ := Grammar.mem_nested_iff.mp ⟨h, by decide⟩
    have hread := read?_written hshort
    rw [hwritten, hgap] at hread
    obtain rfl := Option.some.inj hread
    exact absurd (hshort.format_of_label rfl) Bool.false_ne_true
  · rw [Entry.ofText, hgap]
    rfl
  · have hname : "p-name".toList ∈ Grammar.property := Grammar.mem_property_iff.mpr (by decide)
    have hpath : "name".toList ∈ Grammar.path := Grammar.mem_path_iff.mpr (by decide)
    have hword : "text".toList ∈ Grammar.word := Grammar.mem_word_iff.mpr (by decide)
    have hlabel : "a\nb".toList ∈ (⊤ : Language Char) := trivial
    exact Grammar.append_mem_mul_optionally hname (Grammar.append_mem_mul_optionally hpath
      (Grammar.append_mem_mul_optionally hword hlabel))
  · rw [Entry.ofText, hlines]

end SemanticMarkup
