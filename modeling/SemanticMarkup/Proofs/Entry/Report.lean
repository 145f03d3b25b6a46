import SemanticMarkup.Proofs.Entry.Faults
import SemanticMarkup.Proofs.Entry.Grammar

/-!
# The report on an entry

What the fields of an entry may hold, said field by field, beside the check that goes through the
entry. An entry with named fields passes the check if every field may hold its value, and
otherwise it is refused with a report that has one line for each of the other fields.

## Implementation notes

A text with code points that no character has is a text, and it is never empty. No rule is about
a field with such a name, so it is a further field of a plain entry and an unknown one of an entry
that embeds a microformat.
-/

namespace SemanticMarkup

namespace Value

/-- A text that is a hyphenated name. -/
inductive IsHyphenated : Value → Prop
  | text {s : String} (h : s.toList ∈ Grammar.property) : IsHyphenated (.text s)

/-- A text that is not empty. -/
inductive IsFilledString : Value → Prop
  | text {s : String} (h : s ≠ "") : IsFilledString (.text s)
  | garbled (codes : List Nat) : IsFilledString (.garbled codes)

/-- A sequence that is no text. -/
inductive IsSequence : Value → Prop
  | list (items : List Value) : IsSequence (.list items)
  | tuple (items : List Value) : IsSequence (.tuple items)
  | bytes (bs : List Nat) : IsSequence (.bytes bs)

/-- A sequence that is no text and not empty. -/
inductive IsFilledSequence : Value → Prop
  | list {items : List Value} (h : items ≠ []) : IsFilledSequence (.list items)
  | tuple {items : List Value} (h : items ≠ []) : IsFilledSequence (.tuple items)
  | bytes {bs : List Nat} (h : bs ≠ []) : IsFilledSequence (.bytes bs)

/-- A template, or what one can be made of: a text or a pattern that can be called. -/
inductive IsTemplate : Value → Prop
  | template (t : Template) : IsTemplate (.template t)
  | text (s : String) : IsTemplate (.text s)
  | garbled (codes : List Nat) : IsTemplate (.garbled codes)
  | pattern (body : String) : IsTemplate (.pattern body)

end Value

namespace Rules

/-- The fields that entries of both kinds may have, with what they may hold. -/
inductive SharedField : Value → Value → Prop
  | property {v : Value} (h : v = .null ∨ v.IsHyphenated) : SharedField (.text "property") v
  | options {v : Value} (h : v = .null ∨ ∃ entries, v = .dict entries) :
      SharedField (.text "options") v
  | visible {v : Value} (h : v = .null ∨ ∃ b, v = .bool b) : SharedField (.text "visible") v
  | template {v : Value} (h : v = .null ∨ v.IsTemplate) : SharedField (.text "template") v

/-- The names of the fields of a plain entry that have a rule. -/
def ruledNames : List String :=
  ["property", "options", "visible", "template", "attribute", "label", "format", "embedded"]

/-- What a field of a plain entry may hold. A field without a rule may have any name. -/
inductive PlainField : Value → Value → Prop
  | shared {key v : Value} (h : SharedField key v) : PlainField key v
  | attribute {v : Value} (h : v = .null ∨ v.IsFilledString) : PlainField (.text "attribute") v
  | label {v : Value} (h : v = .null ∨ v.IsString) : PlainField (.text "label") v
  | format {v : Value} (h : v = .null ∨ v.IsFilledString ∨ v.IsFilledSequence) :
      PlainField (.text "format") v
  | embedded {v : Value} (h : v = .null ∨ v.IsString) : PlainField (.text "embedded") v
  | other {key : Value} (v : Value) (h : ∀ name ∈ ruledNames, key ≠ .text name) : PlainField key v

/-- The fields that an entry which embeds a microformat may have, with what they may hold. -/
inductive EmbeddingField : Value → Value → Prop
  | shared {key v : Value} (h : SharedField key v) : EmbeddingField key v
  | microformat {v : Value} (h : v.IsHyphenated) : EmbeddingField (.text "microformat") v
  | model (v : Value) : EmbeddingField (.text "model") v
  | engine {v : Value} (h : v = .null ∨ v.IsFilledString) : EmbeddingField (.text "class") v
  | attributes {v : Value} (h : v = .null ∨ v.IsSequence) : EmbeddingField (.text "attributes") v
  | label (v : Value) : EmbeddingField (.text "label") v

/-- A field of an entry may hold its value. The root type tells which rules the entry follows. -/
def Meets (entries : Entries) (e : Value × Value) : Prop :=
  if entries.hasName "microformat" then EmbeddingField e.1 e.2 else PlainField e.1 e.2

variable {entries : Entries} {key v : Value}

section Rule

theorem nullable_eq_none_iff_or {rule : Rule} :
    nullable rule v = none ↔ v = .null ∨ rule v = none := by
  cases v <;> simp [nullable]

theorem hyphenated_eq_none_iff_isHyphenated : hyphenated v = none ↔ v.IsHyphenated := by
  rw [hyphenated_eq_none_iff]
  constructor
  · rintro ⟨s, rfl, hs⟩
    exact .text (Grammar.mem_property_iff.mpr hs)
  · rintro ⟨hs⟩
    exact ⟨_, rfl, Grammar.mem_property_iff.mp hs⟩

theorem required_hyphenated_eq_none_iff : required hyphenated v = none ↔ v.IsHyphenated := by
  rw [← hyphenated_eq_none_iff_isHyphenated]
  cases v <;> simp [required, hyphenated]

theorem filledText_eq_none_iff_isFilledString : filledText v = none ↔ v.IsFilledString := by
  rw [filledText_eq_none_iff]
  constructor
  · rintro (⟨s, rfl, hs⟩ | ⟨codes, rfl⟩)
    · exact .text hs
    · exact .garbled codes
  · rintro (hs | codes)
    · exact .inl ⟨_, rfl, hs⟩
    · exact .inr ⟨codes, rfl⟩

theorem text_eq_none_iff : text v = none ↔ v.IsString := by
  constructor
  · intro h
    cases v with
    | text s => exact .text s
    | garbled codes => exact .garbled codes
    | _ => cases h
  · rintro (s | codes) <;> rfl

theorem mapping_eq_none_iff : mapping v = none ↔ ∃ entries, v = .dict entries := by
  cases v <;> simp [mapping]

theorem truth_eq_none_iff : truth v = none ↔ ∃ b, v = .bool b := by
  cases v <;> simp [truth]

theorem sequence_eq_none_iff : sequence v = none ↔ v.IsSequence := by
  constructor
  · intro h
    cases v with
    | list items => exact .list items
    | tuple items => exact .tuple items
    | bytes bs => exact .bytes bs
    | _ => cases h
  · rintro (items | items | bs) <;> rfl

theorem format_eq_none_iff : format v = none ↔ v.IsFilledString ∨ v.IsFilledSequence := by
  constructor
  · intro h
    cases v with
    | text s => exact .inl (.text (by simpa [format] using h))
    | garbled codes => exact .inl (.garbled codes)
    | list items => exact .inr (.list (by simpa [format] using h))
    | tuple items => exact .inr (.tuple (by simpa [format] using h))
    | bytes bs => exact .inr (.bytes (by simpa [format] using h))
    | _ => cases h
  · rintro ((hs | codes) | (hs | hs | hs)) <;> simp [format, *]

theorem template_eq_none_iff : template v = none ↔ v.IsTemplate := by
  constructor
  · intro h
    cases v with
    | template t => exact .template t
    | text s => exact .text s
    | garbled codes => exact .garbled codes
    | pattern body => exact .pattern body
    | _ => cases h
  · rintro (t | s | codes | body) <;> rfl

end Rule

/-- A field has no fault if the rule of its name allows its value, or if there is no rule of its
name and further fields may be there. -/
theorem fieldFault_eq_none_iff {rules : List (String × Rule)}
    (hnames : (rules.map Prod.fst).Nodup) (openEnded : Bool) :
    fieldFault rules openEnded key v = none ↔
      (∃ r ∈ rules, key = .text r.1 ∧ r.2 v = none) ∨
        openEnded = true ∧ ∀ r ∈ rules, key ≠ .text r.1 := by
  induction rules with
  | nil => cases openEnded <;> simp [fieldFault]
  | cons rule rest ih =>
      obtain ⟨hrule, hrest⟩ := List.nodup_cons.mp hnames
      by_cases hkey : key = .text rule.1
      · have hfound : fieldFault (rule :: rest) openEnded key v = rule.2 v := by
          rw [fieldFault,
            List.find?_cons_of_pos (p := fun r : String × Rule => key.sameKey (.text r.1))
              ((Value.sameKey_text_iff _ _).mpr hkey)]
        have hother : ∀ r ∈ rest, key ≠ .text r.1 := by
          intro r hr hname
          rw [hkey, Value.text.injEq] at hname
          exact hrule (List.mem_map.mpr ⟨r, hr, hname.symm⟩)
        rw [hfound]
        constructor
        · intro hv
          exact .inl ⟨rule, List.mem_cons_self, hkey, hv⟩
        · rintro (⟨r, hr, hname, hv⟩ | ⟨-, hnone⟩)
          · obtain rfl | hr := List.mem_cons.mp hr
            · exact hv
            · exact absurd hname (hother r hr)
          · exact absurd hkey (hnone rule List.mem_cons_self)
      · have hpassed : fieldFault (rule :: rest) openEnded key v =
            fieldFault rest openEnded key v := by
          rw [fieldFault,
            List.find?_cons_of_neg (p := fun r : String × Rule => key.sameKey (.text r.1))
              (mt (Value.sameKey_text_iff _ _).mp hkey), fieldFault]
        rw [hpassed, ih hrest]
        simp [hkey]

theorem fieldFault_embedding_eq_none_iff :
    fieldFault embedding false key v = none ↔ EmbeddingField key v := by
  rw [fieldFault_eq_none_iff (by decide)]
  simp only [embedding, common, List.cons_append, List.nil_append, List.exists_mem_cons_iff,
    List.not_mem_nil, false_and, exists_false, or_false, Bool.false_eq_true,
    nullable_eq_none_iff_or, hyphenated_eq_none_iff_isHyphenated, required_hyphenated_eq_none_iff,
    filledText_eq_none_iff_isFilledString, mapping_eq_none_iff, truth_eq_none_iff,
    sequence_eq_none_iff, template_eq_none_iff, anything, and_true]
  constructor
  · rintro (⟨rfl, h⟩ | ⟨rfl, h⟩ | ⟨rfl, h⟩ | ⟨rfl, h⟩ | ⟨rfl, h⟩ | rfl | ⟨rfl, h⟩ | ⟨rfl, h⟩ | rfl)
    · exact .shared (.property h)
    · exact .shared (.options h)
    · exact .shared (.visible h)
    · exact .shared (.template h)
    · exact .microformat h
    · exact .model v
    · exact .engine h
    · exact .attributes h
    · exact .label v
  · rintro ((h | h | h | h) | h | _ | h | h | _)
    all_goals simp only [Value.text.injEq, String.reduceEq, false_and, true_and, false_or,
      or_false, or_true]
    all_goals exact h

theorem fieldFault_plain_eq_none_iff : fieldFault plain true key v = none ↔ PlainField key v := by
  rw [fieldFault_eq_none_iff (by decide)]
  simp only [plain, common, List.cons_append, List.nil_append, List.exists_mem_cons_iff,
    List.forall_mem_cons, List.not_mem_nil, false_and, exists_false, or_false, true_and,
    nullable_eq_none_iff_or, hyphenated_eq_none_iff_isHyphenated,
    filledText_eq_none_iff_isFilledString, mapping_eq_none_iff, truth_eq_none_iff,
    text_eq_none_iff, format_eq_none_iff, template_eq_none_iff, anything, and_true]
  constructor
  · rintro ((⟨rfl, h⟩ | ⟨rfl, h⟩ | ⟨rfl, h⟩ | ⟨rfl, h⟩ | ⟨rfl, h⟩ | ⟨rfl, h⟩ | rfl | ⟨rfl, h⟩ |
      ⟨rfl, h⟩) | ⟨h⟩)
    · exact .shared (.property h)
    · exact .shared (.options h)
    · exact .shared (.visible h)
    · exact .shared (.template h)
    · exact .attribute h
    · exact .label h
    · exact .other v (by simp [ruledNames])
    · exact .format h
    · exact .embedded h
    · exact .other v (by simp [ruledNames, *])
  · rintro (⟨h | h | h | h⟩ | h | h | h | h | ⟨_, hnone⟩)
    case other =>
      simp only [ruledNames, List.forall_mem_cons] at hnone
      by_cases hvalue : key = .text "value" <;> simp [hnone, hvalue]
    all_goals simp only [Value.text.injEq, String.reduceEq, false_and, true_and, false_or,
      or_false, ne_eq, not_true_eq_false, and_false]
    all_goals exact h

/-- A field of an entry has no fault if it may hold its value. -/
theorem fault_eq_none_iff_meets (e : Value × Value) :
    fieldFault (if entries.hasName "microformat" then embedding else plain)
      (!entries.hasName "microformat") e.1 e.2 = none ↔ Meets entries e := by
  rw [Meets]
  cases entries.hasName "microformat" with
  | true => exact fieldFault_embedding_eq_none_iff
  | false => exact fieldFault_plain_eq_none_iff

instance decidableMeets (entries : Entries) (e : Value × Value) : Decidable (Meets entries e) :=
  decidable_of_iff _ (fault_eq_none_iff_meets e)

theorem faults_eq_nil_iff : faults entries = [] ↔ ∀ e ∈ entries, Meets entries e := by
  simp only [faults, List.filterMap_eq_nil_iff, Option.map_eq_none_iff, fault_eq_none_iff_meets]

/-- The faults are those of the fields that may not hold their values. -/
theorem map_fst_faults :
    (faults entries).map Prod.fst = (entries.filter fun e => ¬ Meets entries e).map Prod.fst := by
  simp only [faults, ← fault_eq_none_iff_meets]
  generalize (if entries.hasName "microformat" then embedding else plain) = rules
  generalize (!entries.hasName "microformat") = openEnded
  induction entries with
  | nil => rfl
  | cons e rest ih =>
      cases hfault : fieldFault rules openEnded e.1 e.2 <;> simp [hfault, ih]

theorem isString_of_mem_faults_of_names (hnames : ∀ e ∈ entries, e.1.IsString) :
    ∀ f ∈ faults entries, f.1.IsString := by
  intro f hf
  have hname : f.1 ∈ (entries.filter fun e => ¬ Meets entries e).map Prod.fst := by
    rw [← map_fst_faults]
    exact List.mem_map_of_mem hf
  obtain ⟨e, he, hsame⟩ := List.mem_map.mp hname
  rw [← hsame]
  exact hnames e (List.mem_of_mem_filter he)

theorem message_brokenRules (place : String) (lines : List (String × RuleFault)) :
    (ConfigError.brokenRules place lines).message = "Invalid attribute specification: " ++
      "; ".intercalate (lines.map fun f => placed place f.1 ++ ": " ++ f.2.message) :=
  rfl

/-- An entry whose fields have texts as names passes exactly if each field may hold its value. If
some may not, it is refused with one error, whose message has one line for each field that may not
hold its value and no other line; a line starts with the place of the entry and the name of the
field. -/
theorem check_reports (hnames : ∀ e ∈ entries, e.1.IsString) (place : String) :
    (check entries place = .ok () ↔ ∀ e ∈ entries, Meets entries e) ∧
      ((¬ ∀ e ∈ entries, Meets entries e) →
        ∃ (c : ConfigError) (report : List (Value × RuleFault)),
          check entries place = .error (.config c) ∧
          (report.map Prod.fst).Perm ((entries.filter fun e => ¬ Meets entries e).map Prod.fst) ∧
          c.message = "Invalid attribute specification: " ++ "; ".intercalate
            (report.map fun f => placed place f.1.display ++ ": " ++ f.2.message)) := by
  constructor
  · exact (check_eq_ok_iff entries place).trans faults_eq_nil_iff
  · intro hbroken
    have hfaults : faults entries ≠ [] := fun h => hbroken (faults_eq_nil_iff.mp h)
    obtain ⟨report, hperm, hreport⟩ :=
      exists_report (isString_of_mem_faults_of_names hnames) hfaults place
    refine ⟨_, report, hreport, ?_, ?_⟩
    · rw [← map_fst_faults]
      exact hperm.map Prod.fst
    · rw [message_brokenRules, List.map_map]
      rfl

/-- An entry that embeds a microformat, with an unknown field, one whose name is no row of
characters, and the name of an engine that is empty. -/
def strayEntry : Entries :=
  [(.text "microformat", .text "h-adr"), (.text "value", .int 2), (.garbled [0xD800], .null),
    (.text "label", .null), (.text "class", .text "")]

theorem check_reports_strayEntry :
    (∀ e ∈ strayEntry, e.1.IsString) ∧ (¬ ∀ e ∈ strayEntry, Meets strayEntry e) ∧
      ∃ (c : ConfigError) (report : List (Value × RuleFault)),
        check strayEntry "attributes[0]" = .error (.config c) ∧
        (report.map Prod.fst).Perm [.text "value", .garbled [0xD800], .text "class"] ∧
        c.message = "Invalid attribute specification: " ++ "; ".intercalate
          (report.map fun f => placed "attributes[0]" f.1.display ++ ": " ++ f.2.message) := by
  have hnames : ∀ e ∈ strayEntry, e.1.IsString := by
    simp only [strayEntry, List.forall_mem_cons]
    exact ⟨.text _, .text _, .garbled _, .text _, .text _, nofun⟩
  have hbroken : ¬ ∀ e ∈ strayEntry, Meets strayEntry e := by decide
  exact ⟨hnames, hbroken, (check_reports hnames "attributes[0]").2 hbroken⟩

end Rules

end SemanticMarkup
