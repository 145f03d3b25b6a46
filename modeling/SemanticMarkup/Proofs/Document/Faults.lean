import SemanticMarkup.Proofs.Document.Detection
import SemanticMarkup.Proofs.Yaml.Plain
import SemanticMarkup.Proofs.Yaml.Tokens
import SemanticMarkup.Proofs.Yaml.Values

/-!
# Why a document is not read

A text is read as a document with a root type, or refused with an error of the
configuration. One other thing can happen: the text is well formed, but something
written in it is no value. In JSON that is an integer with too many digits. In YAML it
is a scalar that cannot be read as its tag says, a mapping tagged as a timestamp, an
escape beyond the last code point or a version with too many digits; without tags only
numbers and dates are left.
-/

namespace SemanticMarkup

open SemanticMarkup.Number SemanticMarkup.Text

namespace Yaml

variable {cs : List Char} {f : Fault}

/-- The faults of a text that is well formed, but holds something that is no value. -/
def Unreadable (cs : List Char) (f : Fault) : Prop :=
  Unwritable cs f ∨ Unconvertible (tokens cs) f

/-- Reading a text only fails because it is no YAML or for something in it. -/
theorem gives_read (cs : List Char) :
    Gives (fun r => ∀ f, r = .fault f → Unreadable cs f) anything (read cs) := by
  have hgraph := Graph.ofTokens_cases (tokens cs)
  cases htokens : Graph.ofTokens (tokens cs) with
  | error r =>
      rw [htokens] at hgraph
      rw [read, htokens]
      rintro f rfl
      obtain hmalformed | hmem := hgraph
      · cases hmalformed
      · exact .inl (unwritable_of_mem_tokens hmem)
  | ok found =>
      rw [htokens] at hgraph
      rw [read, htokens]
      cases found with
      | none => exact trivial
      | some g =>
          have hvalue := Graph.gives_value (hgraph g rfl)
          change Gives _ _ g.value
          cases hread : g.value with
          | ok v => exact trivial
          | error r =>
              rw [hread] at hvalue
              rintro f rfl
              exact .inr hvalue

theorem unwritable_cases (h : Unwritable cs f) : f = .wrongValue ∨ f = .overflow := by
  cases h with
  | escape hwritten hlength hnumber hcode =>
      unfold codePoint at hcode
      split at hcode
      · cases hcode
      · split at hcode
        · cases hcode
          exact .inl rfl
        · cases hcode
          exact .inr rfl
  | version hlong => exact .inl rfl

/-- Without tags only numbers and dates cannot be read. -/
theorem unreadable_cases (h : Unreadable cs f) (htags : ¬HasTag (tokens cs)) :
    f = .wrongValue ∨ f = .overflow := by
  obtain hnumber | hvalue := h
  · exact unwritable_cases hnumber
  · cases hvalue with
    | scalar hcodes htag hfails =>
        obtain rfl | ⟨rfl, hplain⟩ | hany := htag
        · cases hfails
        · refine fits_scalarValue_ofPlain ?_ _ hfails
          obtain rfl | hmem := hplain
          · exact nofun
          · exact getLast_of_mem_tokens hmem
        · exact absurd hany htags
    | mapping hany => exact absurd hany htags

end Yaml

/-- The faults of a text that is well formed in a language, but holds something that is no value. -/
def Language.Unreadable (content : String) (f : Fault) : Language → Prop
  | .json => f = .wrongValue ∧ HasLongRow content.toList
  | .yaml => Yaml.Unreadable content.toList f

/-- Where no tags are written a number is too great, or a number or date is none. -/
theorem Language.unreadable_cases {l : Language} {content : String} {f : Fault}
    (h : l.Unreadable content f) :
    f = .wrongValue ∨ f = .overflow ∨ Yaml.HasTag (Yaml.tokens content.toList) := by
  cases l with
  | json => exact .inl h.1
  | yaml =>
      by_cases htags : Yaml.HasTag (Yaml.tokens content.toList)
      · exact .inr (.inr htags)
      · exact (Yaml.unreadable_cases h htags).imp_right .inl

/-- Why loading a text may fail: with an error of the configuration, or for something in it. -/
theorem Language.gives_load (l : Language) (content : String) :
    Gives (fun e => (∃ c, e = .config c) ∨ ∃ f, e = .fault f ∧ l.Unreadable content f) anything
      (l.load content) := by
  cases l with
  | json =>
      have hread := Json.gives_read content.toList
      unfold Language.load
      dsimp only
      split
      · exact trivial
      · rename_i heq
        rw [heq] at hread
        exact .inr ⟨.wrongValue, rfl, rfl, hread⟩
      · exact .inl ⟨_, rfl⟩
  | yaml =>
      have hread := Yaml.gives_read content.toList
      unfold Language.load
      dsimp only
      split
      · exact .inl ⟨_, rfl⟩
      · exact trivial
      · rename_i r heq
        rw [heq] at hread
        cases r with
        | malformed => exact .inl ⟨_, rfl⟩
        | fault f => exact .inr ⟨f, rfl, hread f rfl⟩

namespace Document

theorem root_of_readRoot {entries : Entries} {root : String} (h : readRoot entries = .ok root) :
    root ≠ "" := by
  unfold readRoot at h
  dsimp only at h
  split at h
  · cases h
  · split at h
    · split at h
      · cases h
      · cases h
        assumption
    · cases h

/-- What a value describes has a root type. -/
theorem gives_ofValue (v : Value) :
    Gives (fun e => ∃ c, e = .config c) (fun d => d.root ≠ "") (ofValue v) := by
  unfold ofValue
  split
  · split
    · rename_i d hentries
      unfold ofEntries at hentries
      split at hentries
      · rename_i hroot _ _ _
        cases hentries
        exact root_of_readRoot hroot
      · cases hentries
    · exact ⟨_, rfl⟩
  · exact ⟨_, rfl⟩

theorem gives_languageOf (content : String) (name : Option String) :
    Gives (fun e => ∃ c, e = .config c) anything (languageOf content name) := by
  unfold languageOf
  split
  · exact trivial
  · exact trivial
  · split
    · exact trivial
    · exact ⟨_, rfl⟩

/-- A text that is not blank is read in one language, and what it holds there is described. -/
theorem gives_parse (content : String) (language : Option String) :
    Gives (fun e => (∃ c, e = .config c) ∨
        ∃ l f, languageOf content language = .ok l ∧ l.Unreadable content f ∧ e = .fault f)
      (fun d => d.root ≠ "") (parse content language) := by
  unfold parse
  split
  · exact .inl ⟨_, rfl⟩
  · have hlanguage := gives_languageOf content language
    cases hl : languageOf content language with
    | error e =>
        rw [hl] at hlanguage
        exact .inl hlanguage
    | ok l =>
        change Gives _ _ (l.load content >>= ofValue)
        refine Gives.bind (Gives.imp (l.gives_load content) ?_) fun v _ => ?_
        · rintro e (hconfig | ⟨f, rfl, hf⟩)
          · exact .inl hconfig
          · exact .inr ⟨l, f, rfl, hf, rfl⟩
        · exact (gives_ofValue v).imp fun e he => .inl he

/-- A text is read as a document with a root type, or refused with an error of the configuration,
or it is well formed in its language but holds something that is no value: its fault is handed
on. Without tags this is that of a number or of a date. -/
theorem parse_cases (content : String) (language : Option String) :
    (∃ d, parse content language = .ok d ∧ d.root ≠ "") ∨
      (∃ e, parse content language = .error (.config e)) ∨
      ∃ l f, languageOf content language = .ok l ∧ l.Unreadable content f ∧
        (f = .wrongValue ∨ f = .overflow ∨ Yaml.HasTag (Yaml.tokens content.toList)) ∧
        parse content language = .error (.fault f) := by
  have hparse := gives_parse content language
  cases hread : parse content language with
  | ok d =>
      rw [hread] at hparse
      exact .inl ⟨d, rfl, hparse⟩
  | error e =>
      rw [hread] at hparse
      obtain ⟨c, rfl⟩ | ⟨l, f, hl, hf, rfl⟩ := hparse
      · exact .inr (.inl ⟨c, rfl⟩)
      · exact .inr (.inr ⟨l, f, hl, hf, Language.unreadable_cases hf, rfl⟩)

/-- A day that no month has is no date; its fault is no error of the configuration. -/
theorem parse_missingDay :
    parse "microformat: h-card\noptions: \x7bday: 2023-13-45\x7d\n" (some "yaml") =
      .error (.fault .wrongValue) :=
  Outcome.eq_error_of_failure? (by decide +kernel)

end Document

end SemanticMarkup
