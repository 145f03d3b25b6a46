import SemanticMarkup.Document
import SemanticMarkup.Proofs.Json.Faults

/-!
# The language that a text is taken for

A text without a named language is read in the one that it is taken for. A JSON
document is always taken for JSON, since it starts with a brace. A YAML document
may start with one as well; it is then read as JSON, and refused if it is none.
-/

namespace SemanticMarkup

open SemanticMarkup.Text

namespace Text

/-- The blanks at the end do not matter for what a text starts with. -/
theorem head_trim {cs : List Char} {c : Char} (h : (trimLeft cs).head? = some c) :
    (trim cs).head? = some c := by
  have hblank : ¬isBlank c = true := by
    have hhead := List.head?_dropWhile_not isBlank cs
    rw [← trimLeft, h] at hhead
    simpa using hhead
  obtain ⟨rest, hrest⟩ := List.head?_eq_some_iff.mp h
  rw [trim, hrest, List.reverse_cons, trimLeft, List.dropWhile_append,
    List.dropWhile_cons_of_neg hblank]
  split
  · rfl
  · rw [List.reverse_append]
    rfl

end Text

namespace Json

theorem isBlank_of_isSpace {c : Char} (h : isSpace c = true) : isBlank c = true := by
  simp only [isSpace, Bool.or_eq_true, beq_iff_eq] at h
  obtain ((rfl | rfl) | rfl) | rfl := h <;> decide

theorem trimLeft_skipSpaces (cs : List Char) : trimLeft (skipSpaces cs) = trimLeft cs := by
  induction cs with
  | nil => rfl
  | cons c rest ih =>
      by_cases hc : isSpace c = true
      · calc trimLeft (skipSpaces (c :: rest))
          _ = trimLeft (skipSpaces rest) := by
              rw [skipSpaces, List.dropWhile_cons_of_pos hc, ← skipSpaces]
          _ = trimLeft rest := ih
          _ = trimLeft (c :: rest) := by
              rw [trimLeft, trimLeft, List.dropWhile_cons_of_pos (isBlank_of_isSpace hc)]
      · rw [skipSpaces, List.dropWhile_cons_of_neg hc]

/-- A JSON object starts with a brace, blanks apart. -/
theorem head_trim_of_read_dict {cs : List Char} {entries : Entries}
    (h : read cs = .ok (.dict entries)) : (trim cs).head? = some '\x7b' := by
  obtain ⟨rest, hrest⟩ := List.head?_eq_some_iff.mp (head_of_read_dict h)
  refine head_trim ?_
  rw [← trimLeft_skipSpaces, hrest]
  rfl

end Json

namespace Language

theorem detect_eq_json_iff (content : String) :
    detect content = .json ↔ (trim content.toList).head? = some '\x7b' := by
  unfold detect
  split
  · rename_i hbrace
    exact ⟨fun _ => beq_iff_eq.mp hbrace, fun _ => rfl⟩
  · rename_i hbrace
    exact ⟨nofun, fun h => absurd (beq_iff_eq.mpr h) hbrace⟩

theorem read_of_load_json {content : String} {v : Value} (h : json.load content = .ok v) :
    Json.read content.toList = .ok v := by
  unfold load at h
  dsimp only at h
  split at h
  · rename_i hread
    rw [hread, Except.ok.inj h]
  · cases h
  · cases h

end Language

namespace Document

/-- Only a mapping describes a document. -/
theorem ofValue_ok {v : Value} {d : Document} (h : ofValue v = .ok d) :
    ∃ entries, v = .dict entries := by
  unfold ofValue at h
  split at h
  · exact ⟨_, rfl⟩
  · cases h

theorem languageOf_name (content : String) (l : Language) :
    languageOf content (some l.name) = .ok l := by
  cases l <;> rfl

/-- A text is read as if the language that it is taken for had been named. -/
theorem parse_none (content : String) :
    parse content none = parse content (some (Language.detect content).name) := by
  unfold parse
  rw [languageOf_name]
  rfl

/-- A text that is not blank is loaded in the language that is named. -/
theorem parse_name {content : String} (hblank : (trim content.toList).isEmpty = false)
    (l : Language) : parse content (some l.name) = l.load content >>= ofValue := by
  unfold parse
  rw [hblank, languageOf_name]
  rfl

theorem parse_blank {content : String} (hblank : (trim content.toList).isEmpty = true)
    (language : Option String) :
    parse content language = Outcome.configError .emptyDocument := by
  rw [parse, hblank]
  rfl

/-- A text with a document holds a mapping. -/
theorem parse_ok {content : String} {l : Language} {d : Document}
    (h : parse content (some l.name) = .ok d) :
    ∃ entries, l.load content = .ok (.dict entries) ∧ ofValue (.dict entries) = .ok d := by
  cases hblank : (trim content.toList).isEmpty with
  | true =>
      rw [parse_blank hblank] at h
      cases h
  | false =>
      rw [parse_name hblank] at h
      obtain ⟨v, hload, hvalue⟩ := Outcome.bind_eq_ok_iff.mp h
      obtain ⟨entries, rfl⟩ := ofValue_ok hvalue
      exact ⟨entries, hload, hvalue⟩

/-- Every JSON document is taken for one. -/
theorem detect_of_parse_json {content : String} {d : Document}
    (h : parse content (some Language.json.name) = .ok d) :
    Language.detect content = .json := by
  obtain ⟨entries, hload, -⟩ := parse_ok h
  rw [Language.detect_eq_json_iff]
  exact Json.head_trim_of_read_dict (Language.read_of_load_json hload)

/-- What is lost by taking a text for a language: nothing of a JSON document, and nothing of a YAML
document that does not start with a brace. With a brace at its start a text has the result it has
as JSON, without one that as YAML. -/
theorem parse_detected (content : String) :
    (∀ d, parse content (some "json") = .ok d → parse content none = .ok d) ∧
    (∀ d, parse content (some "yaml") = .ok d → (trim content.toList).head? ≠ some '\x7b' →
      parse content none = .ok d) ∧
    parse content none = (if (trim content.toList).head? = some '\x7b'
      then parse content (some "json") else parse content (some "yaml")) := by
  refine ⟨fun d hjson => ?_, fun d hyaml hbrace => ?_, ?_⟩
  · rw [parse_none, detect_of_parse_json hjson]
    exact hjson
  · have hdetect : Language.detect content = .yaml := by
      cases hl : Language.detect content with
      | json => exact absurd ((Language.detect_eq_json_iff content).mp hl) hbrace
      | yaml => rfl
    rw [parse_none, hdetect]
    exact hyaml
  · rw [parse_none]
    split
    · rename_i hbrace
      rw [(Language.detect_eq_json_iff content).mpr hbrace]
      rfl
    · rename_i hbrace
      cases hl : Language.detect content with
      | json => exact absurd ((Language.detect_eq_json_iff content).mp hl) hbrace
      | yaml => rfl

/-- The same document in both languages, each taken for what it is. -/
theorem parse_detected_bothLanguages :
    (∃ d, parse "\n\x7b\"microformat\": \"h-card\"\x7d" none = .ok d) ∧
      ∃ d, parse "# a card\nmicroformat: h-card" none = .ok d := by
  obtain ⟨json, hjson⟩ : ∃ d, parse "\n\x7b\"microformat\": \"h-card\"\x7d" (some "json") = .ok d :=
    Outcome.exists_of_isOk (by decide +kernel)
  obtain ⟨yaml, hyaml⟩ : ∃ d, parse "# a card\nmicroformat: h-card" (some "yaml") = .ok d :=
    Outcome.exists_of_isOk (by decide +kernel)
  exact ⟨⟨json, (parse_detected _).1 json hjson⟩,
    ⟨yaml, (parse_detected _).2.1 yaml hyaml (by decide +kernel)⟩⟩

/-- A YAML document in braces is lost: it is taken for JSON, where names stand in quotes. -/
theorem parse_braced :
    (∃ d, parse "\x7bmicroformat: h-card\x7d" (some "yaml") = .ok d) ∧
      parse "\x7bmicroformat: h-card\x7d" none =
        .error (.config (.json 1 2 "Expecting property name enclosed in double quotes")) :=
  ⟨Outcome.exists_of_isOk (by decide +kernel), Outcome.eq_error_of_failure? (by decide +kernel)⟩

end Document

end SemanticMarkup
