import SemanticMarkup.Number.Directive

/-!
# Failures

Everything that can go wrong, by cause. A failure of the configuration, of a
coordinate, of a format or of a value carries what its message tells; a field
that does not validate is reported by its path and the kind of the problem; the
remaining faults are those of an operation that does not apply to its operands.
-/

namespace SemanticMarkup

open SemanticMarkup.Number SemanticMarkup.Text

/-- What is wrong with a field of an entry. -/
inductive RuleFault where
  /-- The field must not be null. -/
  | nullValue
  /-- The field holds a value of another kind than the named one. -/
  | kind (expected : String)
  /-- The field holds neither a text nor a list. -/
  | textOrList
  /-- The field is empty. -/
  | empty
  /-- The field is no hyphenated name. -/
  | unhyphenated
  /-- The field is no template. -/
  | template
  /-- There is no such field. -/
  | unknown
  deriving DecidableEq, Repr

/-- The message of a broken rule. -/
def RuleFault.message : RuleFault → String
  | .nullValue => "null value not allowed"
  | .kind expected => "must be of " ++ expected ++ " type"
  | .textOrList => "must be of ['string', 'list'] type"
  | .empty => "empty values not allowed"
  | .unhyphenated => "value does not match regex '^[a-z]+(-[a-z]+)+\\Z'"
  | .template => "must be a string or a callable"
  | .unknown => "unknown field"

/-- How a value fails to be what a field requires. -/
inductive IssueKind where
  /-- It is no text. -/
  | text
  /-- It is a text with code points that no character has. -/
  | garbledText
  /-- It is a text that is too short. -/
  | shortText
  /-- It is no list. -/
  | list
  /-- It is no mapping. -/
  | dict
  /-- It is neither a truth value nor a number or text that stands for one. -/
  | bool
  /-- It is a number or text that stands for no truth value. -/
  | boolParsing
  /-- It is neither an integer nor a number or text that stands for one. -/
  | int
  /-- It is a text that spells no integer. -/
  | intParsing
  /-- It is a number beyond the range of integers that are read. -/
  | intSize
  /-- It is a number with a fraction. -/
  | intFraction
  /-- It is not a finite number. -/
  | unbounded
  /-- It is less than it may be. -/
  | tooSmall
  /-- It is neither a mapping nor a record. -/
  | model
  /-- Its name is no text. -/
  | key
  /-- It breaks a rule of its own. -/
  | rule
  /-- It is not known. -/
  | extra
  /-- It is missing. -/
  | missing
  deriving DecidableEq, Repr

/-- The name of a kind of issue. -/
def IssueKind.name : IssueKind → String
  | .text => "string_type"
  | .garbledText => "string_unicode"
  | .shortText => "string_too_short"
  | .list => "list_type"
  | .dict => "dict_type"
  | .bool => "bool_type"
  | .boolParsing => "bool_parsing"
  | .int => "int_type"
  | .intParsing => "int_parsing"
  | .intSize => "int_parsing_size"
  | .intFraction => "int_from_float"
  | .unbounded => "finite_number"
  | .tooSmall => "greater_than_equal"
  | .model => "model_type"
  | .key => "invalid_key"
  | .rule => "value_error"
  | .extra => "extra_forbidden"
  | .missing => "missing"

/-- What a document is told about a kind of issue. -/
def IssueKind.message : IssueKind → String
  | .text => "Input should be a valid string"
  | .garbledText => "Input should be a valid string, unable to parse raw data as a unicode string"
  | .shortText => "String should have at least 1 character"
  | .list => "Input should be a valid list"
  | .dict => "Input should be a valid dictionary"
  | .missing => "Field required"
  | other => other.name

/-- A problem at a place inside a value. -/
structure Issue where
  /-- The names and numbers that lead to the place. -/
  path : List String
  /-- The problem. -/
  kind : IssueKind
  deriving DecidableEq, Repr

/-- A place with the name of the problem. -/
def Issue.line (i : Issue) : String :=
  ".".intercalate i.path ++ ": " ++ i.kind.name

/-- A place with the message of the problem. -/
def Issue.documentLine (i : Issue) : String :=
  ".".intercalate i.path ++ ": " ++ i.kind.message

/-- Why a microformat cannot be built from its configuration. Places in the attribute list are
given as they are shown. -/
inductive ConfigError where
  /-- No root type. -/
  | missingRoot
  /-- A root type that is no text with the required start. -/
  | invalidRoot (shown : String)
  /-- Embedded more deeply than is allowed. -/
  | tooDeep (root : String) (limit : Nat)
  /-- A value of this kind is no template. -/
  | templateKind (kind : String)
  /-- No engine has this name. -/
  | unknownEngine (name : String)
  /-- What should get this name is no engine. -/
  | notEngine (name : String)
  /-- A value of this kind is no entry. -/
  | entryKind (kind : String)
  /-- A text that is no shorthand. -/
  | shorthand (written : String)
  /-- A field that an embedded microformat must not have. -/
  | forbiddenField (place field : String)
  /-- An engine for an entry that embeds nothing. -/
  | engineOfPlain (place : String)
  /-- An entry without any value to show. -/
  | noValue (place : String)
  /-- Fields that break the rules of entries. -/
  | brokenRules (place : String) (faults : List (String × RuleFault))
  /-- An empty list in the place of a format. -/
  | emptyFormat
  /-- No format has this name. -/
  | unknownFormat (name : String)
  /-- A model that has no names to list. -/
  | modelKind
  /-- A document without any content. -/
  | emptyDocument
  /-- A document that holds no value. -/
  | nullDocument
  /-- A document that holds a value of this kind. -/
  | documentKind (kind : String)
  /-- A document with invalid fields. -/
  | documentIssues (issues : List Issue)
  /-- No document language has this name. -/
  | unknownLanguage (name : String)
  /-- Text that is no JSON, from a line and column on. -/
  | json (line column : Nat) (problem : String)
  /-- Text that is no YAML. -/
  | yaml
  deriving DecidableEq, Repr

/-- The name of a field behind the place of its entry. -/
def placed (place field : String) : String :=
  if place = "" then field else place ++ "." ++ field

/-- The message of an error of the configuration. -/
def ConfigError.message : ConfigError → String
  | .missingRoot => "The \"microformat\" property must be specified."
  | .invalidRoot shown => "Invalid root microformat class: \"" ++ shown ++ "\"."
  | .tooDeep root limit =>
      "Embedded microformat \"" ++ root ++ "\" exceeds the maximum nesting depth of "
        ++ String.ofList (numeral limit) ++ "; check for self-referencing attributes."
  | .templateKind kind => "The template must be a string or a callable, got " ++ kind
  | .unknownEngine name => "Unsupported microformat class: " ++ name
  | .notEngine name => "Engine \"" ++ name ++ "\" must be a Microformat subclass"
  | .entryKind kind =>
      "The attribute configuration must be a string or a mapping, got " ++ kind
  | .shorthand written =>
      "Invalid attribute specification \"" ++ written
        ++ "\": the attribute must be specified in the format of \"property\", "
        ++ "\"property:attribute\", \"property:attribute:format\" or "
        ++ "\"property:attribute:format:label\""
  | .forbiddenField place field =>
      place ++ ": \"" ++ field ++ "\" must not be specified for embedded microformats"
  | .engineOfPlain place =>
      place ++ ": \"class\" must only be specified for embedded microformats"
  | .noValue place =>
      place ++ ": cannot determine value to display; the attribute configuration "
        ++ "requires the \"attribute\", \"property\" or \"value\" element"
  | .brokenRules place faults =>
      "Invalid attribute specification: "
        ++ "; ".intercalate (faults.map fun f => placed place f.1 ++ ": " ++ f.2.message)
  | .emptyFormat => "The format specification cannot be empty."
  | .unknownFormat name => "Unknown format type: \"" ++ name ++ "\""
  | .modelKind => "The model must be either a mapping or an object."
  | .emptyDocument => "Empty microformat document provided"
  | .nullDocument => "Empty YAML document"
  | .documentKind kind => "Microformat document must be a dictionary/object, got " ++ kind
  | .documentIssues issues =>
      "Invalid microformat document: " ++ "; ".intercalate (issues.map Issue.documentLine)
  | .unknownLanguage name => "Unsupported parser type: " ++ name
  | .json line column problem =>
      "Invalid JSON syntax at line " ++ String.ofList (numeral line) ++ ", column "
        ++ String.ofList (numeral column) ++ ": " ++ problem
  | .yaml => "Invalid YAML syntax"

/-- The two kinds of coordinates. -/
inductive Axis where
  /-- Degrees north of the equator. -/
  | latitude
  /-- Degrees east of the first meridian. -/
  | longitude
  deriving DecidableEq, Repr

/-- The name of a kind of coordinate. -/
def Axis.name : Axis → String
  | .latitude => "latitude"
  | .longitude => "longitude"

/-- What is wrong with a coordinate format. -/
inductive FormatFault where
  /-- It has no directive for a number, or more than three. -/
  | count (format : String)
  /-- One of its directives cannot be used. -/
  | directive (written : String) (fault : DirectiveFault)
  deriving DecidableEq, Repr

/-- The message of a wrong coordinate format. -/
def FormatFault.message : FormatFault → String
  | .count format =>
      "Invalid coordinate format \"" ++ format ++ "\": expected 1 to 3 number directives"
  | .directive written fault =>
      let start := "Invalid coordinate format directive \"" ++ written ++ "\""
      if fault.detail = "" then start else start ++ ": " ++ fault.detail

/-- An operation that does not apply to its operands. -/
inductive Fault where
  /-- To values of this kind. -/
  | wrongType
  /-- To this value. -/
  | wrongValue
  /-- To numbers of this size. -/
  | overflow
  /-- To an object without this attribute. -/
  | missingAttribute
  /-- To a mapping without this key. -/
  | missingKey
  /-- To a list without this place. -/
  | missingIndex
  /-- To an undefined number. -/
  | undefined
  /-- To a moment that the clock cannot count. -/
  | distant
  /-- To a result that is too long to be written. -/
  | memory
  deriving DecidableEq, Repr

/-- Everything that can go wrong. -/
inductive Failure where
  /-- The configuration. -/
  | config (e : ConfigError)
  /-- A value that is no coordinate. -/
  | coordinate (axis : Axis) (shown : String)
  /-- A coordinate format. -/
  | format (fault : FormatFault)
  /-- A value that is no number. -/
  | notNumeric (shown : String)
  /-- A value that is no date. -/
  | notDate (shown : String)
  /-- Fields that do not validate. -/
  | invalid (issues : List Issue)
  /-- A setting in the environment that cannot be decoded. -/
  | environment
  /-- An operation that does not apply. -/
  | fault (f : Fault)
  deriving DecidableEq, Repr

/-- The message of a failure; faults of operations have none. -/
def Failure.message? : Failure → Option String
  | .config e => some e.message
  | .coordinate axis shown => some ("Invalid " ++ axis.name ++ " \"" ++ shown ++ "\"")
  | .format problem => some problem.message
  | .notNumeric shown => some ("\"" ++ shown ++ "\" is not a numeric value.")
  | .notDate shown => some ("\"" ++ shown ++ "\" is not a valid date value.")
  | .invalid issues => some ("; ".intercalate (issues.map Issue.line))
  | .environment => none
  | .fault _ => none

/-- The outcome of an operation that may fail. -/
abbrev Outcome (α : Type) := Except Failure α

/-- Fails because of the configuration. -/
def Outcome.configError {α : Type} (e : ConfigError) : Outcome α :=
  .error (.config e)

/-- Fails because an operation does not apply. -/
def Outcome.fault {α : Type} (f : Fault) : Outcome α :=
  .error (.fault f)

/-- Two steps succeed if the first one does, and the second one with its result. -/
theorem Outcome.bind_eq_ok_iff {ε α β : Type} {x : Except ε α} {f : α → Except ε β} {b : β} :
    (x >>= f) = .ok b ↔ ∃ a, x = .ok a ∧ f a = .ok b := by
  cases x with
  | error e => simp [bind, Except.bind]
  | ok a => simp [bind, Except.bind]

/-- A row of steps succeeds if all of them do. -/
theorem Outcome.mapM_id_eq_ok_iff {ε α : Type} {steps : List (Except ε α)} {as : List α} :
    steps.mapM id = .ok as ↔ steps = as.map .ok := by
  induction steps generalizing as with
  | nil => cases as <;> simp [pure, Except.pure]
  | cons step rest ih =>
      simp only [List.mapM_cons, id, bind_eq_ok_iff, ih]
      constructor
      · rintro ⟨a, ha, as', has, h⟩
        cases h
        simp [ha, has]
      · intro h
        cases as with
        | nil => simp at h
        | cons a as =>
            rw [List.map_cons, List.cons.injEq] at h
            exact ⟨a, h.1, as, h.2, rfl⟩

theorem Outcome.exists_of_isOk {α : Type} {o : Outcome α} (h : o.isOk = true) : ∃ a, o = .ok a := by
  cases o with
  | error e => cases h
  | ok a => exact ⟨a, rfl⟩

/-- An outcome is known by the value in it; a closed one is found so by computing. -/
theorem Outcome.eq_ok_of_toOption {α : Type} {o : Outcome α} {a : α} (h : o.toOption = some a) :
    o = .ok a := by
  cases o with
  | error e => cases h
  | ok b => rw [← Option.some.inj h]

/-- The failure of an outcome, if it is one. -/
def Outcome.failure? {α : Type} : Outcome α → Option Failure
  | .ok _ => none
  | .error e => some e

/-- A closed outcome that fails is known by computing its failure. -/
theorem Outcome.eq_error_of_failure? {α : Type} {o : Outcome α} {e : Failure}
    (h : o.failure? = some e) : o = .error e := by
  cases o with
  | error f => rw [← Option.some.inj h]
  | ok a => cases h

/-- Steps that do the same to every item do the same to the list. -/
theorem Outcome.mapM_congr {α β : Type} {f g : α → Outcome β} {as : List α}
    (h : ∀ a ∈ as, f a = g a) : as.mapM f = as.mapM g := by
  induction as with
  | nil => rfl
  | cons a rest ih =>
      rw [List.mapM_cons, List.mapM_cons, h a List.mem_cons_self,
        ih fun b hb => h b (List.mem_cons_of_mem _ hb)]

/-- A failed first step is the failure of both. -/
@[simp] theorem Outcome.error_bind {α β : Type} (e : Failure) (f : α → Outcome β) :
    ((.error e : Outcome α) >>= f) = .error e := rfl

/-- A plain value is handed on. -/
@[simp] theorem Outcome.ok_bind {α β : Type} (a : α) (f : α → Outcome β) :
    ((.ok a : Outcome α) >>= f) = f a := rfl

@[simp] theorem Outcome.pure_eq_ok {α : Type} (a : α) : (pure a : Outcome α) = .ok a := rfl

/-- A row of steps fails if one of them does. -/
theorem Outcome.exists_error_mapM_iff {α β : Type} {step : α → Outcome β} {as : List α} :
    (∃ e, as.mapM step = .error e) ↔ ∃ a ∈ as, ∃ e, step a = .error e := by
  induction as with
  | nil => simp
  | cons a rest ih =>
      rw [List.mapM_cons]
      cases hstep : step a with
      | error e => exact ⟨fun _ => ⟨a, List.mem_cons_self, e, hstep⟩, fun _ => ⟨e, rfl⟩⟩
      | ok b =>
          simp only [List.mem_cons, exists_eq_or_imp, hstep, reduceCtorEq, exists_false, false_or,
            ← ih, Outcome.ok_bind]
          cases rest.mapM step <;> simp

/-- In a row of steps that succeeds each step does. -/
theorem Outcome.exists_ok_of_mapM {α β : Type} {step : α → Outcome β} {as : List α} {bs : List β}
    (h : as.mapM step = .ok bs) {a : α} (ha : a ∈ as) : ∃ b, step a = .ok b := by
  cases hstep : step a with
  | ok b => exact ⟨b, rfl⟩
  | error e =>
      obtain ⟨e', he'⟩ := exists_error_mapM_iff.mpr ⟨a, ha, e, hstep⟩
      cases h.symm.trans he'

@[simp] theorem Outcome.configError_ne_ok {α : Type} (e : ConfigError) (a : α) :
    (Outcome.configError e : Outcome α) ≠ .ok a := nofun

@[simp] theorem Outcome.fault_ne_ok {α : Type} (f : Fault) (a : α) :
    (Outcome.fault f : Outcome α) ≠ .ok a := nofun

end SemanticMarkup
