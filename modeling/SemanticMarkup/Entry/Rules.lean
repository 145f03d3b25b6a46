import SemanticMarkup.Record.Basic
import SemanticMarkup.Entry.Shorthand

/-!
# The rules of entries

An entry is a mapping whose fields obey rules. An entry with a root type embeds
a microformat and has no other fields than those for it; a plain entry may carry
any further fields. All fields that break their rule are reported together,
ordered by name.
-/

namespace SemanticMarkup.Rules

/-- What is wrong with the value of a field. -/
abbrev Rule := Value → Option RuleFault

/-- A rule for values other than nothing. -/
def nullable (rule : Rule) : Rule
  | .null => none
  | v => rule v

/-- The value is not nothing. -/
def required (rule : Rule) : Rule
  | .null => some .nullValue
  | v => rule v

/-- The text is a hyphenated name. -/
def hyphenated : Rule
  | .text s => if isHyphenated s.toList then none else some .unhyphenated
  | .garbled _ => some .unhyphenated
  | _ => some (.kind "string")

/-- The value is a text. -/
def text : Rule
  | .text _ => none
  | .garbled _ => none
  | _ => some (.kind "string")

/-- The value is a text that is not empty. -/
def filledText : Rule
  | .text s => if s = "" then some .empty else none
  | .garbled _ => none
  | _ => some (.kind "string")

/-- The value is a mapping. -/
def mapping : Rule
  | .dict _ => none
  | _ => some (.kind "dict")

/-- The value is a truth value. -/
def truth : Rule
  | .bool _ => none
  | _ => some (.kind "boolean")

/-- The value is a sequence. -/
def sequence : Rule
  | .list _ => none
  | .tuple _ => none
  | .bytes _ => none
  | _ => some (.kind "list")

/-- The value is a text or a sequence, and not empty. -/
def format : Rule
  | .text s => if s = "" then some .empty else none
  | .garbled _ => none
  | .list items => if items.isEmpty then some .empty else none
  | .tuple items => if items.isEmpty then some .empty else none
  | .bytes bs => if bs.isEmpty then some .empty else none
  | _ => some .textOrList

/-- The value can be used as a template. -/
def template (v : Value) : Option RuleFault :=
  if Template.isTemplate v then none else some .template

/-- Any value will do. -/
def anything (_ : Value) : Option RuleFault := none

/-- The rules that hold for all entries. -/
def common : List (String × Rule) :=
  [("property", nullable hyphenated), ("options", nullable mapping),
    ("visible", nullable truth), ("template", nullable template)]

/-- The rules for plain entries. -/
def plain : List (String × Rule) :=
  common ++ [("attribute", nullable filledText), ("label", nullable text),
    ("value", anything), ("format", nullable format), ("embedded", nullable text)]

/-- The rules for entries that embed a microformat. -/
def embedding : List (String × Rule) :=
  common ++ [("microformat", required hyphenated), ("model", anything),
    ("class", nullable filledText), ("attributes", nullable sequence), ("label", anything)]

/-- What is wrong with a field under some rules. -/
def fieldFault (rules : List (String × Rule)) (openEnded : Bool) (key value : Value) :
    Option RuleFault :=
  match rules.find? fun r => key.sameKey (.text r.1) with
  | some rule => rule.2 value
  | none => if openEnded then none else some .unknown

/-- The fields of an entry that break their rule, in the order of the entry. -/
def faults (entries : Entries) : List (Value × RuleFault) :=
  let embeds := entries.hasName "microformat"
  let rules := if embeds then embedding else plain
  entries.filterMap fun e => (fieldFault rules (!embeds) e.1 e.2).map fun f => (e.1, f)

/-- The code points of the name of a field, if it is a text. -/
def codePoints? : Value → Option (List Nat)
  | .text s => some (s.toList.map Char.toNat)
  | .garbled codes => some codes
  | _ => none

/-- Whether the name of one field comes before that of another. Numbers and texts among the names
come before names of another kind; two names of other kinds cannot be compared. -/
def precedes (key other : Value) : Outcome Bool :=
  let number? (v : Value) : Option Int :=
    match v with
    | .bool b => some (if b then 1 else 0)
    | .int n => some n
    | _ => none
  match number? key, number? other with
  | some m, some n => .ok (decide (m < n))
  | some _, none => .ok true
  | none, _ =>
      match codePoints? key, codePoints? other with
      | some s, some t => .ok (decide (s < t))
      | some _, none => .ok true
      | none, _ =>
          match key, other with
          | .tuple _, .tuple _ => .ok false
          | .tuple _, _ => .ok true
          | _, _ => if key.sameKey other then .ok false else Outcome.fault .wrongType

/-- Puts a fault in front of the first one that it precedes. -/
def insertFault (fault : Value × RuleFault) :
    List (Value × RuleFault) → Outcome (List (Value × RuleFault))
  | [] => .ok [fault]
  | other :: rest => do
      if ← precedes fault.1 other.1 then return fault :: other :: rest
      else return other :: (← insertFault fault rest)

/-- Faults ordered by the names of their fields. -/
def ordered (faults : List (Value × RuleFault)) : Outcome (List (Value × RuleFault)) :=
  faults.foldlM (fun sorted fault => insertFault fault sorted) []

/-- Faults with the texts of the names of their fields. -/
def lines (faults : List (Value × RuleFault)) : Outcome (List (String × RuleFault)) :=
  faults.mapM fun f => do return (← f.1.asText, f.2)

/-- Checks an entry at a place. -/
def check (entries : Entries) (place : String) : Outcome Unit := do
  let faults ← ordered (faults entries)
  if faults.isEmpty then return ()
  else Outcome.configError (.brokenRules place (← lines faults))

/-- A fault that is put into a row is added to it. -/
theorem perm_insertFault {fault : Value × RuleFault} {row longer : List (Value × RuleFault)}
    (h : insertFault fault row = .ok longer) : longer.Perm (fault :: row) := by
  induction row generalizing longer with
  | nil =>
      rw [insertFault, Except.ok.injEq] at h
      rw [h]
  | cons other rest ih =>
      rw [insertFault, Outcome.bind_eq_ok_iff] at h
      obtain ⟨first, -, h⟩ := h
      cases first with
      | true =>
          simp only [if_true, Outcome.pure_eq_ok, Except.ok.injEq] at h
          rw [h]
      | false =>
          simp only [Bool.false_eq_true, if_false, Outcome.bind_eq_ok_iff, Outcome.pure_eq_ok,
            Except.ok.injEq] at h
          obtain ⟨inserted, hi, rfl⟩ := h
          exact ((ih hi).cons other).trans (.swap fault other rest)

theorem perm_foldlM_insertFault {faults row sorted : List (Value × RuleFault)}
    (h : faults.foldlM (fun sorted fault => insertFault fault sorted) row = .ok sorted) :
    sorted.Perm (faults ++ row) := by
  induction faults generalizing row with
  | nil =>
      rw [List.foldlM_nil, Outcome.pure_eq_ok, Except.ok.injEq] at h
      rw [h, List.nil_append]
  | cons fault rest ih =>
      rw [List.foldlM_cons, Outcome.bind_eq_ok_iff] at h
      obtain ⟨longer, hl, h⟩ := h
      exact (ih h).trans (((perm_insertFault hl).append_left rest).trans List.perm_middle)

/-- Putting faults in order loses none of them. -/
theorem perm_ordered {faults sorted : List (Value × RuleFault)} (h : ordered faults = .ok sorted) :
    sorted.Perm faults := by
  have hperm := perm_foldlM_insertFault h
  rwa [List.append_nil] at hperm

/-- An entry passes exactly if no field breaks its rule. The place is used in messages only. -/
theorem check_eq_ok_iff (entries : Entries) (place : String) :
    check entries place = .ok () ↔ faults entries = [] := by
  rw [check, Outcome.bind_eq_ok_iff]
  constructor
  · rintro ⟨sorted, hs, h⟩
    cases sorted with
    | nil => exact (perm_ordered hs).symm.eq_nil
    | cons f rest =>
        rw [List.isEmpty_cons, if_neg Bool.false_ne_true, Outcome.bind_eq_ok_iff] at h
        obtain ⟨named, -, h⟩ := h
        cases h
  · intro h
    exact ⟨[], by rw [h]; rfl, rfl⟩

/-- Every field of a faultless entry meets its rule. -/
theorem fieldFault_of_faults_eq_nil {entries : Entries} (h : faults entries = [])
    {e : Value × Value} (he : e ∈ entries) :
    fieldFault (if entries.hasName "microformat" then embedding else plain)
      (!entries.hasName "microformat") e.1 e.2 = none := by
  have hn := List.filterMap_eq_nil_iff.mp h e he
  simpa using hn

end SemanticMarkup.Rules
