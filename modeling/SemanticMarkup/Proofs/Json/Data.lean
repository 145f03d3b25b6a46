import SemanticMarkup.Proofs.Json.Strings

/-!
# Data for JSON

JSON is written of data: nothing, truth values, numbers, strings, sequences and mappings. It keeps
less than that. Tuples come back as lists, names of members come back as strings, and doubles come
back as their decimals are rounded; the rest comes back as it was.
-/

namespace SemanticMarkup.Json

/-! ## Data that is written -/

/-- Whether a value can be the name of a member. -/
def isName : Value → Bool
  | .null => true
  | .bool _ => true
  | .int _ => true
  | .float _ => true
  | .text _ => true
  | .garbled _ => true
  | _ => false

mutual

/-- Whether a value is data: made of nothing, truth values, numbers, strings, sequences and
mappings. -/
def isData : Value → Bool
  | .null => true
  | .bool _ => true
  | .int _ => true
  | .float _ => true
  | .text _ => true
  | .garbled _ => true
  | .list items => areData items
  | .tuple items => areData items
  | .dict entries => areDataMembers entries
  | _ => false

/-- Whether all values of a row are data. -/
def areData : List Value → Bool
  | [] => true
  | v :: vs => isData v && areData vs

/-- Whether the entries of a mapping are data, under names. -/
def areDataMembers : List (Value × Value) → Bool
  | [] => true
  | (k, v) :: rest => isName k && isData v && areDataMembers rest

end

theorem isOk_map {α β : Type} (o : Outcome α) (f : α → β) :
    (do return f (← o)).isOk = o.isOk := by
  cases o <;> rfl

theorem isOk_map₂ {α β γ : Type} (o : Outcome α) (o' : Outcome β) (f : α → β → γ) :
    (do
      let first ← o
      let second ← o'
      return f first second).isOk = (o.isOk && o'.isOk) := by
  cases o <;> cases o' <;> rfl

theorem isOk_writeInt (n : Int) : (writeInt n).isOk = (Value.int n).isWritable := by
  rw [writeInt]
  cases (Value.int n).isWritable <;> rfl

theorem isOk_writeKey (k : Value) : (writeKey k).isOk = (isName k && k.isWritable) := by
  cases k with
  | bool b => cases b <;> rfl
  | int n => exact (isOk_map _ _).trans (isOk_writeInt n)
  | _ => rfl

mutual

/-- A value can be written as JSON if it is data and no integer in it has too many digits. -/
theorem isOk_write (v : Value) : (write v).isOk = (isData v && v.isWritable) := by
  cases v with
  | bool b => cases b <;> rfl
  | int n => exact isOk_writeInt n
  | list items => exact (isOk_map _ _).trans (isOk_writeItems items)
  | tuple items => exact (isOk_map _ _).trans (isOk_writeItems items)
  | dict entries => exact (isOk_map _ _).trans (isOk_writeEntries entries)
  | _ => rfl

theorem isOk_writeItems (items : List Value) :
    (writeItems items).isOk = (areData items && Value.areWritable items) := by
  cases items with
  | nil => rfl
  | cons v vs =>
      have hboth : (writeItems (v :: vs)).isOk = ((write v).isOk && (writeItems vs).isOk) :=
        isOk_map₂ _ _ _
      rw [hboth, isOk_write v, isOk_writeItems vs, areData, Value.areWritable]
      ac_rfl

theorem isOk_writeEntries (entries : List (Value × Value)) :
    (writeEntries entries).isOk = (areDataMembers entries && Value.areWritableEntries entries) := by
  cases entries with
  | nil => rfl
  | cons e entries =>
      obtain ⟨k, v⟩ := e
      have hall : (writeEntries ((k, v) :: entries)).isOk =
          ((writeKey k).isOk && ((write v).isOk && (writeEntries entries).isOk)) := by
        rw [writeEntries]
        cases writeKey k with
        | error e => rfl
        | ok key => exact isOk_map₂ _ _ _
      rw [hall, isOk_writeKey k, isOk_write v, isOk_writeEntries entries, areDataMembers,
        Value.areWritableEntries]
      ac_rfl

end

theorem exists_write {v : Value} (hdata : isData v = true) (hwritable : v.isWritable = true) :
    ∃ cs, write v = .ok cs :=
  Outcome.exists_of_isOk (by rw [isOk_write, hdata, hwritable]; rfl)

/-! ## Data that is kept -/

/-- A mapping has no key twice. -/
def DistinctKeys (entries : Entries) : Prop :=
  entries.Pairwise fun e f => e.1.sameKey f.1 = false

instance (entries : Entries) : Decidable (DistinctKeys entries) :=
  inferInstanceAs (Decidable (List.Pairwise _ _))

/-- Code points that make a text with some that no character has, no two of which are read as
one. -/
def isGarbled (codes : List Nat) : Bool :=
  decide (Unpaired codes) && !codes.all fun code => decide code.isValidChar

/-- Whether a value is a string that JSON keeps. -/
def isKeptString : Value → Bool
  | .text _ => true
  | .garbled codes => isGarbled codes
  | _ => false

mutual

/-- Whether a value is data that JSON keeps: nothing, truth values, integers, strings, lists of
such data, and mappings from strings to such data. -/
def isKept : Value → Bool
  | .null => true
  | .bool _ => true
  | .int _ => true
  | .text _ => true
  | .garbled codes => isGarbled codes
  | .list items => areKept items
  | .dict entries => areKeptMembers entries && decide (DistinctKeys entries)
  | _ => false

/-- Whether all values of a row are data that JSON keeps. -/
def areKept : List Value → Bool
  | [] => true
  | v :: vs => isKept v && areKept vs

/-- Whether the entries of a mapping are data that JSON keeps, under strings. -/
def areKeptMembers : List (Value × Value) → Bool
  | [] => true
  | (k, v) :: rest => isKeptString k && isKept v && areKeptMembers rest

end

/-- Entries with different keys are those of a mapping. -/
theorem ofPairs_of_distinctKeys {entries : Entries} (h : DistinctKeys entries) :
    Entries.ofPairs entries = entries := by
  have hfold : ∀ (rest acc : Entries), DistinctKeys (acc ++ rest) →
      rest.foldl (fun entries e => Entries.put entries e.1 e.2) acc = acc ++ rest := by
    intro rest
    induction rest with
    | nil => exact fun acc _ => (List.append_nil acc).symm
    | cons e rest ih =>
        intro acc hacc
        have hnew : ¬ (acc.any fun f => f.1.sameKey e.1) = true := by
          rw [List.any_eq_true]
          rintro ⟨f, hf, hsame⟩
          rw [(List.pairwise_append.mp hacc).2.2 f hf e List.mem_cons_self] at hsame
          cases hsame
        have happend : acc ++ e :: rest = (acc ++ [e]) ++ rest := by simp
        rw [List.foldl_cons, Entries.put, if_neg hnew, happend]
        exact ih _ (happend ▸ hacc)
  exact hfold entries [] h

end SemanticMarkup.Json
