import SemanticMarkup.Value.Basic

/-!
# Look-up in mappings

A text is the same key as itself only, so that a look-up by name sees the first
entry whose key is that text. The lemmas say what the look-up finds in joined
entries, in the entries of named values, in any order, and after an entry was put.
-/

namespace SemanticMarkup

/-- No number is in reach of a text. -/
theorem Value.reduced?_text (s : String) : (Value.text s).reduced? = none := rfl

/-- No infinite number is in reach of a text. -/
theorem Value.infinity?_text (s : String) : (Value.text s).infinity? = none := rfl

/-- A text is the same key as itself only. -/
theorem Value.sameKey_text_iff (k : Value) (s : String) :
    k.sameKey (.text s) = true ↔ k = .text s := by
  cases k <;> simp [Value.sameKey, Value.reduced?_text, Value.infinity?_text]

/-- Whether a value is a given text is decided by comparing keys. -/
instance Value.decidableEqText (k : Value) (s : String) : Decidable (k = .text s) :=
  decidable_of_iff _ (Value.sameKey_text_iff k s)

@[simp] theorem Value.isNull_iff (v : Value) : v.isNull = true ↔ v = .null := by
  cases v <;> simp [Value.isNull]

@[simp] theorem Value.isNull_eq_false_iff (v : Value) : v.isNull = false ↔ v ≠ .null := by
  cases v <;> simp [Value.isNull]

namespace Entries

variable {name other : String} {v : Value}

@[simp] theorem named?_nil (name : String) : Entries.named? [] name = none := rfl

theorem named?_cons (k v : Value) (entries : Entries) (name : String) :
    Entries.named? ((k, v) :: entries) name =
      if k = .text name then some v else Entries.named? entries name := by
  by_cases h : k = .text name
  · have hs : k.sameKey (.text name) = true := (Value.sameKey_text_iff k name).mpr h
    rw [if_pos h]
    simp only [Entries.named?, Entries.lookup?, List.find?_cons, hs, Option.map_some]
  · have hs : k.sameKey (.text name) = false :=
      Bool.eq_false_iff.mpr fun hk => h ((Value.sameKey_text_iff k name).mp hk)
    rw [if_neg h]
    simp only [Entries.named?, Entries.lookup?, List.find?_cons, hs]

/-- Entries in front hide those behind them. -/
theorem named?_append (front back : Entries) (name : String) :
    Entries.named? (front ++ back) name =
      (Entries.named? front name).or (Entries.named? back name) := by
  induction front with
  | nil => simp
  | cons e rest ih =>
      obtain ⟨k, v⟩ := e
      rw [List.cons_append, named?_cons, named?_cons, ih]
      by_cases h : k = .text name <;> simp [h]

/-- What a look-up finds is one of the entries. -/
theorem mem_of_named? {entries : Entries} (h : Entries.named? entries name = some v) :
    (Value.text name, v) ∈ entries := by
  induction entries with
  | nil => simp at h
  | cons e rest ih =>
      obtain ⟨k, w⟩ := e
      rw [named?_cons] at h
      by_cases hk : k = .text name
      · rw [if_pos hk, Option.some.injEq] at h
        simp [hk, h]
      · rw [if_neg hk] at h
        exact List.mem_cons_of_mem _ (ih h)

/-- Nothing is found where no key is the text. -/
theorem named?_eq_none_iff (entries : Entries) (name : String) :
    Entries.named? entries name = none ↔ ∀ e ∈ entries, e.1 ≠ .text name := by
  induction entries with
  | nil => simp
  | cons e rest ih =>
      obtain ⟨k, v⟩ := e
      rw [named?_cons]
      by_cases h : k = .text name <;> simp [h, ih]

/-- Named values are found under their names. -/
theorem named?_ofFields (fields : Fields) (name : String) :
    Entries.named? (Entries.ofFields fields) name = Fields.named? fields name := by
  induction fields with
  | nil => rfl
  | cons f rest ih =>
      obtain ⟨n, v⟩ := f
      have hf : Entries.ofFields ((n, v) :: rest) = (.text n, v) :: Entries.ofFields rest := rfl
      rw [hf, named?_cons, ih]
      by_cases h : n = name <;> simp [Fields.named?, h]

/-- An entry is replaced where there is one with the name. -/
theorem putName_of_mem {entries : Entries} (v : Value) (h : ∃ e ∈ entries, e.1 = .text name) :
    Entries.putName entries name v =
      entries.map fun e => if e.1 = .text name then (e.1, v) else e := by
  simp only [Entries.putName, Entries.put, List.any_eq_true, Value.sameKey_text_iff, if_pos h]

/-- A new name comes last. -/
theorem putName_of_not_mem {entries : Entries} (v : Value)
    (h : ¬ ∃ e ∈ entries, e.1 = .text name) :
    Entries.putName entries name v = entries ++ [(.text name, v)] := by
  simp only [Entries.putName, Entries.put, List.any_eq_true, Value.sameKey_text_iff, if_neg h]

/-- Named values stay in place when one of them gets another value. -/
theorem putName_ofFields {fields : Fields} (v : Value)
    (h : ∃ e ∈ Entries.ofFields fields, e.1 = .text name) :
    ∃ others : Fields, Entries.putName (Entries.ofFields fields) name v = Entries.ofFields others ∧
      others.map Prod.fst = fields.map Prod.fst := by
  refine ⟨fields.map fun f => if f.1 = name then (f.1, v) else f, ?_, ?_⟩
  · rw [putName_of_mem v h, ofFields, ofFields, List.map_map, List.map_map]
    apply List.map_congr_left
    intro f hf
    by_cases hname : f.1 = name <;> simp [hname]
  · rw [List.map_map]
    apply List.map_congr_left
    intro f hf
    by_cases hname : f.1 = name <;> simp [hname]

/-- An entry after one was put is that one or an old one. -/
theorem mem_putName {entries : Entries} {e : Value × Value}
    (h : e ∈ Entries.putName entries name v) : e ∈ entries ∨ e = (.text name, v) := by
  by_cases hm : ∃ e ∈ entries, e.1 = .text name
  · rw [putName_of_mem v hm, List.mem_map] at h
    obtain ⟨old, ho, rfl⟩ := h
    by_cases hk : old.1 = .text name
    · exact .inr (by rw [if_pos hk, hk])
    · exact .inl (by rwa [if_neg hk])
  · rw [putName_of_not_mem v hm, List.mem_append, List.mem_singleton] at h
    exact h

/-- The value that was put is found. -/
theorem named?_putName_self (entries : Entries) (name : String) (v : Value) :
    Entries.named? (Entries.putName entries name v) name = some v := by
  by_cases h : ∃ e ∈ entries, e.1 = .text name
  · rw [putName_of_mem v h]
    induction entries with
    | nil => simp at h
    | cons e rest ih =>
        obtain ⟨k, w⟩ := e
        by_cases hk : k = .text name
        · simp [hk, named?_cons]
        · simp only [List.mem_cons, exists_eq_or_imp, hk, false_or] at h
          simp [hk, named?_cons, ih h]
  · have hn : Entries.named? entries name = none := by
      rw [named?_eq_none_iff]
      exact fun e he hk => h ⟨e, he, hk⟩
    simp [putName_of_not_mem v h, named?_append, hn, named?_cons]

/-- Other names keep their values. -/
theorem named?_putName_of_ne (entries : Entries) (v : Value) (h : other ≠ name) :
    Entries.named? (Entries.putName entries name v) other = Entries.named? entries other := by
  by_cases hm : ∃ e ∈ entries, e.1 = .text name
  · rw [putName_of_mem v hm]
    clear hm
    induction entries with
    | nil => rfl
    | cons e rest ih =>
        obtain ⟨k, w⟩ := e
        by_cases hk : k = .text name
        · simp [hk, named?_cons, ih, h.symm]
        · simp [hk, named?_cons, ih]
  · simp [putName_of_not_mem v hm, named?_append, named?_cons, h.symm]

theorem valueOf_putName_self (entries : Entries) (name : String) (v : Value) :
    (Entries.putName entries name v).valueOf name = v := by
  rw [Entries.valueOf, named?_putName_self, Option.getD_some]

theorem valueOf_putName_of_ne (entries : Entries) (v : Value) (h : other ≠ name) :
    (Entries.putName entries name v).valueOf other = entries.valueOf other := by
  rw [Entries.valueOf, named?_putName_of_ne entries v h, Entries.valueOf]

theorem hasName_putName_of_ne (entries : Entries) (v : Value) (h : other ≠ name) :
    (Entries.putName entries name v).hasName other = entries.hasName other := by
  rw [Entries.hasName, named?_putName_of_ne entries v h, Entries.hasName]

theorem hasName_of_valueOf_ne_null {entries : Entries} (h : entries.valueOf name ≠ .null) :
    entries.hasName name = true := by
  cases hn : Entries.named? entries name with
  | none => exact absurd (by rw [Entries.valueOf, hn, Option.getD_none]) h
  | some v => rw [Entries.hasName, hn, Option.isSome_some]

theorem valueOf_eq_of_named? {entries : Entries} (h : Entries.named? entries name = some v) :
    entries.valueOf name = v := by
  simp [Entries.valueOf, h]

theorem valueOf_eq_null_of_named? {entries : Entries} (h : Entries.named? entries name = none) :
    entries.valueOf name = .null := by
  simp [Entries.valueOf, h]

section Put

variable {entries : Entries}

theorem hasName_iff : entries.hasName name = true ↔ ∃ e ∈ entries, e.1 = .text name := by
  rw [hasName, Option.isSome_iff_ne_none, Ne, named?_eq_none_iff]
  simp

/-- A value that is put takes the place of the old one, or comes last. -/
theorem keys_putName (v : Value) : (entries.putName name v).map Prod.fst =
    entries.map Prod.fst ++ if entries.hasName name then [] else [.text name] := by
  by_cases h : ∃ e ∈ entries, e.1 = .text name
  · rw [putName_of_mem v h, if_pos (hasName_iff.mpr h), List.append_nil, List.map_map]
    refine List.map_congr_left fun e _ => ?_
    by_cases he : e.1 = .text name <;> simp [he]
  · rw [putName_of_not_mem v h, if_neg (mt hasName_iff.mp h), List.map_append]
    rfl

/-- A value that is put changes no other entry. -/
theorem dropName_putName (v : Value) :
    (entries.putName name v).dropName name = entries.dropName name := by
  have hself : (Value.text name).sameKey (.text name) = true :=
    (Value.sameKey_text_iff _ _).mpr rfl
  by_cases h : ∃ e ∈ entries, e.1 = .text name
  · rw [putName_of_mem v h]
    clear h
    induction entries with
    | nil => rfl
    | cons e rest ih =>
        rw [dropName] at ih ⊢
        rw [List.map_cons, List.filter_cons, ih]
        by_cases he : e.1 = .text name <;> simp [he, hself, dropName, List.filter_cons]
  · rw [putName_of_not_mem v h, dropName, List.filter_append]
    simp [hself, dropName]

/-- Of two values that are put one after the other the last one stays. -/
theorem putName_putName (v w : Value) :
    (entries.putName name v).putName name w = entries.putName name w := by
  by_cases h : ∃ e ∈ entries, e.1 = .text name
  · have hput : ∃ e ∈ entries.putName name v, e.1 = .text name := by
      obtain ⟨e, he, hname⟩ := h
      rw [putName_of_mem v ⟨e, he, hname⟩]
      exact ⟨_, List.mem_map_of_mem he, by simp [hname]⟩
    rw [putName_of_mem w hput, putName_of_mem v h, putName_of_mem w h, List.map_map]
    refine List.map_congr_left fun e _ => ?_
    by_cases he : e.1 = .text name <;> simp [he]
  · have hput : ∃ e ∈ entries.putName name v, e.1 = .text name := by
      rw [putName_of_not_mem v h]
      exact ⟨_, List.mem_append_right _ (List.mem_singleton_self _), rfl⟩
    rw [putName_of_mem w hput, putName_of_not_mem v h, putName_of_not_mem w h, List.map_append,
      List.map_singleton, if_pos rfl]
    congr 1
    refine (List.map_congr_left fun e he => ?_).trans (List.map_id _)
    exact if_neg fun hname => h ⟨e, he, hname⟩

end Put

end Entries

/-- The entries are some named values, in any order; a name without a value may be missing. -/
structure Entries.Carries (entries : Entries) (fields : Fields) : Prop where
  listed : ∀ e ∈ entries, e ∈ Entries.ofFields fields
  complete : ∀ e ∈ Entries.ofFields fields, e.2 ≠ .null → e ∈ entries

theorem Fields.named?_of_mem {fields : Fields} (hnodup : (fields.map Prod.fst).Nodup)
    {name : String} {v : Value} (h : (name, v) ∈ fields) : Fields.named? fields name = some v := by
  induction fields with
  | nil => cases h
  | cons f rest ih =>
      obtain ⟨hf, hrest⟩ := List.nodup_cons.mp hnodup
      obtain rfl | h := List.mem_cons.mp h
      · simp [Fields.named?]
      · have hne : f.1 ≠ name := by
          rintro rfl
          exact hf (List.mem_map.mpr ⟨_, h, rfl⟩)
        have htail := ih hrest h
        rw [Fields.named?] at htail ⊢
        rw [List.find?_cons_of_neg (by simpa using hne), htail]

theorem Entries.mem_ofFields {fields : Fields} {name : String} {v : Value} :
    (Value.text name, v) ∈ Entries.ofFields fields ↔ (name, v) ∈ fields := by
  simp [Entries.ofFields]

theorem Entries.carries_ofFields (fields : Fields) : (Entries.ofFields fields).Carries fields :=
  ⟨fun _ h => h, fun _ h _ => h⟩

/-- Entries have no other names than those of the values. -/
theorem Entries.Carries.named?_eq_none {entries : Entries} {fields : Fields}
    (h : entries.Carries fields) {name : String} (hname : name ∉ fields.map Prod.fst) :
    Entries.named? entries name = none := by
  cases hentry : Entries.named? entries name with
  | none => rfl
  | some v =>
      have hmem := Entries.mem_ofFields.mp (h.listed _ (Entries.mem_of_named? hentry))
      exact absurd (List.mem_map.mpr ⟨_, hmem, rfl⟩) hname

/-- Entries give each of the names the value that it has. -/
theorem Entries.Carries.valueOf {entries : Entries} {fields : Fields} (h : entries.Carries fields)
    (hnodup : (fields.map Prod.fst).Nodup) (name : String) :
    entries.valueOf name = Fields.valueOf fields name := by
  cases hentry : Entries.named? entries name with
  | some v =>
      have hmem := Entries.mem_ofFields.mp (h.listed _ (Entries.mem_of_named? hentry))
      rw [Entries.valueOf, hentry, Fields.valueOf, Fields.named?_of_mem hnodup hmem]
  | none =>
      rw [Entries.valueOf, hentry, Fields.valueOf, ← Entries.named?_ofFields]
      cases hfield : Entries.named? (Entries.ofFields fields) name with
      | none => rfl
      | some v =>
          rw [Option.getD_none, Option.getD_some]
          by_cases hv : v = .null
          · exact hv.symm
          · have hmem := h.complete _ (Entries.mem_of_named? hfield) hv
            exact absurd rfl ((Entries.named?_eq_none_iff entries name).mp hentry _ hmem)

end SemanticMarkup
