import SemanticMarkup.Proofs.Record.Reads

/-!
# Reading options

Options are read as a mapping from texts. Every name comes once in what is read,
with the last value that it was given; options in this form are read as they
are. A key in bytes counts as the text that they encode, so it takes the place of
a text key before it.
-/

namespace SemanticMarkup

/-- Whether a key is read as a name: it is this text, or the bytes of it. -/
def Value.Spells (key : Value) (name : String) : Prop :=
  key = .text name ∨ ∃ bs, key = .bytes bs ∧ Text.decodeUtf8? bs = some name

/-- Behind a name of the entries there is a key that spells it in bytes. -/
def Entries.Overridden (entries : Entries) (name : String) : Prop :=
  ∃ front back v, entries = front ++ (.text name, v) :: back ∧
    ∃ e ∈ back, ∃ bs, e.1 = .bytes bs ∧ Text.decodeUtf8? bs = some name

theorem Entries.Overridden.cons {entries : Entries} {name : String} (e : Value × Value)
    (h : entries.Overridden name) : Entries.Overridden (e :: entries) name := by
  obtain ⟨front, back, v, rfl, hback⟩ := h
  exact ⟨e :: front, back, v, rfl, hback⟩

/-- Unless the name is overridden, no key behind the value that is put spells it. -/
theorem Entries.putName_split {entries : Entries} {name : String} (v : Value)
    (h : ¬ entries.Overridden name) :
    ∃ front back, Entries.putName entries name v = front ++ (.text name, v) :: back ∧
      ∀ e ∈ back, ¬ e.1.Spells name := by
  by_cases hnamed : ∃ e ∈ entries, e.1 = .text name
  · rw [putName_of_mem v hnamed]
    induction entries with
    | nil => simp at hnamed
    | cons e rest ih =>
        by_cases hrest : ∃ e ∈ rest, e.1 = .text name
        · obtain ⟨front, back, heq, hback⟩ := ih (fun hover => h (hover.cons e)) hrest
          exact ⟨_ :: front, back, by rw [List.map_cons, heq, List.cons_append], hback⟩
        · -- the last entry of this name: nothing behind it has the name as a text
          have hself : e.1 = .text name := by
            obtain ⟨f, hf, hname⟩ := hnamed
            obtain rfl | hf := List.mem_cons.mp hf
            · exact hname
            · exact absurd ⟨f, hf, hname⟩ hrest
          have hmap : (rest.map fun e => if e.1 = .text name then (e.1, v) else e) = rest := by
            rw [List.map_congr_left (g := id), List.map_id]
            intro f hf
            exact if_neg fun hname => hrest ⟨f, hf, hname⟩
          refine ⟨[], rest, ?_, ?_⟩
          · rw [List.map_cons, if_pos hself, hself, hmap, List.nil_append]
          · rintro f hf (htext | ⟨bs, hbytes, hdecode⟩)
            · exact hrest ⟨f, hf, htext⟩
            · have hsplit : e :: rest = [] ++ (.text name, e.2) :: rest := by
                rw [← hself, List.nil_append]
              exact h ⟨[], rest, e.2, hsplit, f, hf, bs, hbytes, hdecode⟩
  · exact ⟨entries, [], putName_of_not_mem v hnamed, by simp⟩

namespace Reading

variable {α : Type} {named : List (String × α)} {name : String}

theorem assign_of_mem {f : String × α} (h : f.1 ∈ named.map Prod.fst) :
    assign named f = named.map fun g => if g.1 = f.1 then f else g := by
  have hany : (named.any fun g => g.1 == f.1) = true := by
    simp only [List.any_eq_true, beq_iff_eq]
    obtain ⟨g, hg, heq⟩ := List.mem_map.mp h
    exact ⟨g, hg, heq⟩
  simp only [assign, hany, if_true, beq_iff_eq]

theorem assign_of_not_mem {f : String × α} (h : f.1 ∉ named.map Prod.fst) :
    assign named f = named ++ [f] := by
  have hany : (named.any fun g => g.1 == f.1) = false := by
    rw [Bool.eq_false_iff]
    intro hany
    simp only [List.any_eq_true, beq_iff_eq] at hany
    obtain ⟨g, hg, heq⟩ := hany
    exact h (List.mem_map.mpr ⟨g, hg, heq⟩)
  rw [assign, hany, if_neg Bool.false_ne_true]

/-- Assigning keeps the names in place, or adds the new one at the end. -/
theorem names_assign (f : String × α) :
    (assign named f).map Prod.fst =
      if f.1 ∈ named.map Prod.fst then named.map Prod.fst else named.map Prod.fst ++ [f.1] := by
  by_cases h : f.1 ∈ named.map Prod.fst
  · rw [assign_of_mem h, if_pos h, List.map_map]
    apply List.map_congr_left
    intro g hg
    by_cases hname : g.1 = f.1
    · simp [hname]
    · simp [hname]
  · rw [assign_of_not_mem h, if_neg h, List.map_append, List.map_singleton]

theorem nodup_names_assign (h : (named.map Prod.fst).Nodup) (f : String × α) :
    ((assign named f).map Prod.fst).Nodup := by
  rw [names_assign]
  split
  · exact h
  · rename_i hf
    rw [List.nodup_append]
    refine ⟨h, by simp, ?_⟩
    rintro n hn m hm rfl
    rw [List.mem_singleton] at hm
    exact hf (hm ▸ hn)

theorem nodup_names_lastNamed (named : List (String × α)) :
    ((lastNamed named).map Prod.fst).Nodup := by
  have hfold : ∀ (rest acc : List (String × α)), (acc.map Prod.fst).Nodup →
      ((rest.foldl assign acc).map Prod.fst).Nodup := by
    intro rest
    induction rest with
    | nil => exact fun _ h => h
    | cons f rest ih => exact fun acc h => ih _ (nodup_names_assign h f)
  exact hfold named [] List.nodup_nil

/-- A value that takes the place of another is found under its name. -/
theorem find?_map_replace (named : List (String × α)) (f : String × α) (name : String) :
    ((named.map fun g => if g.1 = f.1 then f else g).find? fun g => g.1 == name) =
      if f.1 = name ∧ f.1 ∈ named.map Prod.fst then some f
      else named.find? fun g => g.1 == name := by
  induction named with
  | nil => simp
  | cons g rest ih =>
      rw [List.map_cons, List.find?_cons, List.find?_cons, ih]
      by_cases hname : f.1 = name
      · subst hname
        by_cases hg : g.1 = f.1
        · simp [hg]
        · have hne : f.1 ≠ g.1 := Ne.symm hg
          have hother : (g.1 == f.1) = false := beq_eq_false_iff_ne.mpr hg
          simp only [hg, if_false, hother, List.map_cons, List.mem_cons, hne, false_or]
      · have hother : (f.1 == name) = false := beq_eq_false_iff_ne.mpr hname
        by_cases hg : g.1 = f.1 <;> simp [hg, hname, hother]

/-- After a value was assigned, it is found under its name. -/
theorem find?_assign (f : String × α) (name : String) :
    ((assign named f).find? fun g => g.1 == name) =
      if f.1 = name then some f else named.find? fun g => g.1 == name := by
  by_cases h : f.1 ∈ named.map Prod.fst
  · rw [assign_of_mem h, find?_map_replace]
    simp only [h, and_true]
  · rw [assign_of_not_mem h, List.find?_append]
    by_cases hname : f.1 = name
    · have hnone : named.find? (fun g => g.1 == name) = none := by
        rw [List.find?_eq_none]
        intro g hg heq
        exact h (List.mem_map.mpr ⟨g, hg, (beq_iff_eq.mp heq).trans hname.symm⟩)
      simp [hnone, hname]
    · simp [hname]

/-- Of several values of a name the last one is found. -/
theorem find?_lastNamed (named : List (String × α)) (name : String) :
    ((lastNamed named).find? fun g => g.1 == name) =
      named.reverse.find? fun g => g.1 == name := by
  have hfold : ∀ (rest acc : List (String × α)),
      ((rest.foldl assign acc).find? fun g => g.1 == name) =
        (rest.reverse.find? fun g => g.1 == name).or (acc.find? fun g => g.1 == name) := by
    intro rest
    induction rest with
    | nil => exact fun acc => rfl
    | cons f rest ih =>
        intro acc
        rw [List.foldl_cons, ih, find?_assign, List.reverse_cons, List.find?_append,
          Option.or_assoc]
        by_cases hname : f.1 = name <;> simp [hname]
  rw [lastNamed, hfold, List.find?_nil, Option.or_none]

/-- Names that come once keep their values. -/
theorem lastNamed_of_nodup (h : (named.map Prod.fst).Nodup) : lastNamed named = named := by
  have hfold : ∀ (rest acc : List (String × α)), ((acc ++ rest).map Prod.fst).Nodup →
      rest.foldl assign acc = acc ++ rest := by
    intro rest
    induction rest with
    | nil => exact fun acc _ => (List.append_nil acc).symm
    | cons f rest ih =>
        intro acc h
        have hf : f.1 ∉ acc.map Prod.fst := by
          intro hmem
          rw [List.map_append, List.nodup_append] at h
          exact h.2.2 _ hmem _ List.mem_cons_self rfl
        have happend : acc ++ f :: rest = (acc ++ [f]) ++ rest := by simp
        rw [List.foldl_cons, assign_of_not_mem hf, happend]
        exact ih _ (happend ▸ h)
  exact hfold named [] h

/-- An entry is read if its key is, and its value stays. -/
theorem dictEntry_any_eq_ok_iff {path : List String} {e : Value × Value} {f : String × Value} :
    dictEntry path any e = .ok f ↔
      text (path ++ [keyName e.1] ++ ["[key]"]) e.1 = .ok f.1 ∧ e.2 = f.2 := by
  obtain ⟨n, v⟩ := f
  rw [dictEntry]
  cases hk : text (path ++ [keyName e.1] ++ ["[key]"]) e.1 <;> simp [any, Prod.ext_iff]

/-- A text or the bytes of one are the only keys that are read. -/
theorem text_eq_ok_iff {path : List String} {v : Value} {s : String} :
    text path v = .ok s ↔ v.Spells s := by
  cases v with
  | text t => simp [text, Value.Spells]
  | bytes bs => cases h : Text.decodeUtf8? bs <;> simp [text, h, refuse, Value.Spells]
  | _ => simp [text, refuse, Value.Spells]

end Reading

namespace Record

/-- Options are read by their names; the last value of each name counts. -/
theorem readOptions_eq_ok_iff {path : List String} {options read : Entries} :
    readOptions path (.dict options) = .ok read ↔
      ∃ named, options.map (Reading.dictEntry path Reading.any) = named.map .ok ∧
        read = Entries.ofFields (Reading.lastNamed named) := by
  rw [readOptions, Reading.dict]
  constructor
  · intro h
    cases hall : Reading.all (options.map (Reading.dictEntry path Reading.any)) with
    | error problems =>
        rw [hall] at h
        cases h
    | ok named =>
        rw [hall] at h
        cases h
        exact ⟨named, Reading.all_eq_ok_iff.mp hall, rfl⟩
  · rintro ⟨named, hnamed, rfl⟩
    rw [Reading.all_eq_ok_iff.mpr hnamed]
    rfl

/-- Options that have texts as names, each one once, are read as they are. -/
theorem readOptions_ofFields {path : List String} {fields : Fields}
    (h : (fields.map Prod.fst).Nodup) :
    readOptions path (.dict (Entries.ofFields fields)) = .ok (Entries.ofFields fields) := by
  rw [readOptions_eq_ok_iff]
  refine ⟨fields, ?_, by rw [Reading.lastNamed_of_nodup h]⟩
  rw [Entries.ofFields, List.map_map]
  apply List.map_congr_left
  intro f hf
  exact Reading.dictEntry_any_eq_ok_iff.mpr ⟨rfl, rfl⟩

/-- What is read of options has texts as names, each one once. -/
theorem ofFields_of_readOptions {path : List String} {options read : Entries}
    (h : readOptions path (.dict options) = .ok read) :
    ∃ fields : Fields, read = Entries.ofFields fields ∧ (fields.map Prod.fst).Nodup := by
  obtain ⟨named, -, rfl⟩ := readOptions_eq_ok_iff.mp h
  exact ⟨_, rfl, Reading.nodup_names_lastNamed named⟩

/-- A name is read with the value behind the last key that spells it. -/
theorem named?_of_readOptions {path : List String} {front back read : Entries} {name : String}
    {v : Value} (h : readOptions path (.dict (front ++ (.text name, v) :: back)) = .ok read)
    (hback : ∀ e ∈ back, ¬ e.1.Spells name) : Entries.named? read name = some v := by
  obtain ⟨named, hnamed, rfl⟩ := readOptions_eq_ok_iff.mp h
  rw [List.map_append, List.map_cons] at hnamed
  obtain ⟨before, others, rfl, -, hothers⟩ := List.map_eq_append_iff.mp hnamed.symm
  obtain ⟨f, behind, rfl, hf, hbehind⟩ := List.map_eq_cons_iff.mp hothers
  obtain ⟨hname, hvalue⟩ := Reading.dictEntry_any_eq_ok_iff.mp hf.symm
  have hother : ∀ g ∈ behind.reverse, ¬ (g.1 == name) = true := by
    intro g hg heq
    rw [beq_iff_eq] at heq
    have hmem : Except.ok g ∈ back.map (Reading.dictEntry path Reading.any) :=
      hbehind ▸ List.mem_map_of_mem (List.mem_reverse.mp hg)
    obtain ⟨e, he, hread⟩ := List.mem_map.mp hmem
    have hspells := Reading.text_eq_ok_iff.mp (Reading.dictEntry_any_eq_ok_iff.mp hread).1
    exact hback e he (heq ▸ hspells)
  have hself : (f.1 == name) = true := by
    rw [Reading.text, Except.ok.injEq] at hname
    rw [← hname, beq_self_eq_true]
  rw [Entries.named?_ofFields, Fields.named?, Reading.find?_lastNamed, List.reverse_append,
    List.reverse_cons, List.append_assoc, List.find?_append, List.find?_eq_none.mpr hother,
    Option.none_or, List.singleton_append]
  simp only [List.find?_cons, hself, Option.map_some, ← hvalue]

/-- The options that are read have each name once, so all entries under it have its value. -/
theorem eq_of_mem_readOptions {path : List String} {options read : Entries} {name : String}
    {v : Value} (h : readOptions path (.dict options) = .ok read)
    (hv : Entries.named? read name = some v) {e : Value × Value} (he : e ∈ read)
    (hk : e.1 = .text name) : e.2 = v := by
  obtain ⟨fields, rfl, hnodup⟩ := ofFields_of_readOptions h
  obtain ⟨f, hf, rfl⟩ := List.mem_map.mp he
  have hname : f.1 = name := Value.text.inj hk
  subst hname
  have hfound := Fields.named?_of_mem hnodup hf
  rw [Entries.named?_ofFields, hfound] at hv
  exact Option.some.inj hv

end Record

end SemanticMarkup
