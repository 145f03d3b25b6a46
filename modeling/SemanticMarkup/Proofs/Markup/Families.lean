import SemanticMarkup.Markup.Attributes

/-!
# Families of attributes

A mapping under `data` or `aria` writes one attribute for each of its entries. They are
those that the entries would write as options of their own, with the name of the family in
front, except that nothing and the truth values are written as their texts: as options they
are left out, or leave the bare name.
-/

namespace SemanticMarkup

/-- Nothing and the truth values, which switch an attribute on or off. -/
def Value.isSwitch : Value → Bool
  | .null => true
  | .bool _ => true
  | _ => false

namespace Markup

open SemanticMarkup.Text

/-- The attributes that some options stand for, in order. -/
def attributesOf (options : Entries) : Outcome (List Value) :=
  (options.mapM optionAttributes).map List.flatten

/-- Attributes with a blank in front of each. -/
def spacedText (attributes : List String) : String :=
  String.join (attributes.map (" " ++ ·))

@[simp] theorem spacedText_nil : spacedText [] = "" := rfl

@[simp] theorem spacedText_cons (first : String) (rest : List String) :
    spacedText (first :: rest) = " " ++ first ++ spacedText rest := by
  simp only [spacedText, List.map_cons, String.join_cons]

theorem spacedText_append (front back : List String) :
    spacedText (front ++ back) = spacedText front ++ spacedText back := by
  simp only [spacedText, List.map_append, String.join_append]

theorem tagAttributes_eq (options : Entries) :
    tagAttributes options = do
      let attributes ← attributesOf options
      let texts ← attributes.mapM Value.asText
      return spacedText texts := by
  rw [tagAttributes, attributesOf]
  cases options.mapM optionAttributes <;> rfl

@[simp] theorem mapM_asText_map_text (texts : List String) :
    (texts.map Value.text).mapM Value.asText = .ok texts := by
  induction texts with
  | nil => rfl
  | cons s rest ih =>
      rw [List.map_cons, List.mapM_cons, Value.asText_text, Outcome.ok_bind, ih]
      rfl

theorem tagAttributes_of_texts {options : Entries} {texts : List String}
    (h : attributesOf options = .ok (texts.map .text)) :
    tagAttributes options = .ok (spacedText texts) := by
  rw [tagAttributes_eq, h, Outcome.ok_bind, mapM_asText_map_text]
  rfl

theorem attributesOf_nil : attributesOf [] = .ok [] := rfl

theorem attributesOf_cons (option : Value × Value) (rest : Entries) :
    attributesOf (option :: rest) = do
      let first ← optionAttributes option
      let others ← attributesOf rest
      return first ++ others := by
  rw [attributesOf, attributesOf, List.mapM_cons]
  cases optionAttributes option with
  | error e => rfl
  | ok first => cases List.mapM optionAttributes rest <;> rfl

/-- The attributes of options in two parts. -/
theorem attributesOf_append (front back : Entries) :
    attributesOf (front ++ back) = do
      let first ← attributesOf front
      let others ← attributesOf back
      return first ++ others := by
  rw [attributesOf, attributesOf, attributesOf, List.mapM_append]
  cases List.mapM optionAttributes front with
  | error e => rfl
  | ok first =>
      cases List.mapM optionAttributes back with
      | error e => rfl
      | ok others => exact congrArg Except.ok List.flatten_append

/-- The names under which a mapping stands for several attributes. -/
def IsFamily (name : String) : Prop :=
  name = "data" ∨ name = "aria"

/-- The entries of a mapping as options of their own. -/
def writtenOut (family : String) (entries : Entries) : Entries :=
  entries.map fun e => (.text (family ++ "-" ++ e.1.display), e.2)

/-- A value that switches nothing: nothing and the truth values as their texts. -/
def spelledOut (v : Value) : Value :=
  if v.isSwitch then .text v.display else v

variable {family : String}

/-- An option that is written as one attribute with a value: it has no classes and is no mapping of
a family. -/
structure IsSingle (name : String) (v : Value) : Prop where
  noSwitch : v.isSwitch = false
  noClass : name ≠ "class"
  noFamily : IsFamily name → ∀ entries, v ≠ .dict entries

/-- The name of an attribute in a family has no meaning of its own. -/
theorem isSingle_memberName (family name : String) {v : Value} (hswitch : v.isSwitch = false) :
    IsSingle (family ++ "-" ++ name) v := by
  have hne (other : String) (hother : '-' ∉ other.toList) : family ++ "-" ++ name ≠ other := by
    rintro rfl
    simp at hother
  refine ⟨hswitch, hne _ (by decide), ?_⟩
  rintro (hdata | haria)
  · exact absurd hdata (hne "data" (by decide))
  · exact absurd haria (hne "aria" (by decide))

/-- A value that is no switch writes its attribute with its text. -/
theorem IsSingle.optionAttributes {name : String} {v : Value} (h : IsSingle name v) :
    optionAttributes (.text name, v) =
      (attributeText v).map fun text => [.text (quotedAttribute name text)] := by
  obtain ⟨hswitch, hclass, hfamily⟩ := h
  rw [Markup.optionAttributes]
  dsimp only
  split
  · cases hswitch
  · cases hswitch
  · cases hswitch
  · split
    · exact absurd ‹Value.text name = .text "class"› fun h => hclass (Value.text.inj h)
    · exact absurd rfl (hfamily (.inl (Value.text.inj ‹Value.text name = .text "data"›)) _)
    · exact absurd rfl (hfamily (.inr (Value.text.inj ‹Value.text name = .text "aria"›)) _)
    · rw [Value.asText_text, Outcome.ok_bind]
      cases attributeText _ <;> rfl

/-- A mapping in a family stands for one attribute for each entry. -/
theorem attributesOf_family (hfamily : IsFamily family) (entries : Entries) :
    attributesOf [(.text family, .dict entries)] =
      (familyAttributes family entries).map (List.map .text) := by
  rw [attributesOf_cons, attributesOf_nil]
  have hoption : optionAttributes (.text family, .dict entries) =
      (familyAttributes family entries).map (List.map .text) := by
    have hreturn (o : Outcome (List String)) :
        (do return (← o).map Value.text) = o.map (List.map .text) := by
      cases o <;> rfl
    obtain rfl | rfl := hfamily
    · exact hreturn _
    · exact hreturn _
  rw [hoption]
  cases familyAttributes family entries with
  | error e => rfl
  | ok attributes => exact congrArg Except.ok (List.append_nil _)

theorem familyAttributes_cons (family : String) (e : Value × Value) (rest : Entries) :
    familyAttributes family (e :: rest) = do
      let text ← attributeText e.2
      let name ← e.1.asText
      let others ← familyAttributes family rest
      return quotedAttribute (family ++ "-" ++ name) text :: others := by
  rw [familyAttributes, List.mapM_cons]
  cases attributeText e.2 with
  | error failure => rfl
  | ok text => cases e.1.asText <;> rfl

/-- Without a text for each of its names a family cannot be written. -/
theorem exists_error_familyAttributes {entries : Entries}
    (h : ∃ e ∈ entries, e.1.isWritable = false) :
    ∃ failure, familyAttributes family entries = .error failure := by
  obtain ⟨e, he, hname⟩ := h
  rw [familyAttributes, Outcome.exists_error_mapM_iff]
  refine ⟨e, he, ?_⟩
  cases attributeText e.2 with
  | error failure => exact ⟨failure, rfl⟩
  | ok text => exact ⟨.fault .wrongValue, by rw [Value.asText_of_not_isWritable hname]; rfl⟩

theorem attributeText_of_isSwitch {v : Value} (h : v.isSwitch = true) :
    attributeText v = .ok v.display := by
  cases v with
  | null | bool => rfl
  | _ => cases h

theorem attributeText_spelledOut (v : Value) : attributeText (spelledOut v) = attributeText v := by
  rw [spelledOut]
  split
  · rename_i hswitch
    rw [attributeText_of_isSwitch hswitch]
    rfl
  · rfl

theorem isSwitch_spelledOut (v : Value) : (spelledOut v).isSwitch = false := by
  rw [spelledOut]
  split
  · rfl
  · rename_i hswitch
    exact Bool.eq_false_iff.mpr hswitch

/-- With switches as texts, the entries of a mapping stand for the same attributes as options of
their own. -/
theorem attributesOf_spelledOut {entries : Entries}
    (hnames : ∀ e ∈ entries, e.1.isWritable = true) :
    attributesOf (writtenOut family (entries.map fun e => (e.1, spelledOut e.2))) =
      (familyAttributes family entries).map (List.map .text) := by
  induction entries with
  | nil => rfl
  | cons e rest ih =>
      obtain ⟨hname, hrest⟩ := List.forall_mem_cons.mp hnames
      have hfirst := (isSingle_memberName family e.1.display
        (isSwitch_spelledOut e.2)).optionAttributes
      rw [attributeText_spelledOut] at hfirst
      rw [familyAttributes_cons, Value.asText_of_isWritable hname, writtenOut, List.map_cons,
        List.map_cons, attributesOf_cons, hfirst, ← writtenOut, ih hrest]
      cases attributeText e.2 with
      | error failure => rfl
      | ok text => cases familyAttributes family rest <;> rfl

/-- A switch writes less than its text would. -/
theorem exists_attributes_of_isSwitch {v : Value} (h : v.isSwitch = true) (name : String) :
    ∃ texts : List String, optionAttributes (.text name, v) = .ok (texts.map .text) ∧
      (spacedText texts).length < (spacedText [quotedAttribute name v.display]).length := by
  have hquoted (s : String) : name.length + 3 ≤ (quotedAttribute name s).length := by
    simp only [quotedAttribute, String.length_append]
    have hmarks : "=\"".length = 2 ∧ "\"".length = 1 := by decide
    omega
  have hblank : " ".length = 1 := by decide
  cases v with
  | null =>
      refine ⟨[], rfl, ?_⟩
      simp only [spacedText_nil, spacedText_cons, String.length_append, String.length_empty]
      omega
  | bool b =>
      cases b with
      | false =>
          refine ⟨[], rfl, ?_⟩
          simp only [spacedText_nil, spacedText_cons, String.length_append, String.length_empty]
          omega
      | true =>
          have hshown := hquoted (Value.bool true).display
          refine ⟨[name], rfl, ?_⟩
          simp only [spacedText_nil, spacedText_cons, String.length_append, String.length_empty]
          omega
  | _ => cases h

/-- The entries of a mapping fail together with the options that they would be. Otherwise these
write no more, and the same only if there is no switch among them. -/
theorem writtenOut_cases {entries : Entries} (hnames : ∀ e ∈ entries, e.1.isWritable = true) :
    (∃ e, familyAttributes family entries = .error e ∧
        attributesOf (writtenOut family entries) = .error e) ∨
      ∃ shown bare : List String, familyAttributes family entries = .ok shown ∧
        attributesOf (writtenOut family entries) = .ok (bare.map .text) ∧
        (spacedText bare).length ≤ (spacedText shown).length ∧
        (spacedText bare = spacedText shown ↔ ∀ e ∈ entries, e.2.isSwitch = false) := by
  induction entries with
  | nil => exact .inr ⟨[], [], rfl, rfl, Nat.le_refl _, fun _ => nofun, fun _ => rfl⟩
  | cons e rest ih =>
      obtain ⟨hname, hrest⟩ := List.forall_mem_cons.mp hnames
      rw [familyAttributes_cons, Value.asText_of_isWritable hname, writtenOut, List.map_cons,
        attributesOf_cons, ← writtenOut]
      cases hswitch : e.2.isSwitch with
      | false =>
          rw [(isSingle_memberName family e.1.display hswitch).optionAttributes]
          cases attributeText e.2 with
          | error failure => exact .inl ⟨failure, rfl, rfl⟩
          | ok text =>
              obtain ⟨failure, hshown, hbare⟩ | ⟨shown, bare, hshown, hbare, hle, hiff⟩ := ih hrest
              · exact .inl ⟨failure, by rw [hshown]; rfl, by rw [hbare]; rfl⟩
              · refine .inr ⟨_, quotedAttribute (family ++ "-" ++ e.1.display) text :: bare,
                  by rw [hshown]; rfl, by rw [hbare]; rfl, ?_, ?_⟩
                · simp only [spacedText_cons, String.length_append]
                  omega
                · simp [hiff, hswitch]
      | true =>
          obtain ⟨texts, htexts, hlt⟩ := exists_attributes_of_isSwitch hswitch
            (family ++ "-" ++ e.1.display)
          rw [htexts, attributeText_of_isSwitch hswitch]
          obtain ⟨failure, hshown, hbare⟩ | ⟨shown, bare, hshown, hbare, hle, -⟩ := ih hrest
          · exact .inl ⟨failure, by rw [hshown]; rfl, by rw [hbare]; rfl⟩
          · have hless : (spacedText (texts ++ bare)).length <
                (spacedText (quotedAttribute (family ++ "-" ++ e.1.display) e.2.display ::
                  shown)).length := by
              rw [spacedText_append, spacedText_cons]
              rw [spacedText_cons, spacedText_nil, String.append_empty] at hlt
              simp only [String.length_append] at hlt ⊢
              omega
            refine .inr ⟨_, texts ++ bare, by rw [hshown]; rfl, ?_, Nat.le_of_lt hless, ?_⟩
            · rw [hbare, List.map_append]
              rfl
            · constructor
              · intro heq
                rw [heq] at hless
                exact absurd hless (Nat.lt_irrefl _)
              · intro hall
                exact absurd (hall e List.mem_cons_self) (by rw [hswitch]; decide)

/-- The text of options in three parts. -/
theorem tagAttributes_between (front middle back : Entries) :
    tagAttributes (front ++ middle ++ back) = do
      let first ← attributesOf front
      let inner ← attributesOf middle
      let last ← attributesOf back
      let before ← first.mapM Value.asText
      let between ← inner.mapM Value.asText
      let behind ← last.mapM Value.asText
      return spacedText before ++ spacedText between ++ spacedText behind := by
  rw [tagAttributes_eq, attributesOf_append, attributesOf_append]
  cases attributesOf front with
  | error e => rfl
  | ok first =>
      cases attributesOf middle with
      | error e => rfl
      | ok inner =>
          cases attributesOf back with
          | error e => rfl
          | ok last =>
              simp only [Outcome.ok_bind, Outcome.pure_eq_ok, List.mapM_append, bind_assoc,
                spacedText_append]

/-- Options fail with each part of them. -/
theorem exists_error_tagAttributes {middle : Entries} {e : Failure}
    (h : attributesOf middle = .error e) (front back : Entries) :
    ∃ failure, tagAttributes (front ++ middle ++ back) = .error failure := by
  rw [tagAttributes_between, h]
  cases attributesOf front with
  | error first => exact ⟨first, rfl⟩
  | ok first => exact ⟨e, rfl⟩

/-- What stands around some options that have texts fails by itself, or it is written before and
behind them. -/
theorem tagAttributes_around (front back : Entries) :
    (∃ failure, ∀ (middle : Entries) (texts : List String),
        attributesOf middle = .ok (texts.map .text) →
        tagAttributes (front ++ middle ++ back) = .error failure) ∨
      ∃ before behind, ∀ (middle : Entries) (texts : List String),
        attributesOf middle = .ok (texts.map .text) →
        tagAttributes (front ++ middle ++ back) =
          .ok (before ++ spacedText texts ++ behind) := by
  let around : Outcome (List String × List String) := do
    let first ← attributesOf front
    let last ← attributesOf back
    let before ← first.mapM Value.asText
    let behind ← last.mapM Value.asText
    return (before, behind)
  have hwhole (middle : Entries) (texts : List String)
      (h : attributesOf middle = .ok (texts.map .text)) :
      tagAttributes (front ++ middle ++ back) =
        around >>= fun t => .ok (spacedText t.1 ++ spacedText texts ++ spacedText t.2) := by
    simp only [tagAttributes_between, h, around, Outcome.ok_bind, mapM_asText_map_text, bind_assoc,
      Outcome.pure_eq_ok]
  cases haround : around with
  | error failure =>
      refine .inl ⟨failure, fun middle texts h => ?_⟩
      rw [hwhole middle texts h, haround]
      rfl
  | ok t =>
      refine .inr ⟨spacedText t.1, spacedText t.2, fun middle texts h => ?_⟩
      rw [hwhole middle texts h, haround]
      rfl

/-- A mapping in a family whose names have texts writes what its entries write as options of their
own, with nothing and the truth values as texts. Without that they fail together with it, and they
write the same only if there are no such values. A mapping with a name that has no text cannot be
written at all. -/
theorem tagAttributes_family (hfamily : IsFamily family) (front entries back : Entries) :
    ((∀ e ∈ entries, e.1.isWritable = true) →
      tagAttributes (front ++ (.text family, .dict entries) :: back) =
          tagAttributes (front ++ writtenOut family (entries.map fun e => (e.1, spelledOut e.2)) ++
            back) ∧
        (∀ failure, tagAttributes (front ++ (.text family, .dict entries) :: back) =
            .error failure ↔
          tagAttributes (front ++ writtenOut family entries ++ back) = .error failure) ∧
        ∀ text, tagAttributes (front ++ (.text family, .dict entries) :: back) = .ok text →
          (tagAttributes (front ++ writtenOut family entries ++ back) = .ok text ↔
            ∀ e ∈ entries, e.2.isSwitch = false)) ∧
    ((∃ e ∈ entries, e.1.isWritable = false) →
      ∃ failure, tagAttributes (front ++ (.text family, .dict entries) :: back) =
        .error failure) := by
  have hoptions : front ++ (.text family, .dict entries) :: back =
      front ++ [(.text family, .dict entries)] ++ back := by simp
  have hnested := attributesOf_family hfamily entries
  rw [hoptions]
  refine ⟨fun hnames => ⟨?_, ?_⟩, fun hnames => ?_⟩
  · rw [tagAttributes_between, tagAttributes_between, hnested, attributesOf_spelledOut hnames]
  · obtain ⟨failure, hshown, hbare⟩ | ⟨shown, bare, hshown, hbare, -, hiff⟩ :=
      @writtenOut_cases family entries hnames
    · rw [hshown] at hnested
      obtain ⟨other, hfails⟩ := exists_error_tagAttributes hnested front back
      have hsame : attributesOf [(.text family, .dict entries)] =
          attributesOf (writtenOut family entries) := hnested.trans hbare.symm
      rw [tagAttributes_between _ (writtenOut family entries), ← hsame, ← tagAttributes_between]
      refine ⟨fun _ => Iff.rfl, fun text htext => ?_⟩
      cases hfails.symm.trans htext
    · rw [hshown] at hnested
      obtain ⟨failure, hfails⟩ | ⟨before, behind, hwrites⟩ := tagAttributes_around front back
      · rw [hfails _ shown hnested, hfails _ bare hbare]
        exact ⟨fun _ => Iff.rfl, nofun⟩
      · rw [hwrites _ shown hnested, hwrites _ bare hbare]
        refine ⟨fun _ => ⟨nofun, nofun⟩, fun text htext => ?_⟩
        rw [← hiff, ← htext]
        simp
  · obtain ⟨failure, hfailure⟩ := @exists_error_familyAttributes family entries hnames
    rw [hfailure] at hnested
    exact exists_error_tagAttributes hnested front back

theorem tagAttributes_family_nested :
    tagAttributes [(.text "id", .int 7), (.text "data", .dict [(.text "row", .list [.int 1]),
        (.text "open", .bool true)])] =
      tagAttributes [(.text "id", .int 7), (.text "data-row", .list [.int 1]),
        (.text "data-open", .text "True")] :=
  ((tagAttributes_family (.inl rfl) [(.text "id", .int 7)]
    [(.text "row", .list [.int 1]), (.text "open", .bool true)] []).1 (by decide)).1

/-- As an option of its own a truth value leaves the bare name. -/
theorem tagAttributes_switch :
    tagAttributes [(.text "data", .dict [(.text "open", .bool true)])] =
        .ok " data-open=\"True\"" ∧
      tagAttributes (writtenOut "data" [(.text "open", .bool true)]) = .ok " data-open" :=
  ⟨Outcome.eq_ok_of_toOption (by decide +kernel), Outcome.eq_ok_of_toOption (by decide +kernel)⟩

end Markup

end SemanticMarkup
