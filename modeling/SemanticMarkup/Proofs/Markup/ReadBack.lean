import SemanticMarkup.Proofs.Json.RoundTrip
import SemanticMarkup.Proofs.Markup.AttributeReader
import SemanticMarkup.Proofs.Markup.Classes
import Mathlib.Data.List.Forall2

/-!
# Attributes are read back

A reader that knows only the form of attributes finds in a written tag what the options say: the
names in order, and behind each name the text in quotes with its entities resolved. So no text,
whatever quotes or markup is in it, runs into the attributes behind it.

## Implementation notes

What an option says is a relation that knows nothing of the steps of the writer. It is shown to be
functional, so an option says one thing only.
-/

namespace SemanticMarkup

/-- Whether a value is a list or a mapping, which are written as JSON. -/
def Value.isCollection : Value → Bool
  | .list _ => true
  | .dict _ => true
  | _ => false

namespace Markup

open SemanticMarkup.Text

variable {name : String} {v : Value} {option : Value × Value}

/-! ## What options say -/

/-- The text of a value between the quotes: a list or a mapping as JSON, from which data that JSON
keeps is read back, and anything else as its own text. -/
inductive IsQuoted : Value → String → Prop
  | json {v : Value} {cs : List Char} (hv : v.isCollection = true) (hcs : Json.write v = .ok cs)
      (hread : Json.isKept v = true → Json.read cs = .ok v) : IsQuoted v (String.ofList cs)
  | display {v : Value} (hv : v.isCollection = false) : IsQuoted v v.display

/-- An entry of a mapping in a family says the attribute with the name of the family in front. -/
def SaysMember (family : String) (e : Value × Value) (a : Attribute) : Prop :=
  ∃ name text, e.1 = .text name ∧ IsQuoted e.2 text ∧ a = ⟨family ++ "-" ++ name, some text⟩

/-- The attributes that an option says. -/
inductive Says : Value × Value → List Attribute → Prop
  | null (name : String) : Says (.text name, .null) []
  | off (name : String) : Says (.text name, .bool false) []
  | on (name : String) : Says (.text name, .bool true) [⟨name, none⟩]
  | noClass {v : Value} (hv : HoldsClasses v []) : Says (.text "class", v) []
  | classes {v : Value} {first : String} {others : List String}
      (hv : HoldsClasses v (first :: others)) :
      Says (.text "class", v) [⟨"class", some (" ".intercalate (first :: others))⟩]
  | family {name : String} {entries : Entries} {found : List Attribute} (hname : IsFamily name)
      (hentries : List.Forall₂ (SaysMember name) entries found) :
      Says (.text name, .dict entries) found
  | single {name text : String} {v : Value} (hsingle : IsSingle name v) (hv : IsQuoted v text) :
      Says (.text name, v) [⟨name, some text⟩]

/-! ## What can be written -/

/-- A value that can stand between quotes: all of it has a text, and a list or a mapping is data. -/
structure IsWritten (v : Value) : Prop where
  writable : v.isWritable = true
  data : v.isCollection = true → Json.isData v = true

/-- Options with the names of attributes. The value of a class is nothing, a truth value, a text or
a list of texts, and a mapping in a family has the names of attributes in turn and no switches. -/
inductive Writable : Value × Value → Prop
  | classes {v : Value}
      (hv : v.isSwitch = true ∨ v.IsString ∨ ∃ items, v = .list items ∧ ∀ i ∈ items, i.IsString) :
      Writable (.text "class", v)
  | family {name : String} {entries : Entries} (hname : IsFamily name)
      (hentries : ∀ e ∈ entries, (∃ member, e.1 = .text member ∧ IsAttributeName member) ∧
        e.2.isSwitch = false ∧ IsWritten e.2) : Writable (.text name, .dict entries)
  | plain {name : String} {v : Value} (hname : IsAttributeName name) (hclass : name ≠ "class")
      (hfamily : IsFamily name → ∀ entries, v ≠ .dict entries) (hv : IsWritten v) :
      Writable (.text name, v)

/-! ## Each option says what is written of it -/

theorem IsWritten.exists_quoted (h : IsWritten v) :
    ∃ text, attributeText v = .ok text ∧ IsQuoted v text := by
  cases hv : v.isCollection with
  | false =>
      refine ⟨v.display, ?_, .display hv⟩
      have htext := Value.asText_of_isWritable h.writable
      cases v with
      | list | dict => cases hv
      | _ => exact htext
  | true =>
      obtain ⟨cs, hcs⟩ := Json.exists_write (h.data hv) h.writable
      refine ⟨String.ofList cs, ?_, .json hv hcs fun hkept => Json.read_of_write hkept hcs⟩
      cases v with
      | list | dict =>
          simp only [attributeText, hcs, if_true]
          rfl
      | _ => cases hv

/-- What an option writes are the attributes that it says, and these have names. -/
def WritesWhatItSays (option : Value × Value) : Prop :=
  ∃ found, optionAttributes option = .ok ((found.map Attribute.text).map .text) ∧
    Says option found ∧
    ∀ a ∈ found, IsAttributeName a.name

theorem writesWhatItSays_of_isSwitch (hname : IsAttributeName name) (h : v.isSwitch = true) :
    WritesWhatItSays (.text name, v) := by
  cases v with
  | null => exact ⟨[], rfl, .null name, nofun⟩
  | bool b =>
      cases b with
      | false => exact ⟨[], rfl, .off name, nofun⟩
      | true => exact ⟨[⟨name, none⟩], rfl, .on name, List.forall_mem_singleton.mpr hname⟩
  | _ => cases h

theorem isAttributeName_of_all (hne : name ≠ "") (hall : name.toList.all isNameChar = true) :
    IsAttributeName name :=
  ⟨hne, List.all_eq_true.mp hall⟩

theorem isAttributeName_class : IsAttributeName "class" :=
  isAttributeName_of_all (by decide) (by decide)

theorem HoldsClasses.optionAttributes {classes : List String} (h : HoldsClasses v classes) :
    optionAttributes (.text "class", v) = .ok (if classes.isEmpty then []
      else [.text (quotedAttribute "class" (" ".intercalate classes))]) := by
  have hwords := h.classWords
  cases h with
  | text hv =>
      cases hv with
      | text | garbled =>
          simp only [Markup.optionAttributes, hwords, Outcome.ok_bind]
          rfl
  | list =>
      simp only [Markup.optionAttributes, hwords, Outcome.ok_bind]
      rfl

/-- The classes of an option are written with single blanks between them, if there are any. -/
theorem writesWhatItSays_of_holdsClasses {classes : List String} (h : HoldsClasses v classes) :
    WritesWhatItSays (.text "class", v) := by
  cases classes with
  | nil => exact ⟨[], h.optionAttributes, .noClass h, nofun⟩
  | cons first others =>
      exact ⟨[⟨"class", some (" ".intercalate (first :: others))⟩], h.optionAttributes, .classes h,
        List.forall_mem_singleton.mpr isAttributeName_class⟩

theorem IsAttributeName.member {family : String} (hfamily : IsFamily family)
    (hname : IsAttributeName name) : IsAttributeName (family ++ "-" ++ name) := by
  have hstart : (family ++ "-").toList.all isNameChar = true := by
    obtain rfl | rfl := hfamily
    · decide
    · decide
  constructor
  · intro hempty
    have hparts := String.append_eq_empty_iff.mp hempty
    exact hname.1 hparts.2
  · rw [String.toList_append]
    exact List.forall_mem_append.mpr ⟨List.all_eq_true.mp hstart, hname.2⟩

/-- The members of a family are written one by one. -/
theorem exists_familyAttributes {family : String} (hfamily : IsFamily family) {entries : Entries}
    (h : ∀ e ∈ entries, (∃ member, e.1 = .text member ∧ IsAttributeName member) ∧
      e.2.isSwitch = false ∧ IsWritten e.2) :
    ∃ found, familyAttributes family entries = .ok (found.map Attribute.text) ∧
      List.Forall₂ (SaysMember family) entries found ∧ ∀ a ∈ found, IsAttributeName a.name := by
  induction entries with
  | nil => exact ⟨[], rfl, .nil, nofun⟩
  | cons e entries ih =>
      obtain ⟨⟨⟨member, hmember, hname⟩, -, hwritten⟩, hentries⟩ := List.forall_mem_cons.mp h
      obtain ⟨text, htext, hquoted⟩ := hwritten.exists_quoted
      obtain ⟨found, hfound, hsays, hnames⟩ := ih hentries
      refine ⟨⟨family ++ "-" ++ member, some text⟩ :: found, ?_,
        .cons ⟨member, text, hmember, hquoted, rfl⟩ hsays,
        List.forall_mem_cons.mpr ⟨hname.member hfamily, hnames⟩⟩
      rw [familyAttributes_cons, htext, hfound, hmember, Value.asText_text]
      rfl

theorem Writable.writesWhatItSays (h : Writable option) : WritesWhatItSays option := by
  cases h with
  | classes hv =>
      obtain hswitch | hstring | ⟨items, rfl, hitems⟩ := hv
      · exact writesWhatItSays_of_isSwitch isAttributeName_class hswitch
      · exact writesWhatItSays_of_holdsClasses (.text hstring)
      · exact writesWhatItSays_of_holdsClasses (.list hitems)
  | @family name entries hname hentries =>
      obtain ⟨found, hfound, hsays, hnames⟩ := exists_familyAttributes hname hentries
      refine ⟨found, ?_, .family hname hsays, hnames⟩
      have hoption : optionAttributes (.text name, .dict entries) =
          (do return (← familyAttributes name entries).map .text) := by
        obtain rfl | rfl := hname <;> rfl
      rw [hoption, hfound]
      rfl
  | @plain name v hname hclass hfamily hv =>
      cases hswitch : v.isSwitch with
      | true => exact writesWhatItSays_of_isSwitch hname hswitch
      | false =>
          have hsingle : IsSingle name v := ⟨hswitch, hclass, hfamily⟩
          obtain ⟨text, htext, hquoted⟩ := hv.exists_quoted
          refine ⟨[⟨name, some text⟩], ?_, .single hsingle hquoted,
            List.forall_mem_singleton.mpr hname⟩
          rw [hsingle.optionAttributes, htext]
          rfl

/-! ## What is said is determined -/

theorem IsQuoted.unique {text other : String} (h : IsQuoted v text) (h' : IsQuoted v other) :
    text = other := by
  cases h with
  | json hv hcs _ =>
      cases h' with
      | json _ hcs' _ => rw [Except.ok.inj (hcs.symm.trans hcs')]
      | display hv' => exact absurd (hv.symm.trans hv') (by decide)
  | display hv =>
      cases h' with
      | json hv' _ _ => exact absurd (hv.symm.trans hv') (by decide)
      | display => rfl

theorem HoldsClasses.unique {classes others : List String} (h : HoldsClasses v classes)
    (h' : HoldsClasses v others) : classes = others :=
  Except.ok.inj (h.classWords.symm.trans h'.classWords)

theorem HoldsClasses.isSwitch {classes : List String} (h : HoldsClasses v classes) :
    v.isSwitch = false := by
  cases h with
  | text hv => cases hv <;> rfl
  | list => rfl

theorem SaysMember.unique {family : String} {e : Value × Value} {a b : Attribute}
    (h : SaysMember family e a) (h' : SaysMember family e b) : a = b := by
  obtain ⟨name, text, hname, hquoted, rfl⟩ := h
  obtain ⟨name', text', hname', hquoted', rfl⟩ := h'
  obtain rfl := Value.text.inj (hname.symm.trans hname')
  rw [hquoted.unique hquoted']

theorem HoldsClasses.ne_dict {classes : List String} {entries : Entries} :
    ¬ HoldsClasses (.dict entries) classes := by
  intro h
  cases h with
  | text hv => cases hv

/-- What an option says is determined. -/
theorem Says.unique {found other : List Attribute} (h : Says option found)
    (h' : Says option other) : found = other := by
  cases h with
  | null =>
      cases h' with
      | null => rfl
      | noClass hv | classes hv => cases hv.isSwitch
      | single hsingle => cases hsingle.noSwitch
  | off =>
      cases h' with
      | off => rfl
      | noClass hv | classes hv => cases hv.isSwitch
      | single hsingle => cases hsingle.noSwitch
  | on =>
      cases h' with
      | on => rfl
      | noClass hv | classes hv => cases hv.isSwitch
      | single hsingle => cases hsingle.noSwitch
  | noClass hv =>
      cases h' with
      | null | off | on => cases hv.isSwitch
      | noClass => rfl
      | classes hv' => cases hv.unique hv'
      | family => exact absurd hv HoldsClasses.ne_dict
      | single hsingle => exact absurd rfl hsingle.noClass
  | classes hv =>
      cases h' with
      | null | off | on => cases hv.isSwitch
      | noClass hv' => cases hv.unique hv'
      | classes hv' =>
          obtain ⟨rfl, rfl⟩ := List.cons.inj (hv.unique hv')
          rfl
      | family => exact absurd hv HoldsClasses.ne_dict
      | single hsingle => exact absurd rfl hsingle.noClass
  | @family name _ _ hname hentries =>
      have hunique : Relator.RightUnique (SaysMember name) := fun _ _ _ => SaysMember.unique
      cases h' with
      | noClass hv | classes hv => exact absurd hv HoldsClasses.ne_dict
      | family _ hentries' => exact List.right_unique_forall₂' hunique hentries hentries'
      | single hsingle => exact absurd rfl (hsingle.noFamily hname _)
  | single hsingle hv =>
      cases h' with
      | null | off | on => cases hsingle.noSwitch
      | noClass | classes => exact absurd rfl hsingle.noClass
      | family hname => exact absurd rfl (hsingle.noFamily hname _)
      | single _ hv' => rw [hv.unique hv']

/-! ## Reading back -/

/-- Options that can be written are written one behind the other, each as what it says. -/
theorem exists_attributesOf {options : Entries} (h : ∀ option ∈ options, Writable option) :
    ∃ found, attributesOf options = .ok ((found.flatten.map Attribute.text).map .text) ∧
      List.Forall₂ Says options found ∧ ∀ a ∈ found.flatten, IsAttributeName a.name := by
  induction options with
  | nil => exact ⟨[], rfl, .nil, nofun⟩
  | cons option options ih =>
      obtain ⟨hoption, hoptions⟩ := List.forall_mem_cons.mp h
      obtain ⟨first, hfirst, hsays, hname⟩ := hoption.writesWhatItSays
      obtain ⟨found, hfound, hall, hnames⟩ := ih hoptions
      refine ⟨first :: found, ?_, .cons hsays hall, ?_⟩
      · rw [attributesOf_cons, hfirst, hfound, List.flatten_cons, List.map_append, List.map_append]
        rfl
      · rw [List.flatten_cons]
        exact List.forall_mem_append.mpr ⟨hname, hnames⟩

/-- What a reader finds in the written options is what they say, in their order. -/
theorem tagAttributes_readBack {options : Entries} (h : ∀ option ∈ options, Writable option) :
    ∃ text found, tagAttributes options = .ok text ∧
      readAttributes? text.toList = some found.flatten ∧ List.Forall₂ Says options found ∧
      ∀ other, List.Forall₂ Says options other → other = found := by
  obtain ⟨found, hfound, hsays, hnames⟩ := exists_attributesOf h
  have hunique : Relator.RightUnique Says := fun _ _ _ => Says.unique
  exact ⟨_, found, tagAttributes_of_texts hfound, readAttributes?_spacedText hnames, hsays,
    fun other hother => List.right_unique_forall₂' hunique hother hsays⟩

/-- Options of all kinds, with quotes and markup in their texts. -/
def mixedOptions : Entries :=
  [(.text "class", .list [.text "a", .text "", .text "b"]), (.text "hidden", .bool true),
    (.text "id", .null),
    (.text "data", .dict [(.text "row", .dict [(.text "k", .list [.int 1, .text "\"é"])])]),
    (.text "title", .text "a \"b\" & <c>")]

/-- The attributes of these options. -/
def mixedText : String :=
  " class=\"a b\" hidden data-row=\"\x7b&quot;k&quot;: [1, &quot;\\&quot;\\u00e9&quot;]\x7d\"" ++
    " title=\"a &quot;b&quot; &amp; &lt;c&gt;\""

theorem tagAttributes_readBack_mixedOptions :
    (∀ option ∈ mixedOptions, Writable option) ∧ tagAttributes mixedOptions = .ok mixedText ∧
      ∃ found, readAttributes? mixedText.toList = some found.flatten ∧
        List.Forall₂ Says mixedOptions found := by
  have hname (name : String) (hname : name ∈ ["hidden", "id", "row", "title"]) :
      IsAttributeName name := by
    simp only [List.mem_cons, List.not_mem_nil, or_false] at hname
    obtain rfl | rfl | rfl | rfl := hname
    all_goals exact isAttributeName_of_all (by decide) (by decide)
  have hclasses : ∀ item ∈ [Value.text "a", .text "", .text "b"], item.IsString := by
    intro item hitem
    simp only [List.mem_cons, List.not_mem_nil, or_false] at hitem
    obtain rfl | rfl | rfl := hitem
    all_goals exact .text _
  have hwritable : ∀ option ∈ mixedOptions, Writable option := by
    intro option hoption
    simp only [mixedOptions, List.mem_cons, List.not_mem_nil, or_false] at hoption
    obtain rfl | rfl | rfl | rfl | rfl := hoption
    · exact .classes (.inr (.inr ⟨_, rfl, hclasses⟩))
    · exact .plain (hname "hidden" (by simp)) (by decide) nofun ⟨rfl, nofun⟩
    · exact .plain (hname "id" (by simp)) (by decide) nofun ⟨rfl, nofun⟩
    · refine .family (.inl rfl) (List.forall_mem_singleton.mpr ⟨⟨"row", rfl, ?_⟩, rfl, ?_⟩)
      · exact hname "row" (by simp)
      · exact ⟨by decide, fun _ => by decide⟩
    · exact .plain (hname "title" (by simp)) (by decide) nofun ⟨rfl, nofun⟩
  have hshown : tagAttributes mixedOptions = .ok mixedText :=
    Outcome.eq_ok_of_toOption (by decide +kernel)
  obtain ⟨text, found, htext, hread, hsays, -⟩ := tagAttributes_readBack hwritable
  obtain rfl := Except.ok.inj (htext.symm.trans hshown)
  exact ⟨hwritable, hshown, found, hread, hsays⟩

end Markup

end SemanticMarkup
