import SemanticMarkup.Proofs.Markup.Escape
import SemanticMarkup.Proofs.Markup.Families
import SemanticMarkup.Proofs.Number.Written
import SemanticMarkup.Text.Word

/-!
# Reading attributes

A reader of attributes that knows their form only: behind a blank stands a name, and perhaps an
equals sign with a value in double quotes, in which entities stand for characters of the markup.
Every row of attributes with proper names is read as it was written, whatever their values are.
-/

namespace SemanticMarkup.Markup

open SemanticMarkup.Text

/-! ## The reader -/

/-- An attribute: its name, and its value if it has one. -/
structure Attribute where
  /-- The name. -/
  name : String
  /-- The value, without the entities of the markup. -/
  value : Option String
  deriving DecidableEq, Repr

/-- Whether a character may stand in the name of an attribute. -/
def isNameChar (c : Char) : Bool :=
  isWordChar c || c == '-' || c == ':' || c == '.'

/-- A text is the name of an attribute: letters, digits and `_`, `-`, `:`, `.`. -/
def IsAttributeName (name : String) : Prop :=
  name ≠ "" ∧ ∀ c ∈ name.toList, isNameChar c = true

/-- Reads one attribute with the blank in front of it. -/
def readAttribute? : List Char → Option (Attribute × List Char)
  | ' ' :: rest =>
      let name := rest.takeWhile isNameChar
      if name.isEmpty then none
      else match rest.dropWhile isNameChar with
        | '=' :: '\x22' :: quoted =>
            match cutAt doubleQuote quoted with
            | (value, some after) =>
                some (⟨String.ofList name, some (String.ofList (unescape value))⟩, after)
            | (_, none) => none
        | after => some (⟨String.ofList name, none⟩, after)
  | _ => none

variable {name value : String} {rest cs : List Char}

theorem length_cutAt {sep : Char} {before after : List Char}
    (h : cutAt sep cs = (before, some after)) : after.length < cs.length := by
  have hjoin := cutAt_join sep cs
  rw [h] at hjoin
  rw [← hjoin, List.length_append, List.length_cons]
  omega

/-- What is left behind an attribute is shorter, at least by its blank. -/
theorem length_of_readAttribute? {a : Attribute} (h : readAttribute? cs = some (a, rest)) :
    rest.length < cs.length := by
  unfold readAttribute? at h
  split at h
  · rename_i more
    have hdrop : (more.dropWhile isNameChar).length ≤ more.length :=
      (List.dropWhile_suffix isNameChar).length_le
    dsimp only at h
    split at h
    · cases h
    · split at h
      · rename_i quoted hquoted
        rw [hquoted] at hdrop
        split at h
        · rename_i value after hcut
          have hafter := length_cutAt hcut
          obtain ⟨-, rfl⟩ := Prod.mk.inj (Option.some.inj h)
          simp only [List.length_cons] at hdrop ⊢
          omega
        · cases h
      · obtain ⟨-, rfl⟩ := Prod.mk.inj (Option.some.inj h)
        rw [List.length_cons]
        omega
  · cases h

/-- Reads a row of attributes. -/
def readAttributes? (cs : List Char) : Option (List Attribute) :=
  if cs.isEmpty then some []
  else match _h : readAttribute? cs with
    | none => none
    | some (first, rest) => (readAttributes? rest).map (first :: ·)
termination_by cs.length
decreasing_by exact length_of_readAttribute? ‹_›

theorem readAttributes?_cons {first : Attribute} {others : List Attribute}
    (hfirst : readAttribute? cs = some (first, rest))
    (hothers : readAttributes? rest = some others) :
    readAttributes? cs = some (first :: others) := by
  have hne : ¬ cs.isEmpty = true := by
    rw [List.isEmpty_iff]
    rintro rfl
    cases hfirst
  rw [readAttributes?, if_neg hne]
  split
  · rename_i hnone
    rw [hfirst] at hnone
    cases hnone
  · rename_i heq
    rw [hfirst] at heq
    obtain ⟨rfl, rfl⟩ := Prod.mk.inj (Option.some.inj heq)
    rw [hothers]
    rfl

/-! ## What is written is read -/

/-- An attribute as it is written. -/
def Attribute.text (a : Attribute) : String :=
  match a.value with
  | none => a.name
  | some value => quotedAttribute a.name value

/-- A text is at its end, or goes on with the blank of the next attribute. -/
def IsSeparate (rest : List Char) : Prop :=
  rest = [] ∨ ∃ more, rest = ' ' :: more

theorem IsSeparate.stops (h : IsSeparate rest) : Number.Directive.Stops isNameChar rest := by
  obtain rfl | ⟨more, rfl⟩ := h
  · exact nofun
  · intro c hc
    rw [← Option.some.inj hc]
    decide

/-- The name in front of a text that does not go on with it. -/
theorem takeWhile_name (hname : IsAttributeName name)
    (hrest : Number.Directive.Stops isNameChar rest) :
    (name.toList ++ rest).takeWhile isNameChar = name.toList ∧
      (name.toList ++ rest).dropWhile isNameChar = rest :=
  ⟨Number.Directive.takeWhile_run hname.2 hrest, Number.Directive.dropWhile_run hname.2 hrest⟩

theorem IsAttributeName.isEmpty (hname : IsAttributeName name) : name.toList.isEmpty = false := by
  simpa using hname.1

/-- A bare name is read. -/
theorem readAttribute?_bare (hname : IsAttributeName name) (hrest : IsSeparate rest) :
    readAttribute? (' ' :: (name.toList ++ rest)) = some (⟨name, none⟩, rest) := by
  obtain ⟨htake, hdrop⟩ := takeWhile_name hname hrest.stops
  simp only [readAttribute?, htake, hdrop, hname.isEmpty, String.ofList_toList]
  obtain rfl | ⟨more, rfl⟩ := hrest
  · rfl
  · rfl

theorem toList_quotedAttribute (name value : String) (rest : List Char) :
    (quotedAttribute name value).toList ++ rest =
      name.toList ++ '=' :: doubleQuote :: ((escape value).toList ++ doubleQuote :: rest) := by
  have hopen : "=\"".toList = ['=', doubleQuote] := rfl
  have hclose : "\"".toList = [doubleQuote] := rfl
  simp only [quotedAttribute, String.toList_append, List.append_assoc, hopen, hclose,
    List.cons_append, List.nil_append]

theorem stops_equals (more : List Char) : Number.Directive.Stops isNameChar ('=' :: more) := by
  intro c hc
  rw [List.head?_cons, Option.mem_some_iff] at hc
  rw [← hc]
  decide

/-- The value behind a name ends at the first quote. -/
theorem readAttribute?_equals (hname : IsAttributeName name) (quoted : List Char) :
    readAttribute? (' ' :: (name.toList ++ '=' :: doubleQuote :: quoted)) =
      match cutAt doubleQuote quoted with
      | (value, some after) => some (⟨name, some (String.ofList (unescape value))⟩, after)
      | (_, none) => none := by
  obtain ⟨htake, hdrop⟩ := takeWhile_name hname (stops_equals (doubleQuote :: quoted))
  simp only [readAttribute?, htake, hdrop, hname.isEmpty, String.ofList_toList]
  rfl

/-- A value in quotes is read, and what stands behind the closing quote is left. -/
theorem readAttribute?_quoted (hname : IsAttributeName name) (value : String) (rest : List Char) :
    readAttribute? (' ' :: ((quotedAttribute name value).toList ++ rest)) =
      some (⟨name, some value⟩, rest) := by
  rw [toList_quotedAttribute, readAttribute?_equals hname,
    cutAt_append (not_mem_escape (by decide))]
  simp only [unescape_escape, String.ofList_toList]

/-- A written attribute is read. -/
theorem readAttribute?_text {a : Attribute} (hname : IsAttributeName a.name)
    (hrest : IsSeparate rest) :
    readAttribute? (' ' :: (a.text.toList ++ rest)) = some (a, rest) := by
  obtain ⟨name, value⟩ := a
  cases value with
  | none => exact readAttribute?_bare hname hrest
  | some value => exact readAttribute?_quoted hname value rest

theorem toList_spacedText_cons (first : String) (others : List String) :
    (spacedText (first :: others)).toList =
      ' ' :: (first.toList ++ (spacedText others).toList) := by
  rw [spacedText_cons, String.toList_append, String.toList_append, List.append_assoc]
  rfl

theorem isSeparate_spacedText (attributes : List String) :
    IsSeparate (spacedText attributes).toList := by
  cases attributes with
  | nil => exact .inl rfl
  | cons first others => exact .inr ⟨_, toList_spacedText_cons first others⟩

/-- A row of written attributes is read. -/
theorem readAttributes?_spacedText {found : List Attribute}
    (h : ∀ a ∈ found, IsAttributeName a.name) :
    readAttributes? (spacedText (found.map Attribute.text)).toList = some found := by
  induction found with
  | nil =>
      rw [List.map_nil, spacedText_nil, readAttributes?]
      rfl
  | cons a found ih =>
      obtain ⟨ha, hfound⟩ := List.forall_mem_cons.mp h
      rw [List.map_cons, toList_spacedText_cons]
      exact readAttributes?_cons (readAttribute?_text ha (isSeparate_spacedText _)) (ih hfound)

end SemanticMarkup.Markup
