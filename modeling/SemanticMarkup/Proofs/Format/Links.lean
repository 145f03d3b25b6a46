import SemanticMarkup.Proofs.Format.Faults
import SemanticMarkup.Proofs.Markup.AttributeReader

/-!
# Links

A link is one element with the text of a value inside and one attribute with the address. Reading
it gives the text and the address back. The address begins with a scheme unless the text has the
mark of a scheme somewhere without beginning with one: such a text is taken as it stands.
-/

namespace SemanticMarkup

namespace Markup

open SemanticMarkup.Text

/-! ## Elements with text -/

/-- An element with text inside. -/
structure TextElement where
  /-- The name of the tags. -/
  name : String
  /-- The attributes of the opening tag. -/
  attributes : List Attribute
  /-- The text, without the entities of the markup. -/
  content : String
  deriving DecidableEq, Repr

namespace TextElement

/-- An element as it is written. -/
def text (e : TextElement) : String :=
  "<" ++ e.name ++ spacedText (e.attributes.map Attribute.text) ++ ">" ++ escape e.content ++ "</"
    ++ e.name ++ ">"

/-- The element that a markup consists of. -/
def read? (markup : List Char) : Option TextElement :=
  match markup with
  | '<' :: rest =>
      match cutAt '>' rest with
      | (tag, some inner) =>
          let name := tag.takeWhile isNameChar
          match readAttributes? (tag.dropWhile isNameChar), cutAt '<' inner with
          | some attributes, (content, some closing) =>
              if name ≠ [] ∧ closing = '/' :: (name ++ ['>']) then
                some ⟨String.ofList name, attributes, String.ofList (unescape content)⟩
              else none
          | _, _ => none
      | (_, none) => none
  | _ => none

end TextElement

variable {name : String} {c : Char}

/-- Neither a name nor a written attribute closes its tag. -/
theorem IsAttributeName.not_mem (hname : IsAttributeName name) : '>' ∉ name.toList := by
  intro hmem
  have hchar := hname.2 '>' hmem
  exact absurd hchar (by decide)

theorem not_mem_text {a : Attribute} (hname : IsAttributeName a.name) : '>' ∉ a.text.toList := by
  obtain ⟨name, value⟩ := a
  cases value with
  | none => exact hname.not_mem
  | some value =>
      have hescape : '>' ∉ (escape value).toList := not_mem_escape (by decide)
      have htext := toList_quotedAttribute name value []
      rw [List.append_nil] at htext
      rw [Attribute.text, htext]
      simp only [List.mem_append, List.mem_cons, not_or, List.not_mem_nil, or_false]
      exact ⟨hname.not_mem, by decide, by decide, hescape, by decide⟩

theorem not_mem_spacedText {attributes : List Attribute}
    (h : ∀ a ∈ attributes, IsAttributeName a.name) :
    '>' ∉ (spacedText (attributes.map Attribute.text)).toList := by
  induction attributes with
  | nil => exact List.not_mem_nil
  | cons a attributes ih =>
      obtain ⟨ha, hattributes⟩ := List.forall_mem_cons.mp h
      rw [List.map_cons, toList_spacedText_cons, List.mem_cons, List.mem_append, not_or, not_or]
      exact ⟨by decide, not_mem_text ha, ih hattributes⟩

namespace TextElement

theorem toList_text (e : TextElement) :
    e.text.toList = '<' :: ((e.name.toList ++ (spacedText (e.attributes.map Attribute.text)).toList)
      ++ '>' :: ((escape e.content).toList ++ '<' :: '/' :: (e.name.toList ++ ['>']))) := by
  have hopen : "<".toList = ['<'] := rfl
  have hclose : ">".toList = ['>'] := rfl
  have hend : "</".toList = ['<', '/'] := rfl
  simp only [text, String.toList_append, hopen, hclose, hend, List.append_assoc, List.cons_append,
    List.nil_append]

/-- A written element is read. -/
theorem read?_text {e : TextElement} (hname : IsAttributeName e.name)
    (hattributes : ∀ a ∈ e.attributes, IsAttributeName a.name) : read? e.text.toList = some e := by
  obtain ⟨htake, hdrop⟩ := takeWhile_name hname
    (isSeparate_spacedText (e.attributes.map Attribute.text)).stops
  have htag : '>' ∉ e.name.toList ++ (spacedText (e.attributes.map Attribute.text)).toList := by
    rw [List.mem_append, not_or]
    exact ⟨hname.not_mem, not_mem_spacedText hattributes⟩
  have hcontent : '<' ∉ (escape e.content).toList := not_mem_escape (by decide)
  have hne : e.name.toList ≠ [] := by
    rw [ne_eq, ← List.isEmpty_iff, hname.isEmpty]
    exact Bool.false_ne_true
  rw [toList_text, read?, cutAt_append htag]
  dsimp only
  rw [htake, hdrop, readAttributes?_spacedText hattributes, cutAt_append hcontent]
  dsimp only
  rw [if_pos ⟨hne, rfl⟩, unescape_escape, String.ofList_toList, String.ofList_toList]

end TextElement

end Markup

namespace Formatter

open SemanticMarkup.Text SemanticMarkup.Markup

/-! ## Schemes -/

/-- Whether a character may stand in a scheme. -/
def isSchemeChar (c : Char) : Bool :=
  c.isAlphanum || c == '+' || c == '-' || c == '.'

/-- A text begins with a scheme: a letter, then letters, digits, `+`, `-` and `.`, then the mark. -/
def HasScheme (s : String) : Prop :=
  ∃ first more rest, s.toList = first :: (more ++ (schemeMark ++ rest)) ∧ first.isAlpha = true ∧
    ∀ c ∈ more, isSchemeChar c = true

/-- Whether a text begins with a scheme. -/
def beginsWithScheme (s : String) : Bool :=
  match s.toList with
  | [] => false
  | first :: tail => first.isAlpha && schemeMark.isPrefixOf (tail.dropWhile isSchemeChar)

variable {s : String}

/-- A scheme ends at the mark, whose colon cannot stand in a scheme. -/
theorem stops_schemeMark (rest : List Char) :
    Number.Directive.Stops isSchemeChar (schemeMark ++ rest) := by
  intro c hc
  obtain rfl : ':' = c := Option.some.inj hc
  decide

theorem beginsWithScheme_iff : beginsWithScheme s = true ↔ HasScheme s := by
  constructor
  · intro h
    rw [beginsWithScheme] at h
    split at h
    · cases h
    · rename_i first tail hs
      obtain ⟨hfirst, hmark⟩ := (Bool.and_eq_true _ _).mp h
      obtain ⟨rest, hrest⟩ := List.isPrefixOf_iff_prefix.mp hmark
      refine ⟨first, tail.takeWhile isSchemeChar, rest, ?_, hfirst,
        fun _ => List.mem_takeWhile_imp⟩
      rw [hrest, List.takeWhile_append_dropWhile, hs]
  · rintro ⟨first, more, rest, hs, hfirst, hmore⟩
    rw [beginsWithScheme, hs]
    dsimp only
    rw [Number.Directive.dropWhile_run hmore (stops_schemeMark rest), hfirst, Bool.true_and,
      List.isPrefixOf_iff_prefix]
    exact List.prefix_append _ _

instance (s : String) : Decidable (HasScheme s) :=
  decidable_of_iff _ beginsWithScheme_iff

theorem occursIn_iff (part cs : List Char) : occursIn part cs = true ↔ part <:+: cs := by
  induction cs with
  | nil => rw [occursIn, List.isEmpty_iff, List.infix_nil]
  | cons c rest ih =>
      rw [occursIn, Bool.or_eq_true, List.isPrefixOf_iff_prefix, ih, List.infix_cons_iff]

theorem HasScheme.infix (h : HasScheme s) : schemeMark <:+: s.toList := by
  obtain ⟨first, more, rest, hs, -, -⟩ := h
  exact ⟨first :: more, rest, by rw [hs]; simp⟩

theorem hasScheme_http (s : String) : HasScheme ("http://" ++ s) := by
  refine ⟨'h', ['t', 't', 'p'], s.toList, ?_, by decide, List.all_eq_true.mp rfl⟩
  rw [String.toList_append]
  rfl

/-- A text is shorter than the text behind a scheme. -/
theorem ne_http_append (s : String) : s ≠ "http://" ++ s := by
  intro h
  have hlength := congrArg String.length h
  rw [String.length_append] at hlength
  have hscheme : "http://".length = 7 := rfl
  omega

/-! ## Links -/

/-- The format of links. -/
def linkFormat : Value :=
  .text "url"

/-- The link with an address and a text. -/
def linkElement (target content : String) : TextElement :=
  { name := "a", attributes := [⟨"href", some target⟩], content := content }

theorem webLink_eq (s : String) :
    webLink s =
      (linkElement (if occursIn schemeMark s.toList then s else "http://" ++ s) s).text := by
  have hopen : "<a href=\"" = "<" ++ "a" ++ " " ++ "href" ++ "=\"" := rfl
  have hmiddle : "\">" = "\"" ++ ">" := rfl
  have hclose : "</a>" = "</" ++ "a" ++ ">" := rfl
  rw [webLink, hopen, hmiddle, hclose]
  simp only [TextElement.text, linkElement, List.map_cons, List.map_nil, spacedText_cons,
    spacedText_nil, Attribute.text, quotedAttribute, String.append_assoc, String.append_empty]

theorem read?_webLink (s : String) : TextElement.read? (webLink s).toList =
    some (linkElement (if occursIn schemeMark s.toList then s else "http://" ++ s) s) := by
  have hname : IsAttributeName "a" := ⟨by decide, List.all_eq_true.mp (by decide +kernel)⟩
  have hhref : IsAttributeName "href" := ⟨by decide, List.all_eq_true.mp (by decide +kernel)⟩
  rw [webLink_eq]
  exact TextElement.read?_text hname (List.forall_mem_singleton.mpr hhref)

variable {v : Value}

theorem format_link (f : Formatter) (h : v.isNull = false) :
    f.format v linkFormat = do return webLink (← v.asText) :=
  format_of_asks f (Format.asks_named .url) (Nat.le_refl 0) h

/-- A value that has a text is shown as one link with this text, whose address is the text if the
mark of a scheme occurs in it, and the text behind `http://` otherwise. The address begins with a
scheme, and a text without one is not its own address, unless the mark occurs in such a text. -/
theorem format_url (f : Formatter) (hnull : v.isNull = false) (hwritable : v.isWritable = true) :
    ∃ link target, f.format v linkFormat = .ok link ∧
      TextElement.read? link.toList = some ⟨"a", [⟨"href", some target⟩], v.display⟩ ∧
      (schemeMark <:+: v.display.toList → target = v.display) ∧
      (¬ schemeMark <:+: v.display.toList → target = "http://" ++ v.display) ∧
      (target = (if HasScheme v.display then v.display else "http://" ++ v.display) ↔
        HasScheme v.display ∨ ¬ schemeMark <:+: v.display.toList) ∧
      (HasScheme target ↔ HasScheme v.display ∨ ¬ schemeMark <:+: v.display.toList) := by
  have hlink : f.format v linkFormat = .ok (webLink v.display) := by
    rw [format_link f hnull, Value.asText_of_isWritable hwritable]
    rfl
  refine ⟨_, _, hlink, read?_webLink v.display, ?_⟩
  by_cases hmark : schemeMark <:+: v.display.toList
  · rw [if_pos ((occursIn_iff _ _).mpr hmark), or_iff_left (not_not_intro hmark)]
    refine ⟨fun _ => rfl, fun hno => absurd hmark hno, ?_, Iff.rfl⟩
    constructor
    · intro haddress
      by_contra hscheme
      rw [if_neg hscheme] at haddress
      exact ne_http_append _ haddress
    · intro hscheme
      rw [if_pos hscheme]
  · have hscheme : ¬ HasScheme v.display := mt HasScheme.infix hmark
    rw [if_neg (mt (occursIn_iff _ _).mp hmark), if_neg hscheme]
    exact ⟨fun hyes => absurd hyes hmark, fun _ => rfl, iff_of_true rfl (.inr hmark),
      iff_of_true (hasScheme_http _) (.inr hmark)⟩

/-- A text that has to be escaped in both places of its link. -/
def quotedText : String :=
  "a.org/<b>?\"c\""

/-- The link with this text. -/
def quotedLink : String :=
  "<a href=\"http://a.org/&lt;b&gt;?&quot;c&quot;\">a.org/&lt;b&gt;?&quot;c&quot;</a>"

theorem format_url_quotedText :
    Value.isNull (.text quotedText) = false ∧ Value.isWritable (.text quotedText) = true ∧
    (ofComplete .standard).format (.text quotedText) linkFormat = .ok quotedLink ∧
    TextElement.read? quotedLink.toList =
      some ⟨"a", [⟨"href", some ("http://" ++ quotedText)⟩], quotedText⟩ ∧
    HasScheme ("http://" ++ quotedText) := by
  have hshown : (ofComplete .standard).format (.text quotedText) linkFormat = .ok quotedLink := by
    decide +kernel
  have hmark : ¬ schemeMark <:+: quotedText.toList := by
    rw [← occursIn_iff]
    decide +kernel
  obtain ⟨link, target, hlink, hread, -, hprefixed, -, hscheme⟩ :=
    format_url (ofComplete .standard) (v := .text quotedText) rfl rfl
  obtain rfl := Except.ok.inj (hlink.symm.trans hshown)
  obtain rfl : target = "http://" ++ quotedText := hprefixed hmark
  exact ⟨rfl, rfl, hshown, hread, hscheme.mpr (.inr hmark)⟩

/-- The text of a link with another link in its query. -/
def linkWithQuery : String :=
  "example.com/?next=http://other.org"

/-- A text without a scheme in which the mark of a scheme occurs is its own address. -/
theorem format_url_linkWithQuery :
    ¬ HasScheme linkWithQuery ∧
    (ofComplete .standard).format (.text linkWithQuery) linkFormat =
      .ok ("<a href=\"example.com/?next=http://other.org\">"
        ++ "example.com/?next=http://other.org</a>") := by
  refine ⟨?_, ?_⟩
  · decide +kernel
  · decide +kernel

end Formatter

end SemanticMarkup
