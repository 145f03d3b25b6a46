import SemanticMarkup.Proofs.Format.Coordinates
import SemanticMarkup.Proofs.Format.Degrees
import SemanticMarkup.Proofs.Number.Written

/-!
# The grammar of coordinate formats

A format is accepted if its words are one to three directives for doubles and perhaps the
final word for the hemisphere. Whether it is accepted is found out in three places: when
the words are counted, when the form of the directives is checked, and when they are
applied to numbers. Together they accept exactly the formats of the grammar, whatever
the numbers are.
-/

namespace SemanticMarkup

open SemanticMarkup.Number SemanticMarkup.Text

/-- A failure because of the format of a coordinate. -/
def Failure.IsFormat (e : Failure) : Prop :=
  ∃ fault, e = .format fault

/-- A computation succeeds exactly under a condition, and else fails because of a format. -/
abbrev Outcome.Accepts {α : Type} (condition : Prop) : Outcome α → Prop :=
  Gives (fun e => e.IsFormat ∧ ¬ condition) fun _ => condition

/-- Under its condition an accepted computation succeeds. -/
theorem Outcome.exists_of_accepts {α : Type} {condition : Prop} {made : Outcome α}
    (h : Outcome.Accepts condition made) (hcondition : condition) : ∃ a, made = .ok a := by
  cases made with
  | ok a => exact ⟨a, rfl⟩
  | error e => exact absurd hcondition h.2

namespace Coordinates

/-- The words of a format with these directives. -/
def Plan.words (p : Plan) : List (List Char) :=
  p.directives ++ if p.hemisphere then [hemisphereWord] else []

/-- The words of a format without the final one for the hemisphere. -/
def numericWords (sections : List (List Char)) : List (List Char) :=
  if sections.getLast? == some hemisphereWord then sections.dropLast else sections

/-- The words of a format are its directives, and perhaps the one for the hemisphere. -/
theorem words_numericWords (sections : List (List Char)) :
    Plan.words ⟨numericWords sections, sections.getLast? == some hemisphereWord⟩ = sections := by
  rw [Plan.words, numericWords]
  split
  · rename_i hlast
    obtain ⟨front, rfl⟩ := List.getLast?_eq_some_iff.mp (beq_iff_eq.mp hlast)
    simp
  · simp [*]

/-- Directives have not the form of the word for the hemisphere. -/
theorem getLast?_words {p : Plan} (h : ∀ d ∈ p.directives, Directive.wellFormed d = true) :
    (p.words.getLast? == some hemisphereWord) = p.hemisphere := by
  rw [Plan.words]
  cases p.hemisphere with
  | true => simp
  | false =>
      rw [if_neg (by decide), List.append_nil, beq_eq_false_iff_ne]
      intro hlast
      exact absurd (h _ (List.mem_of_getLast? hlast)) (by decide)

/-- Without the word for the hemisphere the words are the directives. -/
theorem numericWords_words {p : Plan}
    (h : ∀ d ∈ p.directives, Directive.wellFormed d = true) :
    numericWords p.words = p.directives := by
  rw [numericWords, getLast?_words h, Plan.words]
  cases p.hemisphere <;> simp

/-- A format is read if its words are one to three directives and perhaps the one for the
hemisphere. -/
theorem Plan.read_eq_ok_iff {s : String} {p : Plan} :
    Plan.read s = .ok p ↔ wordsOf s.toList = p.words ∧ p.directives ≠ [] ∧
      p.directives.length ≤ 3 ∧ ∀ d ∈ p.directives, Directive.wellFormed d = true := by
  rw [Plan.read, ← numericWords]
  constructor
  · intro h
    split at h
    · cases h
    rename_i hcount
    split at h
    · cases h
    rename_i hnone
    obtain rfl := Except.ok.inj h
    have hfew : numericWords (wordsOf s.toList) ≠ [] ∧
        (numericWords (wordsOf s.toList)).length ≤ 3 := by simpa using hcount
    exact ⟨(words_numericWords _).symm, hfew.1, hfew.2, by simpa using List.find?_eq_none.mp hnone⟩
  · intro ⟨hwords, hne, hfew, hall⟩
    have hlast := getLast?_words hall
    have hnone : p.directives.find? (fun d => !Directive.wellFormed d) = none :=
      List.find?_eq_none.mpr fun d hd => by simp [hall d hd]
    rw [hwords, numericWords_words hall, if_neg (by simpa using And.intro hne hfew), hnone, hlast]

/-- A directive is applied to a double exactly if it is one for doubles. -/
theorem accepts_applyDirective {written : List Char} (hbelow : Directive.Below 1000 written)
    (x : Double) :
    Outcome.Accepts (Directive.ForDouble written) (applyDirective written (.double x)) := by
  unfold applyDirective
  dsimp only
  split
  · rename_i fault hread
    have hnot : ¬ Directive.ForDouble written := by
      intro hdouble
      obtain ⟨d, hd, -⟩ := Directive.exists_read_of_forDouble hdouble hbelow
      rw [hd] at hread
      cases hread
    have hsize := Directive.ne_tooLarge_of_read hread
    cases fault with
    | tooLarge => exact absurd rfl hsize
    | _ => exact ⟨⟨_, rfl⟩, hnot⟩
  · rename_i d hread
    obtain ⟨hwidth, hprecision⟩ := Directive.numbers_lt_of_read hread hbelow
    have hlimit : 1000 ≤ writtenLimit := by decide
    rw [if_neg (by omega), Directive.forDouble_iff_of_read hread hbelow]
    have happly := Directive.gives_apply (Directive.letter_of_read hread) x
    cases hmade : d.apply (.double x) with
    | error fault =>
        rw [hmade] at happly
        cases fault with
        | tooLarge => exact absurd rfl happly.1
        | _ => exact ⟨⟨_, rfl⟩, happly.2⟩
    | ok cs =>
        rw [hmade] at happly
        exact happly

/-- A text behind another one. -/
theorem followedBy_of_isString {v : Value} (h : v.IsString) (s : String) :
    followedBy s v = .ok (s ++ v.display) := by
  cases h <;> rfl

/-- Groups are made of the directives that symbols are left for, if these are for doubles. -/
theorem accepts_groups {directives : List (List Char)}
    (hbelow : ∀ d ∈ directives, Directive.Below 1000 d) {numbers : List Double}
    (hnumbers : directives.length ≤ numbers.length) {symbols : List Value}
    (hstrings : ∀ v ∈ symbols, v.IsString) :
    Outcome.Accepts (∀ d ∈ directives.take symbols.length, Directive.ForDouble d)
      (groups directives (numbers.map .double) symbols) := by
  induction directives generalizing numbers symbols with
  | nil =>
      rw [List.take_nil]
      exact nofun
  | cons directive directives ih =>
      cases numbers with
      | nil => cases hnumbers
      | cons x numbers =>
          cases symbols with
          | nil => exact nofun
          | cons symbol symbols =>
              obtain ⟨hdirective, hbelow⟩ := List.forall_mem_cons.mp hbelow
              obtain ⟨hstring, hstrings⟩ := List.forall_mem_cons.mp hstrings
              have hrest := ih hbelow (Nat.le_of_succ_le_succ hnumbers) hstrings
              simp only [List.length_cons, List.take_succ_cons, List.forall_mem_cons, List.map_cons,
                groups]
              refine Gives.bind ((accepts_applyDirective hdirective x).imp
                fun e he => ⟨he.1, fun hall => he.2 hall.1⟩) fun number hfirst => ?_
              rw [followedBy_of_isString hstring, Outcome.ok_bind]
              refine Gives.bind (hrest.imp fun e he => ⟨he.1, fun hall => he.2 hall.2⟩)
                fun shown hothers => ?_
              exact ⟨hfirst, hothers⟩

/-- Texts as symbols, and a name for each hemisphere. -/
structure Named (c : Coordinates) : Prop where
  strings : ∀ v ∈ c.symbols, v.IsString
  hemispheres : ∀ axis negative, ∃ name, name.IsString ∧
    Entries.named? c.hemispheres (hemisphereLetter axis negative) = some name

/-- At least three symbols, and a name for each hemisphere. -/
structure Equipped (c : Coordinates) : Prop extends c.Named where
  symbols : 3 ≤ c.symbols.length

theorem Complete.equipped {c : Coordinates} {symbols : List String} (h : c.Complete symbols) :
    c.Equipped where
  symbols := by rw [h.symbols, List.length_map, h.three]
  strings := by
    rw [h.symbols]
    exact List.forall_mem_map.mpr fun s _ => .text s
  hemispheres axis negative := by
    obtain ⟨name, hname⟩ := h.hemispheres axis negative
    exact ⟨_, .text name, hname⟩

/-- The words of a format are one to three directives for doubles, and perhaps the one for the
hemisphere. -/
structure Plan.Spells (p : Plan) (format : Value) : Prop where
  words : wordsOf format.display.toList = p.words
  ne_nil : p.directives ≠ []
  few : p.directives.length ≤ 3
  forDouble : ∀ d ∈ p.directives, Directive.ForDouble d

/-- A format of the grammar. -/
def Grammatical (format : Value) : Prop :=
  ∃ p : Plan, p.Spells format

/-- All widths and precisions in a format are below 1000. -/
def Moderate (format : Value) : Prop :=
  ∀ word ∈ wordsOf format.display.toList, Directive.Below 1000 word

theorem Plan.Spells.read {p : Plan} {format : Value} (h : p.Spells format) :
    Plan.read format.display = .ok p :=
  Plan.read_eq_ok_iff.mpr ⟨h.words, h.ne_nil, h.few,
    fun d hd => Directive.wellFormed_of_forDouble (h.forDouble d hd)⟩

/-- A format that was read is one of the grammar if its directives are for doubles. -/
theorem grammatical_iff_of_read {format : Value} {p : Plan}
    (h : Plan.read format.display = .ok p) :
    Grammatical format ↔ ∀ d ∈ p.directives, Directive.ForDouble d := by
  obtain ⟨hwords, hne, hfew, -⟩ := Plan.read_eq_ok_iff.mp h
  constructor
  · intro ⟨other, hother⟩
    obtain rfl := Except.ok.inj (h.symm.trans hother.read)
    exact hother.forDouble
  · exact fun hall => ⟨p, hwords, hne, hfew, hall⟩

/-- Whether a text is read as a format with directives for doubles. -/
def readsGrammatical (s : String) : Bool :=
  match Plan.read s with
  | .ok p => p.directives.all Directive.readsForDouble
  | .error _ => false

theorem below_of_moderate {format : Value} (hmoderate : Moderate format) {p : Plan}
    (h : Plan.read format.display = .ok p) : ∀ d ∈ p.directives, Directive.Below 1000 d := by
  intro d hd
  refine hmoderate d ?_
  rw [(Plan.read_eq_ok_iff.mp h).1, Plan.words]
  exact List.mem_append_left _ hd

/-- The formats of the grammar with small numbers are found by reading. -/
theorem grammatical_iff_reads {format : Value} (hmoderate : Moderate format) :
    Grammatical format ↔ readsGrammatical format.display = true := by
  rw [readsGrammatical]
  cases hread : Plan.read format.display with
  | ok p =>
      have hbelow := below_of_moderate hmoderate hread
      rw [grammatical_iff_of_read hread, List.all_eq_true]
      exact forall₂_congr fun d hd => Directive.forDouble_iff_reads (hbelow d hd)
  | error e =>
      refine ⟨fun ⟨p, hp⟩ => ?_, nofun⟩
      rw [hp.read] at hread
      cases hread

theorem planOf_of_isString {format : Value} (h : format.IsString) :
    planOf format = Plan.read format.display := by
  cases h <;> rfl

variable {c : Coordinates} {format : Value}

/-- The steps from a double to its text. -/
theorem render_of_isString (hstring : format.IsString) (c : Coordinates) (axis : Axis)
    (x : Double) : c.render axis (.float x) format = (do
      let plan ← Plan.read format.display
      let hemisphere ← if plan.hemisphere then hemisphereName c axis x.isNegative else pure ""
      let numbers ← components (.double x)
      let shown ← groups plan.directives numbers c.symbols
      let sign := if x.isNegative && hemisphere == "" then "-" else ""
      return sign ++ " ".intercalate shown ++ hemisphere) := by
  have hnull : format.isNull = false := by cases hstring <;> rfl
  rw [render, hnull, if_neg (by decide), planOf_of_isString hstring]
  rfl

theorem exists_hemisphereName (hc : c.Named) (axis : Axis) (negative : Bool) :
    ∃ name, Entries.named? c.hemispheres (hemisphereLetter axis negative) = some name ∧
      hemisphereName c axis negative = .ok (" " ++ name.display) := by
  obtain ⟨name, hstring, hname⟩ := hc.hemispheres axis negative
  refine ⟨name, hname, ?_⟩
  rw [hemisphereName, hname]
  exact followedBy_of_isString hstring " "

/-- A format is read, and its directives that symbols are left for are for doubles. -/
def Shows (c : Coordinates) (format : Value) : Prop :=
  ∃ p, Plan.read format.display = .ok p ∧
    ∀ d ∈ p.directives.take c.symbols.length, Directive.ForDouble d

theorem shows_of_grammatical (h : Grammatical format) : c.Shows format := by
  obtain ⟨p, hp⟩ := h
  exact ⟨p, hp.read, fun d hd => hp.forDouble d (List.mem_of_mem_take hd)⟩

/-- With a symbol for each directive all of them have to be for doubles. -/
theorem shows_iff_grammatical (hc : c.Equipped) : c.Shows format ↔ Grammatical format := by
  refine ⟨fun ⟨p, hp, hall⟩ => ?_, shows_of_grammatical⟩
  obtain ⟨-, -, hfew, -⟩ := Plan.read_eq_ok_iff.mp hp
  rw [List.take_of_length_le (hfew.trans hc.symbols)] at hall
  exact (grammatical_iff_of_read hp).mpr hall

/-- Reading only fails for formats that are not shown. -/
theorem gives_read (c : Coordinates) (format : Value) :
    Gives (fun e => e.IsFormat ∧ ¬ c.Shows format)
      (fun p => Plan.read format.display = .ok p) (Plan.read format.display) := by
  cases hread : Plan.read format.display with
  | ok p => exact rfl
  | error e =>
      refine ⟨?_, fun ⟨p, hp, _⟩ => by rw [hp] at hread; cases hread⟩
      rw [Plan.read, ← numericWords] at hread
      split at hread
      · exact ⟨_, (Except.error.inj hread).symm⟩
      · split at hread
        · exact ⟨_, (Except.error.inj hread).symm⟩
        · cases hread

theorem shows_iff_of_read {p : Plan} (h : Plan.read format.display = .ok p) :
    c.Shows format ↔ ∀ d ∈ p.directives.take c.symbols.length, Directive.ForDouble d := by
  constructor
  · intro ⟨other, hother, hall⟩
    obtain rfl := Except.ok.inj (h.symm.trans hother)
    exact hall
  · exact fun hall => ⟨p, h, hall⟩

/-- A number of degrees in range is shown in the formats that can be shown, and in no others. -/
theorem accepts_render (hc : c.Named) (hstring : format.IsString) (hmoderate : Moderate format)
    (axis : Axis) {x : Double} (hx : inRange axis x = true) :
    Outcome.Accepts (c.Shows format) (c.render axis (.float x) format) := by
  obtain ⟨negative, units, rfl, hunits⟩ := exists_units_of_inRange hx
  rw [render_of_isString hstring]
  refine (gives_read c format).bind fun plan hplan => ?_
  obtain ⟨-, -, hfew, -⟩ := Plan.read_eq_ok_iff.mp hplan
  obtain ⟨minutes, seconds, hcomponents⟩ := exists_components hunits
  have hbelow := below_of_moderate hmoderate hplan
  have hgroups : Outcome.Accepts
      (∀ d ∈ plan.directives.take c.symbols.length, Directive.ForDouble d)
      (groups plan.directives [.double (.finite false units), .double minutes, .double seconds]
        c.symbols) :=
    @accepts_groups _ hbelow [.finite false units, minutes, seconds] hfew _ hc.strings
  rw [← shows_iff_of_read hplan] at hgroups
  rw [hcomponents]
  generalize Double.isNegative (.finite negative units) = below
  cases plan.hemisphere with
  | true =>
      obtain ⟨name, -, hname⟩ := exists_hemisphereName hc axis below
      rw [if_pos rfl, hname, Outcome.ok_bind]
      exact hgroups.bind fun shown hshows => hshows
  | false => exact hgroups.bind fun shown hshows => hshows

/-- A latitude or longitude is shown in the formats of the grammar, and every other format is
refused. This depends neither on the value nor on the axis. -/
theorem renderValid_accepts (hc : c.Equipped) (hstring : format.IsString)
    (hmoderate : Moderate format) :
    ∀ axis v, Possible axis v →
      ((∃ text, c.renderValid axis v format = .ok text) ↔ Grammatical format) ∧
        (¬ Grammatical format → ∃ fault, c.renderValid axis v format = .error (.format fault)) := by
  intro axis v hv
  obtain ⟨x, hx, hrange⟩ := possible_iff.mp hv
  have haccepts := accepts_render hc.toNamed hstring hmoderate axis hrange
  rw [shows_iff_grammatical hc] at haccepts
  rw [renderValid_eq_render hx hrange]
  cases hshown : c.render axis (.float x) format with
  | ok text =>
      rw [hshown] at haccepts
      exact ⟨⟨fun _ => haccepts, fun _ => ⟨text, rfl⟩⟩, fun hnot => absurd haccepts hnot⟩
  | error e =>
      rw [hshown] at haccepts
      obtain ⟨⟨fault, rfl⟩, hnot⟩ := haccepts
      exact ⟨⟨nofun, fun h => absurd h hnot⟩, fun _ => ⟨fault, rfl⟩⟩

theorem equipped_standard : (ofComplete .standard).Equipped := by
  have hcomplete : (ofComplete .standard).Complete Settings.standard.coordinateSymbols :=
    ⟨rfl, rfl, fun axis negative => by cases axis <;> cases negative <;> exact ⟨_, rfl⟩⟩
  exact hcomplete.equipped

/-- The numbers in a format are small if all its words are short. -/
theorem moderate_of_length
    (h : (wordsOf format.display.toList).all (fun word => word.length ≤ 5) = true) :
    Moderate format := by
  intro word hword
  exact Directive.below_of_length (k := 3) (by simpa using List.all_eq_true.mp h word hword)

theorem possible_degrees : Possible .longitude (.int 120) :=
  possible_iff.mpr ⟨_, degrees?_eq_some_iff.mpr (.int 120 (by decide +kernel)), by decide +kernel⟩

theorem renderValid_accepts_standard :
    (∃ text, (ofComplete .standard).renderValid .longitude (.int 120) (.text "%02d %.3f h") =
        .ok text) ∧
      ∃ fault, (ofComplete .standard).renderValid .longitude (.int 120) (.text "%02d %x") =
        .error (.format fault) := by
  have hgood : Moderate (.text "%02d %.3f h") := moderate_of_length (by decide +kernel)
  have hbad : Moderate (.text "%02d %x") := moderate_of_length (by decide +kernel)
  constructor
  · refine (renderValid_accepts equipped_standard (.text _) hgood _ _ possible_degrees).1.mpr ?_
    exact (grammatical_iff_reads hgood).mpr (by decide +kernel)
  · refine (renderValid_accepts equipped_standard (.text _) hbad _ _ possible_degrees).2 fun h => ?_
    exact absurd ((grammatical_iff_reads hbad).mp h) (by decide +kernel)

/-- Coordinates with a symbol for degrees only. -/
def degreesOnly : Coordinates :=
  { ofComplete .standard with symbols := [.text "d"] }

/-- A directive that no symbol is left for is not applied, so it is not found that it is for
integers only. -/
theorem renderValid_degreesOnly :
    degreesOnly.renderValid .latitude (.float (.finite false (45 * Double.one))) (.text "%d %x") =
        .ok "45d" ∧
      Possible .latitude (.float (.finite false (45 * Double.one))) ∧
      Moderate (.text "%d %x") ∧ ¬ Grammatical (.text "%d %x") := by
  have hmoderate : Moderate (.text "%d %x") := moderate_of_length (by decide +kernel)
  refine ⟨Outcome.eq_ok_of_toOption (by decide +kernel), ?_, hmoderate, fun h => ?_⟩
  · exact possible_iff.mpr ⟨_, degrees?_eq_some_iff.mpr (.float _), by decide +kernel⟩
  · exact absurd ((grammatical_iff_reads hmoderate).mp h) (by decide +kernel)

end Coordinates

end SemanticMarkup
