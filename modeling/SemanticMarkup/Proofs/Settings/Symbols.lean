import SemanticMarkup.Proofs.Json.Visible
import SemanticMarkup.Proofs.Record.Options
import SemanticMarkup.Proofs.Settings.Problems

/-!
# Symbols from a variable and from an argument

The three symbols of coordinates may be given as a text: as an argument it is a JSON list, or else
cut at its commas. A variable of the environment is decoded as JSON first, and what it holds is read
like an argument. So the same text means the same in both places if it is a JSON list. Any other
text that one of the two accepts is refused by the other, or read as other symbols: a JSON string
loses its quotes in the environment only, and `null` is no text there.
-/

namespace SemanticMarkup.Settings

open SemanticMarkup.Text

variable {s : String} {v : Value}

/-! ## Loading nothing but symbols -/

/-- The variable that the symbols are read from. -/
def symbolsVariable : String := "MICROFORMATS_COORDINATE_SYMBOLS"

/-- The usual settings with other symbols. -/
def withSymbols (symbols : List String) : Settings :=
  { standard with coordinateSymbols := symbols }

/-- Only the symbols are given. -/
def onlySymbols (v : Value) (name : String) : Option Value :=
  if name = "coordinate_symbols" then some v else none

theorem argument?_symbols (v : Value) :
    argument? [("coordinate_symbols", v)] = onlySymbols v := by
  funext name
  have hlower : lowerAscii "coordinate_symbols" = "coordinate_symbols" := by decide
  by_cases hname : name = "coordinate_symbols"
  · subst hname
    simp [argument?, onlySymbols, Fields.named?]
  · have hne : ("coordinate_symbols" == name) = false := beq_eq_false_iff_ne.mpr (Ne.symm hname)
    simp [argument?, onlySymbols, Fields.named?, hlower, hne, hname]

theorem given?_symbols (v : Value) : given? [("coordinate_symbols", v)] [] = onlySymbols v := by
  funext name
  by_cases hname : name = "coordinate_symbols"
  · subst hname
    simp [given?, argument?, onlySymbols, Fields.named?]
  · have hne : ("coordinate_symbols" == name) = false := beq_eq_false_iff_ne.mpr (Ne.symm hname)
    simp [given?, argument?, onlySymbols, Fields.named?, hne, hname]

theorem setting_onlySymbols {α : Type} {name : String} (hname : name ≠ "coordinate_symbols")
    (standard : α) (read : List String → Value → Reading α) :
    setting (onlySymbols v) name standard read = .ok standard := by
  rw [setting, onlySymbols, if_neg hname]

theorem assemble_onlySymbols (v : Value) (symbols : Reading (List String)) :
    assemble (onlySymbols v) symbols [] = symbols.map withSymbols := by
  simp (disch := decide) only [assemble, setting_onlySymbols, Reading.issues, List.nil_append,
    List.append_nil]
  cases symbols with
  | ok ss => rfl
  | error problems => cases problems <;> rfl

/-- An argument with symbols, and nothing else. -/
theorem load_symbolsArgument (v : Value) : load [] [("coordinate_symbols", v)] =
    readSymbols ["coordinate_symbols"] v >>= fun symbols =>
      Reading.outcome (symbols.map withSymbols) := by
  have hextra : unknownArguments [("coordinate_symbols", v)] = [] := by
    have hknown : fieldNames.contains (lowerAscii "coordinate_symbols") = true := by decide
    rw [unknownArguments, List.filter_cons_of_neg (by rw [hknown]; decide)]
    rfl
  rw [load_nil, argument?_symbols, hextra]
  simp only [assemble_onlySymbols]
  rfl

theorem value?_symbolsVariable (s : String) {name : String} (hname : name ∈ fieldNames) :
    Variables.value? [(symbolsVariable, s)] (variableStart ++ name) =
      if name = "coordinate_symbols" then some s else none := by
  have hnames : ∀ name ∈ fieldNames, (lowerAscii symbolsVariable == variableStart ++ name) =
      decide (name = "coordinate_symbols") := by decide
  rw [Variables.value?, List.reverse_singleton, List.find?_singleton, hnames name hname]
  by_cases h : name = "coordinate_symbols" <;> simp [h]

theorem fromVariables_symbols (s : String) : fromVariables [(symbolsVariable, s)] =
    (variableValue "coordinate_symbols" s).map fun v =>
      if v.isNull then [] else [("coordinate_symbols", v)] := by
  simp (disch := decide) only [fromVariables, fieldNames, List.mapM_cons, List.mapM_nil,
    value?_symbolsVariable, String.reduceEq, reduceIte]
  cases variableValue "coordinate_symbols" s with
  | error e => rfl
  | ok v => cases hnull : v.isNull <;> simp [hnull, Except.map]

theorem load_of_fromVariables {environment : Variables} {ambient : Fields}
    (h : fromVariables environment = .ok ambient) : load environment [] =
      symbolsOf (given? ambient []) >>= fun symbols =>
        (assemble (given? ambient []) symbols []).outcome := by
  rw [load, h]
  rfl

/-- What a variable holds is read like an argument, and null is as good as no variable. -/
theorem load_symbolsVariable (s : String) : load [(symbolsVariable, s)] [] =
    variableValue "coordinate_symbols" s >>= fun v =>
      if v.isNull then .ok standard else load [] [("coordinate_symbols", v)] := by
  have hgiven := fromVariables_symbols s
  cases hvalue : variableValue "coordinate_symbols" s with
  | error e =>
      rw [hvalue] at hgiven
      rw [load, hgiven]
      rfl
  | ok v =>
      rw [hvalue, Except.map] at hgiven
      rw [Outcome.ok_bind]
      by_cases hnull : v.isNull = true
      · rw [if_pos hnull] at hgiven ⊢
        rw [load_of_fromVariables hgiven]
        rfl
      · rw [if_neg hnull] at hgiven ⊢
        rw [load_of_fromVariables hgiven, given?_symbols, load_symbolsArgument]
        simp only [assemble_onlySymbols]
        rfl

/-! ## The symbols that a text lists -/

variable {path ss : List String} {items : List Value} {t : String}

theorem text_eq_ok_of_ne_bytes (hbytes : ∀ bs, v ≠ .bytes bs) :
    Reading.text path v = .ok s ↔ v = .text s := by
  rw [Reading.text_eq_ok_iff, Value.Spells]
  refine or_iff_left fun hspelled => ?_
  obtain ⟨bs, hv, -⟩ := hspelled
  exact hbytes bs hv

/-- Texts are read as what they are. -/
theorem texts_list_eq_ok_iff (hbytes : ∀ item ∈ items, ∀ bs, item ≠ .bytes bs) :
    texts path (.list items) = .ok ss ↔ items = ss.map .text := by
  have hread (place : Nat → List String) :
      (items.mapIdx fun i item => Reading.text (place i) item) = ss.map .ok ↔
        items = ss.map .text := by
    induction items generalizing place ss with
    | nil => cases ss <;> simp
    | cons item items ih =>
        obtain ⟨hitem, hitems⟩ := List.forall_mem_cons.mp hbytes
        cases ss with
        | nil => simp
        | cons s ss =>
            rw [List.mapIdx_cons, List.map_cons, List.map_cons, List.cons.injEq, List.cons.injEq,
              text_eq_ok_of_ne_bytes hitem, ih hitems]
  exact Reading.all_eq_ok_iff.trans (hread _)

/-- The texts between the commas of a text, without blanks around them. -/
def pieceTexts (t : String) : List String :=
  (t.toList.splitOn ',').map fun piece => String.ofList (trim piece)

theorem commaPieces_eq (t : String) : commaPieces t = (pieceTexts t).map .text := by
  rw [commaPieces, pieceTexts, List.map_map]
  rfl

/-- Each comma is lost between two texts, and nothing else that is no blank. -/
theorem visibleIn_pieceTexts (t : String) :
    Json.visibleIn (pieceTexts t) + (pieceTexts t).length = visible t.toList + 1 := by
  have hcuts := visible_splitOn (show isBlank ',' = false by decide) t.toList
  have hsum : Json.visibleIn (pieceTexts t) = ((t.toList.splitOn ',').map visible).sum := by
    rw [Json.visibleIn, pieceTexts, List.map_map]
    congr 2
    funext piece
    rw [Function.comp_apply, String.toList_ofList, visible_trim]
  rw [hsum, pieceTexts, List.length_map, hcuts]

theorem toList_strip (t : String) : (strip t).toList = trim t.toList :=
  String.toList_ofList

/-- The items that a text lists are those of a JSON list, or the pieces between commas. -/
theorem symbolsOfText?_cases (h : symbolsOfText? t = some items) :
    Json.read (trim t.toList) = .ok (.list items) ∨ items = (pieceTexts (strip t)).map .text := by
  unfold symbolsOfText? at h
  dsimp only at h
  rw [commaPieces_eq, toList_strip] at h
  split at h
  · split at h
    · cases h
      exact .inl ‹_›
    · cases h
    · exact .inr (Option.some.inj h).symm
  · exact .inr (Option.some.inj h).symm

theorem symbolsOfText?_of_list (h : Json.read t.toList = .ok (.list items)) :
    symbolsOfText? t = some items := by
  obtain ⟨⟨inner, htrim⟩, hread⟩ := Json.read_trim_of_list h
  have hlast : (trim t.toList).getLast? = some ']' := by
    rw [htrim, ← List.cons_append, List.getLast?_concat]
  have hfirst : (trim t.toList).head? = some '[' := by rw [htrim, List.head?_cons]
  rw [symbolsOfText?]
  simp only [toList_strip, hfirst, hlast, hread]
  rfl

/-- A text that does not start with a bracket is cut at its commas. -/
theorem symbolsOfText?_of_head (h : (trim t.toList).head? ≠ some '[') :
    symbolsOfText? t = some ((pieceTexts (strip t)).map .text) := by
  have hfirst : ((trim t.toList).head? == some '[') = false := beq_eq_false_iff_ne.mpr h
  rw [symbolsOfText?]
  simp only [toList_strip, hfirst, Bool.false_and, commaPieces_eq]
  rfl

theorem ne_bytes_of_symbolsOfText? (h : symbolsOfText? t = some items) :
    ∀ item ∈ items, ∀ bs, item ≠ .bytes bs := by
  intro item hitem bs
  rintro rfl
  obtain hread | hpieces := symbolsOfText?_cases h
  · cases Json.isJson_of_mem_read hread _ hitem with
    | string h => cases h
    | word h => cases h
    | number h => cases h
  · rw [hpieces] at hitem
    obtain ⟨piece, -, hpiece⟩ := List.mem_map.mp hitem
    cases hpiece

/-- The symbols of a value that stands for a list are its items, if there are three texts. -/
theorem readSymbols_eq_ok_iff (hv : symbolList? v = some (.list items))
    (hbytes : ∀ item ∈ items, ∀ bs, item ≠ .bytes bs) :
    readSymbols path v = .ok (.ok ss) ↔ items = ss.map .text ∧ ss.length = 3 := by
  have hread : readSymbols path v = .ok (if items.length = 3 then texts path (.list items)
      else Reading.refuse path .rule) := by
    rw [readSymbols, hv]
    rfl
  rw [hread, Except.ok.injEq]
  split
  · rename_i hthree
    rw [texts_list_eq_ok_iff hbytes]
    refine (and_iff_left_of_imp fun hitems => ?_).symm
    rw [← hthree, hitems, List.length_map]
  · rename_i hthree
    refine iff_of_false (fun h => by cases h) fun h => hthree ?_
    rw [h.1, List.length_map, h.2]

/-- A text lists three symbols. -/
def ListsSymbols (t : String) (ss : List String) : Prop :=
  symbolsOfText? t = some (ss.map .text) ∧ ss.length = 3

theorem readSymbols_text_iff : readSymbols path (.text t) = .ok (.ok ss) ↔ ListsSymbols t ss := by
  rw [ListsSymbols]
  cases hitems : symbolsOfText? t with
  | none =>
      rw [readSymbols, symbolList?, hitems]
      exact iff_of_false (fun h => by cases h) fun h => by cases h.1
  | some items =>
      have hlist : symbolList? (.text t) = some (.list items) := by rw [symbolList?, hitems]; rfl
      rw [readSymbols_eq_ok_iff hlist (ne_bytes_of_symbolsOfText? hitems), Option.some.injEq]

theorem uncover_eq_text {s : String} (h : uncover v = .text s) : v = .text s := by
  cases v with
  | text t =>
      rw [uncover] at h
      split at h
      · cases h
      · exact h
  | _ => exact h

theorem uncover_ne_bytes (h : ∀ bs, v ≠ .bytes bs) (bs : List Nat) : uncover v ≠ .bytes bs := by
  cases v with
  | text t =>
      rw [uncover]
      split <;> exact fun h => by cases h
  | _ => exact h bs

/-- Symbols that are texts have no stand-in in them. -/
theorem eq_map_text_of_uncover (h : items.map uncover = ss.map .text) : items = ss.map .text := by
  induction items generalizing ss with
  | nil => exact h
  | cons item items ih =>
      obtain ⟨s, ss, rfl, hitem, hitems⟩ := List.map_eq_cons_iff.mp h.symm
      rw [uncover_eq_text hitem.symm, ih hitems.symm, List.map_cons]

theorem cover_toNat (c : Char) : cover c.toNat = c :=
  (if_pos c.valid).trans (Char.ofNat_toNat c)

theorem ofCodes_cases (codes : List Nat) :
    Value.ofCodes codes = .text (String.ofList (codes.map cover)) ∨
      Value.ofCodes codes = .garbled codes := by
  unfold Value.ofCodes
  split
  · rename_i hvalid
    refine .inl (congrArg (Value.text ∘ String.ofList) (List.map_congr_left fun code hcode => ?_))
    exact (if_pos (of_decide_eq_true (List.all_eq_true.mp hvalid code hcode))).symm
  · exact .inr rfl

/-- The symbols of a JSON string are listed in its characters, with the stand-in for code points
that no character has. -/
theorem listsSymbols_of_codes {codes : List Nat}
    (h : readSymbols path (Value.ofCodes codes) = .ok (.ok ss)) :
    ListsSymbols (String.ofList (codes.map cover)) ss := by
  obtain htext | hgarbled := ofCodes_cases codes
  · rw [htext] at h
    exact readSymbols_text_iff.mp h
  · rw [hgarbled] at h
    cases hitems : symbolsOfText? (String.ofList (codes.map cover)) with
    | none =>
        rw [readSymbols, symbolList?, symbolsOfCodes?, hitems] at h
        cases h
    | some items =>
        have hlist : symbolList? (.garbled codes) = some (.list (items.map uncover)) := by
          rw [symbolList?, symbolsOfCodes?, hitems]
          rfl
        have hbytes := ne_bytes_of_symbolsOfText? hitems
        have hcovered : ∀ item ∈ items.map uncover, ∀ bs, item ≠ .bytes bs :=
          List.forall_mem_map.mpr fun item hitem => uncover_ne_bytes (hbytes item hitem)
        obtain ⟨hsymbols, hthree⟩ := (readSymbols_eq_ok_iff hlist hcovered).mp h
        exact ⟨hitems.trans (congrArg some (eq_map_text_of_uncover hsymbols)), hthree⟩

/-! ## Fewer characters than the text -/

theorem map_text_inj {us : List String} : ss.map Value.text = us.map Value.text ↔ ss = us :=
  List.map_inj_right fun _ _ => Value.text.inj

/-- Three symbols have fewer characters than the text that lists them. -/
theorem ListsSymbols.visibleIn_lt (h : ListsSymbols t ss) :
    Json.visibleIn ss < visible t.toList := by
  obtain ⟨hitems, hthree⟩ := h
  rw [← visible_trim]
  obtain hread | hpieces := symbolsOfText?_cases hitems
  · exact Json.visible_of_read hread fun hnil => by simp [hnil] at hthree
  · have hpieces := map_text_inj.mp hpieces
    have hcuts := visibleIn_pieceTexts (strip t)
    rw [← hpieces, hthree, toList_strip] at hcuts
    omega

/-- Only the commas are lost of a text that is cut there. -/
theorem visibleIn_of_head (hhead : (trim t.toList).head? ≠ some '[')
    (h : readSymbols path (.text t) = .ok (.ok ss)) : Json.visibleIn ss + 2 = visible t.toList := by
  obtain ⟨hitems, hthree⟩ := readSymbols_text_iff.mp h
  rw [symbolsOfText?_of_head hhead, Option.some.injEq] at hitems
  have hpieces := map_text_inj.mp hitems.symm
  have hcuts := visibleIn_pieceTexts (strip t)
  rw [← hpieces, hthree, toList_strip, visible_trim] at hcuts
  omega

/-- What a JSON string lists has fewer characters than what its text lists, which has the quotes
as well. -/
theorem symbols_ne_of_string {us : List String} (hread : Json.read t.toList = .ok v)
    (hv : v.IsString) (hdecoded : readSymbols path v = .ok (.ok us))
    (hwritten : readSymbols path (.text t) = .ok (.ok ss)) : us ≠ ss := by
  obtain ⟨codes, rfl, hquotes⟩ := Json.visible_of_read_ofCodes cover_toNat hread hv
  have hfewer := (listsSymbols_of_codes hdecoded).visibleIn_lt
  rw [String.toList_ofList] at hfewer
  have hhead := Json.head_trim_of_read_string hread hv
  have hcuts := visibleIn_of_head (by rw [hhead]; decide) hwritten
  rintro rfl
  omega

/-- Null is no text with the usual symbols. -/
theorem symbols_ne_of_null (hread : Json.read t.toList = .ok .null)
    (h : readSymbols path (.text t) = .ok (.ok ss)) : ss ≠ standard.coordinateSymbols := by
  obtain ⟨rest, hskip, hrest⟩ := Json.skipSpaces_of_read_null hread
  have hhead : (trim t.toList).head? = some 'n' :=
    Json.head_trim_of_skipSpaces (by rw [hskip]; rfl) (by decide)
  have hcuts := visibleIn_of_head (by rw [hhead]; decide) h
  have hvisible : visible t.toList = 4 := by
    rw [← visible_trimLeft, ← Json.trimLeft_skipSpaces, visible_trimLeft, hskip, visible_append,
      visible_eq_zero fun c hc => Json.isBlank_of_isSpace (hrest c hc)]
    decide
  have hstandard : Json.visibleIn standard.coordinateSymbols = 3 := by decide
  rintro rfl
  omega

/-! ## The same text in both places -/

theorem load_symbolsArgument_eq_some_iff {settings : Settings} :
    (load [] [("coordinate_symbols", v)]).toOption = some settings ↔
      ∃ ss, readSymbols ["coordinate_symbols"] v = .ok (.ok ss) ∧ withSymbols ss = settings := by
  rw [load_symbolsArgument]
  cases readSymbols ["coordinate_symbols"] v with
  | error e => exact iff_of_false nofun fun ⟨_, h, _⟩ => nomatch h
  | ok symbols =>
      cases symbols with
      | error problems => exact iff_of_false nofun fun ⟨_, h, _⟩ => nomatch h
      | ok ss =>
          change some (withSymbols ss) = some settings ↔ _
          simp

/-- No argument is a fault of the environment. -/
theorem load_symbolsArgument_ne_environment (v : Value) :
    load [] [("coordinate_symbols", v)] ≠ .error .environment := by
  have hgives := gives_readSymbols ["coordinate_symbols"] v
  rw [load_symbolsArgument]
  cases hread : readSymbols ["coordinate_symbols"] v with
  | error e =>
      have he : e = .fault .wrongType := by rwa [hread] at hgives
      rw [he]
      exact fun h => by cases h
  | ok symbols => cases symbols <;> exact fun h => by cases h

theorem withSymbols_inj {us : List String} (h : withSymbols ss = withSymbols us) : ss = us :=
  congrArg Settings.coordinateSymbols h

/-- A JSON list means the same in both places, also if it is refused. -/
theorem load_symbols_of_list (h : Json.read t.toList = .ok (.list items)) :
    load [(symbolsVariable, t)] [] = load [] [("coordinate_symbols", .text t)] := by
  have hvalue : variableValue "coordinate_symbols" t = .ok (.list items) := by
    rw [variableValue, h]
    rfl
  have hnull : ¬(Value.list items).isNull = true := Bool.false_ne_true
  have hlisted : symbolList? (.text t) = symbolList? (.list items) := by
    rw [symbolList?, symbolsOfText?_of_list h]
    rfl
  rw [load_symbolsVariable, hvalue, Outcome.ok_bind, if_neg hnull, load_symbolsArgument,
    load_symbolsArgument, readSymbols, readSymbols, hlisted]

/-- A mapping is never read as symbols, whatever the number of its entries. -/
theorem readSymbols_dict_ne (entries : Entries) :
    readSymbols path (.dict entries) ≠ .ok (.ok ss) := by
  have hread : readSymbols path (.dict entries) = .ok (if entries.length = 3 then
      Reading.refuse path .list else Reading.refuse path .rule) := rfl
  rw [hread]
  split <;> exact fun h => by cases h

/-- Of JSON values only lists and strings can be symbols. -/
theorem isString_or_list_of_readSymbols (hv : Json.IsJson v)
    (h : readSymbols path v = .ok (.ok ss)) : v.IsString ∨ ∃ items, v = .list items := by
  have hcounted (hcount : count? v = none) : v.IsString := by
    by_contra hstring
    rw [readSymbols_eq_fault_iff.mpr ⟨hstring, hcount⟩] at h
    cases h
  cases hv with
  | string h => exact .inl h
  | list items => exact .inr ⟨items, rfl⟩
  | dict entries => exact absurd h (readSymbols_dict_ne entries)
  | word hword => cases hword <;> exact .inl (hcounted rfl)
  | number hnumber => cases hnumber <;> exact .inl (hcounted rfl)

/-- A text that is no JSON list never gives the same settings in both places. -/
theorem load_symbolsVariable_ne (hlist : ∀ items, Json.read t.toList ≠ .ok (.list items))
    {settings : Settings} (hvariable : (load [(symbolsVariable, t)] []).toOption = some settings) :
    (load [] [("coordinate_symbols", .text t)]).toOption ≠ some settings := by
  intro hargument
  obtain ⟨ss, hwritten, rfl⟩ := load_symbolsArgument_eq_some_iff.mp hargument
  rw [load_symbolsVariable] at hvariable
  cases hread : Json.read t.toList with
  | error e =>
      rw [variableValue, hread] at hvariable
      cases hvariable
  | ok v =>
      have hvalue : variableValue "coordinate_symbols" t = .ok v := by
        rw [variableValue, hread]
        rfl
      rw [hvalue, Outcome.ok_bind] at hvariable
      split at hvariable
      · rename_i hnull
        cases v with
        | null =>
            have hstandard : standard = withSymbols ss := Option.some.inj hvariable
            exact symbols_ne_of_null hread hwritten (congrArg coordinateSymbols hstandard).symm
        | _ => cases hnull
      · obtain ⟨us, hdecoded, hsame⟩ := load_symbolsArgument_eq_some_iff.mp hvariable
        obtain hstring | ⟨items, rfl⟩ :=
          isString_or_list_of_readSymbols (Json.isJson_of_read hread) hdecoded
        · exact symbols_ne_of_string hread hstring hdecoded hwritten (withSymbols_inj hsame)
        · exact hlist items hread

/-- No other fault is one of the environment. -/
theorem load_symbolsVariable_eq_error_iff : load [(symbolsVariable, t)] [] = .error .environment ↔
    ∃ e, Json.read t.toList = .error e := by
  rw [load_symbolsVariable]
  cases hread : Json.read t.toList with
  | error e =>
      have hvalue : variableValue "coordinate_symbols" t = .error .environment := by
        rw [variableValue, hread]
        rfl
      rw [hvalue]
      exact iff_of_true rfl ⟨e, rfl⟩
  | ok v =>
      have hvalue : variableValue "coordinate_symbols" t = .ok v := by
        rw [variableValue, hread]
        rfl
      rw [hvalue, Outcome.ok_bind]
      refine iff_of_false ?_ fun h => by cases h.choose_spec
      split
      · exact fun h => by cases h
      · exact load_symbolsArgument_ne_environment v

theorem load_symbolsText_eq_some_iff {settings : Settings} :
    (load [] [("coordinate_symbols", .text t)]).toOption = some settings ↔
      ∃ ss, ListsSymbols t ss ∧ withSymbols ss = settings := by
  rw [load_symbolsArgument_eq_some_iff]
  exact exists_congr fun ss => and_congr_left fun _ => readSymbols_text_iff

/-- A text means the same in the environment and as an argument exactly if it is a JSON list or
refused in both places. -/
theorem load_symbols_same_iff :
    (load [(symbolsVariable, t)] []).toOption =
        (load [] [("coordinate_symbols", .text t)]).toOption ↔
      (∃ items, Json.read t.toList = .ok (.list items)) ∨
      (load [(symbolsVariable, t)] []).toOption = none ∧
        (load [] [("coordinate_symbols", .text t)]).toOption = none := by
  constructor
  · intro hsame
    by_cases hlist : ∃ items, Json.read t.toList = .ok (.list items)
    · exact .inl hlist
    · refine .inr ?_
      cases hvariable : (load [(symbolsVariable, t)] []).toOption with
      | none => exact ⟨rfl, by rw [← hsame, hvariable]⟩
      | some settings =>
          exact absurd (hsame ▸ hvariable)
            (load_symbolsVariable_ne (fun items h => hlist ⟨items, h⟩) hvariable)
  · rintro (⟨items, hlist⟩ | ⟨hvariable, hargument⟩)
    · rw [load_symbols_of_list hlist]
    · rw [hvariable, hargument]

/-- As an argument a text gives the three symbols that it lists, as JSON or between commas. In the
environment it is refused before, if it is no JSON. So it means the same in both places exactly if
it is a JSON list or refused in both. -/
theorem load_symbols_iff (t : String) :
    (∀ settings, (load [] [("coordinate_symbols", .text t)]).toOption = some settings ↔
      ∃ ss, ListsSymbols t ss ∧ withSymbols ss = settings) ∧
    (load [(symbolsVariable, t)] [] = .error .environment ↔ ∃ e, Json.read t.toList = .error e) ∧
    ((load [(symbolsVariable, t)] []).toOption =
        (load [] [("coordinate_symbols", .text t)]).toOption ↔
      (∃ items, Json.read t.toList = .ok (.list items)) ∨
      (load [(symbolsVariable, t)] []).toOption = none ∧
        (load [] [("coordinate_symbols", .text t)]).toOption = none) :=
  ⟨fun _ => load_symbolsText_eq_some_iff, load_symbolsVariable_eq_error_iff, load_symbols_same_iff⟩

/-- Symbols between commas are understood as an argument only. -/
theorem load_symbols_commas : load [(symbolsVariable, "d,m,s")] [] = .error .environment ∧
    load [] [("coordinate_symbols", .text "d,m,s")] = .ok (withSymbols ["d", "m", "s"]) :=
  ⟨Outcome.eq_error_of_failure? (by decide +kernel), Outcome.eq_ok_of_toOption (by decide +kernel)⟩

end SemanticMarkup.Settings
