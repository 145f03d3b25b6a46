import SemanticMarkup.Proofs.Card.Depth
import SemanticMarkup.Proofs.Card.Hidden
import SemanticMarkup.Proofs.Card.Invariant

/-!
# Rows of entries

A list of entries may be cut in two. Its records are those of the first part
followed by those of the second part, and if one of the parts fails, so does the
list: for the reason of the first part if this one fails, or else for that of the
second part, told with another number of the entry. The content of a card is cut
in the same place. Nothing but the index is carried over from one part to the
other, and only a pattern shows it.

## Implementation notes

An entry has two numbers: its place in the list is told in messages, and the index
of its record is shown by patterns. Both go on behind the first part, but the index
does not count hidden entries. So `recordsFrom` and `contentFrom` count from
different numbers on.
-/

namespace SemanticMarkup

namespace Card

variable (site : Site) (p : Prepared)

/-- The records of a list whose entries are counted from `start` on. -/
def recordsFrom (start : Nat) (items : List Value) : Traced (List Record) :=
  match roomAt site.settings p.depth with
  | 0 => buildRecords site 0 p
  | room + 1 =>
      Traced.forEach (recordOf (renderWith (buildRecords site room) site) site p) start items >>=
        fun shown => pure (shown.filterMap id)

theorem recordsOf_withList (items : List Value) :
    recordsOf site (p.withList items) = recordsFrom site p 0 items := by
  change buildRecords site (roomAt site.settings p.depth) (p.withList items) = _
  rw [recordsFrom]
  cases roomAt site.settings p.depth with
  | zero => rfl
  | succ room => exact buildRecords_withList site room p items

/-- The records of a list in two parts, with the same calls in the same order. -/
theorem recordsFrom_append (start : Nat) (xs ys : List Value) :
    recordsFrom site p start (xs ++ ys) = do
      let front ← recordsFrom site p start xs
      let back ← recordsFrom site p (start + xs.length) ys
      return front ++ back := by
  rw [recordsFrom, recordsFrom, recordsFrom]
  cases roomAt site.settings p.depth with
  | zero => rfl
  | succ room => simp only [Traced.forEach_append, bind_assoc, pure_bind, List.filterMap_append]

/-- Where the entries of a list are counted from is told in messages only. -/
theorem agree_recordsFrom (i j : Nat) (items : List Value) :
    Traced.Agree Eq (recordsFrom site p i items) (recordsFrom site p j items) := by
  rw [recordsFrom, recordsFrom]
  cases roomAt site.settings p.depth with
  | zero => exact .refl _
  | succ room =>
      refine (agree_forEach ?_ (.intro p (.same _)) (Padded.refl items) i j).bind
        fun _ _ h => .pure h
      exact fun r other h => agree_renderWith (fun _ _ => agree_buildRecords site room) h

/-- The outcomes of rendering the records of a card, whose indices are counted from `start` on. -/
def renderedFrom (c : Card) (start : Nat) : List (Outcome String) :=
  c.records.mapIdx fun i r => c.renderRecord r ((start + i : Nat) : Int)

/-- The content of a card whose records have the indices from `start` on. -/
def contentFrom (c : Card) (start : Nat) : Outcome String := do
  let parts ← (c.renderedFrom start).mapM id
  return String.join parts

theorem content_eq_contentFrom (c : Card) : c.content = c.contentFrom 0 := by
  rw [content, contentFrom, renderedFrom, List.mapIdx_eq_zipIdx_map, List.mapIdx_eq_zipIdx_map,
    List.mapM_map, List.mapM_map]
  simp only [Function.comp_def, Nat.zero_add, id]

/-- The content of a row of records in two parts; the indices go on behind the first one. -/
theorem contentFrom_append (start : Nat) (front back : List Record) :
    (p.card site (front ++ back)).contentFrom start = do
      let first ← (p.card site front).contentFrom start
      let second ← (p.card site back).contentFrom (start + front.length)
      return first ++ second := by
  have hparts : (p.card site (front ++ back)).renderedFrom start =
      (p.card site front).renderedFrom start ++
        (p.card site back).renderedFrom (start + front.length) := by
    have hindex (i : Nat) : start + (i + front.length) = start + front.length + i := by omega
    refine List.mapIdx_append.trans (congrArg _ ?_)
    simp only [hindex]
    rfl
  rw [contentFrom, contentFrom, contentFrom, hparts, List.mapM_append]
  simp only [bind_assoc, pure_bind, String.join_append]

/-- Records that are shown by text templates look the same whatever their indices are. -/
theorem contentFrom_of_text {records : List Record}
    (htext : ∀ r ∈ records, ∃ body, r.template.or (some p.template) = some (.text body))
    (i j : Nat) : (p.card site records).contentFrom i = (p.card site records).contentFrom j := by
  have hparts : (p.card site records).renderedFrom i = (p.card site records).renderedFrom j := by
    refine List.mapIdx_eq_mapIdx_iff.mpr fun k hk => ?_
    obtain ⟨body, hbody⟩ := htext _ (List.getElem_mem hk)
    change Record.render _ (some p.template) _ _ _ = Record.render _ (some p.template) _ _ _
    rw [Record.render, Record.render, hbody]
  rw [contentFrom, contentFrom, hparts]

/-- What a pattern shows of a record at an index; of an empty text it shows nothing. -/
def shownByPattern (r : Record) (index : Nat) (body : String) : Outcome String :=
  if Record.isEmptyText r.value then .ok "" else r.fill index (some ⟨p.root, p.depth⟩) body

/-- The content of a card has a part for each record. A pattern is filled in with the index of its
record. -/
theorem exists_parts_of_content {records : List Record} {html : String}
    (h : (p.card site records).content = .ok html) :
    ∃ parts, html = String.join parts ∧ parts.length = records.length ∧
      ∀ k r body, records[k]? = some r → r.template.or (some p.template) = some (.pattern body) →
        ∃ part, parts[k]? = some part ∧ shownByPattern p r k body = .ok part := by
  simp only [content_eq_contentFrom, contentFrom, Outcome.bind_eq_ok_iff,
    Outcome.mapM_id_eq_ok_iff, Outcome.pure_eq_ok, Except.ok.injEq] at h
  obtain ⟨parts, hparts, rfl⟩ := h
  refine ⟨parts, rfl, ?_, fun k r body hr hbody => ?_⟩
  · have hlength := congrArg List.length hparts
    rw [renderedFrom, List.length_mapIdx, List.length_map] at hlength
    exact hlength.symm
  · have hk := congrArg (fun outcomes => outcomes[k]?) hparts
    simp only [renderedFrom, List.getElem?_mapIdx, List.getElem?_map, Prepared.card, hr,
      Option.map_some, Nat.zero_add] at hk
    obtain ⟨part, hpart, hshown⟩ := Option.map_eq_some_iff.mp hk.symm
    change Except.ok part = Record.render _ (some p.template) r k _ at hshown
    rw [Record.render, hbody] at hshown
    exact ⟨part, hpart, hshown.symm⟩

section Records

variable {site p} {xs ys : List Value} {front back : List Record} {e : Failure}

theorem outcome_recordsOf_append :
    (recordsOf site (p.withList (xs ++ ys))).outcome = do
      let front ← (recordsOf site (p.withList xs)).outcome
      let back ← (recordsFrom site p xs.length ys).outcome
      return front ++ back := by
  rw [recordsOf_withList, recordsOf_withList, recordsFrom_append, Nat.zero_add,
    Traced.outcome_bind]
  exact congrArg _ (funext fun front => Traced.outcome_bind _ _)

/-- The second part on its own fails where it fails behind the first one, but for the index. -/
theorem agree_second (site : Site) (p : Prepared) (xs ys : List Value) :
    Outcome.Agree Eq (recordsOf site (p.withList ys)).outcome
      (recordsFrom site p xs.length ys).outcome := by
  rw [recordsOf_withList]
  exact (agree_recordsFrom site p 0 xs.length ys).outcome

theorem recordsOf_append_eq_ok_iff {records : List Record} :
    (recordsOf site (p.withList (xs ++ ys))).outcome = .ok records ↔
      ∃ front back, (recordsOf site (p.withList xs)).outcome = .ok front ∧
        (recordsOf site (p.withList ys)).outcome = .ok back ∧ records = front ++ back := by
  simp only [outcome_recordsOf_append, Outcome.bind_eq_ok_iff,
    ← (agree_second site p xs ys).eq_ok_iff, Outcome.pure_eq_ok, Except.ok.injEq]
  constructor
  · rintro ⟨front, hfront, back, hback, rfl⟩
    exact ⟨front, back, hfront, hback, rfl⟩
  · rintro ⟨front, back, hfront, hback, rfl⟩
    exact ⟨front, hfront, back, hback, rfl⟩

/-- The reason of the second part is told with another number. -/
theorem exists_error_of_second (hfront : (recordsOf site (p.withList xs)).outcome = .ok front)
    (he : (recordsOf site (p.withList ys)).outcome = .error e) :
    ∃ e', (recordsOf site (p.withList (xs ++ ys))).outcome = .error e' ∧ e.SameUpToIndex e' := by
  obtain ⟨e', he', hsame⟩ := (agree_second site p xs ys).exists_eq_error he
  rw [outcome_recordsOf_append, hfront, he']
  exact ⟨e', rfl, hsame⟩

end Records

/-- Building records and rendering them go through a list of entries part by part. The records of
two lists in a row are those of the first list followed by those of the second one. If one of the
lists fails, so does the row: with the failure of the first list, or else with that of the second
list, in which only the number of the entry may differ. The content is made of both contents in the
same way, if the second list is shown by text templates. A pattern is filled in with the index of
its record among those of the whole row, where hidden entries do not count. -/
theorem recordsOf_append (xs ys : List Value) :
    (∀ records, (recordsOf site (p.withList (xs ++ ys))).outcome = .ok records ↔
      ∃ front back, (recordsOf site (p.withList xs)).outcome = .ok front ∧
        (recordsOf site (p.withList ys)).outcome = .ok back ∧ records = front ++ back) ∧
    (∀ e, (recordsOf site (p.withList xs)).outcome = .error e →
      (recordsOf site (p.withList (xs ++ ys))).outcome = .error e) ∧
    (∀ front e, (recordsOf site (p.withList xs)).outcome = .ok front →
      (recordsOf site (p.withList ys)).outcome = .error e →
      ∃ e', (recordsOf site (p.withList (xs ++ ys))).outcome = .error e' ∧ e.SameUpToIndex e' ∧
        ∃ (pieces : Option (List String)) (i j : Nat),
          e.message? = pieces.map (String.intercalate (placeName i)) ∧
            e'.message? = pieces.map (String.intercalate (placeName j))) ∧
    ∀ front back, (recordsOf site (p.withList xs)).outcome = .ok front →
      (recordsOf site (p.withList ys)).outcome = .ok back →
      ((∀ r ∈ back, ∃ body, r.template.or (some p.template) = some (.text body)) →
        (p.card site (front ++ back)).content = do
          let first ← (p.card site front).content
          let second ← (p.card site back).content
          return first ++ second) ∧
      List.Forall₂ (Fits site (p.withList (xs ++ ys))) (shownEntries (xs ++ ys)) (front ++ back) ∧
      ∀ html, (p.card site (front ++ back)).content = .ok html →
        ∃ parts, html = String.join parts ∧ parts.length = (front ++ back).length ∧
          ∀ k r body, (front ++ back)[k]? = some r →
            r.template.or (some p.template) = some (.pattern body) →
            ∃ part, parts[k]? = some part ∧ shownByPattern p r k body = .ok part := by
  refine ⟨fun records => recordsOf_append_eq_ok_iff, fun e he => ?_, fun front e hfront he => ?_,
    fun front back hfront hback =>
      ⟨fun htext => ?_, ?_, fun html => exists_parts_of_content site p⟩⟩
  -- the first list fails, then only the second one does, and then none of them
  · rw [outcome_recordsOf_append, he]
    rfl
  · obtain ⟨e', he', hsame⟩ := exists_error_of_second hfront he
    exact ⟨e', he', hsame, hsame.exists_pieces⟩
  · rw [content_eq_contentFrom, contentFrom_append, contentFrom_of_text site p htext _ 0,
      ← content_eq_contentFrom, ← content_eq_contentFrom]
  · have hall := recordsOf_append_eq_ok_iff.mpr ⟨front, back, hfront, hback, rfl⟩
    obtain ⟨items, hitems, hfits⟩ := recordsOf_fit hall
    obtain rfl : xs ++ ys = items := Except.ok.inj hitems
    exact hfits

/-- The pattern that shows the index of a record. -/
def indexPattern : String := "%\x7bindex\x7d"

/-- A hidden entry and one that is shown by a pattern. -/
def countedItems : List Value :=
  [.dict hiddenEntry,
    .dict (Entries.ofFields [("value", .int 7), ("template", .pattern indexPattern)])]

/-- The pattern behind a hidden entry and a name has the index 1, and a value that is missing there
is told of the entry with the number 1. -/
theorem recordsOf_append_counted :
    (∃ front back, (recordsOf (Site.ofComplete .standard)
          (mixedRequest.withList [.text "p-name"])).outcome = .ok front ∧
        (recordsOf (Site.ofComplete .standard) (mixedRequest.withList countedItems)).outcome =
          .ok back ∧
        ∃ html parts, (mixedRequest.card (Site.ofComplete .standard) (front ++ back)).content =
            .ok html ∧ html = String.join parts ∧ parts[1]? = some "1") ∧
      ∃ front e e', (recordsOf (Site.ofComplete .standard)
          (mixedRequest.withList [.text "p-name"])).outcome = .ok front ∧
        (recordsOf (Site.ofComplete .standard) (mixedRequest.withList [.dict []])).outcome =
          .error e ∧
        (recordsOf (Site.ofComplete .standard)
          (mixedRequest.withList [.text "p-name", .dict []])).outcome = .error e' ∧
        e.SameUpToIndex e' := by
  obtain ⟨front, hfront⟩ : ∃ front, (recordsOf (Site.ofComplete .standard)
      (mixedRequest.withList [.text "p-name"])).outcome = .ok front :=
    Outcome.exists_of_isOk (by decide +kernel)
  obtain ⟨back, hback⟩ : ∃ back, (recordsOf (Site.ofComplete .standard)
      (mixedRequest.withList countedItems)).outcome = .ok back :=
    Outcome.exists_of_isOk (by decide +kernel)
  obtain ⟨hcombined, -, -, hboth⟩ :=
    recordsOf_append (Site.ofComplete .standard) mixedRequest [.text "p-name"] countedItems
  have hall := (hcombined _).mpr ⟨front, back, hfront, hback, rfl⟩
  have hcontent : ((recordsOf (Site.ofComplete .standard)
      (mixedRequest.withList ([.text "p-name"] ++ countedItems))).outcome >>= fun records =>
        (mixedRequest.card (Site.ofComplete .standard) records).content).isOk = true := by
    decide +kernel
  have hpattern : ((recordsOf (Site.ofComplete .standard) (mixedRequest.withList
      ([.text "p-name"] ++ countedItems))).outcome.toOption.getD [])[1]?.map (fun r =>
        (r.template, (shownByPattern mixedRequest r 1 indexPattern).toOption)) =
      some (some (.pattern indexPattern), some "1") := by decide +kernel
  rw [hall] at hcontent hpattern
  obtain ⟨html, hhtml⟩ := Outcome.exists_of_isOk hcontent
  obtain ⟨parts, hparts, -, hshown⟩ := (hboth front back hfront hback).2.2 html hhtml
  obtain ⟨r, hr, htemplate⟩ := Option.map_eq_some_iff.mp hpattern
  obtain ⟨hbody, hone⟩ := Prod.mk.inj htemplate
  obtain ⟨part, hpart, hfilled⟩ := hshown 1 r indexPattern hr (by rw [hbody]; rfl)
  refine ⟨⟨front, back, hfront, hback, html, parts, hhtml, hparts, ?_⟩, ?_⟩
  · rw [hpart, Except.ok.inj (hfilled.symm.trans (Outcome.eq_ok_of_toOption hone))]
  · have hmissing : (recordsOf (Site.ofComplete .standard)
        (mixedRequest.withList [.dict []])).outcome =
          Outcome.configError (.noValue (placeName 0)) :=
      Outcome.eq_error_of_failure? (by decide +kernel)
    obtain ⟨-, -, hsecond, -⟩ :=
      recordsOf_append (Site.ofComplete .standard) mixedRequest [.text "p-name"] [.dict []]
    obtain ⟨e', he', hsame, -⟩ := hsecond front _ hfront hmissing
    exact ⟨front, _, e', hfront, hmissing, he', hsame⟩

end Card

end SemanticMarkup
