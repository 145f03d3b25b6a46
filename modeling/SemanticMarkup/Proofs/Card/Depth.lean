import SemanticMarkup.Proofs.Card.Nesting
import SemanticMarkup.Proofs.Record.Reads

/-!
# The limit of the depth

A microformat is built exactly if its embedded ones fit under the limit of the
depth, and the limit has no other effect: at any depth with enough room below it
the same entries make the same records. It follows that an embedded microformat
can be replaced by a plain entry that shows its output.

## Implementation notes

A pattern template may show the depth and the index of its record, so the second
part is about text templates. The formatter has settings of its own, whose limit
nothing reads; it is changed as well, to any other one.
-/

namespace SemanticMarkup

/-- The settings with another limit of the depth. -/
def Settings.withLimit (settings : Settings) (limit : Nat) : Settings :=
  { settings with maxEmbedDepth := limit }

/-- The formatter of settings with another limit of the depth. -/
def Formatter.withLimit (f : Formatter) (limit : Nat) : Formatter :=
  { f with settings := f.settings.withLimit limit }

/-- The site with other limits of the depth, in its settings and in those of its formatter. -/
def Site.withLimits (site : Site) (limit other : Nat) : Site :=
  { site with
    settings := site.settings.withLimit limit
    formatter := site.formatter.withLimit other }

/-- Whether a template is a text. -/
def Template.isText : Template → Bool
  | .text _ => true
  | .pattern _ => false

/-- A value that is no pattern is no pattern as a template. -/
theorem Template.isText_of_ofValue {v : Value} {t : Template} (hv : v.isPattern = false)
    (h : Template.ofValue v = .ok (some t)) : t.isText = true := by
  cases v with
  | text s =>
      cases h
      rfl
  | garbled codes =>
      cases h
      rfl
  | template inner =>
      cases h
      cases t with
      | text body => rfl
      | pattern body => simp [Value.isPattern] at hv
  | pattern body => simp [Value.isPattern] at hv
  | _ => cases h

/-- The template of a request is a text if the given one is. -/
theorem Request.isText_of_readTemplate {settings : Settings} {v : Value} {t : Template}
    (hv : v.isPattern = false) (h : Request.readTemplate settings v = .ok t) :
    t.isText = true := by
  simp only [Request.readTemplate, Outcome.bind_eq_ok_iff, Outcome.pure_eq_ok,
    Except.ok.injEq] at h
  obtain ⟨given, hg, rfl⟩ := h
  cases given with
  | none => rfl
  | some t => exact Template.isText_of_ofValue hv hg

/-- A request that is accepted is accepted at any other allowed depth. -/
theorem Request.prepare_relocate {settings : Settings} {r : Request} {p : Prepared}
    (h : r.prepare settings = .ok p) {depth : Int} {limit : Nat} (hle : depth ≤ limit) :
    Request.prepare (settings.withLimit limit) { r with depth := some depth } =
      .ok { p with depth := depth } := by
  obtain ⟨root, d, options, template, hr, -, ho, ht, rfl⟩ := Request.prepare_eq_ok_iff.mp h
  rw [Request.prepare_eq_ok_iff]
  exact ⟨root, depth, options, template, hr, Request.checkDepth_eq_ok_iff.mpr ⟨rfl, hle⟩, ho, ht,
    rfl⟩

/-- A checked request has the model and the list of the request, and its template as it is read. -/
theorem Request.parts_of_prepare {settings : Settings} {r : Request} {p : Prepared}
    (h : r.prepare settings = .ok p) :
    p.model = r.model ∧ p.attributes = r.attributes ∧
      Request.readTemplate settings r.template = .ok p.template := by
  obtain ⟨root, depth, options, template, -, -, -, ht, rfl⟩ := Request.prepare_eq_ok_iff.mp h
  exact ⟨rfl, rfl, ht⟩

/-- Whether a record has no other template than a text. -/
def Record.IsTextual (r : Record) : Prop :=
  ∀ t, r.template = some t → t.isText = true

/-- A textual record looks the same at every index and place. -/
theorem Record.render_of_isTextual {r : Record} (hr : r.IsTextual) (f : Formatter)
    {standard : Template} (hs : standard.isText = true) (i j : Int) (place other : Option Place) :
    r.render f (some standard) i place = r.render f (some standard) j other := by
  have htext : ∃ body, r.template.or (some standard) = some (.text body) := by
    cases ht : r.template with
    | none =>
        cases standard with
        | text body => exact ⟨body, rfl⟩
        | pattern body => cases hs
    | some t =>
        cases t with
        | text body => exact ⟨body, rfl⟩
        | pattern body => cases hr _ ht
  obtain ⟨body, hb⟩ := htext
  rw [Record.render, Record.render, hb]

namespace Card

variable {site : Site} {p : Prepared} {items : List Value} {records : List Record}

/-- Around another depth, an entry makes the same request one level below that. -/
theorem nestedRequest_relocate {registry : Registry} {entries : Entries} {request : Request}
    (h : nestedRequest registry p entries = .ok request) (depth : Int) :
    nestedRequest registry { p with depth := depth } entries =
      .ok { request with depth := some (depth + 1) } := by
  obtain ⟨options, engine, ho, he, rfl⟩ := nestedRequest_eq_ok_iff.mp h
  exact nestedRequest_eq_ok_iff.mpr ⟨options, engine, ho, he, rfl⟩

/-- A nested card has the list and the template of its entry. -/
theorem inner_of_nestedRequest {entries : Entries} {request : Request} {inner : Prepared}
    (hrequest : nestedRequest site.registry p entries = .ok request)
    (hinner : request.prepare site.settings = .ok inner) :
    inner.attributes = entries.valueOf "attributes" ∧
      Request.readTemplate site.settings (entries.valueOf "template") = .ok inner.template := by
  obtain ⟨options, engine, -, -, rfl⟩ := nestedRequest_eq_ok_iff.mp hrequest
  exact (Request.parts_of_prepare hinner).2

/-- An entry that is hidden or plain does not nest. -/
theorem entryNesting_of_not_embeds {raw : Value} {entries : Entries}
    (he : Entry.ofValue raw = .ok entries) (hn : embeds entries = false) :
    entryNesting raw = 0 := by
  rw [entryNesting_eq he, hn]
  rfl

/-- Whatever is built fits under the limit. -/
theorem Built.depth_add_nesting_le (h : Built site p items records)
    (hdepth : p.depth ≤ site.settings.maxEmbedDepth) :
    p.depth + itemsNesting items ≤ site.settings.maxEmbedDepth := by
  induction h with
  | nil p => simpa [itemsNesting] using hdepth
  | hidden he hh tail ih =>
      have hzero := entryNesting_of_not_embeds he (by simp [embeds, hh])
      rw [itemsNesting, hzero, Nat.zero_max]
      exact ih hdepth
  | plain he hh hn hf tail ih =>
      have hzero := entryNesting_of_not_embeds he (by simp [embeds, hn, Value.isNull])
      rw [itemsNesting, hzero, Nat.zero_max]
      exact ih hdepth
  | embedded he hh hn hallowed hfaults hrequest hinner hitems nested hmarkup tail ihNested ihTail =>
      obtain ⟨hd, hle⟩ := depth_of_inner hrequest hinner
      have hattributes := (inner_of_nestedRequest hrequest hinner).1
      have hin := ihNested hle
      have htail := ihTail hdepth
      rw [itemsNesting, entryNesting_of_embedded he hh hn, ← hattributes,
        nesting_eq_of_entryList hitems]
      omega

/-- Entries with text templates make textual records. -/
theorem Built.isTextual (h : Built site p items records) (ht : TextTemplates items) :
    ∀ r ∈ records, r.IsTextual := by
  induction h with
  | nil p => simp
  | hidden he hh tail ih => exact ih ht.tail
  | plain he hh hn hf tail ih =>
      refine List.forall_mem_cons.mpr ⟨?_, ih ht.tail⟩
      obtain ⟨-, -, name, label, value, options, -, -, -, filled⟩ :=
        (fillPlain_eq_ok_iff_filled "").mp hf
      intro t hr
      exact Template.isText_of_ofValue (ht.head he hh) (hr ▸ filled.template)
  | embedded he hh hn hallowed hfaults hrequest hinner hitems nested hmarkup tail ihNested ihTail =>
      refine List.forall_mem_cons.mpr ⟨?_, ihTail ht.tail⟩
      intro t hr
      cases hr
      rfl

/-- Textual records make the same element at every depth and under every limit. -/
theorem markup_relocate (site : Site) (htext : p.template.isText = true)
    (hr : ∀ r ∈ records, r.IsTextual)
    (depth : Int) (limit other : Nat) :
    (Prepared.card (site.withLimits limit other) { p with depth := depth } records).markup =
      (p.card site records).markup := by
  let moved := Prepared.card (site.withLimits limit other) { p with depth := depth } records
  have hparts : ∀ e ∈ records.mapIdx fun i r => (i, r),
      moved.renderRecord e.2 (e.1 : Nat) = (p.card site records).renderRecord e.2 (e.1 : Nat) := by
    intro e he
    obtain ⟨i, hi, rfl⟩ := List.exists_of_mem_mapIdx he
    exact Record.render_of_isTextual (hr _ (List.getElem_mem hi)) site.formatter htext i i
      (some ⟨p.root, depth⟩) (some ⟨p.root, p.depth⟩)
  have hcontent : moved.content = (p.card site records).content := by
    simp only [content]
    exact congrArg (· >>= fun parts => pure (String.join parts)) (Outcome.mapM_congr hparts)
  change moved.markup = _
  rw [markup, markup, hcontent]
  rfl

/-- Whatever is built from text templates is built in the same way at every depth that leaves
enough room under the limit. -/
theorem Built.relocate (h : Built site p items records) (ht : TextTemplates items) {depth : Int}
    {limit : Nat} (other : Nat) (hle : depth + itemsNesting items ≤ limit) :
    Built (site.withLimits limit other) { p with depth := depth } items records := by
  induction h generalizing depth with
  | nil p => exact .nil _
  | hidden he hh tail ih =>
      rw [itemsNesting] at hle
      exact .hidden he hh (ih ht.tail (by omega))
  | plain he hh hn hf tail ih =>
      rw [itemsNesting] at hle
      exact .plain he hh hn hf (ih ht.tail (by omega))
  | @embedded p raw rest entries records request inner items within markup he hh hn hallowed
      hfaults hrequest hinner hitems nested hmarkup tail ihNested ihTail =>
      obtain ⟨hattributes, htemplate⟩ := inner_of_nestedRequest hrequest hinner
      have hnesting := nesting_eq_of_entryList hitems
      have hwithin := ht.inner he hh hn hattributes hitems
      rw [itemsNesting, entryNesting_of_embedded he hh hn, ← hattributes, hnesting] at hle
      have hroom : depth + 1 ≤ (limit : Int) := by omega
      have hrequest' : nestedRequest (site.withLimits limit other).registry
          { p with depth := depth } entries = .ok { request with depth := some (depth + 1) } :=
        nestedRequest_relocate hrequest depth
      have hinner' : Request.prepare (site.withLimits limit other).settings
          { request with depth := some (depth + 1) } = .ok { inner with depth := depth + 1 } :=
        Request.prepare_relocate hinner hroom
      have htext := Request.isText_of_readTemplate (ht.head he hh) htemplate
      have hmarkup' := markup_relocate site htext (nested.isTextual hwithin) (depth + 1) limit other
      have nested' :=
        ihNested hwithin (show depth + 1 + itemsNesting items ≤ (limit : Int) by omega)
      have tail' := ihTail ht.tail (show depth + itemsNesting rest ≤ (limit : Int) by omega)
      have hbuilt := Built.embedded he hh hn hallowed hfaults hrequest' hinner' hitems nested'
        (hmarkup'.trans hmarkup) tail'
      exact hbuilt

end Card

end SemanticMarkup
