import SemanticMarkup.Proofs.Card.Calls
import SemanticMarkup.Proofs.Session.Kept

/-!
# The render calls of a session

When a card is built, the microformats that it embeds are rendered, each once,
and these calls are all that the session gains. After that the card makes one
call for each time that it is rendered.
-/

namespace SemanticMarkup.Session

open Stateful SemanticMarkup.Embedding

variable {name engine : String} {o : Opening} {s t : Session} {c : Card}

/-- A card that is created has the engine and the depth that were asked for, and brings the calls of
what it embeds. -/
theorem calls_of_create (hnew : run (create name engine o) s = (.ok c, t)) :
    s.registry.engineOf engine = .ok c.engine ∧ o.request.depth = some c.depth ∧
      ∃ made, forestCalls s.registry c.engine c.depth (Card.embeddings o.request.attributes) =
        some made ∧ t.calls = s.calls ++ made := by
  obtain ⟨e, site, p, r, hengine, hprepare, hbuild, rfl⟩ := of_create hnew
  obtain ⟨hregistry, hprepared⟩ := site_of_prepare hprepare
  have hleaves : Leaves Session.calls (prepare (o.withEngine e)) :=
    leaves_prepare (fun _ _ => rfl) _
  have hcalls : r.calls = (cleared name s).calls := hleaves.eq hprepare
  have hmade := Card.calls_build hbuild
  obtain ⟨records, -, rfl⟩ := Card.outcome_build_eq_ok_iff_records.mp hbuild
  obtain ⟨root, depth, options, template, -, hdepth, -, -, rfl⟩ :=
    Request.prepare_eq_ok_iff.mp hprepared
  obtain ⟨hdepth, -⟩ := Request.checkDepth_eq_ok_iff.mp hdepth
  rw [hregistry] at hmade
  exact ⟨hengine, hdepth, _, hmade, congrArg (· ++ _) hcalls⟩

/-- A card that is created renders all that it embeds once, while it is built. Later it makes one
call for each time that it is rendered, whatever is done between. -/
theorem calls_once (hnew : run (create name engine o) s = (.ok c, t)) :
    (s.registry.engineOf engine = .ok c.engine ∧ o.request.depth = some c.depth ∧
      ∃ made, forestCalls s.registry c.engine c.depth (Card.embeddings o.request.attributes) =
        some made ∧ t.calls = s.calls ++ made) ∧
    ∀ ops : List Operation, (∀ op ∈ ops, op.created? ≠ some name) →
      (run (Operation.renderCard name).perform (later ops t)).1 = c.render.outcome.map .text ∧
      (run (Operation.renderCard name).perform (later ops t)).2.calls = (later ops t).calls ++
        if c.render.outcome.isOk then
          [{ engine := c.engine, root := c.root, depth := c.depth }] else [] := by
  refine ⟨calls_of_create hnew, ?_⟩
  intro ops hothers
  rw [run_renderCard (lookup_later hnew hothers), Card.calls_render]
  exact ⟨rfl, rfl⟩

/-- A request for a card with two neighbours, one with a nested microformat, and a hidden entry. -/
def nestedOpening : Opening where
  request := {
    engine := .basic
    root := .text "h-card"
    model := .dict []
    attributes := .list [
      .dict (Entries.ofFields [("microformat", .text "h-adr"), ("class", .text "framed"),
        ("attributes", .list [.dict (Entries.ofFields
          [("microformat", .text "h-geo"), ("attributes", .list [])])])]),
      .dict (Entries.ofFields [("microformat", .text "h-geo"), ("visible", .bool false)]),
      .dict (Entries.ofFields [("microformat", .text "h-item"), ("attributes", .list [])])]
    template := .null
    options := .null
    depth := some 0 }
  settings := none
  formatter := none

theorem calls_once_nestedOpening :
    ∃ c t, run (create "ada" Registry.basicName nestedOpening) framedSession = (.ok c, t) ∧
      t.calls = [⟨.marked "F", "h-geo", 2⟩, ⟨.marked "F", "h-adr", 1⟩, ⟨.basic, "h-item", 1⟩] ∧
      (run (Operation.renderCard "ada").perform (later disturbances t)).2.calls =
        (later disturbances t).calls ++
          if c.render.outcome.isOk then
            [{ engine := c.engine, root := c.root, depth := c.depth }] else [] := by
  obtain ⟨c, t, hnew⟩ := exists_of_isOk (u := create "ada" Registry.basicName nestedOpening)
    (s := framedSession) (by decide +kernel)
  obtain ⟨⟨hengine, hdepth, made, hmade, hcalls⟩, hlater⟩ := calls_once hnew
  refine ⟨c, t, hnew, ?_, (hlater disturbances (by decide)).2⟩
  have hbasic : c.engine = .basic := (Except.ok.inj hengine).symm
  have hzero : c.depth = 0 := (Option.some.inj hdepth).symm
  have hlisted : forestCalls framedSession.registry .basic 0
      (Card.embeddings nestedOpening.request.attributes) =
        some [⟨.marked "F", "h-geo", 2⟩, ⟨.marked "F", "h-adr", 1⟩, ⟨.basic, "h-item", 1⟩] := by
    decide +kernel
  rw [hbasic, hzero, hlisted] at hmade
  rw [hcalls, ← Option.some.inj hmade]
  rfl

end SemanticMarkup.Session
