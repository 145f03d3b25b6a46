import SemanticMarkup.Record.Rendering

/-!
# What a template shows

A template without tokens shows itself, and a token in front of a template shows
what it stands for, whatever characters that has. So the markup that a template
makes is found piece by piece, from right to left.
-/

namespace SemanticMarkup

namespace Template

/-- A token starts with a brace. -/
theorem Token.read?_of_ne {c : Char} (h : c ≠ '\x7b') (rest : List Char) :
    Token.read? (c :: rest) = none := by
  rw [Token.read?, Option.map_eq_none_iff, List.find?_eq_none]
  intro t _ hstart
  rw [Token.written, List.cons_append, List.isPrefixOf, Bool.and_eq_true, beq_iff_eq] at hstart
  exact h hstart.1.symm

/-- A written token is read, whatever stands behind it. -/
theorem Token.read?_written (t : Token) (rest : List Char) :
    Token.read? (t.written ++ rest) = some (t, rest) := by
  cases t <;> rfl

theorem pieces_append {literal : List Char} (h : '\x7b' ∉ literal) (rest : List Char) :
    pieces (literal ++ rest) = literal.map .literal ++ pieces rest := by
  induction literal with
  | nil => rfl
  | cons c cs ih =>
      obtain ⟨hc, hcs⟩ := not_or.mp (mt List.mem_cons.mpr h)
      rw [List.cons_append, pieces]
      split
      · rename_i hread
        rw [Token.read?_of_ne (Ne.symm hc)] at hread
        cases hread
      · rw [ih hcs, List.map_cons, List.cons_append]

theorem pieces_written (t : Token) (rest : List Char) :
    pieces (t.written ++ rest) = .token t :: pieces rest := by
  have hread := Token.read?_written t rest
  rw [Token.written, List.cons_append, List.cons_append] at hread ⊢
  rw [pieces]
  split
  · rename_i found
    rw [hread] at found
    cases found
    rfl
  · rename_i found
    rw [hread] at found
    cases found

end Template

namespace Record

open SemanticMarkup.Template

variable {f : Formatter} {r : Record}

/-- Text without braces stands for itself. -/
theorem substitute_literal {literal : String} (h : '\x7b' ∉ literal.toList) (rest : String) :
    substitute f r (literal ++ rest) = do return literal ++ (← substitute f r rest) := by
  have hliteral : ∀ cs : List Char, (cs.map Piece.literal).mapM (pieceText f r) =
      .ok (cs.map String.singleton) := by
    intro cs
    induction cs with
    | nil => rfl
    | cons c cs ih =>
        rw [List.map_cons, List.mapM_cons, ih]
        rfl
  have hjoin : String.join (literal.toList.map String.singleton) = literal := by
    apply String.toList_inj.mp
    rw [String.toList_join, List.flatMap_map]
    simp
  rw [substitute, substitute, String.toList_append, pieces_append h, List.mapM_append, hliteral]
  simp only [Outcome.ok_bind, bind_assoc, pure_bind, String.join_append, hjoin]

/-- A token stands for what it shows, and the template goes on behind it. -/
theorem substitute_token (t : Token) (rest : String) :
    substitute f r (String.ofList t.written ++ rest) = do
      let text ← tokenText f r t
      let shown ← substitute f r rest
      return text ++ shown := by
  rw [substitute, substitute, String.toList_append, String.toList_ofList, pieces_written,
    List.mapM_cons, pieceText]
  simp only [bind_assoc, pure_bind, String.join_cons]

theorem substitute_empty (f : Formatter) (r : Record) : substitute f r "" = .ok "" := by
  rw [substitute, String.toList_empty, pieces]
  rfl

/-- The markup of an entry: its attributes, its label and what it shows. -/
def entryMarkup (attributes label shown : String) : String :=
  "<div" ++ (attributes ++ ("><span class=\"label\">" ++ (label ++
    ("</span><span class=\"value\">" ++ (shown ++ "</span></div>")))))

/-- What the template of the standard settings makes of a record with a label; it fails where the
value is not shown. -/
theorem substitute_standard {attributes label : String}
    (hattributes : Markup.tagAttributes r.options = .ok attributes)
    (hlabel : r.label = some label) :
    substitute f r Settings.standard.defaultTemplate = do
      return entryMarkup attributes label (← f.format r.value r.format.toValue) := by
  have htemplate : Settings.standard.defaultTemplate =
      "<div" ++ (String.ofList Token.options.written ++ ("><span class=\"label\">" ++
        (String.ofList Token.label.written ++ ("</span><span class=\"value\">" ++
          (String.ofList Token.value.written ++ ("</span></div>" ++ "")))))) := by
    decide +kernel
  have hoptions : tokenText f r .options = .ok attributes := hattributes
  have hshown : tokenText f r .label = .ok label := by rw [tokenText, hlabel, Option.getD_some]
  rw [htemplate, substitute_literal (by decide), substitute_token, substitute_literal (by decide),
    substitute_token, substitute_literal (by decide), substitute_token,
    substitute_literal (by decide), substitute_empty, hoptions, hshown, tokenText]
  cases f.format r.value r.format.toValue <;> rfl

/-- A template that consists of the value shows the value. -/
theorem substitute_value (f : Formatter) (r : Record) :
    substitute f r "\x7bvalue\x7d" = f.format r.value r.format.toValue := by
  have htemplate : "\x7bvalue\x7d" = String.ofList Token.value.written ++ "" := by decide +kernel
  rw [htemplate, substitute_token, substitute_empty, tokenText]
  cases hvalue : f.format r.value r.format.toValue with
  | error e => rfl
  | ok shown => exact congrArg Except.ok String.append_empty

end Record

end SemanticMarkup
