import SemanticMarkup.Text.Split

/-!
# Pieces of a text

What cutting at separators, joining with separators and replacing a character have to do with each
other. A text and its pieces determine each other as long as no piece holds a separator, and what
is done to every character of a joined text is done to its pieces and to what stands between them.
-/

namespace SemanticMarkup.Text

variable {sep old c : Char} {new cs piece : List Char} {pieces : List (List Char)}

/-! ## Cutting -/

/-- Every character of a text stands before or behind the cut, or is the separator. -/
theorem mem_cutAt {rest : List Char} (h : (cutAt sep cs).2 = some rest) (hc : c ∈ rest) :
    c ∈ cs := by
  have hjoin := cutAt_join sep cs
  cases hcut : cutAt sep cs with
  | mk before after =>
      rw [hcut] at h hjoin
      dsimp only at h
      subst h
      dsimp only at hjoin
      rw [← hjoin]
      exact List.mem_append_right _ (List.mem_cons_of_mem _ hc)

/-- The first piece stands before the first separator, and the others are those of the rest. -/
theorem splitOn_eq_cutAt (sep : Char) (cs : List Char) :
    cs.splitOn sep = match (cutAt sep cs).2 with
      | none => [(cutAt sep cs).1]
      | some rest => (cutAt sep cs).1 :: rest.splitOn sep := by
  induction cs with
  | nil => rfl
  | cons c rest ih =>
      rw [List.splitOn_cons_eq_if_modifyHead]
      by_cases hc : c = sep
      · simp only [cutAt, beq_iff_eq, hc, if_true]
      · simp only [cutAt, beq_iff_eq, hc, if_false]
        rw [ih]
        cases (cutAt sep rest).2 <;> rfl

/-- No piece holds a separator. -/
theorem not_mem_of_mem_splitOn (h : piece ∈ cs.splitOn sep) : sep ∉ piece := by
  induction cs generalizing piece with
  | nil =>
      rw [List.splitOn_nil, List.mem_singleton] at h
      rw [h]
      exact List.not_mem_nil
  | cons c rest ih =>
      rw [List.splitOn_cons_eq_if_modifyHead] at h
      obtain ⟨first, pieces, hrest⟩ := List.exists_cons_of_ne_nil (List.splitOn_ne_nil sep rest)
      split at h
      · obtain rfl | h := List.mem_cons.mp h
        · exact List.not_mem_nil
        · exact ih h
      · rename_i hc
        rw [hrest, List.modifyHead_cons] at h
        obtain rfl | h := List.mem_cons.mp h
        · rw [List.mem_cons, not_or]
          exact ⟨fun heq => hc (beq_iff_eq.mpr heq.symm), ih (hrest ▸ List.mem_cons_self)⟩
        · exact ih (hrest ▸ List.mem_cons_of_mem _ h)

/-! ## Joining -/

theorem intercalate_cons_cons (sep : Char) (piece next : List Char) (pieces : List (List Char)) :
    [sep].intercalate (piece :: next :: pieces) =
      piece ++ sep :: [sep].intercalate (next :: pieces) := by
  rw [List.intercalate_cons_cons, List.append_assoc, List.singleton_append]

/-- Texts are joined as their rows of characters are. -/
theorem intercalate_eq_ofList {joint : String} (hjoint : joint.toList = [sep])
    (texts : List String) :
    joint.intercalate texts = String.ofList ([sep].intercalate (texts.map String.toList)) := by
  rw [← String.toList_inj, String.toList_intercalate, String.toList_ofList, hjoint]

theorem mem_intercalate {sep : List Char} (h : c ∈ sep.intercalate pieces) :
    c ∈ sep ∨ ∃ piece ∈ pieces, c ∈ piece := by
  induction pieces with
  | nil => cases h
  | cons piece rest ih =>
      cases rest with
      | nil =>
          rw [List.intercalate_singleton] at h
          exact .inr ⟨piece, List.mem_singleton.mpr rfl, h⟩
      | cons next rest =>
          rw [List.intercalate_cons_cons, List.mem_append, List.mem_append] at h
          obtain (h | h) | h := h
          · exact .inr ⟨piece, List.mem_cons_self, h⟩
          · exact .inl h
          · obtain h | ⟨other, ho, h⟩ := ih h
            · exact .inl h
            · exact .inr ⟨other, List.mem_cons_of_mem _ ho, h⟩

/-- What is written for the characters of a joined text is written for its pieces and for the
characters between them. -/
theorem flatMap_intercalate (f : Char → List Char) (sep : List Char) (pieces : List (List Char)) :
    (sep.intercalate pieces).flatMap f =
      (sep.flatMap f).intercalate (pieces.map (List.flatMap f)) := by
  induction pieces with
  | nil => rfl
  | cons piece rest ih =>
      cases rest with
      | nil => simp only [List.map_cons, List.map_nil, List.intercalate_singleton]
      | cons next rest =>
          rw [List.intercalate_cons_cons, List.flatMap_append, List.flatMap_append, ih]
          simp only [List.map_cons, List.intercalate_cons_cons]

theorem map_intercalate (f : Char → Char) (sep : Char) (pieces : List (List Char)) :
    ([sep].intercalate pieces).map f = [f sep].intercalate (pieces.map (List.map f)) := by
  have hmap : List.map f = List.flatMap fun c => [f c] :=
    funext fun cs => List.map_eq_flatMap
  rw [hmap, flatMap_intercalate]
  rfl

/-! ## Replacing -/

theorem replaceChar_append (old : Char) (new front back : List Char) :
    replaceChar old new (front ++ back) = replaceChar old new front ++ replaceChar old new back :=
  List.flatMap_append

theorem replaceChar_of_not_mem (new : List Char) (h : old ∉ cs) : replaceChar old new cs = cs := by
  induction cs with
  | nil => rfl
  | cons c rest ih =>
      obtain ⟨hc, hrest⟩ := not_or.mp (mt List.mem_cons.mpr h)
      rw [replaceChar, List.flatMap_cons, if_neg (Ne.symm hc)]
      exact congrArg (c :: ·) (ih hrest)

theorem replaceChar_ne_nil (hnew : new ≠ []) (hcs : cs ≠ []) : replaceChar old new cs ≠ [] := by
  obtain ⟨c, rest, rfl⟩ := List.exists_cons_of_ne_nil hcs
  rw [replaceChar, List.flatMap_cons]
  intro h
  have hfirst := (List.append_eq_nil_iff.mp h).1
  split at hfirst
  · exact hnew hfirst
  · cases hfirst

/-- Replacing the separator of pieces joins them with what stands for it. -/
theorem replaceChar_intercalate (h : ∀ piece ∈ pieces, sep ∉ piece) :
    replaceChar sep new ([sep].intercalate pieces) = new.intercalate pieces := by
  have hsep : replaceChar sep new [sep] = new := by
    simp [replaceChar]
  have hkept : pieces.map (replaceChar sep new) = pieces := by
    apply (List.map_congr_left _).trans (List.map_id pieces)
    intro piece hpiece
    exact replaceChar_of_not_mem new (h piece hpiece)
  calc
    replaceChar sep new ([sep].intercalate pieces)
        = (replaceChar sep new [sep]).intercalate (pieces.map (replaceChar sep new)) :=
      flatMap_intercalate _ _ _
    _ = new.intercalate pieces := by rw [hsep, hkept]

end SemanticMarkup.Text
