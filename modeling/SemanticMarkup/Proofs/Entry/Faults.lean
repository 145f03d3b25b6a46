import SemanticMarkup.Proofs.Entry.Names

/-!
# The faults of an entry

Faults whose fields have texts as names can be put in order, so the check of such an entry
ends well or with an error of the configuration that tells all of them, and with no other
failure. The rules of a plain entry are about named fields, so this holds of all plain entries.
-/

namespace SemanticMarkup.Rules

variable {entries : Entries}

theorem exists_precedes {key other : Value} (hkey : key.IsString) (hother : other.IsString) :
    ∃ first, precedes key other = .ok first := by
  cases hkey <;> cases hother <;> exact ⟨_, rfl⟩

/-- Named faults can be compared, so putting one into a row of them does not fail. -/
theorem exists_insertFault {fault : Value × RuleFault} {row : List (Value × RuleFault)}
    (hfault : fault.1.IsString) (hrow : ∀ f ∈ row, f.1.IsString) :
    ∃ longer, insertFault fault row = .ok longer := by
  induction row with
  | nil => exact ⟨_, rfl⟩
  | cons other rest ih =>
      obtain ⟨hother, hrest⟩ := List.forall_mem_cons.mp hrow
      obtain ⟨first, hfirst⟩ := exists_precedes hfault hother
      rw [insertFault, hfirst, Outcome.ok_bind]
      cases first with
      | true => exact ⟨_, rfl⟩
      | false =>
          obtain ⟨longer, hlonger⟩ := ih hrest
          rw [hlonger]
          exact ⟨_, rfl⟩

theorem exists_foldlM_insertFault {broken row : List (Value × RuleFault)}
    (hbroken : ∀ f ∈ broken, f.1.IsString) (hrow : ∀ f ∈ row, f.1.IsString) :
    ∃ sorted, broken.foldlM (fun sorted fault => insertFault fault sorted) row = .ok sorted := by
  induction broken generalizing row with
  | nil => exact ⟨_, rfl⟩
  | cons fault rest ih =>
      obtain ⟨hfault, hrest⟩ := List.forall_mem_cons.mp hbroken
      obtain ⟨longer, hlonger⟩ := exists_insertFault hfault hrow
      rw [List.foldlM_cons, hlonger, Outcome.ok_bind]
      apply ih hrest
      intro f hf
      obtain rfl | hf := List.mem_cons.mp ((perm_insertFault hlonger).mem_iff.mp hf)
      · exact hfault
      · exact hrow f hf

theorem lines_of_isString {row : List (Value × RuleFault)} (h : ∀ f ∈ row, f.1.IsString) :
    lines row = .ok (row.map fun f => (f.1.display, f.2)) := by
  have hline : ∀ f ∈ row, (do return (← f.1.asText, f.2) : Outcome (String × RuleFault)) =
      pure (f.1.display, f.2) := by
    intro f hf
    rw [(h f hf).asText]
    rfl
  rw [lines, Outcome.mapM_congr hline, List.mapM_pure]
  rfl

/-- An entry whose faults are named is refused with an error that tells each of them. -/
theorem exists_report (hnames : ∀ f ∈ faults entries, f.1.IsString) (hfaults : faults entries ≠ [])
    (place : String) :
    ∃ report : List (Value × RuleFault), report.Perm (faults entries) ∧ check entries place =
      .error (.config (.brokenRules place (report.map fun f => (f.1.display, f.2)))) := by
  obtain ⟨report, hreport⟩ : ∃ report, ordered (faults entries) = .ok report :=
    exists_foldlM_insertFault hnames nofun
  have hperm := perm_ordered hreport
  refine ⟨report, hperm, ?_⟩
  have hne : report ≠ [] := by
    rintro rfl
    exact hfaults hperm.symm.eq_nil
  rw [check, hreport, Outcome.ok_bind, if_neg (by simpa using hne),
    lines_of_isString fun f hf => hnames f (hperm.mem_iff.mp hf)]
  rfl

/-- A plain entry may have fields of any name, but only named ones have a rule. -/
theorem isString_of_mem_faults (hplain : entries.hasName "microformat" = false)
    {fault : Value × RuleFault} (h : fault ∈ faults entries) : fault.1.IsString := by
  obtain ⟨e, -, he⟩ := List.mem_filterMap.mp h
  rw [hplain, if_neg Bool.false_ne_true, Option.map_eq_some_iff] at he
  obtain ⟨found, hfound, rfl⟩ := he
  rw [fieldFault] at hfound
  split at hfound
  · rename_i rule hrule
    have hname : e.1 = .text rule.1 := (Value.sameKey_text_iff _ _).mp
      (List.find?_some (p := fun r : String × Rule => e.1.sameKey (.text r.1)) hrule)
    rw [hname]
    exact .text rule.1
  · cases hfound

/-- A plain entry with faults is refused with an error that tells them. -/
theorem check_of_faults_ne_nil (hplain : entries.hasName "microformat" = false)
    (hfaults : faults entries ≠ []) (place : String) :
    ∃ c, check entries place = .error (.config c) := by
  obtain ⟨report, -, hreport⟩ :=
    exists_report (fun _ => isString_of_mem_faults hplain) hfaults place
  exact ⟨_, hreport⟩

end SemanticMarkup.Rules
