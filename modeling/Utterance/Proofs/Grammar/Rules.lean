import Utterance.Proofs.Grammar.Load

/-!
# The rules of a file

A file that includes no other is a list of rules, each an entry with the head that it stands under, and a
list of lines of irregular forms. Loading adds both in their order, the rules to the grammar and the forms
to their table.
-/

namespace Utterance.Grammar

/-- The rules of lines that include no file. -/
def rulesOf (sec : Section) : List String → List (String × String)
  | [] => []
  | raw :: rest => (ruleOf? sec (Line.clean raw)).toList ++ rulesOf (sec.after (Line.clean raw)) rest

/-- The lines of irregular forms among lines that include no file. -/
def irregularsOf (sec : Section) : List String → List String
  | [] => []
  | raw :: rest =>
    (irregularOf? sec (Line.clean raw)).toList ++ irregularsOf (sec.after (Line.clean raw)) rest

variable {nested : Path → Loading → Loading × Except Fault Bool} {path : Path} {lines : List String}

/-- Lines that include no file add their rules to the grammar and their irregular forms to the
table. The number of a line and its section matter to the notes and to what the line is, but not to
how it is added. -/
theorem leads_loadLines
    (hplain : ∀ raw ∈ lines, Line.startsWith (Line.clean raw) "#include" = false) (sec : Section)
    (number : Nat) (s : Loading) :
    Script.Leads ⟨rulesOf sec lines, irregularsOf sec lines⟩ s
      (loadLines nested path sec number lines s).1 := by
  induction lines generalizing sec number s with
  | nil => exact Script.leads_nil rfl rfl
  | cons raw lines ih =>
    rw [loadLines_cons_of_none (included?_eq_none path (hplain raw (List.mem_cons_self ..)))]
    exact (Script.leads_takeLine s path sec number (Line.clean raw)).append
      (ih (fun other hother => hplain other (List.mem_cons_of_mem _ hother)) _ _ _)

/-- A rule stands under the head that its section was opened for, and its line is not empty. The
induction is on the lines, for any section that is open before them. -/
theorem of_mem_rulesOf {sec : Section} {rule : String × String} (h : rule ∈ rulesOf sec lines) :
    rule.2 ≠ ""
      ∧ (sec = .rules rule.1 ∨ ∃ raw ∈ lines, Line.header? (Line.clean raw) = some rule.1) := by
  induction lines generalizing sec with
  | nil => cases h
  | cons raw lines ih =>
    rw [rulesOf, List.mem_append] at h
    rcases h with h | h
    · cases sec with
      | none => cases h
      | irregular => cases h
      | rules head =>
        rw [ruleOf?] at h
        split at h
        · cases h
        · rename_i hentry
          rw [Option.toList_some, List.mem_singleton] at h
          rw [h]
          refine ⟨?_, .inl rfl⟩
          simp only [Bool.or_eq_true, not_or] at hentry
          simpa using hentry.2
    -- a later line: the section it is in was open before, or is opened by this line or by one
    -- behind it
    · obtain ⟨hne, hsec | ⟨other, hother, hheader⟩⟩ := ih h
      · refine ⟨hne, ?_⟩
        unfold Section.after at hsec
        split at hsec
        · cases hsec
        · split at hsec
          · split at hsec
            · cases hsec
            · rename_i name hname
              split at hsec
              · cases hsec
              · cases hsec
                exact .inr ⟨raw, List.mem_cons_self .., hname⟩
          · exact .inl hsec
      · exact ⟨hne, .inr ⟨other, List.mem_cons_of_mem _ hother, hheader⟩⟩

/-- A file that includes no other can be loaded, and its rules are added to the grammar, in the
order of the lines and on top of what is there. -/
theorem load_of_forall_not_include {g : Grammar} {irregulars : Option Irregulars}
    {view : Files.View} {name : String} {p : Path} {content : Content} (hpath : filePath name = .ok p)
    (hread : (view.after []).read (.ofPath p) = .ok content) (hlines : content.lines = .ok lines)
    (hplain : ∀ raw ∈ lines, Line.startsWith (Line.clean raw) "#include" = false) :
    (g.load irregulars view name).result = .ok true
      ∧ (g.load irregulars view name).state.1 = (g.onPath p).growAll (rulesOf .none lines) := by
  have hfile := @loadFile_of_read view p { grammar := g.onPath p, irregulars } _ _ hread hlines
  rw [load_of_filePath hpath]
  constructor
  · show (loadFile view [] p _).2 = .ok true
    rw [hfile]
    exact loadLines_of_forall_not_include hplain .none 1 _
  · show (loadFile view [] p _).1.grammar = _
    rw [hfile]
    exact (leads_loadLines hplain .none 1 _).grammar

end Utterance.Grammar
