import Utterance.Proofs.Grammar.Dump
import Utterance.Proofs.Grammar.Rules
import Utterance.Proofs.Inflection.Irregular

/-!
# Two readings of irregular forms

The irregular forms of a file are entered when a grammar is loaded from it, and they can be entered on
their own. The one reading keeps the section that it is in, the other only whether that is one of irregular
forms. They agree line by line, as long as no line includes another file: a line that closes a section in
the one closes it in the other, and the lines that both enter are the same. What a line does to the table
depends on the table only, so both end with the same one.
-/

namespace Utterance

namespace Irregulars

open Grammar (Section irregularOf? irregularsOf)

variable {lines : List String} {sec : Section} {s : Scan}

/-- A line that opens a section opens one of irregular forms in both readings or in none. -/
theorem inside_iff_after {line : String}
    (hwhole : Line.startsWith line "#include" = false) (hrule : Line.startsWith line "=" = true) :
    (Line.header? line).any Line.isIrregularHead = true ↔ sec.after line = .irregular := by
  rw [Section.after, hwhole, hrule, if_neg (by decide), if_pos rfl]
  cases Line.header? line with
  | none => simp
  | some name => cases hirregular : Line.isIrregularHead name <;> simp [hirregular]

/-- Both readings take the same from a line, and are in the same section after it. The sections are
named in two ways, so the cases are those of the line: an include, a head, an empty line or a form. -/
theorem table_take_eq_addLines {raw : String} (hwhole : Line.startsWith (Line.clean raw) "#include" = false)
    (hinside : s.inside = true ↔ sec = .irregular) (path : String) (number : Nat) :
    (s.take path number raw).table = s.table.addLines (irregularOf? sec (Line.clean raw)).toList
      ∧ ((s.take path number raw).inside = true ↔ sec.after (Line.clean raw) = .irregular) := by
  unfold Scan.take
  simp only
  split
  -- a line of a head enters nothing, be it well-formed or not
  · rename_i hrule
    have hnone : irregularOf? sec (Line.clean raw) = none := by
      cases sec <;> simp [irregularOf?, hrule]
    rw [hnone]
    refine ⟨rfl, ?_⟩
    simp only
    exact inside_iff_after hwhole hrule
  · rename_i hrule
    have hsame : sec.after (Line.clean raw) = sec := by
      rw [Section.after, hwhole, if_neg (by decide), if_neg hrule]
    rw [hsame]
    split
    -- a line that is entered stands in a section of irregular forms, in both readings
    · rename_i hentry
      rw [Bool.and_eq_true, hinside, Bool.not_eq_true'] at hentry
      obtain ⟨rfl, hempty⟩ := hentry
      have hsome : irregularOf? .irregular (Line.clean raw) = some (Line.clean raw) := by
        simp [irregularOf?, hwhole, hrule, hempty]
      rw [hsome]
      refine ⟨?_, hinside⟩
      -- where the line stands goes into the notes only
      refine Eq.trans ?_ (addLine_fst s.table (Line.clean raw) (path ++ ":" ++ toString number))
      rcases s.table.addLine (Line.clean raw) (path ++ ":" ++ toString number) with ⟨table, _, _⟩
      rfl
    · rename_i hother
      have hnone : irregularOf? sec (Line.clean raw) = none := by
        cases sec with
        | none => rfl
        | rules head => rfl
        | irregular =>
          have hempty : (Line.clean raw).isEmpty = true := by simpa [hinside] using hother
          simp [irregularOf?, hempty]
      rw [hnone]
      exact ⟨rfl, hinside⟩

/-- Lines that include no file enter the same irregular forms in both readings. One reading keeps
whether it is inside a section of forms and the other keeps the section; the two agree at every
line. -/
theorem table_takeAll_eq_addLines
    (hwhole : ∀ raw ∈ lines, Line.startsWith (Line.clean raw) "#include" = false)
    (hinside : s.inside = true ↔ sec = .irregular) (path : String) (number : Nat) :
    (Scan.takeAll path s number lines).table = s.table.addLines (irregularsOf sec lines) := by
  induction lines generalizing sec number s with
  | nil => rfl
  | cons raw lines ih =>
    obtain ⟨htable, hafter⟩ := table_take_eq_addLines (hwhole raw (List.mem_cons_self ..)) hinside path number
    have ih := ih (fun other hother => hwhole other (List.mem_cons_of_mem _ hother)) hafter
      (number + 1)
    rw [Scan.takeAll, ih, htable, irregularsOf, addLines, addLines, addLines, List.foldl_append]

/-- A file that can be read is entered line by line, unless it is no text. -/
theorem load_of_read {files : Files} {route : Route} {content : Content}
    (hread : files.read route = .ok content) (m : Irregulars) :
    m.load files route true
      = match content.lines with
        | .error e => ⟨m, .error e, []⟩
        | .ok lines =>
          let s := Scan.takeAll route.shown ⟨m, false, 0, []⟩ 1 lines
          ⟨s.table, .ok (some s.entered), s.notes⟩ := by
  unfold load
  rw [hread]
  rfl

end Irregulars

namespace Grammar

/-- The table of irregular forms is the same whether a file is loaded into a grammar that goes with the
table or its forms are entered on their own, and the one reading stops at a file that is no text just as the
other does. The path has an extension, and is handed over as it is or in normal form. -/
theorem irregulars_load_eq_load {view : Files.View} {path : String} {route : Route}
    {content : Content} (hextension : (Path.ofString path).extension ≠ "")
    (hroute : route = .ofString path ∨ route = .ofPath (Path.ofString path))
    (hread : (view.after []).read route = .ok content)
    (hwhole : ∀ lines, content.lines = .ok lines →
      ∀ raw ∈ lines, Line.startsWith (Line.clean raw) "#include" = false)
    (g : Grammar) (m : Irregulars) :
    (g.load (some m) view path).state.2 = some (m.load (view.after []) route true).state
      ∧ (g.load (some m) view path).result
        = (m.load (view.after []) route true).result.map Option.isSome := by
  have hpath : filePath path = .ok (Path.ofString path) := by
    rw [filePath, if_neg (by simpa using hextension)]
  have hparts : (Path.ofString path).parts ≠ [] :=
    fun hnil => hextension (extension_of_parts_eq_nil hnil)
  -- a grammar is read along the normal form of the path, whatever the other reading is given
  have hnormal : (view.after []).read (.ofPath (Path.ofString path)) = .ok content := by
    rcases hroute with rfl | rfl
    · exact Files.read_ofPath hparts hread
    · exact hread
  rw [load_of_filePath hpath, Irregulars.load_of_read hread]
  cases hlines : content.lines with
  | error fault =>
    have hfile := @loadFile_of_not_contains view [] (Path.ofString path) (by simp)
      { grammar := g.onPath (Path.ofString path), irregulars := some m }
    simp only [hnormal, hlines] at hfile
    rw [hfile]
    exact ⟨rfl, rfl⟩
  | ok lines =>
    have hfile := @loadFile_of_read view (Path.ofString path)
      { grammar := g.onPath (Path.ofString path), irregulars := some m } _ _ hnormal hlines
    simp only
    rw [hfile, (leads_loadLines (hwhole lines hlines) .none 1 _).irregulars,
      loadLines_of_forall_not_include (hwhole lines hlines),
      @Irregulars.table_takeAll_eq_addLines lines .none _ (hwhole lines hlines) (by simp)]
    exact ⟨rfl, rfl⟩

/-- The lines of a file with two sections of irregular forms, which are closed by a head without a bracket
and by one of rules. -/
def farmLines : List String :=
  ["// farm", "=[XXX]", " dog * npl = dogz", "", " cat*npl=catz ; full", " cow*npl=kine", "=[AKO",
    " ox*npl=oxen", "=<xxx>", " go*vpast=went", " no", "=[AKO]", " pig*npl=pigz"]

theorem farm_unbroken : ∀ l ∈ farmLines, '\n' ∉ l.toList ∧ '\r' ∉ l.toList := by
  decide +kernel

/-- The lines as a file. -/
def farm : Files :=
  { entries := [(["farm.sgm"], .text (String.join (farmLines.map (· ++ "\n"))))] }

/-- A table with room for one more noun. -/
def farmTable : Irregulars :=
  { capacity := 2, forms := [⟨.plural, "dog", "dogs"⟩], nouns := ["dog"] }

/-- Both readings replace one form, enter two and turn one away, for which there is no room. -/
theorem irregulars_load_eq_load_farm :
    (Path.ofString "./farm.sgm").extension ≠ ""
      ∧ farm.read (.ofString "./farm.sgm")
        = .ok (.text (String.join (farmLines.map (· ++ "\n"))))
      ∧ (∀ raw ∈ farmLines, Line.startsWith (Line.clean raw) "#include" = false)
      ∧ (farmTable.load farm (.ofString "./farm.sgm") true).state.forms
        = [⟨.plural, "dog", "dogz"⟩, ⟨.plural, "cat", "catz"⟩, ⟨.past, "go", "went"⟩]
      ∧ (({} : Grammar).load (some farmTable) (.still farm) "./farm.sgm").state.2
        = some (farmTable.load farm (.ofString "./farm.sgm") true).state
      ∧ (({} : Grammar).load (some farmTable) (.still farm) "./farm.sgm").result
        = (farmTable.load farm (.ofString "./farm.sgm") true).result.map Option.isSome := by
  have hextension : (Path.ofString "./farm.sgm").extension ≠ "" := by decide
  have hread : farm.read (.ofString "./farm.sgm")
      = .ok (.text (String.join (farmLines.map (· ++ "\n")))) := by
    rfl
  have hwhole : ∀ raw ∈ farmLines, Line.startsWith (Line.clean raw) "#include" = false := by
    decide +kernel
  have hlines : (Content.text (String.join (farmLines.map (· ++ "\n")))).lines = .ok farmLines :=
    congrArg Except.ok (Text.lines_join farm_unbroken)
  have hforms : (farmTable.addLines (irregularsOf .none farmLines)).forms
      = [⟨.plural, "dog", "dogz"⟩, ⟨.plural, "cat", "catz"⟩, ⟨.past, "go", "went"⟩] := by
    decide +kernel
  refine ⟨hextension, hread, hwhole, ?_, ?_⟩
  -- the forms are computed from the lines, which are known without reading the file
  · rw [Irregulars.load_of_read hread, hlines]
    simp only
    rw [@Irregulars.table_takeAll_eq_addLines farmLines .none _ hwhole (by simp)]
    exact hforms
  · exact irregulars_load_eq_load hextension (.inl rfl) hread
      (fun lines h => Except.ok.inj (hlines.symm.trans h) ▸ hwhole) {} farmTable

end Grammar

end Utterance
