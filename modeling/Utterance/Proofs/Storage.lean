import Utterance.Proofs.Text.Blank
import Utterance.Storage

/-!
# Reading what was written

A file is written along a route that is taken as it stands, and read along the normal form of a path. The
normal form has no empty and no dot components and is never longer, so it leads to the same place and
no new obstacle is in its way: what was written is what is read. A file that is open and grows, as the
log does, is in the way of nothing and helps nothing: what cannot be opened before cannot be opened
afterwards.
-/

namespace Utterance

/-! ## Sizes -/

theorem size_utf8Encode_cons (c : Char) (cs : List Char) :
    (c :: cs).utf8Encode.size = [c].utf8Encode.size + cs.utf8Encode.size := by
  rw [List.utf8Encode_cons, ByteArray.size_append]

/-- Characters that are left out can only make an encoding shorter. -/
theorem size_utf8Encode_le {cs ds : List Char} (h : cs.Sublist ds) :
    cs.utf8Encode.size ≤ ds.utf8Encode.size := by
  induction h with
  | slnil => exact Nat.le_refl _
  | cons c _ ih =>
    rw [size_utf8Encode_cons]
    exact Nat.le_add_left_of_le ih
  | @cons_cons cs ds c _ ih =>
    rw [size_utf8Encode_cons c cs, size_utf8Encode_cons c ds]
    exact Nat.add_le_add_left ih _

/-- The same of texts. A path and its normal form are compared in this way below. -/
theorem utf8ByteSize_le_of_sublist {s t : String} (h : s.toList.Sublist t.toList) :
    s.utf8ByteSize ≤ t.utf8ByteSize := by
  have hsize := size_utf8Encode_le h
  rwa [String.utf8Encode_toList, String.utf8Encode_toList, String.size_toByteArray,
    String.size_toByteArray] at hsize

/-! ## Bytes -/

/-- The loop by which bytes are listed, at any place and with any bytes listed before. -/
theorem toList_loop_eq (bs : ByteArray) (i : Nat) (r : List UInt8) :
    ByteArray.toList.loop bs i r = r.reverse ++ bs.data.toList.drop i := by
  fun_induction ByteArray.toList.loop bs i r with
  | case1 i r h ih =>
    have hsize : i < bs.data.toList.length := by simpa using h
    rw [ih, List.drop_eq_getElem_cons hsize]
    simp [ByteArray.get!, getElem!_pos, h]
  | case2 i r h =>
    -- the loop stops behind the last byte, where nothing is left to drop
    have hsize : bs.data.toList.length ≤ i := by simpa using h
    simp [List.drop_eq_nil_of_le hsize]

/-- Bytes put together are listed one after the other. -/
theorem toList_append (a b : ByteArray) : (a ++ b).toList = a.toList ++ b.toList := by
  have hdata : ∀ bs : ByteArray, bs.toList = bs.data.toList := fun bs => by
    simp [ByteArray.toList, toList_loop_eq]
  simp [hdata]

theorem Content.append_empty (c : Content) : c.append "" = c := by
  cases c <;> simp [Content.append]

/-- What is added in two portions may as well be added in one. -/
theorem Content.append_append (c : Content) (s t : String) :
    (c.append s).append t = c.append (s ++ t) := by
  cases c with
  | text u => simp [Content.append, String.append_assoc]
  | bytes bs => simp [Content.append, toList_append]

/-! ## Normal form of a path -/

/-- Cutting at a separator and putting it back in between gives the same text. There is at least one
piece, so a separator is put in just where one was. -/
theorem Text.intercalate_pieces (sep : Char) (cs : List Char) :
    [sep].intercalate (pieces sep cs) = cs := by
  induction cs with
  | nil => rfl
  | cons c cs ih =>
    -- there is a piece always, even of nothing
    have hne : pieces sep cs ≠ [] := by
      cases cs with
      | nil => exact List.cons_ne_nil _ _
      | cons d ds =>
        rw [pieces]
        split
        · exact List.cons_ne_nil _ _
        · split <;> exact List.cons_ne_nil _ _
    rw [pieces]
    split
    · rename_i hc
      rw [List.intercalate_cons_of_ne_nil hne, ih, hc]
      rfl
    · split
      -- a character that is no separator goes to the first piece
      · rename_i first rest hpieces
        rw [List.intercalate_cons_cons_left, ← hpieces, ih]
      · rename_i hpieces
        exact absurd hpieces hne

/-- Leaving out some of the pieces, with the separators next to them, leaves out characters only. -/
theorem intercalate_sublist {sep : List Char} {xs ys : List (List Char)} (h : xs.Sublist ys) :
    (sep.intercalate xs).Sublist (sep.intercalate ys) := by
  -- by induction on what is left out; the separator goes with the piece behind it
  induction h with
  | slnil => exact List.Sublist.refl _
  | @cons xs ys y h ih =>
    cases ys with
    | nil =>
      rw [List.sublist_nil.1 h]
      exact List.nil_sublist _
    | cons z ys =>
      rw [List.intercalate_cons_cons]
      exact ih.trans (List.sublist_append_right _ _)
  | @cons_cons xs ys y h ih =>
    cases xs with
    | nil =>
      cases ys with
      | nil => exact List.Sublist.refl _
      | cons z ys =>
        rw [List.intercalate_singleton, List.intercalate_cons_cons, List.append_assoc]
        exact List.sublist_append_left _ _
    | cons x xs =>
      cases ys with
      | nil => cases h
      | cons z ys =>
        rw [List.intercalate_cons_cons, List.intercalate_cons_cons]
        exact ih.append_left _

namespace Path

/-- The characters of a normal form stand in the path in this order. So a path that is not too long
for the file system has a normal form that is not, and one without a forbidden character has one
without. -/
theorem toList_text_sublist {s : String} (h : (ofString s).parts ≠ []) :
    (ofString s).text.toList.Sublist s.toList := by
  -- the path is its leading slashes and the rest, and the normal form keeps at most two of the
  -- former
  generalize hslashes : s.toList.takeWhile (· == '/') = slashes
  generalize hrest : s.toList.dropWhile (· == '/') = rest
  have hall : slashes = List.replicate slashes.length '/' := by
    refine List.eq_replicate_iff.2 ⟨rfl, fun c hc => ?_⟩
    rw [← hslashes] at hc
    simpa using List.all_eq_true.1 List.all_takeWhile c hc
  have hs : s.toList = slashes ++ rest := by
    rw [← hslashes, ← hrest, List.takeWhile_append_dropWhile]
  have hroot : (rootOf s).toList.Sublist slashes := by
    rw [hall, rootOf, hslashes]
    split
    · exact List.nil_sublist _
    · rename_i hlength
      rw [hlength]
      exact List.Sublist.refl _
    · rename_i hlength _
      exact List.singleton_sublist.2 (List.mem_replicate.2 ⟨hlength, rfl⟩)
  -- the parts are the pieces between slashes, less the empty ones and the dots
  have hparts : ((ofString s).parts.map String.toList).Sublist (Text.pieces '/' rest) := by
    have hpieces : (components s).map String.toList
        = (Text.pieces '/' rest).filter (!·.isEmpty) := by
      rw [components, hs, hall, Text.pieces_replicate_append, List.filter_append, List.map_map]
      simp [Function.comp_def]
    have hsub := (List.filter_sublist (p := (· != ".")) (l := components s)).map String.toList
    rw [hpieces] at hsub
    exact hsub.trans List.filter_sublist
  have htext : (ofString s).text = rootOf s ++ "/".intercalate (ofString s).parts := by
    rw [text, if_neg (by simp [h])]
    rfl
  rw [htext, String.toList_append, String.toList_intercalate, hs]
  have hrest : (['/'].intercalate ((ofString s).parts.map String.toList)).Sublist rest := by
    have hsub : (['/'].intercalate _).Sublist _ := intercalate_sublist hparts
    rwa [Text.intercalate_pieces] at hsub
  exact hroot.append hrest

/-! ## Places -/

/-- Names that all lead down: none of them is a dot or `..`. -/
def Plain (names : List String) : Prop := ∀ name ∈ names, name ≠ "." ∧ name ≠ ".."

section Places

variable {cwd dir names place : List String}

/-- A name that is a dot changes nothing, `..` leads up, and any other name leads down: each leaves
only names that lead down. -/
theorem Plain.climb (h : Plain dir) (name : String) : Plain (climb dir name) := by
  unfold Path.climb
  split
  · exact h
  · rename_i hdot
    split
    · exact fun other hother => h other (List.mem_of_mem_tail hother)
    · rename_i hup
      exact List.forall_mem_cons.2 ⟨⟨hdot, hup⟩, h⟩

theorem Plain.foldl_climb (h : Plain dir) (names : List String) : Plain (names.foldl Path.climb dir) := by
  induction names generalizing dir with
  | nil => exact h
  | cons name names ih => exact ih (h.climb name)

/-- From the root on every name leads down: each `..` was used up on the way, since above the root there
is nothing. -/
theorem plain_fromRoot (hcwd : Plain cwd) (root : String) (parts : List String) :
    Plain (fromRoot cwd root parts) := by
  have hstart : Plain (if root.isEmpty then cwd.reverse else []) := by
    split
    · exact fun name hname => hcwd name (List.mem_reverse.1 hname)
    · exact fun name hname => absurd hname List.not_mem_nil
  exact fun name hname => hstart.foldl_climb parts name (List.mem_reverse.1 hname)

/-- Along names that lead down, none is lost. -/
theorem foldl_climb_of_plain (h : Plain names) (dir : List String) :
    names.foldl Path.climb dir = names.reverse ++ dir := by
  induction names generalizing dir with
  | nil => rfl
  | cons name names ih =>
    obtain ⟨⟨hdot, hup⟩, hrest⟩ := List.forall_mem_cons.1 h
    rw [List.foldl_cons, ih hrest, Path.climb, if_neg hdot, if_neg hup, List.reverse_cons,
      List.append_assoc]
    rfl

/-- One `..` for each of some names leads up by as many. -/
theorem foldl_climb_up (names dir : List String) :
    (names.map fun _ => "..").foldl Path.climb dir = dir.drop names.length := by
  induction names generalizing dir with
  | nil => rfl
  | cons name names ih =>
    rw [List.map_cons, List.foldl_cons, ih, List.length_cons, ← List.drop_tail]
    rfl

/-- The shortest way from a directory to a place does lead there, whatever lies above both. It leads
up from where the two part and then down again. -/
theorem foldl_climb_wayFrom (h : Plain place) (above : List String) :
    (wayFrom dir place).foldl Path.climb (dir.reverse ++ above) = place.reverse ++ above := by
  fun_induction wayFrom dir place generalizing above with
  | case1 dir there place ih =>
    -- the first name is common to both, so it belongs to what lies above
    rw [List.reverse_cons, List.append_assoc, List.reverse_cons, List.append_assoc]
    exact ih (List.forall_mem_cons.1 h).2 _
  | case2 here dir there place hne =>
    rw [List.foldl_append, foldl_climb_up, ← List.length_reverse, List.drop_left,
      foldl_climb_of_plain h]
  | case3 dir place hshort =>
    rw [List.foldl_append, foldl_climb_up, ← List.length_reverse, List.drop_left,
      foldl_climb_of_plain h]

/-- A place, read as a path from the working directory, has the names that lead to it from the root. -/
theorem fromRoot_wayFrom (h : Plain place) : fromRoot cwd "" (wayFrom cwd place) = place := by
  have hway : (wayFrom cwd place).foldl Path.climb (cwd.reverse ++ []) = place.reverse ++ [] :=
    foldl_climb_wayFrom h []
  rw [List.append_nil, List.append_nil] at hway
  show ((wayFrom cwd place).foldl Path.climb cwd.reverse).reverse = place
  rw [hway, List.reverse_reverse]

/-- Two spellings lead to one place just if they lead to the same names from the root, be they
relative or absolute. There are no links here, so nothing else could make two spellings one. -/
theorem place_eq_iff (hcwd : Plain cwd) {root root' : String} {parts parts' : List String} :
    Path.place cwd root parts = Path.place cwd root' parts'
      ↔ fromRoot cwd root parts = fromRoot cwd root' parts' := by
  constructor
  · intro heq
    have hback := congrArg (fromRoot cwd "") heq
    rwa [Path.place, Path.place, fromRoot_wayFrom (plain_fromRoot hcwd root parts),
      fromRoot_wayFrom (plain_fromRoot hcwd root' parts')] at hback
  · exact congrArg (wayFrom cwd)

/-- A relative path and the absolute one that has the names of the working directory before it lead to
the same place. -/
theorem place_absolute (hcwd : Plain cwd) (parts : List String) :
    Path.place cwd "/" (cwd ++ parts) = Path.place cwd "" parts := by
  rw [place_eq_iff hcwd]
  show ((cwd ++ parts).foldl Path.climb []).reverse = (parts.foldl Path.climb cwd.reverse).reverse
  rw [List.foldl_append, foldl_climb_of_plain hcwd, List.append_nil]

/-- A place leads to itself. -/
theorem place_place (hcwd : Plain cwd) (root : String) (parts : List String) :
    Path.place cwd "" (Path.place cwd root parts) = Path.place cwd root parts := by
  rw [place_eq_iff hcwd]
  exact fromRoot_wayFrom (plain_fromRoot hcwd root parts)

end Places

end Path

namespace Files

variable {fs fs' : Files} {place other : List String} {content : Content}

/-! ## Files that are read -/

/-- The bytes at the place that a route leads to are those of the content that is read along it,
since a read that succeeds has found a file there. -/
theorem bytesAt_of_read {r : Route} (h : fs.read r = .ok content) :
    fs.bytesAt (r.resolve fs.cwd) = content.raw := by
  unfold read at h
  split at h
  · cases h
  · split at h
    · cases h
    · split at h
      · rename_i c hget
        split at h
        · cases h
        · cases h
          rw [bytesAt, hget]
          rfl
      · cases h

/-! ## Files after a write -/

/-- What was put at a place is there. If the place had an entry, that one is replaced, and otherwise
there is a new one at the end. -/
theorem get?_insert (fs : Files) (place : List String) (content : Content) :
    (fs.insert place content).get? place = some content := by
  unfold insert get? places
  generalize fs.entries = entries
  split
  · rename_i hstored
    induction entries with
    | nil => simp at hstored
    | cons e rest ih =>
      obtain ⟨p, c⟩ := e
      by_cases hplace : p = place
      -- the first entry for the place is the one that is looked up
      · simp [hplace]
      · have hne : (place == p) = false := by simpa using Ne.symm hplace
        have hrest : (rest.map (·.1)).contains place = true := by simpa [hne] using hstored
        simpa [hplace, List.lookup_cons, hne] using ih hrest
  · rename_i hnew
    induction entries with
    | nil => simp
    | cons e rest ih =>
      obtain ⟨p, c⟩ := e
      simp only [List.map_cons, List.contains_cons, Bool.or_eq_true, not_or] at hnew
      have hne : (place == p) = false := by simpa using hnew.1
      simpa [List.lookup_cons, hne] using ih hnew.2

/-- Putting something at a place takes nothing away from other places. -/
theorem mem_places_insert (h : other ∈ fs.places) : other ∈ (fs.insert place content).places := by
  unfold insert
  split
  · simp only [places, List.map_map, List.mem_map, Function.comp_apply] at h ⊢
    obtain ⟨e, he, rfl⟩ := h
    refine ⟨e, he, ?_⟩
    split <;> rfl
  · simp only [places, List.map_append]
    exact List.mem_append_left _ h

/-- A write does not leave the working directory. -/
@[simp] theorem cwd_insert (fs : Files) (place : List String) (content : Content) :
    (fs.insert place content).cwd = fs.cwd := by
  unfold insert
  split <;> rfl

/-- A write leaves the directories where they are. -/
theorem isDirectory_insert (h : fs.isDirectory other = true) :
    (fs.insert place content).isDirectory other = true := by
  have hfolders : (fs.insert place content).folders = fs.folders := by
    unfold insert
    split <;> rfl
  simp only [isDirectory, hfolders, Bool.or_eq_true, List.any_eq_true] at h ⊢
  -- a directory is the root, or lies on the way to a file, or was made as a folder
  rcases h with (h | ⟨p, hp, h⟩) | h
  · exact .inl (.inl h)
  · exact .inl (.inr ⟨p, mem_places_insert hp, h⟩)
  · exact .inr h

/-- More directories are no obstacle: a name is in the way only if it is no directory and names
follow it. -/
theorem obstacleFrom_mono (hcwd : fs'.cwd = fs.cwd)
    (hdirectory : ∀ place, fs.isDirectory place = true → fs'.isDirectory place = true)
    {names : List String} {dir : List String} (h : fs.obstacleFrom dir names = none) :
    fs'.obstacleFrom dir names = none := by
  induction names generalizing dir with
  | nil => rfl
  | cons name names ih =>
    rw [obstacleFrom] at h ⊢
    simp only [hcwd] at h ⊢
    split at h
    · cases h
    · rename_i hplace
      rw [if_neg (by simpa using hdirectory _ (by simpa using hplace))]
      split at h
      · cases h
      · rename_i hsize
        rw [if_neg hsize]
        exact ih h

/-- A write puts no obstacle in the way: what was a directory is one still, and nothing else is
asked of a place on the way. -/
theorem obstacle_insert {r : Route} (h : fs.obstacle r = none) :
    (fs.insert place content).obstacle r = none := by
  unfold obstacle at h ⊢
  split at h
  · cases h
  · rename_i hsize
    rw [if_neg hsize]
    split at h
    · cases h
    · rename_i hparts
      rw [if_neg hparts, cwd_insert]
      exact obstacleFrom_mono (cwd_insert _ _ _) (fun _ => isDirectory_insert) h

/-- Without the dot components a way has no obstacle that it did not have with them. The induction
is on the components, from any directory. -/
theorem obstacleFrom_filter {names : List String} {dir : List String}
    (h : fs.obstacleFrom dir names = none) :
    fs.obstacleFrom dir (names.filter (· != ".")) = none := by
  induction names generalizing dir with
  | nil => rfl
  | cons name names ih =>
    rw [obstacleFrom] at h
    split at h
    · cases h
    · rename_i hplace
      split at h
      · cases h
      · rename_i hsize
        by_cases hdot : name = "."
        -- a dot component leads nowhere, so what follows it is looked up where it stands
        · subst hdot
          exact ih h
        · rw [List.filter_cons_of_pos (by simpa using hdot), obstacleFrom, if_neg hplace, if_neg hsize]
          exact ih h

/-- Dot components do not change where a path leads. -/
theorem foldl_climb_filter (names dir : List String) :
    (names.filter (· != ".")).foldl Path.climb dir = names.foldl Path.climb dir := by
  induction names generalizing dir with
  | nil => rfl
  | cons name names ih =>
    by_cases hdot : name = "."
    · subst hdot
      exact ih dir
    · rw [List.filter_cons_of_pos (by simpa using hdot), List.foldl_cons, List.foldl_cons, ih]

/-- A route can be opened for writing only if nothing is in its way and it ends at no directory. -/
theorem clear_of_checkWritable {r : Route} (h : fs.checkWritable r = .ok ()) :
    wellFormed r = true ∧ fs.obstacle r = none ∧ r.closed = false := by
  unfold checkWritable at h
  split at h
  · cases h
  · rename_i hformed
    split at h
    · cases h
    · rename_i hclear
      split at h
      · cases h
      · rename_i hfile
        -- a route that is closed by a slash is checked as one that leads to a directory; this one
        -- is open
        rw [Bool.or_eq_true, not_or, Bool.not_eq_true] at hfile
        rw [writingRoute, hfile.1, if_neg Bool.false_ne_true] at hclear
        exact ⟨by simpa using hformed, hclear, hfile.1⟩

/-- A route that shows fewer characters has no forbidden one that the other lacks. -/
theorem wellFormed_of_sublist {r r' : Route} (hsub : r'.shown.toList.Sublist r.shown.toList)
    (h : wellFormed r = true) : wellFormed r' = true := by
  simp only [wellFormed, Bool.not_eq_true', List.contains_eq_mem, decide_eq_false_iff_not] at h ⊢
  exact fun hmem => h (hsub.mem hmem)

/-- A write that succeeds has checked that it may, and then puts the text at the place where the
route leads from the working directory. -/
theorem of_write_eq_ok {r : Route} {text : String} (h : fs.write r text = .ok fs') :
    fs.checkWritable r = .ok () ∧ fs' = fs.insert (r.resolve fs.cwd) (.text text) := by
  unfold write at h
  cases hcheck : fs.checkWritable r with
  | error e =>
    rw [hcheck] at h
    cases h
  | ok u =>
    rw [hcheck] at h
    cases h
    exact ⟨rfl, rfl⟩

/-- What is put at the end of a clear way is read there. -/
theorem read_insert {r : Route} (hformed : wellFormed r = true) (hclear : fs.obstacle r = none)
    (hopen : r.closed = false) (content : Content) :
    (fs.insert (r.resolve fs.cwd) content).read r = .ok content := by
  unfold read
  rw [if_neg (by simp [hformed]), obstacle_insert hclear, cwd_insert, get?_insert]
  simp [hopen]

/-- What was written along a route is read along it. -/
theorem read_of_write_same {r : Route} {text : String} (hwrite : fs.write r text = .ok fs') :
    fs'.read r = .ok (.text text) := by
  obtain ⟨hcheck, rfl⟩ := of_write_eq_ok hwrite
  obtain ⟨hformed, hclear, hopen⟩ := clear_of_checkWritable hcheck
  exact read_insert hformed hclear hopen _

/-- If nothing is in the way along a path, nothing is in the way along its normal form, which leads to
the same place. -/
theorem clear_ofPath {path : String} (hparts : (Path.ofString path).parts ≠ [])
    (hformed : wellFormed (.ofString path) = true) (hclear : fs.obstacle (.ofString path) = none) :
    let r := Route.ofPath (Path.ofString path)
    wellFormed r = true ∧ fs.obstacle r = none ∧ r.closed = false
      ∧ ∀ cwd, r.resolve cwd = (Route.ofString path).resolve cwd := by
  have hsub := Path.toList_text_sublist hparts
  have hroute : Route.ofPath (Path.ofString path)
      = ⟨(Path.ofString path).text, Path.rootOf path, (Path.ofString path).parts, false⟩ := by
    rw [Route.ofPath, if_neg (by simp [hparts])]
    rfl
  rw [hroute]
  refine ⟨wellFormed_of_sublist hsub hformed, ?_, rfl, ?_⟩
  -- the normal form is no longer than the path
  · unfold obstacle at hclear ⊢
    split at hclear
    · cases hclear
    · rename_i hsize
      split at hclear
      · cases hclear
      · rw [if_neg, if_neg (by simp [hparts])]
        · exact obstacleFrom_filter hclear
        · exact fun hlong => hsize (Nat.lt_of_lt_of_le hlong (utf8ByteSize_le_of_sublist hsub))
  · intro cwd
    simp only [Route.resolve, Path.place, Path.fromRoot, Route.ofString, Path.ofString,
      foldl_climb_filter]
    rfl

/-- What was written to a file that a path names is read there. -/
theorem read_of_write {path text : String} (hwrite : fs.write (.ofString path) text = .ok fs')
    (hparts : (Path.ofString path).parts ≠ []) :
    fs'.read (.ofPath (Path.ofString path)) = .ok (.text text) := by
  obtain ⟨hcheck, rfl⟩ := of_write_eq_ok hwrite
  obtain ⟨hformed, hclear, -⟩ := clear_of_checkWritable hcheck
  obtain ⟨hformed, hclear, hopen, hplace⟩ := clear_ofPath hparts hformed hclear
  rw [← hplace]
  exact read_insert hformed hclear hopen _

/-- A file that can be read along a path can be read along the normal form of the path, since the
normal form has no obstacle that the path does not have. -/
theorem read_ofPath {path : String} (hparts : (Path.ofString path).parts ≠ [])
    (hread : fs.read (.ofString path) = .ok content) :
    fs.read (.ofPath (Path.ofString path)) = .ok content := by
  unfold read at hread
  split at hread
  · cases hread
  · rename_i hformed
    split at hread
    · cases hread
    · rename_i hclear
      obtain ⟨hformed, hclear, hopen, hplace⟩ := clear_ofPath hparts (by simpa using hformed) hclear
      split at hread
      · rename_i found hfound
        split at hread
        · cases hread
        · cases hread
          unfold read
          rw [if_neg (by simp [hformed]), hclear, hplace, hfound]
          simp [hopen]
      · cases hread

/-! ## Files that take up the journal -/

@[simp] theorem extend_empty (fs : Files) (place : List String) : fs.extend place "" = fs := by
  simp [extend, Content.append_empty]

/-- What is taken up in two portions may as well be taken up in one. -/
theorem extend_extend (fs : Files) (place : List String) (s t : String) :
    (fs.extend place s).extend place t = fs.extend place (s ++ t) := by
  simp only [extend, List.map_map, Files.mk.injEq, and_true]
  apply List.map_congr_left
  intro e he
  by_cases hplace : e.1 = place
  · simp [hplace, Content.append_append]
  · simp [hplace]

/-- An open file grows at its end; all other files stay as they are. -/
theorem get?_extend (fs : Files) (place other : List String) (text : String) :
    (fs.extend place text).get? other
      = (fs.get? other).map fun c => if other = place then c.append text else c := by
  unfold extend get?
  induction fs.entries with
  | nil => rfl
  | cons e rest ih =>
    obtain ⟨p, c⟩ := e
    by_cases hother : other = p
    · simp [hother]
    · have hne : (other == p) = false := by simpa using hother
      simpa [List.lookup_cons, hne] using ih

@[simp] theorem cwd_extend (fs : Files) (place : List String) (text : String) :
    (fs.extend place text).cwd = fs.cwd := rfl

/-- A file that grows is still no directory, and makes none. -/
@[simp] theorem isDirectory_extend (fs : Files) (place other : List String) (text : String) :
    (fs.extend place text).isDirectory other = fs.isDirectory other := by
  simp only [isDirectory, places_extend]
  rfl

/-- Nor does it put itself in the way of anything. -/
theorem obstacleFrom_extend (fs : Files) (place : List String) (text : String)
    (names here : List String) :
    (fs.extend place text).obstacleFrom here names = fs.obstacleFrom here names := by
  induction names generalizing here with
  | nil => rfl
  | cons name names ih => simp [obstacleFrom, get?_extend, ih]

@[simp] theorem obstacle_extend (fs : Files) (place : List String) (text : String) (r : Route) :
    (fs.extend place text).obstacle r = fs.obstacle r := by
  simp [obstacle, obstacleFrom_extend]

/-- An open file that grows makes nothing else readable. -/
theorem read_extend_eq_error {r : Route} {fault : Fault} (h : fs.read r = .error fault)
    (place : List String) (text : String) : (fs.extend place text).read r = .error fault := by
  unfold read at h ⊢
  rw [obstacle_extend, cwd_extend, isDirectory_extend, get?_extend]
  -- a read fails for one of these reasons, in this order, and each is the same in the longer file
  cases hformed : wellFormed r with
  | false => simpa [hformed] using h
  | true =>
    cases hclear : fs.obstacle r with
    | some cause => simpa [hformed, hclear] using h
    | none =>
      cases hget : fs.get? (r.resolve fs.cwd) with
      | none => simpa [hformed, hclear, hget] using h
      | some content =>
        cases hopen : r.closed with
        | true => simpa [hformed, hclear, hget, hopen] using h
        | false => simp [hformed, hclear, hget, hopen] at h

@[simp] theorem checkWritable_extend (fs : Files) (place : List String) (text : String) (r : Route) :
    (fs.extend place text).checkWritable r = fs.checkWritable r := by
  simp [checkWritable]

end Files

end Utterance
