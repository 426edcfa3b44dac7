import Utterance.Journal
import Utterance.Storage

/-!
# Views of the files

An operation that reads several files may write into the journal before it comes to the last of them,
and the journal may go to one of these files.
-/

namespace Utterance.Files

/-- The files as an operation finds them. They depend on what it has written into the journal so far,
but no file is made or removed. -/
structure View where
  /-- The files after these entries of the journal. -/
  after : Journal → Files
  places : List (List String)
  places_after : ∀ notes, (after notes).places = places
  /-- The working directory, which stays the same. -/
  cwd : List String
  cwd_after : ∀ notes, (after notes).cwd = cwd

namespace View

/-- The view of files that the journal does not touch. -/
def still (files : Files) : View := ⟨fun _ => files, files.places, fun _ => rfl, files.cwd, fun _ => rfl⟩

@[simp] theorem cwd_still (files : Files) : (still files).cwd = files.cwd := rfl

instance : Coe Files View := ⟨still⟩

/-- The view of files of which one takes up the journal: the open file at `place` gets the text of the
entries. -/
def logging (files : Files) (place : List String) (text : Journal → String) : View :=
  ⟨fun notes => files.extend place (text notes), files.places, fun _ => places_extend _ _ _, files.cwd,
    fun _ => rfl⟩

/-- A file that can be read is stored at one of the places of the view. -/
theorem resolve_mem_places {view : View} {notes : Journal} {r : Route} {content : Content}
    (h : (view.after notes).read r = .ok content) : r.resolve view.cwd ∈ view.places := by
  rw [← view.places_after notes, ← view.cwd_after notes]
  exact resolve_mem_places_of_read h

end View

end Utterance.Files
