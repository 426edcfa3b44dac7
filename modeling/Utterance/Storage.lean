import Utterance.Storage.Path

/-!
# Files

The files that the library reads and writes, as a value, with the working directory that relative paths
start from. A place is a directory if it is the working directory, lies above it, is on the way to a
file, or is known to be one.
-/

namespace Utterance

/-! ## Contents -/

/-- What a file holds: a text, or bytes that are no UTF-8 text. -/
inductive Content where
  | text (s : String)
  | bytes (bs : List UInt8)
  deriving DecidableEq

namespace Content

/-- The bytes of a file. -/
def raw : Content → List UInt8
  | .text s => s.toUTF8.toList
  | .bytes bs => bs

/-- The lines of a text file. -/
def lines : Content → Except Fault (List String)
  | .text s => .ok (Text.lines s)
  | .bytes _ => .error .undecodable

/-- The content with a text added at the end. -/
def append (more : String) : Content → Content
  | .text s => .text (s ++ more)
  | .bytes bs => .bytes (bs ++ more.toUTF8.toList)

end Content

/-! ## The store -/

/-- The files, each with its place, and the directories that are known to be there without a file. -/
structure Files where
  entries : List (List String × Content)
  folders : List (List String) := []
  /-- The names from the root to the working directory. -/
  cwd : List String := Path.workDir

namespace Files

/-- No files at all. -/
def empty : Files := { entries := [] }

/-- The places that hold a file. -/
def places (fs : Files) : List (List String) := fs.entries.map (·.1)

/-- The content of the file at a place. -/
def get? (fs : Files) (place : List String) : Option Content := fs.entries.lookup place

/-- The bytes of the file at a place; none if there is no file. -/
def bytesAt (fs : Files) (place : List String) : List UInt8 := (fs.get? place).elim [] Content.raw

/-- The files with `content` at `place`. -/
def insert (fs : Files) (place : List String) (content : Content) : Files :=
  if fs.places.contains place then
    { fs with
      entries := fs.entries.map fun (p, c) => if p = place then (p, content) else (p, c) }
  else { fs with entries := fs.entries ++ [(place, content)] }

/-- Whether a place is a directory. -/
def isDirectory (fs : Files) (place : List String) : Bool :=
  place.all (· == "..")
    || fs.places.any (fun p => place.isPrefixOf p && place.length < p.length)
    || fs.folders.any (place.isPrefixOf ·)

/-- The longest component in bytes. -/
def maxNameBytes : Nat := 255

/-- The longest route in bytes. -/
def maxRouteBytes : Nat := 4095

/-- The first obstacle on the way along components from the directory that the names `dir`, innermost
first, lead to from the root. Every component is looked up in a directory. -/
def obstacleFrom (fs : Files) (dir : List String) : List String → Option Obstacle
  | [] => none
  | name :: rest =>
    let place := Path.wayFrom fs.cwd dir.reverse
    if !fs.isDirectory place then
      some (if (fs.get? place).isSome then .notDirectory else .missing)
    else if maxNameBytes < name.utf8ByteSize then some .nameTooLong
    else obstacleFrom fs (Path.climb dir name) rest

/-- The first obstacle on the way along a route. -/
def obstacle (fs : Files) (r : Route) : Option Obstacle :=
  if maxRouteBytes < r.shown.utf8ByteSize then some .nameTooLong
  else if r.root.isEmpty && r.parts.isEmpty then some .missing
  else obstacleFrom fs (if r.root.isEmpty then fs.cwd.reverse else []) r.parts

/-- The error of opening a route against an obstacle. -/
def blocked (r : Route) (cause : Obstacle) : Fault := .file (.blocked cause r.shown)

/-- Whether a route can be handed to the file system at all. -/
def wellFormed (r : Route) : Bool := !r.shown.toList.contains (Char.ofNat 0)

/-- The content of the file that a route leads to. -/
def read (fs : Files) (r : Route) : Except Fault Content :=
  if !wellFormed r then .error (.refused .nullInPath)
  else match fs.obstacle r with
    | some cause => .error (blocked r cause)
    | none =>
      match fs.get? (r.resolve fs.cwd) with
      | some content => if r.closed then .error (blocked r .notDirectory) else .ok content
      | none =>
        .error (blocked r (if fs.isDirectory (r.resolve fs.cwd) then .isDirectory else .missing))

/-- The route to write along. A route that ends in a slash names a directory whatever its last
component is, so only the way to that component matters. -/
def writingRoute (r : Route) : Route :=
  if r.closed then { r with parts := r.parts.dropLast ++ ["."] } else r

/-- Checks that a route can be opened for writing. -/
def checkWritable (fs : Files) (r : Route) : Except Fault Unit :=
  if !wellFormed r then .error (.refused .nullInPath)
  else match fs.obstacle (writingRoute r) with
    | some cause => .error (blocked r cause)
    | none =>
      if r.closed || fs.isDirectory (r.resolve fs.cwd) then .error (blocked r .isDirectory) else .ok ()

/-- The files after `text` has been written to the file that a route leads to. -/
def write (fs : Files) (r : Route) (text : String) : Except Fault Files := do
  fs.checkWritable r
  return fs.insert (r.resolve fs.cwd) (.text text)

/-- The files after `text` has been added to the file that a route leads to. -/
def append (fs : Files) (r : Route) (text : String) : Except Fault Files := do
  fs.checkWritable r
  return match fs.get? (r.resolve fs.cwd) with
    | some content => fs.insert (r.resolve fs.cwd) (content.append text)
    | none => fs.insert (r.resolve fs.cwd) (.text text)

/-- The files after `text` has been added to the file that is open at a place. -/
def extend (fs : Files) (place : List String) (text : String) : Files :=
  { fs with
    entries := fs.entries.map fun (p, c) => (p, if p = place then c.append text else c) }

/-- Adding to an open file makes and removes none. -/
theorem places_extend (fs : Files) (place : List String) (text : String) :
    (fs.extend place text).places = fs.places := by
  simp [extend, places, Function.comp_def]

/-! ## Reading leads to a stored place -/

/-- What is found has a place among the entries. -/
theorem mem_of_lookup_eq_some {entries : List (List String × Content)} {place : List String}
    {content : Content} (h : entries.lookup place = some content) :
    place ∈ entries.map (·.1) := by
  induction entries with
  | nil => simp at h
  | cons e rest ih =>
    obtain ⟨p, c⟩ := e
    rw [List.lookup_cons] at h
    split at h
    · rename_i hp
      simp at hp
      simp [hp]
    · simp [ih h]

/-- A file that can be read is stored at the place that its route leads to. There are finitely many
places, so only finitely many files can be on a stack of includes. -/
theorem resolve_mem_places_of_read {fs : Files} {r : Route} {content : Content}
    (h : fs.read r = .ok content) : r.resolve fs.cwd ∈ fs.places := by
  unfold read at h
  split at h
  · simp at h
  · split at h
    · simp at h
    · split at h
      · rename_i c hc
        exact mem_of_lookup_eq_some hc
      · simp at h

end Files

end Utterance
