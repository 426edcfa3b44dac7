import Utterance.Fault
import Utterance.Text.Blank

/-!
# Paths

A path as written, in the normal form that messages show, and as the place it leads to. Writing a
path drops empty and dot components but keeps `..`; the place it leads to is the same for every path
that leads there from a working directory.
-/

namespace Utterance

/-- A path in normal form: the slashes of its root, if any, and its components. -/
structure Path where
  root : String
  parts : List String
  deriving DecidableEq, Repr

namespace Path

/-! ## Reading and writing -/

/-- The components of a text between slashes. -/
def components (s : String) : List String :=
  ((Text.pieces '/' s.toList).filter (!·.isEmpty)).map String.ofList

/-- The root that a text starts with: two slashes are a root of their own, more count as one. -/
def rootOf (s : String) : String :=
  match (s.toList.takeWhile (· == '/')).length with
  | 0 => ""
  | 2 => "//"
  | _ => "/"

/-- The path that a text denotes. -/
def ofString (s : String) : Path := ⟨rootOf s, (components s).filter (· != ".")⟩

/-- Text of a path. -/
def text (p : Path) : String :=
  if p.root.isEmpty && p.parts.isEmpty then "." else p.root ++ "/".intercalate p.parts

instance : ToString Path := ⟨text⟩

/-! ## Components -/

/-- Last component, empty if there is none. -/
def name (p : Path) : String := p.parts.getLast?.getD ""

/-- The path without its last component. -/
def parent (p : Path) : Path := { p with parts := p.parts.dropLast }

/-- The path `s` as seen from the directory `p`. -/
def join (p : Path) (s : String) : Path :=
  let q := ofString s
  if q.root.isEmpty then { p with parts := p.parts ++ q.parts } else q

/-- Stem and extension of a name. A point at either end of the name starts no extension. -/
def splitName (name : String) : String × String :=
  let cs := name.toList
  let ext := cs.reverse.takeWhile (· != '.')
  let stem := cs.take (cs.length - ext.length - 1)
  if ext.length < cs.length && !ext.isEmpty && !stem.isEmpty then
    (String.ofList stem, String.ofList ('.' :: ext.reverse))
  else (name, "")

/-- Extension of a path with its point, empty if it has none. -/
def extension (p : Path) : String := (splitName p.name).2

/-- The path with another last component. -/
def withName (p : Path) (name : String) : Except Fault Path :=
  if p.name.isEmpty then .error (.refused (.emptyName p.text))
  else .ok { p with parts := p.parts.dropLast ++ [name] }

/-- The path with another extension. -/
def withExtension (p : Path) (ext : String) : Except Fault Path :=
  p.withName ((splitName p.name).1 ++ ext)

/-! ## Places

There are no links, so a path leads to the place that its components say. A place is known by the
shortest way to it from the working directory: one `..` for every directory to go up, and the names to
go down. Every spelling of a path to it, relative or absolute, comes to this one way. -/

/-- The working directory where none is named. -/
def workDir : List String := ["tmp", "work"]

/-- One component further from a directory, whose names from the root on are kept innermost first. The
directory above the root is the root. -/
def climb (names : List String) (name : String) : List String :=
  if name = "." then names else if name = ".." then names.tail else name :: names

/-- The names from the root to the place that components lead to. Without a root they start from the
working directory `cwd`. -/
def fromRoot (cwd : List String) (root : String) (parts : List String) : List String :=
  (parts.foldl climb (if root.isEmpty then cwd.reverse else [])).reverse

/-- The shortest way from one directory to a place, both given by their names from the root: up to where
they part, and down from there. -/
def wayFrom : List String → List String → List String
  | here :: dir, there :: place =>
    if here = there then wayFrom dir place
    else (here :: dir).map (fun _ => "..") ++ there :: place
  | dir, place => dir.map (fun _ => "..") ++ place

/-- The place that components lead to. -/
def place (cwd : List String) (root : String) (parts : List String) : List String :=
  wayFrom cwd (fromRoot cwd root parts)

/-- The place that a path leads to. -/
def resolve (p : Path) (cwd : List String := workDir) : List String := place cwd p.root p.parts

end Path

/-! ## Routes -/

/-- A path as it is handed to the file system: unlike a `Path` it may be empty, may end in a slash
and keeps its dot components. -/
structure Route where
  shown : String
  root : String
  parts : List String
  closed : Bool
  deriving DecidableEq, Repr

namespace Route

/-- The route that a text denotes. -/
def ofString (s : String) : Route :=
  ⟨s, Path.rootOf s, Path.components s, s.toList.getLast? == some '/'⟩

/-- The route of a path. -/
def ofPath (p : Path) : Route :=
  ⟨p.text, p.root, if p.root.isEmpty && p.parts.isEmpty then ["."] else p.parts, false⟩

instance : Coe Path Route := ⟨ofPath⟩

/-- The place that a route leads to from the working directory `cwd`. -/
def resolve (r : Route) (cwd : List String) : List String := Path.place cwd r.root r.parts

end Route

end Utterance
