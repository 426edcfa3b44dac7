import Utterance.Text.Blank
import Utterance.Text.Casing

/-!
# Lines of a grammar file

A grammar file is read line by line. A line may carry a comment, and a line that starts with an
equals sign opens the section of a head.
-/

namespace Utterance.Line

/-- The part of a line before two slashes in a row. -/
def beforeSlashes : List Char → List Char
  | [] => []
  | '/' :: '/' :: _ => []
  | c :: cs => c :: beforeSlashes cs

/-- A line without surrounding blanks and without a comment, which starts at a semicolon or at two
slashes. -/
def clean (raw : String) : String :=
  let cs := raw.toList.dropWhile fun c => c == ' ' || c == '\t'
  let cs := Text.dropTailWhile (fun c => c == '\r' || c == '\n') cs
  let cs := beforeSlashes (Text.cutAt ';' cs).1
  String.ofList (Text.dropTailWhile Text.isBlank cs)

/-- The characters before the first one that satisfies `p`, and those after it if there is one. -/
def cutWhere (p : Char → Bool) (cs : List Char) : List Char × Option (List Char) :=
  match cs.dropWhile (!p ·) with
  | [] => (cs, none)
  | _ :: rest => (cs.takeWhile (!p ·), some rest)

/-- The head that a line opens a section for. Nothing if its brackets are missing or empty. -/
def header? (line : String) : Option String :=
  match line.toList with
  | '=' :: cs =>
    match cutWhere (fun c => c == '[' || c == '<') cs with
    | (_, some inside) =>
      match cutWhere (fun c => c == ']' || c == '>') inside with
      | (name, some _) =>
        let name := Text.trimChars name
        if name.isEmpty then none else some (String.ofList name)
      | (_, none) => none
    | (_, none) => none
  | _ => none

/-- Whether a head names a section of irregular forms instead of rules. -/
def isIrregularHead (name : String) : Bool := "xxx".toList.isPrefixOf (Text.lower name).toList

/-- Whether a line starts with a text. -/
def startsWith (line start : String) : Bool := start.toList.isPrefixOf line.toList

end Utterance.Line
