/-!
# Blanks, words and lines

Which characters are blank, how text is trimmed of them, and how it is cut into words and lines.
Everything works on lists of characters; the operations on `String` only wrap them.
-/

namespace Utterance.Text

/-! ## Blank characters -/

/-- White space of any script: the ASCII blanks, the four information separators, the next-line
character, the no-break space and the space separators. -/
def isBlank (c : Char) : Bool :=
  let n := c.toNat
  (9 ≤ n && n ≤ 13) || (28 ≤ n && n ≤ 32) || n == 0x85 || n == 0xA0 || n == 0x1680
    || (0x2000 ≤ n && n ≤ 0x200A) || n == 0x2028 || n == 0x2029 || n == 0x202F || n == 0x205F
    || n == 0x3000

/-- `cs` without the longest tail of characters that satisfy `p`. -/
def dropTailWhile (p : Char → Bool) (cs : List Char) : List Char :=
  (cs.reverse.dropWhile p).reverse

/-- `cs` without blanks at either end. -/
def trimChars (cs : List Char) : List Char := dropTailWhile isBlank (cs.dropWhile isBlank)

/-- `s` without blanks at either end. -/
def trim (s : String) : String := String.ofList (trimChars s.toList)

/-- `s` without the characters at its end that satisfy `p`. -/
def trimEndWhile (p : Char → Bool) (s : String) : String :=
  String.ofList (dropTailWhile p s.toList)

/-- `s` without the characters at its start that satisfy `p`. -/
def trimStartWhile (p : Char → Bool) (s : String) : String :=
  String.ofList (s.toList.dropWhile p)

/-! ## Words -/

/-- The blank-free runs of a text, the first of them continuing `run` (kept in reverse). -/
def wordRuns (run : List Char) : List Char → List (List Char)
  | [] => if run.isEmpty then [] else [run.reverse]
  | c :: cs =>
    if isBlank c then
      if run.isEmpty then wordRuns [] cs else run.reverse :: wordRuns [] cs
    else wordRuns (c :: run) cs

/-- The maximal blank-free runs of a text. -/
def words (s : String) : List String := (wordRuns [] s.toList).map String.ofList

/-! ## Pieces -/

/-- The pieces of a text between the occurrences of `sep`; always at least one. -/
def pieces (sep : Char) : List Char → List (List Char)
  | [] => [[]]
  | c :: cs =>
    if c = sep then [] :: pieces sep cs
    else match pieces sep cs with
      | first :: rest => (c :: first) :: rest
      | [] => [[c]]

/-- The part before the first occurrence of `c`, and the part after it if it occurs. -/
def cutAt (c : Char) : List Char → List Char × Option (List Char)
  | [] => ([], none)
  | d :: ds =>
    if d = c then ([], some ds)
    else
      let (before, after) := cutAt c ds
      (d :: before, after)

/-! ## Lines -/

/-- The three line ends, carriage return, line feed and both, as a line feed. -/
def unifyLineEnds : List Char → List Char
  | [] => []
  | '\r' :: '\n' :: cs => '\n' :: unifyLineEnds cs
  | '\r' :: cs => '\n' :: unifyLineEnds cs
  | c :: cs => c :: unifyLineEnds cs

/-- The lines of a text without their ends. A line end at the very end starts no further line. -/
def lines (s : String) : List String :=
  let ps := pieces '\n' (unifyLineEnds s.toList)
  let ps := if ps.getLast? == some [] then ps.dropLast else ps
  ps.map String.ofList

/-! ## Cuts and columns -/

/-- The characters before position `k`; a negative `k` counts from the end. -/
def upTo (k : Int) (xs : List α) : List α :=
  if k < 0 then xs.take (xs.length + k).toNat else xs.take k.toNat

/-- The elements from position `first` on that lie before position `last`; a negative `last` counts
from the end. -/
def slice (first : Nat) (last : Int) (xs : List α) : List α := (upTo last xs).drop first

/-- `s` filled up with spaces on the right to at least `width` characters. -/
def padRight (width : Nat) (s : String) : String :=
  s ++ String.ofList (List.replicate (width - s.length) ' ')

/-- `n` copies of `s`. -/
def replicate (n : Nat) (s : String) : String := String.join (List.replicate n s)

end Utterance.Text
