import Utterance.Text.Numeric

/-!
# Numbers in text

Two ways of reading a number. `isNumber` decides whether a whole text is a plain number with an
optional sign, point and exponent; `startsNumber` whether a text begins with one. `readInteger?`
gives the value of an integer, in the digits of any script, with single underscores between digits.
-/

namespace Utterance.Text

/-! ## Plain numbers -/

/-- `cs` without a sign in front. -/
def dropSign : List Char → List Char
  | '+' :: cs => cs
  | '-' :: cs => cs
  | cs => cs

/-- Whether `cs` is one or more decimal digits. -/
def areDigits (cs : List Char) : Bool := !cs.isEmpty && cs.all isDecimal

/-- Whether `cs` is nothing or an exponent: a letter e, an optional sign and digits. -/
def isExponent : List Char → Bool
  | [] => true
  | c :: cs => (c == 'e' || c == 'E') && areDigits (dropSign cs)

/-- Whether an unsigned `cs` is digits with an optional point among or after them, or a point and
digits, with an optional exponent. -/
def isUnsigned (cs : List Char) : Bool :=
  match cs with
  | '.' :: frac => frac.head?.any isDecimal && isExponent (frac.dropWhile isDecimal)
  | _ =>
    cs.head?.any isDecimal &&
      match cs.dropWhile isDecimal with
      | '.' :: frac => isExponent (frac.dropWhile isDecimal)
      | rest => isExponent rest

/-- Whether the whole text is a plain number. -/
def isNumber (s : String) : Bool := isUnsigned (dropSign s.toList)

/-- Whether the text begins with a plain number. -/
def startsNumber (s : String) : Bool :=
  match dropSign s.toList with
  | '.' :: c :: _ => isDecimal c
  | c :: _ => isDecimal c
  | [] => false

/-! ## Integers -/

/-- Values of a run of digits in which single underscores may stand between two digits. -/
def digitValues? : List Char → Option (List Nat)
  | [] => none
  | [c] => (decimalValue? c).map ([·])
  | c :: '_' :: cs => do
    let d ← decimalValue? c
    let ds ← digitValues? cs
    return d :: ds
  | c :: cs => do
    let d ← decimalValue? c
    let ds ← digitValues? cs
    return d :: ds

/-- The longest run of digits that is read as an integer. -/
def maxIntegerDigits : Nat := 4300

/-- Value of an integer with an optional sign; nothing if the text is none or is too long. -/
def readInteger? (s : String) : Option Int := do
  let cs := s.toList
  let ds ← digitValues? (dropSign cs)
  if maxIntegerDigits < ds.length then none
  else
    let n : Nat := ds.foldl (fun acc d => acc * 10 + d) 0
    return if cs.head? == some '-' then -(n : Int) else n

end Utterance.Text
