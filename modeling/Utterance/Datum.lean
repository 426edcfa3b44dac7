import Utterance.Text.Blank
import Utterance.Text.Quoted

/-!
# Plain data

The values that a trace records and a report prints: nothing, truth values, integers, texts, lists,
fixed tuples and records with fields in order. They have two written forms: the JSON layout of a
report and the compact form of a log line.
-/

namespace Utterance

/-- A plain value. -/
inductive Datum where
  | null
  | bool (b : Bool)
  | int (n : Int)
  | text (s : String)
  | list (items : List Datum)
  | tuple (items : List Datum)
  | record (fields : List (String × Datum))
  deriving Inhabited

namespace Datum

/-- A text, or nothing. -/
def ofOption : Option String → Datum
  | some s => .text s
  | none => .null

/-- A list of texts. -/
def texts (xs : List String) : Datum := .list (xs.map .text)

/-- Whether a value counts as nothing: false, zero and what is empty do. -/
def isNothing : Datum → Bool
  | .null => true
  | .bool b => !b
  | .int n => n = 0
  | .text s => s.isEmpty
  | .list items => items.isEmpty
  | .tuple items => items.isEmpty
  | .record fields => fields.isEmpty

/-- Name of the kind of a value, as messages print it. -/
def kind : Datum → String
  | .null => "NoneType"
  | .bool _ => "bool"
  | .int _ => "int"
  | .text _ => "str"
  | .list _ => "list"
  | .tuple _ => "tuple"
  | .record _ => "dict"

/-- Fields with `key` set to `value`: in place if the key is there, else at the end. -/
def put (key : String) (value : Datum) : List (String × Datum) → List (String × Datum)
  | [] => [(key, value)]
  | (k, v) :: rest => if k = key then (k, value) :: rest else (k, v) :: put key value rest

/-! ## JSON layout -/

/-- One character of a JSON string. Only what the format requires is escaped. -/
def jsonChar (c : Char) : List Char :=
  if c = '"' then ['\\', '"']
  else if c = '\\' then ['\\', '\\']
  else if c = '\n' then ['\\', 'n']
  else if c = '\r' then ['\\', 'r']
  else if c = '\t' then ['\\', 't']
  else if c.toNat = 8 then ['\\', 'b']
  else if c.toNat = 12 then ['\\', 'f']
  else if c.toNat < 32 then ['\\', 'u'] ++ Text.hexDigits 4 c.toNat
  else [c]

/-- A JSON string. -/
def jsonString (s : String) : String :=
  String.ofList ('"' :: s.toList.flatMap jsonChar ++ ['"'])

/-- What stands before an item at the given depth: a new line and the indentation, or nothing. -/
def lineBreak (indent : Option Nat) (depth : Nat) : String :=
  match indent with
  | some n => "\n" ++ Text.replicate (n * depth) " "
  | none => ""

/-- What stands between two items. -/
def itemGap (indent : Option Nat) (depth : Nat) : String :=
  match indent with
  | some _ => "," ++ lineBreak indent depth
  | none => ", "

/-- Items between brackets; an empty list stays on one line. -/
def bracket (indent : Option Nat) (depth : Nat) (opening closing : String)
    (items : List String) : String :=
  if items.isEmpty then opening ++ closing
  else opening ++ lineBreak indent (depth + 1) ++ (itemGap indent (depth + 1)).intercalate items
    ++ lineBreak indent depth ++ closing

mutual

/-- JSON text of a value at the given depth. With an indentation every item has its own line. -/
def jsonAt (indent : Option Nat) (depth : Nat) : Datum → String
  | .null => "null"
  | .bool b => if b then "true" else "false"
  | .int n => toString n
  | .text s => jsonString s
  | .list xs => bracket indent depth "[" "]" (jsonItems indent (depth + 1) xs)
  | .tuple xs => bracket indent depth "[" "]" (jsonItems indent (depth + 1) xs)
  | .record fs => bracket indent depth "\x7b" "\x7d" (jsonFields indent (depth + 1) fs)

/-- JSON texts of the items of a list. -/
def jsonItems (indent : Option Nat) (depth : Nat) : List Datum → List String
  | [] => []
  | x :: xs => jsonAt indent depth x :: jsonItems indent depth xs

/-- JSON texts of the fields of a record. -/
def jsonFields (indent : Option Nat) (depth : Nat) : List (String × Datum) → List String
  | [] => []
  | (k, v) :: fs => (jsonString k ++ ": " ++ jsonAt indent depth v) :: jsonFields indent depth fs

end

/-- JSON text of a value. -/
def json (indent : Option Nat) (d : Datum) : String := jsonAt indent 0 d

/-! ## Log form -/

mutual

/-- Compact form of a value inside a list: texts are quoted. -/
def inner : Datum → String
  | .null => "None"
  | .bool b => if b then "True" else "False"
  | .int n => toString n
  | .text s => Text.quoted s
  | .list xs => "[" ++ ", ".intercalate (innerItems xs) ++ "]"
  | .tuple [x] => "(" ++ inner x ++ ",)"
  | .tuple xs => "(" ++ ", ".intercalate (innerItems xs) ++ ")"
  | .record fs => "\x7b" ++ ", ".intercalate (innerFields fs) ++ "\x7d"

/-- Compact forms of the items of a list. -/
def innerItems : List Datum → List String
  | [] => []
  | x :: xs => inner x :: innerItems xs

/-- Compact forms of the fields of a record. -/
def innerFields : List (String × Datum) → List String
  | [] => []
  | (k, v) :: fs => (Text.quoted k ++ ": " ++ inner v) :: innerFields fs

end

/-- Compact form of a value: a text stands for itself, all else as inside a list. -/
def shown : Datum → String
  | .text s => s
  | d => d.inner

end Datum

end Utterance
