import Utterance.Text.Quoted

/-!
# What can go wrong

The causes for which an operation of the library gives no result, and their wording.
-/

namespace Utterance

/-! ## Files -/

/-- Why a path cannot be opened. -/
inductive Obstacle where
  | missing
  | notDirectory
  | isDirectory
  | nameTooLong
  deriving DecidableEq, Repr

namespace Obstacle

/-- Number of an obstacle, as its message prints it. -/
def number : Obstacle → Nat
  | .missing => 2
  | .notDirectory => 20
  | .isDirectory => 21
  | .nameTooLong => 36

/-- Wording of an obstacle. -/
def wording : Obstacle → String
  | .missing => "No such file or directory"
  | .notDirectory => "Not a directory"
  | .isDirectory => "Is a directory"
  | .nameTooLong => "File name too long"

end Obstacle

/-- A file that could not be used. -/
inductive FileError where
  /-- The path cannot be opened. -/
  | blocked (cause : Obstacle) (path : String)
  /-- The irregular forms of a lexicon cannot be read. -/
  | noLexicon (path : String)
  /-- The text before a remembered place is no longer there. -/
  | lostPlace
  deriving DecidableEq, Repr

/-- Wording of a file error. -/
def FileError.message : FileError → String
  | .blocked cause path =>
    "[Errno " ++ toString cause.number ++ "] " ++ cause.wording ++ ": " ++ Text.quoted path
  | .noLexicon path => "Cannot read grammar " ++ path
  | .lostPlace => "can't restore logical file position"

/-! ## Refused arguments -/

/-- An operation that cannot do without its text. -/
inductive NeedsText where
  | parse
  | interpret
  | repair
  | setSource
  deriving DecidableEq, Repr

/-- An argument that an operation refuses. -/
inductive Refusal where
  /-- A wildcard must stand for at least one word. -/
  | noDictation (n : Int)
  /-- A vocabulary needs two bins. -/
  | fewBins (n : Int)
  /-- No attention mode has this number. -/
  | attentionMode (n : Int)
  /-- No rule status has this number. -/
  | ruleStatus (n : Int)
  /-- The tag, named by its lowest bit, has no irregular forms. -/
  | regularTag (name : Option String)
  /-- The tags, as printed, say nothing about a word class. -/
  | noWordClass (tags : String)
  /-- No tag has this name. -/
  | unknownTag (name : String)
  | needsText (who : NeedsText)
  /-- A source is to be bound to no file. -/
  | needsFile
  /-- A span starts before the first word. -/
  | spanStart (first : Int)
  /-- The path has no last component. -/
  | emptyName (path : String)
  /-- A path holds the character with number zero. -/
  | nullInPath
  deriving DecidableEq, Repr

/-- Wording of a refusal. -/
def Refusal.message : Refusal → String
  | .noDictation n => "dict_n must be positive, got " ++ toString n
  | .fewBins n => "nbins must be at least 2, got " ++ toString n
  | .attentionMode n => toString n ++ " is not a valid AttnMode"
  | .ruleStatus n => toString n ++ " is not a valid RuleStatus"
  | .regularTag name => "No irregular forms for tag " ++ name.getD "None"
  | .noWordClass tags => "No word class in morphology tags " ++ tags
  | .unknownTag name => "Unknown morphology tag: '" ++ name ++ "'"
  | .needsText .parse => "parse() needs a sentence"
  | .needsText .interpret => "interpret() needs a sentence"
  | .needsText .repair => "fix_typos() needs a string"
  | .needsText .setSource => "set_source() needs a string"
  | .needsFile => "bind() needs an open file object"
  | .spanStart first => "span start must be non-negative, got " ++ toString first
  | .emptyName path => "PosixPath(" ++ Text.quoted path ++ ") has an empty name"
  | .nullInPath => "embedded null byte"

/-! ## Faults -/

/-- Why an operation gives no result. -/
inductive Fault where
  | file (error : FileError)
  | refused (why : Refusal)
  /-- A file is not UTF-8 text. -/
  | undecodable
  /-- A position or rule number is beyond the end. -/
  | outOfRange
  /-- No speech act has this label. -/
  | unknownLabel
  /-- The focus covers no words. -/
  | noSpan
  /-- There is no further line to read. -/
  | endOfInput
  /-- Confidences are given as a value of another kind than a text. -/
  | confidenceNotText (kind : String)
  /-- A number is too large for a floating-point number. -/
  | overflow
  /-- A count does not fit into a machine word. -/
  | countTooLarge
  /-- The name of the attention mode is withheld. -/
  | modeWithheld
  /-- The path of a grammar is withheld. -/
  | pathWithheld
  deriving DecidableEq, Repr

/-- Wording of a fault. -/
def Fault.message : Fault → String
  | .file error => error.message
  | .refused why => why.message
  | .undecodable => "not valid UTF-8"
  | .outOfRange => "list index out of range"
  | .unknownLabel => "unknown label"
  | .noSpan => "cannot unpack non-iterable NoneType object"
  | .endOfInput => "EOF when reading a line"
  | .confidenceNotText kind => "'" ++ kind ++ "' object has no attribute 'split'"
  | .overflow => "integer division result too large for a float"
  | .countTooLarge => "cannot fit 'int' into an index-sized integer"
  | .modeWithheld => "'list' object has no attribute 'upper'"
  | .pathWithheld => "expected str, bytes or os.PathLike object, not list"

end Utterance
