import Utterance.Outcome
import Utterance.Storage.TextFile
import Utterance.Token

/-!
# Text sources

A source that gives out tokens on demand, bound to a text or to an open file of any kind. A file is read
one character at a time; characters that were looked at or put back wait in a small buffer.
-/

namespace Utterance

instance {φ : Type} [OpenFile φ] : Reader (Buffered φ) where
  left := Buffered.left
  read := Buffered.read
  push := Buffered.push
  peek := Buffered.peek
  read_none := Buffered.left_of_read_eq_none
  left_read := Buffered.left_of_read_eq_some
  left_push := Buffered.left_push
  peek_fst := Buffered.peek_fst
  left_peek := Buffered.left_peek

/-! ## Sources -/

/-- What a source is bound to. -/
inductive Binding (φ : Type) [OpenFile φ] where
  | unbound
  | text (whole left : List Char)
  /-- A file, the place where it stood when it was bound, and the characters that wait to be read
  again. -/
  | file (file : φ) (start : OpenFile.Place φ) (saved : List Char)

/-- A source of tokens. `minus` tells that the last token was cut off before a minus sign. A source that
is to read files is of one kind of files, and of stored ones where none is named. -/
structure TextSource (φ : Type := Handle) [OpenFile φ] where
  binding : Binding φ := .unbound
  minus : Bool := false

namespace TextSource

variable {φ : Type} [OpenFile φ]

/-- Releases whatever the source is bound to. -/
def close (_ : TextSource φ) : TextSource φ := {}

/-- A source bound to a text. -/
def ofString (text : String) : TextSource φ := { binding := .text text.toList text.toList }

/-- Binds the source to a text, which must be given. -/
def setSource (src : TextSource φ) : Option String → Outcome (TextSource φ) Bool
  | some text => ⟨ofString text, .ok true, []⟩
  | none => ⟨src, .error (.refused (.needsText .setSource)), []⟩

/-- Binds the source to an open file, which is read from where it stands. -/
def borrow (_ : TextSource φ) (file : φ) : Outcome (TextSource φ) Bool :=
  ⟨{ binding := .file file (OpenFile.tell file) [] }, .ok true, []⟩

/-- Opens a stored file and binds the source to it. The result tells whether it could be opened. -/
def openFile (files : Files) (path : String) : Outcome TextSource Bool :=
  let route := Route.ofString path
  match files.read route with
  | .ok _ =>
    let file : Handle := { place := route.resolve files.cwd }
    borrow {} file
  | .error (.file e) =>
    ⟨{}, .ok false,
      [Topic.unopenedText.entry ("Could not open text source " ++ path ++ ": " ++ e.message)]⟩
  | .error e => ⟨{}, .error e, []⟩

/-- Binds the source to a stored file that was opened and of which `skip` characters have been read, or
all if no number is given or it is negative. -/
def bind (src : TextSource) (files : Files) (path : String) (skip : Option Int) :
    Outcome TextSource Bool :=
  let route := Route.ofString path
  match files.read route >>= fun content =>
      Handle.skipping (route.resolve files.cwd) content.raw skip with
  | .ok file => src.borrow file
  | .error e => ⟨src, .error e, []⟩

/-- Goes back to the start. The result tells whether the source is bound. If the start of a file cannot
be gone back to, the characters that wait are kept. -/
def rewind (src : TextSource φ) (files : Files) : Outcome (TextSource φ) Bool :=
  match src.binding with
  | .unbound => ⟨{ src with minus := false }, .ok false, []⟩
  | .text whole _ => ⟨⟨.text whole whole, false⟩, .ok true, []⟩
  | .file file start saved =>
    match OpenFile.seek files start file with
    | (.ok _, file) => ⟨⟨.file file start [], false⟩, .ok true, []⟩
    | (.error e, file) => ⟨⟨.file file start saved, false⟩, .error e, []⟩

/-! ## Reading -/

/-- Reads something from the source in the way that its binding asks for; nothing is read from an
unbound source. A reading that comes to a fault has no result. No character waits then, since one is
taken from the file only when none does. -/
def pull {α : Type} (src : TextSource φ) (files : Files) (nothing : α)
    (fromText : Bool → List Char → α × Bool × List Char)
    (fromFile : Bool → Buffered φ → α × Bool × Buffered φ) : Outcome (TextSource φ) α :=
  match src.binding with
  | .unbound => ⟨src, .ok nothing, []⟩
  | .text whole left =>
    let (a, minus, left) := fromText src.minus left
    ⟨⟨.text whole left, minus⟩, .ok a, []⟩
  | .file file start saved =>
    let (a, minus, s) := fromFile src.minus { files, file, saved }
    match s.fault with
    | none => ⟨⟨.file s.file start s.saved, minus⟩, .ok a, []⟩
    | some e => ⟨⟨.file s.file start [], minus⟩, .error e, []⟩

/-- Reads something from the start of the source. -/
def pullAll {α : Type} (src : TextSource φ) (files : Files) (nothing : α)
    (fromText : Bool → List Char → α × Bool × List Char)
    (fromFile : Bool → Buffered φ → α × Bool × Buffered φ) : Outcome (TextSource φ) α :=
  let o := src.rewind files
  match o.result with
  | .error e => ⟨o.state, .error e, []⟩
  | .ok _ => o.state.pull files nothing fromText fromFile

/-- The next token, passing over punctuation if `skip` is set. -/
def readWord (src : TextSource φ) (files : Files) (skip : Bool) : Outcome (TextSource φ) (Option Token) :=
  src.pull files none (Token.nextKept? skip) (Token.nextKept? skip)

/-- Every token from the start, paragraph breaks included. -/
def allTokens (src : TextSource φ) (files : Files) (skip : Bool) : Outcome (TextSource φ) (List Token) :=
  src.pullAll files [] (Token.readAll skip) (Token.readAll skip)

/-- The token texts of the first paragraph. -/
def tokens (src : TextSource φ) (files : Files) (skip : Bool) : Outcome (TextSource φ) (List String) :=
  let o := src.pullAll files [] (Token.readSentence skip) (Token.readSentence skip)
  { o with result := o.result.map fun ts => ts.map (·.text) }

/-- The first paragraph with single spaces between its tokens. -/
def sentence (src : TextSource φ) (files : Files) (punctuation : Bool) : Outcome (TextSource φ) String :=
  let o := src.tokens files !punctuation
  { o with result := o.result.map fun ts => " ".intercalate ts }

/-- Number of tokens in the first paragraph. -/
def count (src : TextSource φ) (files : Files) (punctuation : Bool) : Outcome (TextSource φ) Nat :=
  let o := src.tokens files !punctuation
  { o with result := o.result.map fun ts => ts.length }

/-- The tokens `first` to `last` of the first paragraph, or nothing if it has fewer. -/
def span (src : TextSource φ) (files : Files) (first last : Int) (punctuation : Bool) :
    Outcome (TextSource φ) (Option String) :=
  if first < 0 then ⟨src, .error (.refused (.spanStart first)), []⟩
  else if last < first then ⟨src, .ok (some ""), []⟩
  else
    let o := src.tokens files !punctuation
    { o with
      result := o.result.map fun ts =>
        if (ts.length : Int) ≤ last then none
        else some (" ".intercalate (Text.slice first.toNat (last + 1) ts)) }

end TextSource

end Utterance
