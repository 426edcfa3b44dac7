import Utterance.Proofs.Storage
import Utterance.Proofs.Storage.TextFile
import Utterance.Proofs.Token.Agreement
import Utterance.Token.Source

/-!
# Texts and files as sources

A source that is bound to an open file answers just as one that is bound to the text from there on,
whatever it is asked for and in whatever order. A rewinding brings both back to their start. Of the
characters of the file that were looked at or put back at most two ever wait to be read again.

All that is asked of the file is that it yields these characters one at a time and can be taken back to
where it was bound (`OpenFile.Yields`): it may be a stored file or a text in memory, and the characters
may be any, carriage returns included.

The greatest number that waits is found with a gauge: a reading that takes down how many wait after every
single step. Since the cutter works over every kind of source, it runs over such a reading as well.
-/

namespace Utterance

/-! ## Gauges -/

/-- A reading of a file with the greatest number of characters that have waited to be read again. -/
structure Gauged (φ : Type) where
  buffered : Buffered φ
  peak : Nat

namespace Gauged

variable {φ : Type} [OpenFile φ]

/-- A gauge on a reading that has just begun. -/
def start (s : Buffered φ) : Gauged φ := ⟨s, s.saved.length⟩

/-- The gauge after a step of its reading. -/
def note (g : Gauged φ) (s : Buffered φ) : Gauged φ := ⟨s, max g.peak s.saved.length⟩

instance : Reader (Gauged φ) where
  left g := g.buffered.left
  read g := (g.buffered.read.1, g.note g.buffered.read.2)
  push c g := g.note (g.buffered.push c)
  peek g := (g.buffered.peek.1, g.note g.buffered.peek.2)
  read_none g g' h := by
    obtain ⟨hread, rfl⟩ := Prod.mk.inj h
    exact Buffered.left_of_read_eq_none g.buffered g.buffered.read.2 (Prod.ext hread rfl)
  left_read g c g' h := by
    obtain ⟨hread, rfl⟩ := Prod.mk.inj h
    exact Buffered.left_of_read_eq_some g.buffered c g.buffered.read.2 (Prod.ext hread rfl)
  left_push c g := Buffered.left_push c g.buffered
  peek_fst g := Buffered.peek_fst g.buffered
  left_peek g := Buffered.left_peek g.buffered

/-- A gauge does not disturb the reading. -/
theorem agree_buffered :
    Reader.Agree (fun (g : Gauged φ) (s : Buffered φ) => g.buffered = s)
      (fun g s => g.buffered = s) where
  wide_of_narrow h := h
  read := by
    rintro g _ rfl
    exact ⟨rfl, rfl⟩
  push := by
    rintro g _ c rfl
    rfl
  peek := by
    rintro g _ rfl
    exact ⟨rfl, rfl⟩
  peek_narrow := by
    rintro g _ rfl
    rfl

/-- A gauged reading in which just these characters are to come. At most `few` of them wait to be read
again, and there have never been more than two. -/
structure Shows (files : Files) (f : φ) (few : Nat) (g : Gauged φ) (cs : List Char) : Prop where
  buffered : g.buffered.Shows files f cs
  saved_le : g.buffered.saved.length ≤ few
  peak_le : g.peak ≤ 2

variable {files : Files} {f : φ} {few : Nat} {g : Gauged φ} {s : Buffered φ} {c cs : List Char}

theorem shows_note (h : g.peak ≤ 2) (hs : s.Shows files f cs) (hsaved : s.saved.length ≤ few)
    (hfew : few ≤ 2) : (g.note s).Shows files f few cs :=
  ⟨hs, hsaved, Nat.max_le.2 ⟨h, Nat.le_trans hsaved hfew⟩⟩

/-- A gauged reading of a file that yields its characters cannot be told apart from the list of those
that are left. A step is narrow when it leaves room for one more to be put back, and the cutter puts one
back only after it has taken one; so two that wait never become three. -/
theorem agree_shows (hf : OpenFile.Yields files f c) :
    Reader.Agree (Gauged.Shows files f 2) (Gauged.Shows files f 1) where
  wide_of_narrow h := ⟨h.buffered, Nat.le_succ_of_le h.saved_le, h.peak_le⟩
  read := by
    intro g cs h
    obtain ⟨hhead, hrest⟩ := h.buffered.read hf
    have hsaved := g.buffered.length_saved_read
    have hle := h.saved_le
    cases cs with
    | nil => exact ⟨hhead, shows_note h.peak_le hrest (by omega) (by omega)⟩
    | cons c cs => exact ⟨hhead, shows_note h.peak_le hrest (by omega) (by omega)⟩
  push d h := shows_note h.peak_le (h.buffered.push d) (Nat.succ_le_succ h.saved_le) (by omega)
  peek := by
    intro g cs h
    have hsaved := g.buffered.length_saved_peek_le
    have hle := h.saved_le
    refine ⟨?_, shows_note h.peak_le (h.buffered.peek hf) (by omega) (by omega)⟩
    exact g.buffered.peek_fst.trans (congrArg List.head? h.buffered.left_eq)
  peek_narrow := by
    intro g cs h
    have hsaved := g.buffered.length_saved_peek_le
    have hle := h.saved_le
    exact shows_note h.peak_le (h.buffered.peek hf) (by omega) (by omega)

end Gauged

/-! ## Calls -/

namespace TextSource

/-- What a source can be asked for once it is bound. A tour of the tokens that is broken off is a
rewinding and some single words. -/
inductive Call where
  | word (skip : Bool)
  | all (skip : Bool)
  | tokens (skip : Bool)
  | sentence (punctuation : Bool)
  | span (first last : Int) (punctuation : Bool)
  | count (punctuation : Bool)
  | rewind

/-- What a source answers. -/
inductive Answer where
  | word (token : Option Token)
  | all (tokens : List Token)
  | tokens (texts : List String)
  | sentence (text : String)
  | span (text : Option String)
  | count (n : Nat)
  | rewound (bound : Bool)

end TextSource

/-- An outcome whose result is put another way. -/
def Outcome.map {σ α β : Type} (f : α → β) (o : Outcome σ α) : Outcome σ β :=
  { o with result := o.result.map f }

namespace TextSource

variable {φ : Type} [OpenFile φ]

/-- What comes of a call. -/
def Call.run (files : Files) (src : TextSource φ) : Call → Outcome (TextSource φ) Answer
  | .word skip => (src.readWord files skip).map .word
  | .all skip => (src.allTokens files skip).map .all
  | .tokens skip => (src.tokens files skip).map .tokens
  | .sentence punctuation => (src.sentence files punctuation).map .sentence
  | .span first last punctuation => (src.span files first last punctuation).map .span
  | .count punctuation => (src.count files punctuation).map .count
  | .rewind => (src.rewind files).map .rewound

/-- The answers to calls one after the other, with what they write into the journal. -/
def answers (files : Files) (src : TextSource φ) : List Call → List (Except Fault Answer × Journal)
  | [] => []
  | call :: calls =>
    let o := call.run files src
    (o.result, o.notes) :: answers files o.state calls

/-- Number of characters that wait to be read again. -/
def waiting (src : TextSource φ) : Nat :=
  match src.binding with
  | .file _ _ saved => saved.length
  | _ => 0

/-- The greatest number of characters that wait while something is read. -/
def peakOf {α : Type} (files : Files) (src : TextSource φ) (reading : Reading α) : Nat :=
  match src.binding with
  | .file file _ saved => (reading.run src.minus (Gauged.start { files, file, saved })).2.2.peak
  | _ => 0

/-- The greatest number of characters that wait during a call. -/
def Call.peak (files : Files) (src : TextSource φ) (call : Call) : Nat :=
  let rewound := (src.rewind files).state
  max src.waiting <|
    match call with
    | .word skip => src.peakOf files (.word skip)
    | .all skip => rewound.peakOf files (.all skip)
    | .tokens skip => rewound.peakOf files (.sentence skip)
    | .sentence punctuation | .span _ _ punctuation | .count punctuation =>
      rewound.peakOf files (.sentence !punctuation)
    | .rewind => rewound.waiting

/-- The greatest number of characters that wait at any time during calls. -/
def peak (files : Files) (src : TextSource φ) : List Call → Nat
  | [] => src.waiting
  | call :: calls => max (call.peak files src) (peak files (call.run files src).state calls)

/-! ## Twins -/

/-- A source that is bound to a file and one that is bound to a text, where the same is left of both. The
first was bound to the file `f` where it stood, and the characters that wait stand before what is left of
the file. -/
inductive Twins (files : Files) (f : φ) (whole : List Char) : TextSource φ → TextSource φ → Prop where
  | intro {g : φ} {saved left : List Char} {minus : Bool}
      (shows : Buffered.Shows files f { files, file := g, saved } left) (saved_le : saved.length ≤ 2) :
      Twins files f whole ⟨.file g (OpenFile.tell f) saved, minus⟩ ⟨.text whole left, minus⟩

/-- Outcomes with the same answer that leave twins behind. -/
structure SameOutcome {α : Type} (files : Files) (f : φ) (whole : List Char)
    (o o' : Outcome (TextSource φ) α) : Prop where
  result : o.result = o'.result
  notes : o.notes = o'.notes
  state : Twins files f whole o.state o'.state

variable {files : Files} {f : φ} {whole : List Char} {src txt : TextSource φ}

theorem SameOutcome.map {α β : Type} {o o' : Outcome (TextSource φ) α} (put : α → β)
    (h : SameOutcome files f whole o o') : SameOutcome files f whole (o.map put) (o'.map put) :=
  ⟨congrArg (Except.map put) h.result, h.notes, h.state⟩

theorem Twins.waiting_le (h : Twins files f whole src txt) : src.waiting ≤ 2 := by
  obtain ⟨_, hsaved⟩ := h
  exact hsaved

/-- What is read from a file with a gauge on it, as against the text. -/
theorem sameReading_gauged {α : Type} (reading : Reading α) (hf : OpenFile.Yields files f whole)
    {s : Buffered φ} {left : List Char} (hs : s.Shows files f left) (hsaved : s.saved.length ≤ 2)
    (minus : Bool) :
    SameReading (Gauged.Shows files f 2) (reading.run minus (Gauged.start s)) (reading.run minus left) :=
  reading.agree (Gauged.agree_shows hf) minus ⟨hs, hsaved, hsaved⟩

/-- What is read from the file itself, as against the text. -/
theorem sameReading_buffered {α : Type} (reading : Reading α) (hf : OpenFile.Yields files f whole)
    {s : Buffered φ} {left : List Char} (hs : s.Shows files f left) (hsaved : s.saved.length ≤ 2)
    (minus : Bool) :
    SameReading (fun s cs => s.Shows files f cs ∧ s.saved.length ≤ 2) (reading.run minus s)
      (reading.run minus left) := by
  have hgauged := sameReading_gauged reading hf hs hsaved minus
  -- the gauge is taken off again
  have hplain : SameReading _ _ (reading.run minus s) :=
    reading.agree Gauged.agree_buffered minus (s := Gauged.start s) rfl
  refine ⟨hplain.result.symm.trans hgauged.result, hplain.minus.symm.trans hgauged.minus, ?_⟩
  rw [← hplain.rest]
  exact ⟨hgauged.rest.buffered, hgauged.rest.saved_le⟩

/-- And never more than two while something is read. -/
theorem Twins.peakOf_le {α : Type} (hf : OpenFile.Yields files f whole)
    (h : Twins files f whole src txt) (reading : Reading α) : src.peakOf files reading ≤ 2 := by
  obtain ⟨hs, hsaved⟩ := h
  exact (sameReading_gauged reading hf hs hsaved _).rest.peak_le

/-- What is read from a file without coming to a fault. -/
theorem pull_of_fault_eq_none {α : Type} {g : φ} {start : OpenFile.Place φ} {saved : List Char}
    {minus minus' : Bool} {a nothing : α} {s : Buffered φ}
    {fromText : Bool → List Char → α × Bool × List Char}
    {fromFile : Bool → Buffered φ → α × Bool × Buffered φ}
    (hrun : fromFile minus { files, file := g, saved } = (a, minus', s)) (hfault : s.fault = none) :
    TextSource.pull ⟨.file g start saved, minus⟩ files nothing fromText fromFile
      = ⟨⟨.file s.file start s.saved, minus'⟩, .ok a, []⟩ := by
  unfold TextSource.pull
  simp only [hrun, hfault]

/-- A reading of both twins has the same result and comes to no fault, and leaves twins. -/
theorem Twins.pull {α : Type} (hf : OpenFile.Yields files f whole) (h : Twins files f whole src txt)
    (nothing : α) (reading : Reading α) :
    SameOutcome files f whole (src.pull files nothing reading.run reading.run)
      (txt.pull files nothing reading.run reading.run) := by
  obtain @⟨g, saved, left, minus, hs, hsaved⟩ := h
  have hsame := sameReading_buffered reading hf hs hsaved minus
  rcases hrun : reading.run minus ({ files, file := g, saved } : Buffered φ) with ⟨a, minus', s⟩
  rw [hrun] at hsame
  obtain ⟨hresult, hminus, hrest, hwaiting⟩ := hsame
  rw [pull_of_fault_eq_none hrun hrest.fault]
  obtain ⟨files', file, saved', fault⟩ := s
  -- the files are those that were there at the beginning
  obtain rfl : files' = files := hrest.files_eq
  obtain rfl : fault = none := hrest.fault
  obtain rfl : minus' = (reading.run minus left).2.1 := hminus
  exact ⟨congrArg Except.ok hresult, rfl, .intro hrest hwaiting⟩

/-- Rewinding takes the file back to where it was bound and empties the buffer. The file returns
there, and what comes from it then is the whole text again. -/
theorem Twins.rewind (hf : OpenFile.Yields files f whole) (h : Twins files f whole src txt) :
    SameOutcome files f whole (src.rewind files) (txt.rewind files) := by
  obtain @⟨g, saved, left, minus, hs, hsaved⟩ := h
  obtain ⟨hback, hleft⟩ := hf.returns g hs.comes
  have hcomes := hs.comes.seek
  unfold TextSource.rewind
  simp only
  rcases hseek : OpenFile.seek files (OpenFile.tell f) g with ⟨e | u, g'⟩
  · rw [hseek] at hback
    cases hback
  · rw [hseek] at hleft hcomes
    exact ⟨rfl, rfl, .intro ⟨rfl, rfl, hcomes, hleft⟩ (Nat.zero_le 2)⟩

/-- A reading from the start is a rewinding and a reading. If the rewinding fails, it fails for
both. -/
theorem Twins.pullAll {α : Type} (hf : OpenFile.Yields files f whole) (h : Twins files f whole src txt)
    (nothing : α) (reading : Reading α) :
    SameOutcome files f whole (src.pullAll files nothing reading.run reading.run)
      (txt.pullAll files nothing reading.run reading.run) := by
  have hrewind := h.rewind hf
  have hresult := hrewind.result
  unfold TextSource.pullAll
  simp only
  cases htxt : (txt.rewind files).result with
  | error e =>
    rw [htxt] at hresult
    rw [hresult]
    exact ⟨rfl, rfl, hrewind.state⟩
  | ok bound =>
    rw [htxt] at hresult
    rw [hresult]
    exact hrewind.state.pull hf nothing reading

theorem Twins.tokens (hf : OpenFile.Yields files f whole) (h : Twins files f whole src txt) (skip : Bool) :
    SameOutcome files f whole (src.tokens files skip) (txt.tokens files skip) :=
  (h.pullAll hf [] (.sentence skip)).map _

/-- A call gives both twins the same answer, and leaves twins. -/
theorem Twins.run (hf : OpenFile.Yields files f whole) (h : Twins files f whole src txt) (call : Call) :
    SameOutcome files f whole (call.run files src) (call.run files txt) := by
  cases call with
  | word skip => exact (h.pull hf none (.word skip)).map _
  | all skip => exact (h.pullAll hf [] (.all skip)).map _
  | tokens skip => exact (h.tokens hf skip).map _
  | sentence punctuation => exact ((h.tokens hf !punctuation).map _).map _
  | span first last punctuation =>
    simp only [Call.run, TextSource.span]
    -- a span that starts before the text, or is turned round, is answered without reading
    split
    · exact ⟨rfl, rfl, h⟩
    · split
      · exact ⟨rfl, rfl, h⟩
      · exact ((h.tokens hf !punctuation).map _).map _
  | count punctuation => exact ((h.tokens hf !punctuation).map _).map _
  | rewind => exact (h.rewind hf).map _

/-- Nor do more than two wait at any time during a call. -/
theorem Twins.callPeak_le (hf : OpenFile.Yields files f whole) (h : Twins files f whole src txt)
    (call : Call) : call.peak files src ≤ 2 := by
  have hrewound := (h.rewind hf).state
  refine Nat.max_le.2 ⟨h.waiting_le, ?_⟩
  cases call with
  | word skip => exact h.peakOf_le hf _
  | all skip => exact hrewound.peakOf_le hf _
  | tokens skip => exact hrewound.peakOf_le hf _
  | sentence punctuation => exact hrewound.peakOf_le hf _
  | span first last punctuation => exact hrewound.peakOf_le hf _
  | count punctuation => exact hrewound.peakOf_le hf _
  | rewind => exact hrewound.waiting_le

/-- Twins answer all calls in the same way, and at most two characters of the file ever wait. Each
call leaves twins, so the calls can be taken one by one. -/
theorem Twins.answers (hf : OpenFile.Yields files f whole) (h : Twins files f whole src txt)
    (calls : List Call) :
    TextSource.answers files src calls = TextSource.answers files txt calls
      ∧ TextSource.peak files src calls ≤ 2 := by
  induction calls generalizing src txt with
  | nil => exact ⟨rfl, h.waiting_le⟩
  | cons call calls ih =>
    have hrun := h.run hf call
    obtain ⟨hanswers, hpeak⟩ := ih hrun.state
    refine ⟨?_, Nat.max_le.2 ⟨h.callPeak_le hf call, hpeak⟩⟩
    simp only [TextSource.answers, hrun.result, hrun.notes, hanswers]

/-! ## Binding -/

/-- A source that is bound to a file is the twin of one that is bound to what the file yields. -/
theorem twins_borrow (hf : OpenFile.Yields files f whole) (src : TextSource φ) :
    Twins files f whole (src.borrow f).state (ofString (String.ofList whole)) := by
  rw [ofString, String.toList_ofList]
  exact .intro ⟨rfl, rfl, .refl, hf.left_eq⟩ (Nat.zero_le 2)

/-- A source bound to an open file answers as one that is bound to the characters that the file yields from
where it stands, and at most two of these ever wait to be read again.

The file may be of any kind, and the characters may be any. All that is asked of it is that they are read
one at a time and that going back to where it stood brings them again. -/
theorem answers_of_borrow {file : φ} {c : List Char} (h : OpenFile.Yields files file c)
    (src : TextSource φ) (calls : List Call) :
    let bound := src.borrow file
    bound.result = .ok true
      ∧ answers files bound.state calls
        = answers files (ofString (String.ofList c) : TextSource φ) calls
      ∧ peak files bound.state calls ≤ 2 := by
  intro bound
  exact ⟨rfl, (twins_borrow h src).answers h calls⟩

/-- A text in memory that was read up to its second line. A carriage return stands before each of its line
feeds, and nothing takes it out. -/
theorem answers_of_borrow_note :
    let file : MemoryText := { whole := "skip this\r\ngrab 3.5-2 of it\r\n".toList, position := 11 }
    let c := "grab 3.5-2 of it\r\n".toList
    let calls : List Call := [.word true, .tokens false, .rewind, .span 0 1 true, .count true, .all true]
    let src : TextSource MemoryText := {}
    OpenFile.Yields Files.empty file c
      ∧ answers Files.empty (src.borrow file).state calls
        = answers Files.empty (ofString (String.ofList c) : TextSource MemoryText) calls
      ∧ peak Files.empty (src.borrow file).state calls ≤ 2 := by
  intro file c calls src
  have hleft : file.left = c := by decide
  have hyields : OpenFile.Yields Files.empty file c := by
    rw [← hleft]
    exact file.yields Files.empty
  exact ⟨hyields, (answers_of_borrow hyields src calls).2⟩

/-- A source that opens a stored file which can be decoded answers as the text of the file. Opening
a file is binding its handle, and the handle yields what the file decodes to. -/
theorem answers_openFile {path : String} {content : Content} {all : List Char}
    (hread : files.read (Route.ofString path) = .ok content)
    (hall : ({} : Text.Decoder).whole content.raw = some all) (calls : List Call) :
    let opened := openFile files path
    opened.result = .ok true
      ∧ answers files opened.state calls
        = answers files (ofString (String.ofList all) : TextSource) calls
      ∧ peak files opened.state calls ≤ 2 := by
  intro opened
  have hopened : opened
      = borrow {} ({ place := (Route.ofString path).resolve files.cwd } : Handle) := by
    simp only [opened, openFile, hread]
  rw [← Files.bytesAt_of_read hread] at hall
  have hyields := Handle.yields_opened hall
  rw [hopened]
  exact ⟨rfl, (twins_borrow hyields {}).answers hyields calls⟩

/-- A source that is bound to a stored file of which some characters have been read answers as what
follows them, if the place can be come back to. Binding opens the file, skips the characters and
borrows what is left. -/
theorem answers_bind {path : String} {skip : Option Int} {content : Content} {all : List Char}
    {file : Handle} (hread : files.read (Route.ofString path) = .ok content)
    (hall : ({} : Text.Decoder).whole content.raw = some all)
    (hskip : Handle.skipping ((Route.ofString path).resolve files.cwd) content.raw skip = .ok file)
    (hreturns : file.mark.Returns content.raw (Handle.leftAfter skip all)) (src : TextSource)
    (calls : List Call) :
    let bound := src.bind files path skip
    bound.result = .ok true
      ∧ answers files bound.state calls
        = answers files (ofString (String.ofList (Handle.leftAfter skip all)) : TextSource) calls
      ∧ peak files bound.state calls ≤ 2 := by
  intro bound
  have hopened : (files.read (Route.ofString path) >>= fun content =>
      Handle.skipping ((Route.ofString path).resolve files.cwd) content.raw skip) = .ok file := by
    rw [hread]
    exact hskip
  have hbound : bound = src.borrow file := by
    simp only [bound, bind, hopened]
  rw [← Files.bytesAt_of_read hread] at hall hskip hreturns
  obtain ⟨hplace, hshows⟩ := Handle.shows_skipping hall hskip
  rw [← hplace] at hreturns
  have hyields := hshows.yields hreturns
  rw [hbound]
  exact ⟨rfl, (twins_borrow hyields src).answers hyields calls⟩

end TextSource

end Utterance
