import Utterance.Attention
import Utterance.Datum

/-!
# Settings

The choices that a front end is built with.
-/

namespace Utterance

/-- Settings of a front end. -/
structure Settings where
  /-- The largest number of dictated words that one `*` or `+` stands for. -/
  dictation : Int := 5
  /-- Number of bins of the vocabulary. -/
  bins : Int := 12
  /-- The largest number of attention phrases that are remembered. -/
  maxAlerts : Int := 10
  /-- Room for irregular words in each word class. -/
  maxIrregulars : Int := 100
  /-- The rule that may start a sentence. -/
  topRule : String := "toplevel"
  /-- Whether phrases in association lists are closed. -/
  closing : Bool := false
  attention : AttentionMode := .always
  /-- Whether a repair may change a letter. -/
  substitute : Bool := false
  /-- Whether categories of unknown words are guessed. -/
  guessing : Bool := true
  /-- Whether inflected forms are derived when a grammar is loaded. -/
  inflecting : Bool := true

namespace Settings

/-- The settings with an attention mode given by its number, if all of them can be used. -/
def checked (s : Settings) (attention : Int) : Except Fault Settings := do
  if s.dictation < 1 then throw (.refused (.noDictation s.dictation))
  if s.bins < 2 then throw (.refused (.fewBins s.bins))
  return { s with attention := ← AttentionMode.ofNumber attention }

/-- The settings as fields, with plain values shown by `plain` and the attention mode by `mode`. -/
def fields {α : Type} (s : Settings) (plain : Datum → α) (mode : AttentionMode → α) :
    List (String × α) :=
  [("dict_n", plain (.int s.dictation)),
    ("nbins", plain (.int s.bins)),
    ("max_alerts", plain (.int s.maxAlerts)),
    ("max_morph", plain (.int s.maxIrregulars)),
    ("top_rule", plain (.text s.topRule)),
    ("close_fragments", plain (.bool s.closing)),
    ("attn_mode", mode s.attention),
    ("allow_substitute", plain (.bool s.substitute)),
    ("guess_unknown", plain (.bool s.guessing)),
    ("derive_forms", plain (.bool s.inflecting))]

/-- The settings as data, with the number of the attention mode. -/
def toDatum (s : Settings) : Datum := .record (s.fields id fun m => .int m.number)

/-- An attention mode in a log line. -/
def modeText (m : AttentionMode) : String :=
  "<AttnMode." ++ m.name ++ ": " ++ toString m.number ++ ">"

/-- The settings on one log line. -/
def shown (s : Settings) : String :=
  "FrontEndConfig("
    ++ ", ".intercalate ((s.fields Datum.inner modeText).map fun (key, value) => key ++ "=" ++ value)
    ++ ")"

end Settings

end Utterance
