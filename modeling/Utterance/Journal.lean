import Utterance.Datum
import Utterance.Journal.Topic

/-!
# The journal

What the library has to say while it works: entries with a topic and a message. The topic gives the
level and the part that wrote them, unless these are chosen for an entry. Nothing here decides where
entries go; a reader keeps those at or above a level.
-/

namespace Utterance

/-! ## Entries -/

/-- One entry of the journal. -/
structure Entry where
  topic : Topic
  message : String
  level : Level := topic.origin.level
  channel : Channel := topic.origin.channel
  deriving DecidableEq, Repr

/-- An entry about a topic. -/
def Topic.entry (topic : Topic) (message : String) : Entry := { topic, message }

/-- Entries in the order in which they were written. -/
abbrev Journal := List Entry

namespace Journal

/-- The entries at or above a level. An entry without a positive rank is never among them. -/
def atLeast (l : Level) (j : Journal) : Journal :=
  j.filter fun e => 0 < e.level.rank && l.rank ≤ e.level.rank

/-- The longest value that a context line shows in full. -/
def contextWidth : Nat := 200

/-- A value for a context line, cut after `contextWidth` characters. -/
def clip (s : String) : String :=
  if contextWidth < s.length then String.ofList (s.toList.take contextWidth) ++ "..." else s

/-- A message and one indented debug line for each field of its context. -/
def withContext (level : Level) (channel : Channel) (message : String)
    (context : List (String × Datum)) : Journal :=
  { topic := .message, message, level, channel } ::
    context.map fun (key, value) =>
      { topic := .context, message := "  └─ " ++ key ++ ": " ++ clip value.shown, channel }

end Journal

/-! ## Log lines -/

/-- Layout of a log line. -/
inductive LineLayout where
  | plain
  | detailed
  deriving DecidableEq, Repr

/-- The layout as a pattern. -/
def LineLayout.pattern : LineLayout → String
  | .plain => "%(asctime)s - %(levelname)s - %(message)s"
  | .detailed =>
    "%(asctime)s - %(name)s - %(levelname)s - [%(filename)s:%(lineno)d] - %(message)s"

/-- The line of a log for an entry written at the time `stamp`. -/
def Entry.line (layout : LineLayout) (stamp : String) (e : Entry) : String :=
  match layout with
  | .plain => stamp ++ " - " ++ e.level.name ++ " - " ++ e.message
  | .detailed =>
    stamp ++ " - " ++ e.channel.name ++ " - " ++ e.level.name ++ " - " ++ e.topic.place ++ " - "
      ++ e.message

/-- The entries that open a log: a rule, the time of the start, a note if the log is detailed, and a
rule. -/
def Journal.opening (date : String) (detailed : Bool) : Journal :=
  let rule := Text.replicate 80 "="
  [Topic.upperRule.entry rule, Topic.runStart.entry ("NEW RUN STARTED - " ++ date)]
    ++ (if detailed then [Topic.detailedLog.entry "DEBUG MODE ENABLED - Verbose logging active"]
      else [])
    ++ [Topic.lowerRule.entry rule]

end Utterance
