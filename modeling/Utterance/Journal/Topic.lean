/-!
# Topics of the journal

What the library reports. Each topic has a level, a part of the library that it belongs to, and a
place in the program by which detailed log lines name it.
-/

namespace Utterance

/-! ## Levels -/

/-- How urgent an entry is; a higher rank is more urgent. -/
structure Level where
  rank : Int
  deriving DecidableEq, Repr

namespace Level

def debug : Level := ⟨10⟩
def info : Level := ⟨20⟩
def warning : Level := ⟨30⟩
def error : Level := ⟨40⟩
def critical : Level := ⟨50⟩

/-- The levels that have a name. -/
def named : List (Int × String) :=
  [(0, "NOTSET"), (10, "DEBUG"), (20, "INFO"), (30, "WARNING"), (40, "ERROR"), (50, "CRITICAL")]

/-- Name of a level, as it is printed. -/
def name (l : Level) : String :=
  match named.lookup l.rank with
  | some n => n
  | none => "Level " ++ toString l.rank

/-- The threshold of a part that sets none of its own, which is rank zero, is that of the whole. -/
def orElse (own whole : Level) : Level := if own.rank = 0 then whole else own

end Level

/-! ## Channels -/

/-- The part of the library that an entry comes from. -/
inductive Channel where
  | root
  | tokens
  | grammar
  | inflection
  | vocabulary
  | parser
  | speechAct
  | interpreter
  deriving DecidableEq, Repr

namespace Channel

/-- Name of a channel, as detailed log lines print it. -/
def name : Channel → String
  | .root => "root"
  | .tokens => "parlance.tokenizer"
  | .grammar => "parlance.grammar"
  | .inflection => "parlance.morphology"
  | .vocabulary => "parlance.vocabulary"
  | .parser => "parlance.parser"
  | .speechAct => "parlance.speech_act"
  | .interpreter => "parlance.pipeline"

/-- The file that detailed log lines name for a channel. -/
def file : Channel → String
  | .root => "logging_config.py"
  | .tokens => "tokenizer.py"
  | .grammar => "grammar.py"
  | .inflection => "morphology.py"
  | .vocabulary => "vocabulary.py"
  | .parser => "parser.py"
  | .speechAct => "speech_act.py"
  | .interpreter => "pipeline.py"

end Channel

/-! ## Topics -/

/-- What an entry is about. -/
inductive Topic where
  /-- The rule above the head of a log. -/
  | upperRule
  /-- The start of a run. -/
  | runStart
  | detailedLog
  /-- The rule below the head of a log. -/
  | lowerRule
  | progress
  /-- A message that comes with a context. -/
  | message
  /-- A field of such a context. -/
  | context
  | unopenedText
  | includeCycle
  | unopenedGrammar
  | loading
  | badHeader
  | badInclude
  | failedInclude
  | sugaredHead
  | capitalHead
  | unbalanced
  | unmatchedBracket
  | startsItself
  | extension
  | unwrittenRules
  | writtenRules
  | tableFull
  | badIrregular
  | regularTag
  | unreadIrregulars
  | unwrittenIrregulars
  | wrongDerived
  | wrongDerivedCount
  | writtenDerived
  | wrongBase
  | wrongBaseCount
  | noParse
  | parsed
  | badConfidence
  | clampedConfidence
  | classified
  | harvest
  | typoFix
  | initialized
  | derivedForms
  | noSentenceRule
  | grammarSummary
  | rejectedGuess
  | utterance
  | attentionStep
  | parseStep
  | typoStep
  | guessStep
  | assocStep
  | asleep
  | actStep
  | verdict
  | failure
  deriving DecidableEq, Repr

/-- Level, channel and line of the entries about a topic. -/
structure Topic.Origin where
  level : Level
  channel : Channel
  line : Nat

namespace Topic

/-- Where the entries about a topic come from. -/
def origin : Topic → Origin
  | .upperRule => ⟨.info, .root, 75⟩
  | .runStart => ⟨.info, .root, 76⟩
  | .detailedLog => ⟨.info, .root, 78⟩
  | .lowerRule => ⟨.info, .root, 79⟩
  | .progress => ⟨.info, .root, 35⟩
  | .message => ⟨.debug, .root, 93⟩
  | .context => ⟨.debug, .root, 100⟩
  | .unopenedText => ⟨.warning, .tokens, 99⟩
  | .includeCycle => ⟨.warning, .grammar, 188⟩
  | .unopenedGrammar => ⟨.warning, .grammar, 194⟩
  | .loading => ⟨.debug, .grammar, 197⟩
  | .badHeader => ⟨.warning, .grammar, 214⟩
  | .badInclude => ⟨.warning, .grammar, 235⟩
  | .failedInclude => ⟨.warning, .grammar, 239⟩
  | .sugaredHead => ⟨.warning, .grammar, 244⟩
  | .capitalHead => ⟨.warning, .grammar, 249⟩
  | .unbalanced => ⟨.warning, .grammar, 263⟩
  | .unmatchedBracket => ⟨.warning, .grammar, 312⟩
  | .startsItself => ⟨.warning, .grammar, 320⟩
  | .extension => ⟨.debug, .grammar, 342⟩
  | .unwrittenRules => ⟨.warning, .grammar, 446⟩
  | .writtenRules => ⟨.info, .grammar, 459⟩
  | .tableFull => ⟨.warning, .inflection, 180⟩
  | .badIrregular => ⟨.warning, .inflection, 191⟩
  | .regularTag => ⟨.warning, .inflection, 195⟩
  | .unreadIrregulars => ⟨.warning, .inflection, 230⟩
  | .unwrittenIrregulars => ⟨.warning, .inflection, 259⟩
  | .wrongDerived => ⟨.warning, .inflection, 478⟩
  | .wrongDerivedCount => ⟨.info, .inflection, 480⟩
  | .writtenDerived => ⟨.info, .inflection, 503⟩
  | .wrongBase => ⟨.warning, .inflection, 535⟩
  | .wrongBaseCount => ⟨.info, .inflection, 537⟩
  | .noParse => ⟨.debug, .parser, 125⟩
  | .parsed => ⟨.debug, .parser, 133⟩
  | .badConfidence => ⟨.warning, .parser, 162⟩
  | .clampedConfidence => ⟨.warning, .parser, 166⟩
  | .classified => ⟨.debug, .speechAct, 185⟩
  | .harvest => ⟨.debug, .vocabulary, 134⟩
  | .typoFix => ⟨.debug, .vocabulary, 222⟩
  | .initialized => ⟨.debug, .interpreter, 43⟩
  | .derivedForms => ⟨.info, .interpreter, 69⟩
  | .noSentenceRule => ⟨.warning, .interpreter, 77⟩
  | .grammarSummary => ⟨.info, .interpreter, 78⟩
  | .rejectedGuess => ⟨.info, .interpreter, 103⟩
  | .utterance => ⟨.info, .interpreter, 131⟩
  | .attentionStep => ⟨.info, .interpreter, 138⟩
  | .parseStep => ⟨.info, .interpreter, 145⟩
  | .typoStep => ⟨.info, .interpreter, 154⟩
  | .guessStep => ⟨.info, .interpreter, 168⟩
  | .assocStep => ⟨.info, .interpreter, 189⟩
  | .asleep => ⟨.info, .interpreter, 197⟩
  | .actStep => ⟨.info, .interpreter, 202⟩
  | .verdict => ⟨.info, .interpreter, 213⟩
  | .failure => ⟨.error, .interpreter, 216⟩

/-- The place that detailed log lines name for a topic. -/
def place (t : Topic) : String :=
  "[" ++ t.origin.channel.file ++ ":" ++ toString t.origin.line ++ "]"

end Topic

end Utterance
