import Utterance.Main
import Utterance.Proofs.Parse.Correctness
import Utterance.Proofs.Parse.Termination
import Utterance.Token.Source
import Utterance.Proofs.Grammar.Symbols
import Utterance.Proofs.Chart.Lookahead
import Utterance.Proofs.Parse.Lookahead
import Utterance.Proofs.Parse.Spelling
import Utterance.Proofs.AssocList.Tour
import Utterance.Proofs.AssocList.Slots
import Utterance.Proofs.Token
import Utterance.Proofs.AssocList.Entries
import Utterance.Proofs.Rule.Signs
import Utterance.Proofs.Rule.Sugar
import Utterance.Proofs.Grammar.Expansion
import Utterance.Proofs.Interpreter.Rollback
import Utterance.Proofs.Interpreter.KnownWords
import Utterance.Proofs.Grammar.Representation
import Utterance.Proofs.Token.Conservation
import Utterance.Proofs.Token.Source
import Utterance.Proofs.Grammar.Dump
import Utterance.Proofs.Parse.Runs
import Utterance.Proofs.Interpreter.Rejection
import Utterance.Proofs.Inflection.Irregular
import Utterance.Proofs.Grammar.Script
import Utterance.Proofs.Interpreter.Reload
import Utterance.Proofs.Lexicon.Entry
import Utterance.Proofs.Lexicon.Sections
import Utterance.Proofs.Lexicon.Inversion
import Utterance.Proofs.AssocList.Phrases
import Utterance.Proofs.Grammar.Load
import Utterance.Proofs.Interpreter.Asleep
import Utterance.Proofs.Vocabulary.Repair
import Utterance.Proofs.Grammar.Includes
import Utterance.Proofs.Inflection.Saving
import Utterance.Proofs.Lexicon.Agreement
import Utterance.Proofs.CommandLine.FileErrors
import Utterance.Proofs.Cursor.Outline
import Utterance.Proofs.Cursor.Walk
import Utterance.Proofs.Cursor.Layout
import Utterance.Proofs.Cursor.Rendering
import Utterance.Proofs.Grammar.Alerts
import Utterance.Proofs.Grammar.Spacing
import Utterance.Proofs.Grammar.Spellings
import Utterance.Proofs.Interpreter.Inflected
import Utterance.Proofs.Vocabulary.Corrections
import Utterance.Proofs.Inflection.Plural
import Utterance.Proofs.Inflection.Ending
import Utterance.Proofs.Inflection.Adverb
import Utterance.Proofs.Inflection.Possessive
import Utterance.Proofs.Inflection.Loading
import Utterance.Proofs.Vocabulary.Places
import Utterance.Proofs.Vocabulary.Filing
import Utterance.Proofs.Token.Rejoining
import Utterance.Proofs.Vocabulary.Withdrawal
import Utterance.Proofs.Token.Leading
import Utterance.Proofs.Token.Marks
import Utterance.Proofs.Interpreter.Unknown
import Utterance.Proofs.AssocList.Search
import Utterance.Proofs.AssocList.Omission
import Utterance.Proofs.SpeechAct
import Utterance.Proofs.Attention.Phrase
import Utterance.Proofs.Attention.Closing
import Utterance.Proofs.AssocList.Division
import Utterance.Proofs.AssocList.Nodes
import Utterance.Proofs.AssocList.Display
import Utterance.Proofs.Grammar.Places
import Utterance.Proofs.Cursor.Persistence
import Utterance.Proofs.Parse.Tables
import Utterance.Proofs.Vocabulary.Lengthening
