import SpeechTransducer.Conversation.Settings
import SpeechTransducer.Conversation.Socket
import SpeechTransducer.Main
import SpeechTransducer.Proofs.Audio.Answers
import SpeechTransducer.Proofs.Audio.Blocks
import SpeechTransducer.Proofs.Audio.Buffer
import SpeechTransducer.Proofs.Audio.Extraction
import SpeechTransducer.Proofs.Audio.Jammed
import SpeechTransducer.Proofs.Audio.Refusing
import SpeechTransducer.Proofs.Audio.Resampling
import SpeechTransducer.Proofs.Audio.Routes
import SpeechTransducer.Proofs.Audio.Traces
import SpeechTransducer.Proofs.Audio.Windows
import SpeechTransducer.Proofs.CommandLine.Agreement
import SpeechTransducer.Proofs.CommandLine.Turns
import SpeechTransducer.Proofs.Conversation.AtOnce
import SpeechTransducer.Proofs.Conversation.Cutting
import SpeechTransducer.Proofs.Conversation.Dependable
import SpeechTransducer.Proofs.Fallible
import SpeechTransducer.Proofs.Hotword.Accumulation
import SpeechTransducer.Proofs.Hotword.Balance
import SpeechTransducer.Proofs.Hotword.Beginnings
import SpeechTransducer.Proofs.Hotword.Chains
import SpeechTransducer.Proofs.Hotword.Ending
import SpeechTransducer.Proofs.Hotword.Finite
import SpeechTransducer.Proofs.Hotword.Frontier
import SpeechTransducer.Proofs.Hotword.Level
import SpeechTransducer.Proofs.Hotword.Lines
import SpeechTransducer.Proofs.Hotword.Links
import SpeechTransducer.Proofs.Hotword.Occurrences
import SpeechTransducer.Proofs.Hotword.Order
import SpeechTransducer.Proofs.Hotword.Outputs
import SpeechTransducer.Proofs.Hotword.Paths
import SpeechTransducer.Proofs.Hotword.Release
import SpeechTransducer.Proofs.Hotword.Reward
import SpeechTransducer.Proofs.Hotword.Spelling
import SpeechTransducer.Proofs.Hotword.Subwords
import SpeechTransducer.Proofs.Hotword.Trie
import SpeechTransducer.Proofs.Hotword.Walk
import SpeechTransducer.Proofs.Hypotheses.Strongest
import SpeechTransducer.Proofs.Hypotheses.Summing
import SpeechTransducer.Proofs.Hypotheses.Supplying
import SpeechTransducer.Proofs.Hypotheses.Top
import SpeechTransducer.Proofs.Number.Finite
import SpeechTransducer.Proofs.Number.Literals
import SpeechTransducer.Proofs.Number.Written
import SpeechTransducer.Proofs.Ranking.Permutation
import SpeechTransducer.Proofs.Recognizer.Calls
import SpeechTransducer.Proofs.Recognizer.Failing
import SpeechTransducer.Proofs.Recognizer.Growth
import SpeechTransducer.Proofs.Recognizer.Readings
import SpeechTransducer.Proofs.Recognizer.Rounds
import SpeechTransducer.Proofs.Recognizer.Silence
import SpeechTransducer.Proofs.Recognizer.Speech
import SpeechTransducer.Proofs.Recognizer.Watching
import SpeechTransducer.Proofs.Score.Exact
import SpeechTransducer.Proofs.Score.Probability
import SpeechTransducer.Proofs.Score.Ranked
import SpeechTransducer.Proofs.Search.Alignments
import SpeechTransducer.Proofs.Search.Answering
import SpeechTransducer.Proofs.Search.Beam
import SpeechTransducer.Proofs.Search.Carrying
import SpeechTransducer.Proofs.Search.Chunks
import SpeechTransducer.Proofs.Search.Computing
import SpeechTransducer.Proofs.Search.Counting
import SpeechTransducer.Proofs.Search.Exits
import SpeechTransducer.Proofs.Search.Forward
import SpeechTransducer.Proofs.Search.Frames
import SpeechTransducer.Proofs.Search.Greedy
import SpeechTransducer.Proofs.Search.InStep
import SpeechTransducer.Proofs.Search.Interrupted
import SpeechTransducer.Proofs.Search.Located
import SpeechTransducer.Proofs.Search.Mass
import SpeechTransducer.Proofs.Search.Mirrored
import SpeechTransducer.Proofs.Search.Narrow
import SpeechTransducer.Proofs.Search.Peak
import SpeechTransducer.Proofs.Search.Predicting
import SpeechTransducer.Proofs.Search.Recomputed
import SpeechTransducer.Proofs.Search.Rewards
import SpeechTransducer.Proofs.Search.Selecting
import SpeechTransducer.Proofs.Search.Successors
import SpeechTransducer.Proofs.Search.Unrewarded
import SpeechTransducer.Proofs.Search.Untouched
import SpeechTransducer.Proofs.Search.Whole
import SpeechTransducer.Proofs.Symbols.Entries
import SpeechTransducer.Proofs.Symbols.Lines
import SpeechTransducer.Proofs.Text.Cutting
import SpeechTransducer.Proofs.Zipformer.InitialStates
import SpeechTransducer.Rehearsal.Drain
import SpeechTransducer.Rehearsal.Networks
import SpeechTransducer.Rehearsal.Signal
