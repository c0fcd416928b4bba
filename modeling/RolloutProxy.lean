import RolloutProxy.Lib.Base64
import RolloutProxy.Lib.Dict
import RolloutProxy.Lib.Members
import RolloutProxy.Lib.Lru
import RolloutProxy.Lib.Except
import RolloutProxy.Lib.Overlap
import RolloutProxy.Lib.Run
import RolloutProxy.Lib.Search
import RolloutProxy.Lib.LastSplit
import RolloutProxy.Text
import RolloutProxy.Reasoning.Tokens
import RolloutProxy.Reasoning.Quotes
import RolloutProxy.Reasoning.Scanner
import RolloutProxy.Reasoning.Front
import RolloutProxy.ToolParser.Markup
import RolloutProxy.ToolParser.Dialects
import RolloutProxy.ToolParser.Blocks
import RolloutProxy.ToolParser.Extraction
import RolloutProxy.ToolParser.Argument
import RolloutProxy.ToolParser.Sections
import RolloutProxy.ToolParser.Composed
import RolloutProxy.ToolParser.PythonJson
import RolloutProxy.ToolParser.QwenTemplate
import RolloutProxy.ToolParser.QwenRoundTrip
import RolloutProxy.ToolParser.WholeCalls
import RolloutProxy.ToolParser.StrictArguments
import RolloutProxy.ToolParser.GlmReasoning
import RolloutProxy.ToolParser.GlmRoundTrip
import RolloutProxy.ToolParser.Harmony
import RolloutProxy.ToolParser.Readable
import RolloutProxy.ToolParser.Completion
import RolloutProxy.ToolParser.HarmonyWritten
import RolloutProxy.ToolParser.HarmonyDispatch
import RolloutProxy.Provider.Parse
import RolloutProxy.Reasoning.Unfinished
import RolloutProxy.Reasoning.Arguments
import RolloutProxy.Reasoning.Mentions
import RolloutProxy.Reasoning.Spans
import RolloutProxy.Json
import RolloutProxy.JsonText
import RolloutProxy.JsonRead
import RolloutProxy.Lib.CanonicalJson
import RolloutProxy.Tokenization.Fingerprint
import RolloutProxy.JsonEquality
import RolloutProxy.Service.Ids
import RolloutProxy.Service.Keys
import RolloutProxy.Errors
import RolloutProxy.TokenStream.Messages
import RolloutProxy.TokenStream.Tokenizer
import RolloutProxy.TokenStream.State
import RolloutProxy.TokenStream.Prompt
import RolloutProxy.Tokenization.GptOss
import RolloutProxy.TokenStream.Manager
import RolloutProxy.TokenStream.Split
import RolloutProxy.TokenStream.Continuation
import RolloutProxy.Echo.Agree
import RolloutProxy.Echo.Prompt
import RolloutProxy.TokenStream.Homomorphic
import RolloutProxy.TokenStream.Oracle
import RolloutProxy.TokenStream.Gap
import RolloutProxy.Recorder.Record
import RolloutProxy.TokenStream.LostEcho
import RolloutProxy.TokenStream.LruRefinement
import RolloutProxy.Recorder.Merge
import RolloutProxy.Recorder.Recorder
import RolloutProxy.Recorder.Alignment
import RolloutProxy.Recorder.Tombstones
import RolloutProxy.Recorder.Atomic
import RolloutProxy.Recorder.Growth
import RolloutProxy.Recorder.Redelivery
import RolloutProxy.Lib.AtomicFiles
import RolloutProxy.Recorder.Snapshots
import RolloutProxy.Echo.Runs
import RolloutProxy.Echo.Insensitive
import RolloutProxy.Engine.Sampling
import RolloutProxy.Engine.Policy
import RolloutProxy.Engine.Routing
import RolloutProxy.Engine.Dialects
import RolloutProxy.Engine.Versions
import RolloutProxy.Provider.Registry
import RolloutProxy.Provider.State
import RolloutProxy.Provider.Generate
import RolloutProxy.Provider.Effects
import RolloutProxy.Engine.Pairing
import RolloutProxy.Provider.Outcome
import RolloutProxy.Provider.Interleaved
import RolloutProxy.Provider.Release
import RolloutProxy.Provider.Rejections
import RolloutProxy.Provider.Direct
import RolloutProxy.Provider.Footprint
import RolloutProxy.Service.Pins
import RolloutProxy.Training.RecordValidation
import RolloutProxy.Training.Streams
import RolloutProxy.Recorder.Dump
import RolloutProxy.Recorder.Persistence
import RolloutProxy.Training.StreamShape
import RolloutProxy.Training.RawTurns
import RolloutProxy.Training.Collector
import RolloutProxy.Provider.Governed
import RolloutProxy.Training.Results
import RolloutProxy.Training.Batch
import RolloutProxy.Training.Conversations
import RolloutProxy.Training.Agreement
import RolloutProxy.Training.Producible
import RolloutProxy.Training.Grouping
import RolloutProxy.Training.Lossless
import RolloutProxy.Service.Lifecycle
import RolloutProxy.Service.Bookkeeping
import RolloutProxy.Service.TurnLocks
import RolloutProxy.Service.Drain
import RolloutProxy.Service.Server
import RolloutProxy.Service.Moves
import RolloutProxy.Service.Staged
import RolloutProxy.Service.Deletion
import RolloutProxy.Service.OneTurn
import RolloutProxy.Service.Barrier
