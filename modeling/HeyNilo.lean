import HeyNilo.Machine
import HeyNilo.JniText
import HeyNilo.LlamaContext
import HeyNilo.LoadGuard
import HeyNilo.CleanPrefill
import HeyNilo.GenerateStream
import HeyNilo.DecodeLedger
import HeyNilo.KvReuse
import HeyNilo.StopRequest
import HeyNilo.KotlinText
import HeyNilo.JsonFile
import HeyNilo.MemoryRecords
import HeyNilo.MemoryManager
import HeyNilo.GsonText
import HeyNilo.StableGrouping
import HeyNilo.RelationshipReload
import HeyNilo.MemoryAtomicity
import HeyNilo.MemoryCrash
import HeyNilo.ReadModifyWrite
import HeyNilo.MemoryRaces
import HeyNilo.ProviderTurn
import HeyNilo.TurnFinalization
import HeyNilo.InferenceQueue
import HeyNilo.QueueHistory
import HeyNilo.QueueResponses
import HeyNilo.MemoryCompaction
import HeyNilo.CompactionAccounting
import HeyNilo.VadProcessor
import HeyNilo.VadSegmentation
import HeyNilo.VoicePipeline
import HeyNilo.VoiceStatus
import HeyNilo.VoiceActs
import HeyNilo.VoiceCore
import HeyNilo.VoiceBuffers
import HeyNilo.VoiceTranscribing
import HeyNilo.VoiceStop
import HeyNilo.VoiceLateSteps
import HeyNilo.VoiceCancellation
import HeyNilo.GenerationHandle
import HeyNilo.VoiceHandles
import HeyNilo.VoiceJobs
import HeyNilo.VoiceHandover
import HeyNilo.VoiceDeadEnds
import HeyNilo.VoiceStranded
import HeyNilo.OrgJson
import HeyNilo.OnlineProvider
import HeyNilo.SseDecoding
import HeyNilo.StreamTerminal
import HeyNilo.CompletionModes
import HeyNilo.LlamaBridge
import HeyNilo.GenerateCallbacks
import HeyNilo.OfflineProvider
import HeyNilo.BridgeLifecycle
import HeyNilo.BridgeModel
import HeyNilo.BridgeExclusion
import HeyNilo.SpeechCollector
import HeyNilo.NumberedBlocks
import HeyNilo.RecordingFidelity
import HeyNilo.CollectionBounds
import HeyNilo.CollectorCounts
import HeyNilo.TextPattern
import HeyNilo.SpeechFilter
import HeyNilo.SentenceCuts
import HeyNilo.StreamingSpeech
import HeyNilo.SpokenOnce
import HeyNilo.RunsOfWords
import HeyNilo.ThinnedText
import HeyNilo.ReplyFilter
import HeyNilo.SpokenWords
import HeyNilo.DisplayedWords
import HeyNilo.DelimitedText
import HeyNilo.ChatMlPrompt
import HeyNilo.ChatList
import HeyNilo.ChatUpdates
import HeyNilo.SharedFlow
import HeyNilo.ResponseDelivery
import HeyNilo.DeliveredResponses
import HeyNilo.EnqueueCalls
import HeyNilo.EnqueuedOnce
import HeyNilo.QueueCancel
import HeyNilo.OnlineStream
import HeyNilo.StreamSilence
import HeyNilo.StreamRuns
import HeyNilo.Binary64
import HeyNilo.RetryLoop
import HeyNilo.Downloads
import HeyNilo.DownloadContents
import HeyNilo.DownloadRetries
import HeyNilo.DownloadResume
import HeyNilo.CapturePattern
import HeyNilo.MemoryExtraction
import HeyNilo.ExtractionTwice
import HeyNilo.LastModelPreference
import HeyNilo.PrefillBatches
import HeyNilo.Utf8
import HeyNilo.SanitizedText
import HeyNilo.SpaceMarker
import HeyNilo.TokenText
import HeyNilo.TokenOutput
import HeyNilo.StopMarkers
import HeyNilo.HistoryStore
import HeyNilo.ServiceOrder
import HeyNilo.PausedQueue
import HeyNilo.BridgeRefusals
import HeyNilo.RequestEncoders
import HeyNilo.Streak
import HeyNilo.BargeIn
import HeyNilo.TextPieces
import HeyNilo.ReplacementChain
import HeyNilo.SpeechMarkers
import HeyNilo.PieceRules
import HeyNilo.StandingWords
import HeyNilo.MarkedText
import HeyNilo.MarkedRuns
import HeyNilo.SpokenText
import HeyNilo.AbbreviationRules
import HeyNilo.SpokenSpelling
import HeyNilo.SpokenAbbreviations
import HeyNilo.FilteredTwice
import HeyNilo.RecorderFrames
import HeyNilo.SpeechCompletion
import HeyNilo.RelationshipContainer
import HeyNilo.FactDuplicates
import HeyNilo.ExtractionFilter
import HeyNilo.ConversationSearch
import HeyNilo.ReplyMarkers
import HeyNilo.PcmSamples
import HeyNilo.CompactionReports
import HeyNilo.TokenDisplay
import HeyNilo.QueryClassifier
import HeyNilo.ConversationLog
import HeyNilo.ActiveDownloads
import HeyNilo.LaggingCopy
import HeyNilo.ProfileTab
import HeyNilo.CachedCopies
import HeyNilo.VoiceAssets
import HeyNilo.Simulation
import HeyNilo.MemoryStartup
import HeyNilo.WhisperCalls
import HeyNilo.AppLifecycle
import HeyNilo.VadStack
import HeyNilo.SpokenIds
import HeyNilo.HuggingFaceSearch
import HeyNilo.BoundedQueue
import HeyNilo.AudioStreams
import HeyNilo.VoiceStartup
import HeyNilo.VoiceScreen
import HeyNilo.ModelSetup
import HeyNilo.TtsEngine
