import Batchalign.Alignment.Correctness
import Batchalign.Utr.FastPath
import Batchalign.Segmentation.WorPartition
import Batchalign.Speaker.Apart
import Batchalign.Speaker.Pieces
import Batchalign.Speaker.WorPositions
import Batchalign.Fa.TokenCounts
import Batchalign.Fa.CacheKey
import Batchalign.Engine.BatcherReplies
import Batchalign.Compare.CacheKey
import Batchalign.Fa.Runner
import Batchalign.Utr.Accounting
import Batchalign.Compare.Totals
import Batchalign.Engine.LastGood
import Batchalign.Runners.Rerun
import Batchalign.Asr.Sanitiser
import Batchalign.Asr.Timing
import Batchalign.Asr.Retraces
import Batchalign.Asr.Bullets
import Batchalign.Compare.PosLift
import Batchalign.Fa.Groups
import Batchalign.Fa.WordTimes
import Batchalign.Fa.PostCorrection
import Batchalign.Asr.HyphenJoin
import Batchalign.Asr.ChineseZeros
import Batchalign.Asr.DigitFree
import Batchalign.Asr.SentenceMarks
import Batchalign.Asr.Endings
import Batchalign.Morphosyntax.WellFormed
import Batchalign.Morphosyntax.ItalianTrees
import Batchalign.Morphosyntax.Repairs
import Batchalign.Morphosyntax.Conservation
import Batchalign.Morphosyntax.Stems
import Batchalign.Alignment.ShimCorrectness
import Batchalign.Engine.Registration
import Batchalign.Compare.Minimality
import Batchalign.Compare.Windows
import Batchalign.Compare.BestWindow
import Batchalign.Compare.BagDistance
import Batchalign.Asr.Chunking
import Batchalign.Asr.RetraceMarks
import Batchalign.Segmentation.RetraceBinding
import Batchalign.Segmentation.Metadata
import Batchalign.Speaker.Declared
import Batchalign.PyChat.Refinement
import Batchalign.Cli.Targets
import Batchalign.Asr.CantoneseParts
import Batchalign.DecisionTiers
import Batchalign.Runners.Revisions
import Batchalign.Phonetic.Evidence
import Batchalign.Library.Scatter
import Batchalign.Phonetic.Inference
import Batchalign.Phonetic.Xeus
import Batchalign.Phonetic.Transparency
import Batchalign.Asr.BoundaryBatches
import Batchalign.Segmentation.SentenceBounds
import Batchalign.Library.LongestMatch
import Batchalign.Asr.CantoneseSpelling
import Batchalign.Library.LatestEntries
import Batchalign.Provenance
import Batchalign.Runners.ScaledProgress
import Batchalign.Library.BoundaryMoves
import Batchalign.Runners.Rebalance
import Batchalign.Morphosyntax.GroupCounts
import Batchalign.Morphosyntax.TokenCounts
import Batchalign.Morphosyntax.OneWordEach
import Batchalign.Library.DispatchWindow
import Batchalign.Library.DispatchPool
import Batchalign.Engine.Runs
import Batchalign.Engine.SharedCache
import Batchalign.Dictionaries
import Batchalign.Outcome
import Batchalign.Engine.Reports
import Batchalign.Desktop.Request
import Batchalign.Desktop.Job
import Batchalign.Desktop.Terminal
import Batchalign.Desktop.Accepted
import Batchalign.Library.JsonText
import Batchalign.Library.LineBuffer
import Batchalign.Desktop.Bridge
import Batchalign.Desktop.Stream
import Batchalign.Desktop.Made
import Batchalign.Desktop.Published
import Batchalign.Gui.Retries
