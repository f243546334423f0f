import Remoting.Arguments
import Remoting.BigEndian
import Remoting.Binary
import Remoting.ByteFault
import Remoting.Catalog
import Remoting.Codec
import Remoting.CodecError
import Remoting.Completion
import Remoting.Declaration
import Remoting.Document
import Remoting.DocumentReader
import Remoting.Frame
import Remoting.HandlerTable
import Remoting.Layout
import Remoting.Lineage
import Remoting.Portable
import Remoting.Printable
import Remoting.Proofs.ArgumentReading
import Remoting.Proofs.AtomicWriting
import Remoting.Proofs.CatalogAcceptance
import Remoting.Proofs.CatalogBuilding
import Remoting.Proofs.CatalogReopening
import Remoting.Proofs.CodecAgreement
import Remoting.Proofs.CompletionOutcome
import Remoting.Proofs.CompletionReading
import Remoting.Proofs.CompletionRelay
import Remoting.Proofs.ConsecutiveValues
import Remoting.Proofs.DecodeProgress
import Remoting.Proofs.DecoderLanguage
import Remoting.Proofs.FaultPoisoning
import Remoting.Proofs.FrameForm
import Remoting.Proofs.FrameReading
import Remoting.Proofs.FuturePolling
import Remoting.Proofs.HandOff
import Remoting.Proofs.HistoryEviction
import Remoting.Proofs.LineageFaults
import Remoting.Proofs.LineageLevels
import Remoting.Proofs.LostValues
import Remoting.Proofs.NearestHandler
import Remoting.Proofs.ObjectRebuilding
import Remoting.Proofs.PeerTransfer
import Remoting.Proofs.PlaceholderDocument
import Remoting.Proofs.ReaderBounds
import Remoting.Proofs.RecentMeetings
import Remoting.Proofs.Registrations
import Remoting.Proofs.SlotConsistency
import Remoting.Proofs.SlotContention
import Remoting.Proofs.SlotEpochs
import Remoting.Proofs.SlotHall
import Remoting.Proofs.SlotInterleavings
import Remoting.Proofs.SlotMemory
import Remoting.Proofs.SlotRepresentation
import Remoting.Proofs.SlotRuns
import Remoting.Proofs.SlotWakeups
import Remoting.Proofs.StreamRoundTrip
import Remoting.Proofs.TableFutures
import Remoting.Proofs.ValueRelay
import Remoting.Proofs.WordRoundTrip
import Remoting.QuotedText
import Remoting.Reader
import Remoting.Registry
import Remoting.SampleHandlers
import Remoting.Samples
import Remoting.Settings
import Remoting.SettingsDocument
import Remoting.ShortestDecimal
import Remoting.SlotFuture
import Remoting.SlotTable
import Remoting.Tag
import Remoting.Utf8
import Remoting.Value
import Remoting.Writer
import Remoting.Yaml.Document
import Remoting.Yaml.Glyph
import Remoting.Yaml.Scalar
import Remoting.Yaml.Tag
import Remoting.Yaml.Token
