import CcCvStore.Core.Effect
import CcCvStore.Core.Iteration
import CcCvStore.Core.Probing
import CcCvStore.Core.Runs
import CcCvStore.Core.Slice
import CcCvStore.Core.SqlTable
import CcCvStore.Core.StreamCut
import CcCvStore.Core.Unicode
import CcCvStore.Core.WriteHistory
import CcCvStore.Parser.WireFormat
import CcCvStore.Parser.Grammar
import CcCvStore.Parser.HalfOpen
import CcCvStore.Store.LastWriter
import CcCvStore.Store.Lifecycle
import CcCvStore.Store.StoredValues
import CcCvStore.Store.Atomicity
import CcCvStore.Server.Replies
import CcCvStore.Server.Acknowledgement
import CcCvStore.Server.MissingFields
import CcCvStore.Server.BoundedScans
import CcCvStore.Server.StaleBytes
import CcCvStore.Server.Framing
import CcCvStore.Client.ClientLink
import CcCvStore.Table.FailedSet
import CcCvStore.Table.Removal
import CcCvStore.Table.Iterator
import CcCvStore.Client.ClientJs
import CcCvStore.Queue.Fifo
import CcCvStore.Disc.Agreement
import CcCvStore.Disc.FileContents
import CcCvStore.Config.SettingsFile
import CcCvStore.Config.IniRefinement
import CcCvStore.Server.LoopRefinement
import CcCvStore.Client.PendingCalls
import CcCvStore.Client.AwaitedCalls
