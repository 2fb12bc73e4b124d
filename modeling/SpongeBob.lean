import SpongeBob.Foundation.MinHeap
import SpongeBob.Foundation.Word
import SpongeBob.Foundation.Bytes
import SpongeBob.Foundation.Run
import SpongeBob.Foundation.Handles
import SpongeBob.Foundation.Ledger
import SpongeBob.Foundation.TreeMap
import SpongeBob.Foundation.Placement
import SpongeBob.Foundation.Agents
import SpongeBob.Foundation.Totals
import SpongeBob.Fs.File
import SpongeBob.Fs.InodeTable
import SpongeBob.Fs.TableRuns
import SpongeBob.Fs.SharedTable
import SpongeBob.Fs.FileMap
import SpongeBob.Fs.SpaceManager
import SpongeBob.Fs.SpaceRuns
import SpongeBob.Fs.SpaceReset
import SpongeBob.Fs.Mutexes
import SpongeBob.Metadata.Extents
import SpongeBob.Metadata.Tiling
import SpongeBob.Metadata.Server
import SpongeBob.Metadata.Actions
import SpongeBob.Metadata.WellFormed
import SpongeBob.Metadata.Handlers
import SpongeBob.Metadata.Service
import SpongeBob.Metadata.Descriptors
import SpongeBob.Metadata.Placement
import SpongeBob.Metadata.Ownership
import SpongeBob.Metadata.Conservation
import SpongeBob.Metadata.Consistency
import SpongeBob.Metadata.Addressing
import SpongeBob.Metadata.Records
import SpongeBob.Metadata.BlockLengths
import SpongeBob.Metadata.Regions
import SpongeBob.Metadata.Isolation
import SpongeBob.Metadata.Namespace
import SpongeBob.Metadata.Ranges
import SpongeBob.Metadata.Progress
import SpongeBob.Metadata.Bounds
import SpongeBob.Metadata.OutOfSpace
import SpongeBob.Metadata.OutOfDescriptors
import SpongeBob.Metadata.Undo
import SpongeBob.Metadata.Availability
import SpongeBob.Metadata.HandlerSteps
import SpongeBob.Metadata.HandlerMoves
import SpongeBob.Metadata.Racing
import SpongeBob.Net.Handshake
import SpongeBob.Net.Agreement
import SpongeBob.Net.AgreementSteps
import SpongeBob.Net.NodeIds
import SpongeBob.Net.PeerTable
import SpongeBob.Net.Completion
import SpongeBob.Net.CompletionOrder
import SpongeBob.Net.QueueRouting
import SpongeBob.Net.Shares
import SpongeBob.Net.Polling
import SpongeBob.Net.DataSync
import SpongeBob.Net.Transfer
import SpongeBob.Net.ChunkedCopy
import SpongeBob.Net.Batch
import SpongeBob.Net.Signalling
import SpongeBob.Net.PollingQueue
import SpongeBob.Net.BlockingQueue
import SpongeBob.Net.WakeUps
import SpongeBob.Net.Workers
import SpongeBob.Net.SharedCard
import SpongeBob.Net.Dispatch
import SpongeBob.Net.Calls
import SpongeBob.Net.Resources
import SpongeBob.Net.Cleanup
import SpongeBob.Net.Lifetimes
import SpongeBob.Net.Destruction
import SpongeBob.Net.Departures
import SpongeBob.Net.Returns
import SpongeBob.Net.OwnEntries
import SpongeBob.Net.QueuePairs
import SpongeBob.Net.Joining
import SpongeBob.Storage.StorageServer
import SpongeBob.Client.Client
import SpongeBob.Client.RoundTrip
import SpongeBob.Client.System
import SpongeBob.Client.Interleaving
import SpongeBob.Client.TransferErrors
import SpongeBob.Client.Places
import SpongeBob.Client.Store
import SpongeBob.Client.Blockwise
import SpongeBob.Client.FullStack
import SpongeBob.Client.MetaClient
import SpongeBob.Fuse.Spfuse
import SpongeBob.Fuse.SharedStore
import SpongeBob.Fuse.Names
