import Operativsystem.Library.Segment
import Operativsystem.Library.Cursor
import Operativsystem.Library.Machine
import Operativsystem.Library.Memory
import Operativsystem.Library.Text
import Operativsystem.Library.Merge
import Operativsystem.Library.Conservation
import Operativsystem.Resources.LinkedList
import Operativsystem.Resources.ListSequence
import Operativsystem.Resources.ListCursor
import Operativsystem.Resources.PduUser
import Operativsystem.Resources.Socket
import Operativsystem.Resources.Streams
import Operativsystem.Resources.Frames
import Operativsystem.Resources.Chunking
import Operativsystem.Client.Requests
import Operativsystem.Kernel.NetlinkKernel
import Operativsystem.Kernel.TableMap
import Operativsystem.Kernel.OwnBytes
import Operativsystem.Kernel.Lifecycle
import Operativsystem.Kernel.TableUse
import Operativsystem.User.KernelCommunication
import Operativsystem.User.SenderList
import Operativsystem.User.ClientSession
import Operativsystem.User.Residue
import Operativsystem.Store.RequestMap
import Operativsystem.Store.StoreData
import Operativsystem.Store.Lockstep
import Operativsystem.Store.Restart
import Operativsystem.Pipeline.MapMachine
import Operativsystem.Server.Threads
import Operativsystem.Server.SlotMoves
import Operativsystem.Server.SlotOwner
import Operativsystem.Server.SlotConservation
import Operativsystem.Server.Clients
import Operativsystem.Server.Broadcast
import Operativsystem.Server.Deregister
import Operativsystem.Server.Process
import Operativsystem.Server.ProcessMoves
import Operativsystem.Server.Stranded
import Operativsystem.Server.Records
import Operativsystem.Server.Kick
import Operativsystem.Server.Hang
import Operativsystem.Server.ProcessSlots
import Operativsystem.Server.Removals
import Operativsystem.User.Pairing
import Operativsystem.Kernel.Objects
import Operativsystem.Kernel.ObjectLayout
import Operativsystem.Store.FullKeys
import Operativsystem.Store.KeyRestart
import Operativsystem.Store.LiveRestart
import Operativsystem.Pipeline.FrameLengths
import Operativsystem.Resources.Readers
import Operativsystem.User.JoinFirst
import Operativsystem.Client.ClientListen
import Operativsystem.Pipeline.ReceiveFailures
import Operativsystem.Pipeline.KickBytes
import Operativsystem.Resources.RecvCalls
import Operativsystem.Resources.Returning
import Operativsystem.User.ReadingEnds
import Operativsystem.Pipeline.PayloadBounds
import Operativsystem.Resources.Switch
import Operativsystem.Resources.LockRelease
import Operativsystem.Pipeline.CanonicalFrames
import Operativsystem.Store.StoreLines
import Operativsystem.Kernel.Kmalloc
import Operativsystem.User.UnwrittenBytes
import Operativsystem.Client.Prompts
import Operativsystem.Scheduler.ScheduleTester
import Operativsystem.Scheduler.WaitingTime
import Operativsystem.Pipeline.AnswerOrder
import Operativsystem.Pipeline.AnswerAll
import Operativsystem.Client.ClientSend
import Operativsystem.Pipeline.MenuSession
import Operativsystem.Pipeline.TypedSession
import Operativsystem.Pipeline.EndToEnd
import Operativsystem.Kernel.WorkHandlers
import Operativsystem.Latency.StartUp
import Operativsystem.Latency.Rounds
import Operativsystem.Latency.RoundsEnd
import Operativsystem.Latency.Statistics
import Operativsystem.Pipeline.StoredOrder
