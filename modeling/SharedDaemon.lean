import SharedDaemon.AcceptLoop
import SharedDaemon.AttachedWatch
import SharedDaemon.Auth
import SharedDaemon.BoundPath
import SharedDaemon.ClaimPath
import SharedDaemon.ClientCap
import SharedDaemon.Command
import SharedDaemon.Config
import SharedDaemon.DataDir
import SharedDaemon.DataLayout
import SharedDaemon.DataRoot
import SharedDaemon.Debounce
import SharedDaemon.Debouncer
import SharedDaemon.Dispatch
import SharedDaemon.DueReload
import SharedDaemon.FileSpec
import SharedDaemon.FileTree
import SharedDaemon.FileWalk
import SharedDaemon.Frame
import SharedDaemon.FrameBoundary
import SharedDaemon.FrameBuffer
import SharedDaemon.FrameRoundTrip
import SharedDaemon.FramedRequests
import SharedDaemon.Hangup
import SharedDaemon.HeaderLimit
import SharedDaemon.InterruptedRead
import SharedDaemon.Isolation
import SharedDaemon.LateAttach
import SharedDaemon.LengthPrefix
import SharedDaemon.LiveOrder
import SharedDaemon.MessageSession
import SharedDaemon.Overload
import SharedDaemon.Pipelining
import SharedDaemon.QueueOverflow
import SharedDaemon.QuietWatch
import SharedDaemon.Reload
import SharedDaemon.ReloadProgress
import SharedDaemon.ReplyStream
import SharedDaemon.SeedCut
import SharedDaemon.SeedRace
import SharedDaemon.SeededReload
import SharedDaemon.SequentialBind
import SharedDaemon.Server
import SharedDaemon.ServerProgress
import SharedDaemon.Session
import SharedDaemon.SignalReload
import SharedDaemon.SingletonBind
import SharedDaemon.SocketBind
import SharedDaemon.SocketPerms
import SharedDaemon.SpecFilter
import SharedDaemon.Startup
import SharedDaemon.StdIo
import SharedDaemon.StdPath
import SharedDaemon.StreamGrammar
import SharedDaemon.TransitionSystem
import SharedDaemon.Watch
import SharedDaemon.WatchTree
