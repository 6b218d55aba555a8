import Dsf4g.Lib.Memory
import Dsf4g.Lib.Bytes
import Dsf4g.Lib.Ring
import Dsf4g.Lib.Fifo
import Dsf4g.Lib.Framing
import Dsf4g.ShmPipe
import Dsf4g.ShmPipeQueue
import Dsf4g.ShmPipeShared
import Dsf4g.Base
import Dsf4g.TcpSvr
import Dsf4g.TcpDeframe
import Dsf4g.TcpSteps
import Dsf4g.Lib.Trace
import Dsf4g.Lib.Loop
import Dsf4g.Lib.Sockets
import Dsf4g.ClientFrames
import Dsf4g.Lib.Ledger
import Dsf4g.SendBuffer
import Dsf4g.CenterMng
import Dsf4g.Server
import Dsf4g.MsgLoop
import Dsf4g.CenterDrain
import Dsf4g.ProxySvr
import Dsf4g.ProxySlots
import Dsf4g.ProxyTransfer
import Dsf4g.ProxyRouting
import Dsf4g.ProxyParser
import Dsf4g.WholeFrames
import Dsf4g.DbProxy
import Dsf4g.VersionCache
import Dsf4g.Session
import Dsf4g.LostUpdate
import Dsf4g.HandlerLoop
import Dsf4g.ObjectMng
import Dsf4g.HallSvr
import Dsf4g.HallLink
import Dsf4g.LateDiscon
import Dsf4g.FailedLogin
import Dsf4g.GhostPlayers
import Dsf4g.MessagePath
import Dsf4g.SizeLimits
import Dsf4g.Lib.Cursor
import Dsf4g.HandOver
import Dsf4g.Tables
import Dsf4g.Lib.Names
import Dsf4g.SessionIds
import Dsf4g.AuthSvr
import Dsf4g.SaveGet
import Dsf4g.ConnIdentity
import Dsf4g.SlotReuse
import Dsf4g.Lib.Descriptors
import Dsf4g.TcpSlots
import Dsf4g.BackPressure
import Dsf4g.FdOwners
import Dsf4g.Managers
import Dsf4g.LostSlots
import Dsf4g.SaveFailures
import Dsf4g.Gather
import Dsf4g.Redo
import Dsf4g.Lib.Wire
import Dsf4g.LoginData
import Dsf4g.OnlineFlag
import Dsf4g.SessionFates
import Dsf4g.ShmPipeAccounts
import Dsf4g.Lib.Groups
import Dsf4g.Lib.Quoted
import Dsf4g.KeySet
import Dsf4g.Hash
import Dsf4g.Authorize
import Dsf4g.ReserveBuffers
import Dsf4g.ReceivedFrames
import Dsf4g.Timers
import Dsf4g.StartingMoney
import Dsf4g.DbRouting
import Dsf4g.DbProxies
import Dsf4g.Tokens
import Dsf4g.Lib.Escape
import Dsf4g.SqlTexts
import Dsf4g.SessionAges
import Dsf4g.PipeStartup
import Dsf4g.ToldMoney
