import Ufix.Resend
import Ufix.OwnNumber
import Ufix.History
import Ufix.Recovery
import Ufix.Lookup
import Ufix.Delivery
import Ufix.Transfer
import Ufix.Reassembly
import Ufix.InOrderQueue
import Ufix.Handover
import Ufix.SendWindow
import Ufix.FieldGrammar
import Ufix.GroupRecovery
import Ufix.TornWrite
import Ufix.RecvBound
import Ufix.PendingBytes
import Ufix.ResendFrame
import Ufix.SentBytes
import Ufix.Retransmission
import Ufix.ResendLookups
import Ufix.Undelivered
import Ufix.ResendRequests
import Ufix.QueueOrder
import Ufix.BodyLength
import Ufix.AcceptorFraming
import Ufix.AddRetries
import Ufix.ParserBounds
import Ufix.GroupBounds
import Ufix.ZeroCopy
import Ufix.Seek
import Ufix.NumberFields
import Ufix.Counter
import Ufix.Cmds
import Ufix.FieldTable
import Ufix.StaleFields
import Ufix.SessionMsgs
import Ufix.Heartbeat
import Ufix.ReceiverBounds
import Ufix.HeaderLookup
import Ufix.Flags
import Ufix.Traces
import Ufix.SessionState
import Ufix.Connection
import Ufix.Login
import Ufix.SendCmd
import Ufix.SessionExchange
import Ufix.Arrivals
import Ufix.GapRecovery
import Ufix.Wakeups
import Ufix.MarksFile
import Ufix.Acceptor
import Ufix.KeepAlive
import Ufix.UtcTime
import Ufix.SocketBytes
import Ufix.InTurn
import Ufix.BufferStream
import Ufix.EndToEnd
import Ufix.RoundRobin
