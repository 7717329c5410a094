import Ufix.SessionState

/-!
The threads of a connection and the state they share.

Every connector has a sender thread, in `send_msgs`, and a receiver thread, in `recv_msgs`; all
connectors of a session share its state. A step of a thread is one access to what is shared: a test
of the state, an addition to it, a message passed to the socket or taken from it. An initiator has
one connector, which connects again; an acceptor makes a new one for every connection it accepts.

What is on the wire is kept as a trace of events with their times.
-/

namespace Ufix.Connection

open SessionState

inductive SocketType
  | acceptor
  | initiator
  deriving DecidableEq, Repr

/-- Where the sender thread stands in `send_msgs`. -/
inductive SenderPc
  /-- the test of the flag, at the head of the loop -/
  | loop
  /-- behind `wait` -/
  | body
  | connect
  | addConnected
  | sendFlagTest
  | logonSentTest
  /-- whether an acceptor may answer -/
  | logonRecvGate
  | sendLogon
  | addLogonSent
  | logonRecvTest
  | sendCmds
  | logonTest
  | rrRecvTest
  | rrTimeoutTest
  | rrClock
  | addRrTimeout
  /-- `send_data` and then the heartbeat, with whether a message counts as sent -/
  | sendData (sent : Bool)
  | exited
  deriving DecidableEq, Repr

/-- Where the receiver thread stands in `recv_msgs`; the messages handed over with an accepted
connection come `first`. -/
inductive ReceiverPc
  | msgs (first : Bool)
  | addLogonRecv (first : Bool)
  | addRrRecv (first : Bool)
  | loop
  | connectedTest
  | reset
  | setStop
  | exited
  deriving DecidableEq, Repr

/-- `conn` is the number of the connection the socket has. -/
structure Connector where
  conn : ℕ
  flag : Bool
  socketSendFlag : Bool
  rrRecvTs : ℕ
  sender : SenderPc
  receiver : ReceiverPc
  deriving DecidableEq, Repr

inductive Outgoing
  | logon
  | cmd
  | data
  | heartbeat
  deriving DecidableEq, Repr

inductive Incoming
  | logon
  | resendRequest
  | other
  deriving DecidableEq, Repr

inductive Event
  | sent (conn : ℕ) (kind : Outgoing) (ok : Bool)
  | received (conn : ℕ) (kind : Incoming)
  | disconnected (conn : ℕ)
  deriving DecidableEq, Repr

def Event.conn : Event → ℕ
  | .sent conn _ _ => conn
  | .received conn _ => conn
  | .disconnected conn => conn

/-- `now` is the monotonic clock in microseconds; `num` connectors were made so far. -/
structure System where
  state : ℕ
  now : ℕ
  conns : ℕ
  num : ℕ
  connector : ℕ → Connector
  trace : List (ℕ × Event)

namespace System

def put (s : System) (i : ℕ) (c : Connector) : System :=
  { s with connector := Function.update s.connector i c }

def addState (s : System) (add : ℕ) : System :=
  { s with state := SessionState.addState s.state add }

def record (s : System) (e : Event) : System := { s with trace := s.trace ++ [(s.now, e)] }

end System

inductive Act
  /-- time passes -/
  | pass (time : ℕ)
  /-- a new connection of an acceptor -/
  | accept
  /-- the sender thread of connector `i` goes on -/
  | sender (i : ℕ)
  /-- it passes a message to the socket -/
  | send (i : ℕ) (kind : Outgoing) (ok : Bool)
  /-- the receiver thread of connector `i` goes on -/
  | receiver (i : ℕ)
  | receive (i : ℕ) (kind : Incoming)
  /-- `recv` fails, or nothing came for too long -/
  | hangUp (i : ℕ)

variable (ty : SocketType)

def rrTimeoutSeconds : ℕ := 5
def million : ℕ := 1000000

/-- `(int) (get_current_timestamp() - rr_recv_ts)`. -/
def elapsed (now rrRecvTs : ℕ) : ℤ := (ulong (ulong now + 2 ^ 64 - rrRecvTs) : ℤ).bmod (2 ^ 32)

def rrTimedOut (now rrRecvTs : ℕ) : Bool := elapsed now rrRecvTs > rrTimeoutSeconds * million

def stepSender (s : System) (i : ℕ) : Option System :=
  let c := s.connector i
  let go := fun pc : SenderPc => some (s.put i { c with sender := pc })
  match c.sender with
  | .loop => go (if c.flag then .body else .exited)
  | .body =>
    go (if ty = .initiator ∧ ¬ isState s.state stateConnected then .connect else .sendFlagTest)
  | .connect =>
    -- `socket_connect` comes back with a connection, and `socket_init` sets the flag
    some { s.put i { c with conn := s.conns + 1, socketSendFlag := true, sender := .addConnected }
      with conns := s.conns + 1 }
  | .addConnected =>
    some ((s.addState stateConnected).put i { c with rrRecvTs := 0, sender := .loop })
  | .sendFlagTest => go (if c.socketSendFlag then .logonSentTest else .loop)
  | .logonSentTest =>
    go (if isState s.state stateLogonSent then .logonRecvTest
      else if ty = .initiator then .sendLogon else .logonRecvGate)
  | .logonRecvGate => go (if isState s.state stateLogonRecv then .sendLogon else .loop)
  | .sendLogon => none
  | .addLogonSent => some ((s.addState stateLogonSent).put i { c with sender := .loop })
  | .logonRecvTest => go (if isState s.state stateLogonRecv then .sendCmds else .loop)
  | .sendCmds => go .logonTest
  | .logonTest => go (if isLogon s.state then .sendData false else .rrRecvTest)
  | .rrRecvTest => go (if isState s.state stateRrRecv then .rrTimeoutTest else .loop)
  | .rrTimeoutTest => go (if isState s.state stateRrTimeout then .loop else .rrClock)
  | .rrClock =>
    if c.rrRecvTs = 0 then some (s.put i { c with rrRecvTs := ulong s.now, sender := .loop })
    else go (if rrTimedOut s.now c.rrRecvTs then .addRrTimeout else .loop)
  | .addRrTimeout => some ((s.addState stateRrTimeout).put i { c with sender := .loop })
  | .sendData _ => go .loop
  | .exited => none

/-- `send_msg` on connector `c`: a failed send ends the work of an acceptor's threads. -/
def sendMsg (c : Connector) (ok : Bool) : Connector :=
  if ok then c else { c with socketSendFlag := false, flag := c.flag && ty = .initiator }

def stepSend (s : System) (i : ℕ) (kind : Outgoing) (ok : Bool) : Option System :=
  let c := sendMsg ty (s.connector i) ok
  let go := fun pc : SenderPc =>
    some ((s.record (.sent (s.connector i).conn kind ok)).put i { c with sender := pc })
  match (s.connector i).sender, kind with
  | .sendLogon, .logon => go (if ok then .addLogonSent else .loop)
  | .sendCmds, .cmd => go .sendCmds
  | .sendData sent, .data => go (.sendData (sent || c.socketSendFlag))
  | .sendData false, .heartbeat => go .loop
  | _, _ => none

def stepReceiver (s : System) (i : ℕ) : Option System :=
  let c := s.connector i
  let go := fun pc : ReceiverPc => some (s.put i { c with receiver := pc })
  match c.receiver with
  | .msgs _ => go .loop
  | .addLogonRecv first =>
    some ((s.addState stateLogonRecv).put i { c with receiver := .msgs first })
  | .addRrRecv first => some ((s.addState stateRrRecv).put i { c with receiver := .msgs first })
  | .loop => go (if c.flag then .connectedTest else .exited)
  | .connectedTest => go (if isState s.state stateConnected then .msgs false else .loop)
  | .reset =>
    some ({ s.record (.disconnected c.conn) with state := resetState }.put i
      { c with receiver := if ty = SocketType.acceptor then .setStop else .loop })
  | .setStop => some (s.put i { c with flag := false, receiver := .loop })
  | .exited => none

/-- `process_msg`, up to what it adds to the state. -/
def stepReceive (s : System) (i : ℕ) (kind : Incoming) : Option System :=
  let c := s.connector i
  match c.receiver with
  | .msgs first =>
    some ((s.record (.received c.conn kind)).put i { c with
      receiver := match kind with
        | .logon => .addLogonRecv first
        | .resendRequest => .addRrRecv first
        | .other => .msgs first })
  | _ => none

/-- The connector of an accepted connection, as the constructor and `start` leave it. -/
def accepted (conn : ℕ) : Connector := ⟨conn, true, true, 0, .loop, .msgs true⟩

def step (s : System) : Act → Option System
  | .pass time => some { s with now := s.now + time }
  | .accept =>
    if ty = .acceptor then
      some { (s.addState stateConnected).put s.num (accepted (s.conns + 1)) with
        conns := s.conns + 1
        num := s.num + 1 }
    else none
  | .sender i => if i < s.num then stepSender ty s i else none
  | .send i kind ok => if i < s.num then stepSend ty s i kind ok else none
  | .receiver i => if i < s.num then stepReceiver ty s i else none
  | .receive i kind => if i < s.num then stepReceive s i kind else none
  | .hangUp i =>
    if i < s.num ∧ (s.connector i).receiver = .msgs false then
      some (s.put i { s.connector i with receiver := .reset })
    else none

/-- The connector of an initiator before its first connection; `socket_send_flag` is not set
yet. -/
def unconnected (junk : Bool) : Connector := ⟨0, true, junk, 0, .loop, .loop⟩

/-- A session with the state that `init_p_manager` left, and no connection yet. -/
def start (M : ℕ) (pm : PManager) (junk : Bool) : System where
  state := initState M pm
  now := 0
  conns := 0
  num := match ty with
    | .initiator => 1
    | .acceptor => 0
  connector := fun _ => unconnected junk
  trace := []

end Ufix.Connection
