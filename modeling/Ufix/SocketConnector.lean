import Ufix.Session

/-!
The sender of a connection: what it passes to the socket, message by message.

Whether the socket takes a whole message or reports an error is not ours to decide: the `k`-th
message passed to it succeeds when `ok k` says so.
-/

namespace Ufix

/-- `ULONG` arithmetic. -/
def ulong (n : ℕ) : ℕ := n % 2 ^ 64

lemma ulong_lt (n : ℕ) : ulong n < 2 ^ 64 := Nat.mod_lt _ (by decide)

lemma ulong_of_lt {n : ℕ} (h : n < 2 ^ 64) : ulong n = n := Nat.mod_eq_of_lt h

/-- A message passed to the socket: whether it was a new one, and whether the socket took all
of it. -/
structure Packet where
  msg : WMsg
  isNew : Bool
  ok : Bool
  deriving DecidableEq, Repr

/-- The numbers a packet covers: a gap fill those up to its `NewSeqNo`, any other its own. -/
def Packet.covered (pk : Packet) : List ℕ :=
  match pk.msg.content with
  | .gapFill newSeqNo => List.range' pk.msg.seq (newSeqNo - pk.msg.seq)
  | _ => [pk.msg.seq]

/-- The connection as its sender thread sees it, with the messages it passed to the socket in
this process and whether a Logon was among them. -/
structure SocketConnector where
  session : Session
  socketSendFlag : Bool
  logonSent : Bool
  wire : List Packet

/-! ### The resend loop -/

section Resend

variable {σ μ : Type*}

/-- A message of the resend loop: a gap fill from `seq` with `NewSeqNo`, or an old message sent
again under its number. -/
inductive Out (μ : Type*)
  | gap (seq newSeqNo : ℕ)
  | msg (seq : ℕ) (m : μ)

/-- The loop of `send_sequence_reset`, `n` more rounds at most, at number `seq`, where `start`
is the first number not covered yet. A round that reads through a null mark is `none`. -/
def resendLoop (getSent : σ → ℕ → Option (σ × Option μ)) (ok : ℕ → Bool) (endSeqNo : ℕ) :
    ℕ → σ → ℕ → ℕ → List (Out μ × Bool) → Option (σ × List (Out μ × Bool))
  | 0, _, _, _, _ => none
  | n + 1, s, seq, start, outs =>
    match getSent s seq with
    | none => none
    | some (s, found) =>
      let next := fun (start : ℕ) (outs : List (Out μ × Bool)) =>
        let seq := ulong (seq + 1)
        if seq = endSeqNo then
          -- the numbers missing at the end, if `start < seq - 1`
          if start < ulong (seq + (2 ^ 64 - 1)) then
            some (s, outs ++ [(.gap start seq, ok outs.length)])
          else some (s, outs)
        else resendLoop getSent ok endSeqNo n s seq start outs
      match found with
      | none => next start outs
      | some m =>
        if start < seq then
          let outs' := outs ++ [(.gap start seq, ok outs.length)]
          if ok outs.length then
            let outs'' := outs' ++ [(.msg seq m, ok outs'.length)]
            if ok outs'.length then next (ulong (seq + 1)) outs'' else some (s, outs'')
          else some (s, outs')
        else
          let outs' := outs ++ [(.msg seq m, ok outs.length)]
          if ok outs.length then next (ulong (start + 1)) outs' else some (s, outs')

/-- How many rounds bring `seq` from the begin to the end of the range, in `ULONG` steps. -/
def rounds (beginSeqNo endSeqNo : ℕ) : ℕ := ulong (endSeqNo + 2 ^ 64 - beginSeqNo - 1) + 1

def Out.covered : Out μ → List ℕ
  | .gap seq newSeqNo => List.range' seq (newSeqNo - seq)
  | .msg seq _ => [seq]

end Resend

namespace SocketConnector

variable (o : SessionOption)

/-- `send_msg`: the mark is written before the socket is asked, the counter moves only when the
socket took the message. -/
def sendMsg (p : SocketConnector) (msg : WMsg) (newMsgFlag ok : Bool) : SocketConnector × Bool :=
  let s := p.session.writeMsgSent o msg newMsgFlag
  let wire := p.wire ++ [⟨msg, newMsgFlag, ok⟩]
  if ok then
    ({ p with session := if newMsgFlag then s.incrementMsgSeqNum else s, wire := wire }, true)
  else ({ p with session := s, wire := wire, socketSendFlag := false }, false)

/-- A session message with the next number; its `data_seq` is whatever the memory held. -/
def sessionMsg (p : SocketConnector) (junk : ℕ) : WMsg :=
  ⟨queueSession, p.session.msgSeq, junk, .session⟩

/-- `send_logon`, `send_heartbeat`, `send_test_request` and `send_resend_request`, which differ
in their fields only. -/
def sendSessionMsg (p : SocketConnector) (junk : ℕ) (ok : Bool) : SocketConnector × Bool :=
  p.sendMsg o (p.sessionMsg junk) true ok

/-- The message at the head of queue `i` with the next number, if there is one. -/
def queuedMsg (p : SocketConnector) (i : ℕ) : Option WMsg :=
  (p.session.sendQueues i).getMsg.map fun info =>
    ⟨i, p.session.msgSeq, info.dataSeq, .queued i info.dataSeq⟩

/-- One round of the inner loop of `send_data`: what `send_msg` returned is not looked at. -/
def sendQueuedMsg (p : SocketConnector) (i : ℕ) (ok : Bool) : Option SocketConnector :=
  (p.queuedMsg i).map fun msg =>
    let p := (p.sendMsg o msg true ok).1
    { p with session := p.session.markMsgSent msg }

def windowQueueRrSize : ℕ := 256

/-- The inner loop of `send_data` on queue `i` for at most `n` messages, with the number of
messages counted as sent. -/
def sendQueue (ok : ℕ → Bool) (i : ℕ) : ℕ → SocketConnector → SocketConnector × ℕ
  | 0, p => (p, 0)
  | n + 1, p =>
    match p.sendQueuedMsg o i (ok p.wire.length) with
    | none => (p, 0)
    | some p =>
      if p.socketSendFlag then
        let r := sendQueue ok i n p
        (r.1, r.2 + 1)
      else (p, 0)

def isQueueAvailable (p : SocketConnector) (i : ℕ) : Bool × SocketConnector :=
  if i > o.numSendQueues ∨ i = 0 then (false, p)
  else
    let r := (p.session.sendQueues i).isClose
    (!r.1, { p with session := p.session.setQueue i r.2 })

/-- The queues of `send_data`, one after the other; a failed send ends the work on its queue,
not the pass. -/
def sendQueues (ok : ℕ → Bool) : List ℕ → SocketConnector → SocketConnector × ℕ
  | [], p => (p, 0)
  | i :: is, p =>
    let a := p.isQueueAvailable o i
    if a.1 then
      let r := sendQueue o ok i windowQueueRrSize a.2
      let r' := sendQueues ok is r.1
      (r'.1, r.2 + r'.2)
    else sendQueues ok is a.2

/-- `send_data`: one pass over the queues. -/
def sendData (ok : ℕ → Bool) (p : SocketConnector) : SocketConnector × ℕ :=
  sendQueues o ok (List.range' 1 o.numSendQueues) p

/-- How a message of the resend loop is passed to the socket: with new-message flag `0`. -/
def resendPacket : Out (ℕ × SendQueueInfo) × Bool → Packet
  | (.gap seq newSeqNo, ok) => ⟨⟨queueSession, seq, 0, .gapFill newSeqNo⟩, false, ok⟩
  | (.msg seq (q, info), ok) =>
    ⟨⟨queueSession, seq, info.dataSeq, .queued q info.dataSeq⟩, false, ok⟩

/-- The end of the range of a `ResendRequest`, where `EndSeqNo = 0` asks for everything. -/
def resendEnd (p : SocketConnector) (endSeqNo : ℕ) : ℕ :=
  if endSeqNo = 0 then ulong p.session.msgSeq else ulong (endSeqNo + 1)

lemma resendEnd_lt (p : SocketConnector) (endSeqNo : ℕ) : p.resendEnd endSeqNo < 2 ^ 64 := by
  unfold resendEnd
  split <;> exact ulong_lt _

/-- `send_sequence_reset(cmd)`. Passing an old message to the socket changes nothing in the
session, so the loop runs on the session and its messages reach the wire in order. -/
def sendSequenceReset (p : SocketConnector) (beginSeqNo endSeqNo : ℕ) (ok : ℕ → Bool) :
    Option SocketConnector :=
  let endSeqNo := p.resendEnd endSeqNo
  let r := resendLoop Session.getSentMsg (fun k => ok (p.wire.length + k)) endSeqNo
    (rounds beginSeqNo endSeqNo) p.session beginSeqNo beginSeqNo []
  r.map fun (s, outs) =>
    { p with
      session := s
      socketSendFlag := p.socketSendFlag && outs.all Prod.snd
      wire := p.wire ++ outs.map resendPacket }

end SocketConnector

end Ufix
