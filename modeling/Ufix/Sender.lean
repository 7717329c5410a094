import Ufix.Runs
import Ufix.Resend

/-!
The sender as a machine, and histories of its processes.

An action is what one thread does between two points where another can come in. The order is
free but for the Logon, which goes first in every process; so every run of `send_msgs` with its
passes of `send_data` is a run of this machine.
-/

namespace Ufix.Sender

open Ufix.Runs

inductive Act
  /-- the application adds a message to queue `i` -/
  | addMsg (i : ℕ) (data : List Byte)
  /-- a new connection -/
  | reconnect
  /-- `send_data` asks whether queue `i` is open -/
  | poll (i : ℕ)
  /-- a Logon, whose unset `data_seq` is `junk` -/
  | logon (junk : ℕ) (ok : Bool)
  /-- another session message with the next number -/
  | session (junk : ℕ) (ok : Bool)
  /-- the next message of queue `i` -/
  | data (i : ℕ) (ok : Bool)
  /-- a `ResendRequest` is served -/
  | resend (beginSeqNo endSeqNo : UInt64) (ok : ℕ → Bool)

variable (o : SessionOption)

def IsQueue (i : ℕ) : Prop := 1 ≤ i ∧ i ≤ o.numSendQueues

instance (i : ℕ) : Decidable (IsQueue o i) := inferInstanceAs (Decidable (_ ∧ _))

lemma IsQueue.ne_zero {o : SessionOption} {i : ℕ} (hi : IsQueue o i) : i ≠ 0 := by
  have := hi.1
  omega

def step (p : SocketConnector) : Act → Option SocketConnector
  | .addMsg i data =>
    if IsQueue o i then (p.session.addMsg i data).map fun s => { p with session := s } else none
  | .reconnect => some { p with socketSendFlag := true }
  | .poll i => some (p.isQueueAvailable o i).2
  | .logon junk ok =>
    some { (p.sendSessionMsg o junk ok).1 with logonSent := true }
  | .session junk ok => if p.logonSent then some (p.sendSessionMsg o junk ok).1 else none
  | .data i ok => if p.logonSent ∧ IsQueue o i then p.sendQueuedMsg o i ok else none
  | .resend b e ok => if p.logonSent then p.sendSequenceReset b.toNat e.toNat ok else none

/-! ### What a step can do -/

def news (wire : List Packet) : List Packet := wire.filter Packet.isNew

@[simp] lemma news_append (w w' : List Packet) : news (w ++ w') = news w ++ news w' := by
  simp [news]

@[simp] lemma news_new (msg : WMsg) (ok : Bool) : news [⟨msg, true, ok⟩] = [⟨msg, true, ok⟩] := rfl

lemma resendPacket_isNew (out : Out (ℕ × SendQueueInfo) × Bool) :
    (SocketConnector.resendPacket out).isNew = false := by
  rcases out with ⟨⟨seq, n⟩ | ⟨seq, q, info⟩, ok⟩ <;> rfl

@[simp] lemma news_resend (outs : List (Out (ℕ × SendQueueInfo) × Bool)) :
    news (outs.map SocketConnector.resendPacket) = [] := by
  rw [news, List.filter_eq_nil_iff]
  intro pk hpk
  obtain ⟨out, -, rfl⟩ := List.mem_map.mp hpk
  simp [resendPacket_isNew]

def afterSend (s : Session) (msg : WMsg) (ok : Bool) : Session :=
  let s := s.writeMsgSent o msg true
  if ok then s.incrementMsgSeqNum else s

@[simp] lemma afterSend_msgSeq (s : Session) (msg : WMsg) (ok : Bool) :
    (afterSend o s msg ok).msgSeq = if ok then s.msgSeq + 1 else s.msgSeq := by
  have h : (s.writeMsgSent o msg true).msgSeq = s.msgSeq := by
    simp only [Session.writeMsgSent, if_true]
    split <;> rfl
  cases ok <;> simp [afterSend, Session.incrementMsgSeqNum, h]

@[simp] lemma afterSend_sendQueues (s : Session) (msg : WMsg) (ok : Bool) :
    (afterSend o s msg ok).sendQueues = s.sendQueues := by
  cases h : s.marksSeq o msg.qIndex msg.seq <;> cases ok <;>
    simp [afterSend, Session.incrementMsgSeqNum, Session.writeMsgSent, h]

@[simp] lemma afterSend_lastQIndexSent (s : Session) (msg : WMsg) (ok : Bool) :
    (afterSend o s msg ok).lastQIndexSent =
      if s.marksSeq o msg.qIndex msg.seq then (msg.qIndex : ℤ) else s.lastQIndexSent := by
  cases h : s.marksSeq o msg.qIndex msg.seq <;> cases ok <;>
    simp [afterSend, Session.incrementMsgSeqNum, Session.writeMsgSent, h]

@[simp] lemma afterSend_pManager (s : Session) (msg : WMsg) (ok : Bool) :
    (afterSend o s msg ok).pManager =
      if s.marksSeq o msg.qIndex msg.seq then
        s.pManager.writeSeqSent msg.qIndex msg.seq msg.dataSeq
      else s.pManager := by
  cases h : s.marksSeq o msg.qIndex msg.seq <;> cases ok <;>
    simp [afterSend, Session.incrementMsgSeqNum, Session.writeMsgSent, h]

@[simp] lemma afterSend_sentMarks (s : Session) (msg : WMsg) (ok : Bool) :
    (afterSend o s msg ok).sentMarks =
      if s.marksSeq o msg.qIndex msg.seq then
        s.sentMarks.setMark msg.qIndex msg.seq msg.dataSeq
      else s.sentMarks := by
  cases h : s.marksSeq o msg.qIndex msg.seq <;> cases ok <;>
    simp [afterSend, Session.incrementMsgSeqNum, Session.writeMsgSent, h]

inductive Effect (p : SocketConnector) : Act → Session → List Packet → Prop
  | addMsg {i data q} : IsQueue o i → (p.session.sendQueues i).addMsg data = some q →
      Effect p (.addMsg i data)
        { p.session.setQueue i q with pManager := p.session.pManager.writeData i data } []
  | reconnect : Effect p .reconnect p.session []
  | poll {i q} : (p.session.sendQueues i).SameMsgs q →
      q.headDataSeq = (p.session.sendQueues i).headDataSeq →
      Effect p (.poll i) (p.session.setQueue i q) []
  | logon {junk ok} : Effect p (.logon junk ok) (afterSend o p.session (p.sessionMsg junk) ok)
      [⟨p.sessionMsg junk, true, ok⟩]
  | session {junk ok} : p.logonSent = true →
      Effect p (.session junk ok) (afterSend o p.session (p.sessionMsg junk) ok)
        [⟨p.sessionMsg junk, true, ok⟩]
  | data {i ok info} : p.logonSent = true → IsQueue o i →
      (p.session.sendQueues i).getMsg = some info →
      Effect p (.data i ok)
        ((afterSend o p.session ⟨i, p.session.msgSeq, info.dataSeq, .queued i info.dataSeq⟩
          ok).markMsgSent ⟨i, p.session.msgSeq, info.dataSeq, .queued i info.dataSeq⟩)
        [⟨⟨i, p.session.msgSeq, info.dataSeq, .queued i info.dataSeq⟩, true, ok⟩]
  | resend {b e ok s outs} : p.logonSent = true →
      resendLoop Session.getSentMsg (fun k => ok (p.wire.length + k)) (p.resendEnd e.toNat)
        (rounds b.toNat (p.resendEnd e.toNat)) p.session b.toNat b.toNat [] = some (s, outs) →
      Effect p (.resend b e ok) s (outs.map SocketConnector.resendPacket)

lemma sendMsg_session (p : SocketConnector) (msg : WMsg) (ok : Bool) :
    (p.sendMsg o msg true ok).1.session = afterSend o p.session msg ok := by
  cases ok <;> rfl

lemma sendMsg_wire (p : SocketConnector) (msg : WMsg) (ok : Bool) :
    (p.sendMsg o msg true ok).1.wire = p.wire ++ [⟨msg, true, ok⟩] := by
  cases ok <;> rfl

lemma sendMsg_logonSent (p : SocketConnector) (msg : WMsg) (ok : Bool) :
    (p.sendMsg o msg true ok).1.logonSent = p.logonSent := by
  cases ok <;> rfl

variable {o} {p p' : SocketConnector}

/-- **The inversion of a step.** -/
theorem step_effect {a : Act} (h : step o p a = some p') :
    ∃ new, Effect o p a p'.session new ∧ p'.wire = p.wire ++ new ∧
      (p.logonSent = true → p'.logonSent = true) ∧
      (p'.logonSent = true → p.logonSent = true ∨ ∃ junk ok, a = .logon junk ok) := by
  cases a with
  | addMsg i data =>
    simp only [step] at h
    split at h
    · next hi =>
      obtain ⟨s, hs, rfl⟩ := Option.map_eq_some_iff.mp h
      obtain ⟨q, hq, rfl⟩ := Option.map_eq_some_iff.mp hs
      exact ⟨[], .addMsg hi hq, by simp, id, Or.inl⟩
    · cases h
  | reconnect =>
    cases h
    exact ⟨[], .reconnect, by simp, id, Or.inl⟩
  | poll i =>
    cases h
    simp only [SocketConnector.isQueueAvailable]
    split
    · refine ⟨[], ?_, by simp, id, Or.inl⟩
      have := Effect.poll (o := o) (p := p) (.refl (p.session.sendQueues i)) rfl
      simpa [Session.setQueue] using this
    · obtain ⟨h1, h2⟩ := SendQueue.isClose_same (p.session.sendQueues i)
      exact ⟨[], .poll h1 h2, by simp, id, Or.inl⟩
  | logon junk ok =>
    cases h
    refine ⟨_, ?_, sendMsg_wire o p _ ok, fun _ => rfl, fun _ => Or.inr ⟨junk, ok, rfl⟩⟩
    have := sendMsg_session o p (p.sessionMsg junk) ok
    simp only [SocketConnector.sendSessionMsg]
    rw [this]
    exact .logon
  | session junk ok =>
    simp only [step] at h
    split at h
    · next hl =>
      cases h
      refine ⟨_, ?_, sendMsg_wire o p _ ok, fun _ => ?_, fun _ => Or.inl hl⟩
      · rw [SocketConnector.sendSessionMsg, sendMsg_session]
        exact .session hl
      · rw [SocketConnector.sendSessionMsg, sendMsg_logonSent, hl]
    · cases h
  | data i ok =>
    simp only [step] at h
    split at h
    · next hl =>
      obtain ⟨msg, hm, rfl⟩ := Option.map_eq_some_iff.mp h
      obtain ⟨info, hinfo, rfl⟩ := Option.map_eq_some_iff.mp hm
      refine ⟨_, ?_, sendMsg_wire o p _ ok, fun _ => ?_, fun _ => Or.inl hl.1⟩
      · simp only [sendMsg_session]
        exact .data hl.1 hl.2 hinfo
      · simp only [sendMsg_logonSent, hl.1]
    · cases h
  | resend b e ok =>
    simp only [step] at h
    split at h
    · next hl =>
      obtain ⟨⟨s, outs⟩, hr, rfl⟩ := Option.map_eq_some_iff.mp h
      exact ⟨_, .resend hl hr, rfl, id, fun _ => Or.inl hl⟩
    · cases h

/-! ### A pass of `send_data` is a run -/

variable (o)

lemma sendQueuedMsg_logonSent {i : ℕ} {ok : Bool} (h : p.sendQueuedMsg o i ok = some p') :
    p'.logonSent = p.logonSent := by
  obtain ⟨msg, -, rfl⟩ := Option.map_eq_some_iff.mp h
  exact sendMsg_logonSent o p msg ok

lemma sendQueue_run (ok : ℕ → Bool) {i : ℕ} (hi : IsQueue o i) (n : ℕ)
    (hl : p.logonSent = true) :
    ∃ acts, run (step o) p acts = some (p.sendQueue o ok i n).1 ∧
      (p.sendQueue o ok i n).1.logonSent = true := by
  induction n generalizing p with
  | zero => exact ⟨[], rfl, hl⟩
  | succ n ih =>
    simp only [SocketConnector.sendQueue]
    cases hq : p.sendQueuedMsg o i (ok p.wire.length) with
    | none => exact ⟨[], rfl, hl⟩
    | some p₁ =>
      have hl₁ : p₁.logonSent = true := (sendQueuedMsg_logonSent o hq).trans hl
      have hstep : step o p (.data i (ok p.wire.length)) = some p₁ := by
        simp only [step]
        rw [if_pos ⟨hl, hi⟩, hq]
      simp only
      split
      · obtain ⟨acts, hr, hl'⟩ := ih hl₁
        exact ⟨.data i (ok p.wire.length) :: acts, by rw [run_cons, hstep]; exact hr, hl'⟩
      · exact ⟨[.data i (ok p.wire.length)], by rw [run_cons, hstep]; rfl, hl₁⟩

lemma sendQueues_run (ok : ℕ → Bool) (is : List ℕ) (hl : p.logonSent = true) :
    ∃ acts, run (step o) p acts = some (p.sendQueues o ok is).1 ∧
      (p.sendQueues o ok is).1.logonSent = true := by
  induction is generalizing p with
  | nil => exact ⟨[], rfl, hl⟩
  | cons i is ih =>
    have hpoll : step o p (.poll i) = some (p.isQueueAvailable o i).2 := rfl
    have hl₁ : (p.isQueueAvailable o i).2.logonSent = true := by
      simp only [SocketConnector.isQueueAvailable]
      split <;> exact hl
    simp only [SocketConnector.sendQueues]
    split
    · next ha =>
      have hi : IsQueue o i := by
        simp only [SocketConnector.isQueueAvailable] at ha
        split at ha
        · cases ha
        · next h => exact ⟨by omega, by omega⟩
      obtain ⟨as, hr, hl₂⟩ := sendQueue_run o ok hi SocketConnector.windowQueueRrSize hl₁
      obtain ⟨bs, hr', hl₃⟩ := ih hl₂
      refine ⟨.poll i :: (as ++ bs), ?_, hl₃⟩
      rw [run_cons, hpoll, Option.bind_some, run_append, hr]
      exact hr'
    · obtain ⟨bs, hr', hl₃⟩ := ih hl₁
      exact ⟨.poll i :: bs, by rw [run_cons, hpoll]; exact hr', hl₃⟩

/-- **A pass of `send_data` is a run of the machine**, whatever the socket does. -/
theorem sendData_run (ok : ℕ → Bool) (hl : p.logonSent = true) :
    ∃ acts, run (step o) p acts = some (p.sendData o ok).1 := by
  obtain ⟨acts, h, -⟩ := sendQueues_run o ok (List.range' 1 o.numSendQueues) hl
  exact ⟨acts, h⟩

end Ufix.Sender
