import Ufix.History
import Ufix.QueueWindow

/-!
The heads of the data queues after a restart.

A head is rebuilt from the marks: the message of the queue's last mark, plus the numbers up to
the next mark. A restart skips a window of numbers and one more, so a queue whose last mark was
also the last one of its process is given a whole window of messages it may not have sent.
-/

namespace Ufix.Recovery

open Ufix.Runs Ufix.Sender Ufix.Marks Ufix.History Ufix.QueueWindow PManager

/-! ### What was transmitted -/

/-- The message of queue `i` that a packet transmits, `0` for none. -/
def dataOf (i : ℕ) (pk : Packet) : ℕ :=
  match pk.msg.content with
  | .queued q d => if q = i ∧ pk.ok = true then d else 0
  | _ => 0

/-- The greatest message of queue `i` among them. -/
def transmitted (sent : List Packet) (i : ℕ) : ℕ := (sent.map (dataOf i)).foldr max 0

lemma transmitted_append (sent sent' : List Packet) (i : ℕ) :
    transmitted (sent ++ sent') i = max (transmitted sent i) (transmitted sent' i) := by
  induction sent with
  | nil => simp [transmitted]
  | cons pk sent ih =>
    simp only [transmitted, List.cons_append, List.map_cons, List.foldr_cons] at ih ⊢
    rw [ih, max_assoc]

@[simp] lemma transmitted_session (p : SocketConnector) (junk : ℕ) (ok : Bool) (i : ℕ) :
    transmitted [⟨p.sessionMsg junk, true, ok⟩] i = 0 := rfl

@[simp] lemma transmitted_queued (n q d i : ℕ) :
    transmitted [⟨⟨q, n, d, .queued q d⟩, true, true⟩] i = if q = i then d else 0 := by
  simp [transmitted, dataOf]

/-- The greatest message of queue `i` that lookups found. -/
def foundMax (ms : List (ℕ × SendQueueInfo)) (i : ℕ) : ℕ :=
  (ms.map fun m => if m.1 = i then m.2.dataSeq else 0).foldr max 0

lemma foundMax_append (ms ms' : List (ℕ × SendQueueInfo)) (i : ℕ) :
    foundMax (ms ++ ms') i = max (foundMax ms i) (foundMax ms' i) := by
  induction ms with
  | nil => simp [foundMax]
  | cons m ms ih =>
    simp only [foundMax, List.cons_append, List.map_cons, List.foldr_cons] at ih ⊢
    rw [ih, max_assoc]

lemma transmitted_resend (outs : List (Out (ℕ × SendQueueInfo) × Bool)) (i : ℕ) :
    transmitted (outs.map SocketConnector.resendPacket) i = foundMax (Resend.resent outs) i := by
  induction outs with
  | nil => rfl
  | cons out outs ih =>
    have h := transmitted_append [SocketConnector.resendPacket out]
      (outs.map SocketConnector.resendPacket) i
    rw [List.singleton_append, ← List.map_cons] at h
    rw [h, ih]
    rcases out with ⟨⟨seq, n⟩ | ⟨seq, q, info⟩, ok⟩
    · simp [transmitted, dataOf, SocketConnector.resendPacket, Resend.resent]
    · cases ok <;>
        simp [transmitted, dataOf, SocketConnector.resendPacket, Resend.resent, foundMax]

/-! ### The steps that keep the count -/

/-- The slot of the head has not been reused for a later message. -/
def HeadHeld (q : SendQueue) : Prop :=
  (q.msgsQueue (q.headDataSeq % q.qSize)).dataSeq = q.headDataSeq

variable (o : SessionOption) (M : ℕ)

/-- The marks can follow the lookup of a number, where `t` was transmitted before the resend. -/
def NumberOk (t : ℕ → ℕ) (x : Session × List (ℕ × SendQueueInfo)) (seq : ℕ) : Prop :=
  ∀ q d, Session.resolve x.1.sentMarks seq = .data q d →
    LookupOk o.windowMarkSize x.1.pManager.seqsSent q (max (t q) (foundMax x.2 q))
      (x.1.sendQueues q) d

/-- Sends succeed. A data message is the one its head stands at, and without a mark it is at most
a window past the last one. The marks can follow every lookup of a resend. -/
def ActOk (sent : List Packet) (p : SocketConnector) : Act → Prop
  | .logon _ ok => ok = true
  | .session _ ok => ok = true
  | .data i ok => ok = true ∧ HeadHeld (p.session.sendQueues i) ∧
      (p.session.marksSeq o i p.session.msgSeq = false →
        (p.session.sendQueues i).headDataSeq ≤
          lastData p.session.pManager.seqsSent i + o.windowMarkSize)
  | .resend b e ok => (∀ k, ok k = true) ∧
      Meets (Resend.lookup Session.getSentMsg) (NumberOk o (transmitted (sent ++ p.wire)))
        (p.session, []) (Resend.numbers b.toNat (rounds b.toNat (p.resendEnd e.toNat)))
  | _ => True

/-- A crash that leaves the mark of a data message leaves one of a transmitted message, at most a
window behind the greatest. -/
def CutOk (sent : List Packet) (p : SocketConnector) : Option Cut → Prop
  | some (.data i) => p.session.marksSeq o i p.session.msgSeq = true →
      ∀ info, (p.session.sendQueues i).getMsg = some info →
        info.dataSeq ≤ transmitted (sent ++ p.wire) i ∧
          transmitted (sent ++ p.wire) i ≤ info.dataSeq + o.windowMarkSize
  | _ => True

/-- The process starts with its queues counted right, and its steps and its end keep it so. -/
def LifeOk (w : World) (l : Life) : Prop :=
  (∀ i, IsQueue o i → Counted o.windowMarkSize w.files.seqsSent (transmitted w.sent i)
    (w.files.dataQueue i).length i) ∧
  Meets (step o) (ActOk o w.sent) (boot o M w.files l.lastQ) l.acts ∧
  ∀ p, run (step o) (boot o M w.files l.lastQ) l.acts = some p → CutOk o w.sent p l.cut

/-! ### In a process -/

structure Inv (files : PManager) (sent : List Packet) (p : SocketConnector) : Prop where
  numbering : Numbering o (Session.startSeq o M files) files.seqsSent p
  chain : p.session.pManager.seqsSent.IsChain (Spaced o.windowMarkSize)
  next : p.session.pManager.seqsSent ≠ [] →
    lastNum p.session.pManager.seqsSent < p.session.msgSeq ∧
      p.session.msgSeq ≤ lastNum p.session.pManager.seqsSent + o.windowMarkSize + 1
  jump : ¬ p.logonSent = true → p.session.pManager.seqsSent ≠ [] →
    p.session.msgSeq = lastNum p.session.pManager.seqsSent + o.windowMarkSize + 1
  queue : ∀ i, IsQueue o i →
    QueueInv o.windowMarkSize p.session.pManager.seqsSent p.session.msgSeq
      (transmitted (sent ++ p.wire) i) (p.session.pManager.dataQueue i).length
      (p.logonSent = true) (p.session.sendQueues i) i

variable {o M} {files : PManager} {sent : List Packet} {p p' : SocketConnector}

lemma sendSession_inv (h : Inv o M files sent p) {junk : ℕ}
    (hnum : Numbering o (Session.startSeq o M files) files.seqsSent p')
    (hs : p'.session = afterSend o p.session (p.sessionMsg junk) true)
    (hw : p'.wire = p.wire ++ [⟨p.sessionMsg junk, true, true⟩]) (hl : p'.logonSent = true) :
    Inv o M files sent p' := by
  have hfile : p'.session.pManager =
      p.session.pManager.writeSeqSent queueSession p.session.msgSeq junk := by
    rw [hs, afterSend_pManager]
    exact if_pos (marksSeq_session _ _)
  have hc : p'.session.msgSeq = p.session.msgSeq + 1 := by rw [hs, afterSend_msgSeq, if_pos rfl]
  have hq : p'.session.sendQueues = p.session.sendQueues := by rw [hs, afterSend_sendQueues]
  refine ⟨hnum, ?_, fun _ => ?_, fun hb => absurd hl hb, fun i hi => ?_⟩
  · rw [hfile, writeSeqSent_seqsSent]
    exact chain_concat h.chain h.next
  · rw [hfile, writeSeqSent_seqsSent, lastNum_concat, hc]
    simp only
    omega
  · have h0 : queueSession ≠ i := fun he => hi.ne_zero he.symm
    have htrue : (p'.logonSent = true) = True := eq_true hl
    rw [hfile, hc, hq, hw, ← List.append_assoc, transmitted_append, transmitted_session, htrue,
      Nat.max_zero]
    exact (h.queue i hi).otherMark hi.ne_zero h0 rfl (fun hne => (h.next hne).1) h.jump

lemma sendData_inv (hW : 1 ≤ o.windowMarkSize) (h : Inv o M files sent p) {i : ℕ}
    {info : SendQueueInfo} (hi : IsQueue o i)
    (hinfo : (p.session.sendQueues i).getMsg = some info)
    (hheld : HeadHeld (p.session.sendQueues i)) (hl : p.logonSent = true)
    (hnear : p.session.marksSeq o i p.session.msgSeq = false →
      (p.session.sendQueues i).headDataSeq ≤
        lastData p.session.pManager.seqsSent i + o.windowMarkSize)
    (hnum : Numbering o (Session.startSeq o M files) files.seqsSent p')
    (hs : p'.session = (afterSend o p.session
      ⟨i, p.session.msgSeq, info.dataSeq, .queued i info.dataSeq⟩ true).markMsgSent
        ⟨i, p.session.msgSeq, info.dataSeq, .queued i info.dataSeq⟩)
    (hw : p'.wire = p.wire ++ [⟨⟨i, p.session.msgSeq, info.dataSeq, .queued i info.dataSeq⟩,
      true, true⟩]) (hl' : p'.logonSent = true) : Inv o M files sent p' := by
  obtain ⟨hne, hslot⟩ := SendQueue.getMsg_eq_some.mp hinfo
  have hd : info.dataSeq = (p.session.sendQueues i).headDataSeq := hslot ▸ hheld
  have hc : p'.session.msgSeq = p.session.msgSeq + 1 := by
    rw [hs, Session.markMsgSent_msgSeq, afterSend_msgSeq, if_pos rfl]
  have hq : p'.session.sendQueues = Function.update p.session.sendQueues i
      (p.session.sendQueues i).markMsgSent := by
    rw [hs, Session.markMsgSent, Session.setQueue_sendQueues, afterSend_sendQueues]
  have htrue : (p'.logonSent = true) = True := eq_true hl'
  have hsent : ∀ j, transmitted (sent ++ p'.wire) j =
      max (transmitted (sent ++ p.wire) j) (if i = j then info.dataSeq else 0) := by
    intro j
    rw [hw, ← List.append_assoc, transmitted_append, transmitted_queued]
  have hsame : (p'.logonSent = true) = (p.logonSent = true) := by rw [hl, hl']
  cases hm : p.session.marksSeq o i p.session.msgSeq with
  | true =>
    have hfile : p'.session.pManager =
        p.session.pManager.writeSeqSent i p.session.msgSeq info.dataSeq := by
      rw [hs, Session.markMsgSent_pManager, afterSend_pManager]
      exact if_pos hm
    refine ⟨hnum, ?_, fun _ => ?_, fun hb => absurd hl' hb, fun j hj => ?_⟩
    · rw [hfile, writeSeqSent_seqsSent]
      exact chain_concat h.chain h.next
    · rw [hfile, writeSeqSent_seqsSent, lastNum_concat, hc]
      simp only
      omega
    · rw [hfile, hc, hq, htrue, hsent]
      by_cases hij : i = j
      · subst hij
        rw [Function.update_self, if_pos rfl, hd]
        exact (h.queue i hi).ownMark rfl rfl rfl hne
      · rw [Function.update_of_ne (Ne.symm hij), if_neg hij, Nat.max_zero]
        exact (h.queue j hj).otherMark hj.ne_zero hij rfl (fun hne => (h.next hne).1) h.jump
  | false =>
    have hfile : p'.session.pManager = p.session.pManager := by
      rw [hs, Session.markMsgSent_pManager, afterSend_pManager]
      exact if_neg (by simp [hm])
    have hlast := ((h.numbering.after hl).of_not_marksSeq hm).1
    have hle := (hnum.after hl').msgSeq_le hW
    rw [hfile, hc] at hle
    refine ⟨hnum, ?_, fun hr => ?_, fun hb => absurd hl' hb, fun j hj => ?_⟩
    · rw [hfile]
      exact h.chain
    · rw [hfile] at hr ⊢
      rw [hc]
      have := h.next hr
      omega
    · rw [hfile, hc, hq, hsame, hsent]
      by_cases hij : i = j
      · subst hij
        rw [Function.update_self, if_pos rfl, hd]
        exact (h.queue i hi).ownUnmarked hi.ne_zero hl hlast.symm (hnear hm) hne
      · rw [Function.update_of_ne (Ne.symm hij), if_neg hij, Nat.max_zero]
        exact (h.queue j hj).otherUnmarked (by rw [← hlast]; exact hij)

/-- One lookup of a resend. -/
lemma lookup_queues {x y : Session × List (ℕ × SendQueueInfo)} {seq : ℕ} {t : ℕ → ℕ}
    {recs : List SeqSentInfo} {c : ℕ} {n : ℕ → ℕ} {logon : Prop}
    (hrecs : x.1.pManager.seqsSent = recs) (hchain : recs.IsChain (Spaced o.windowMarkSize))
    (h : ∀ i, IsQueue o i → QueueInv o.windowMarkSize recs c (max (t i) (foundMax x.2 i)) (n i)
      logon (x.1.sendQueues i) i)
    (hok : NumberOk o t x seq) (hy : Resend.lookup Session.getSentMsg x seq = some y) :
    ∀ i, IsQueue o i → QueueInv o.windowMarkSize recs c (max (t i) (foundMax y.2 i)) (n i)
      logon (y.1.sendQueues i) i := by
  obtain ⟨⟨s, r⟩, hs, rfl⟩ := Option.map_eq_some_iff.mp hy
  rcases Session.getSentMsg_eq_some.mp hs with ⟨-, rfl, rfl⟩ | ⟨q, d, hres, rfl, rfl⟩
  · simpa using h
  · intro i hi
    have hsnd := SendQueue.getSentMsg_snd (x.1.sendQueues q) d
    have hmax : foundMax (x.2 ++ ((((x.1.sendQueues q).getSentMsg d).2.map
        fun info => (q, info)).toList)) i =
        max (foundMax x.2 i) (if q = i then found (x.1.sendQueues q) d else 0) := by
      rw [foundMax_append, hsnd]
      unfold found
      by_cases hslot : ((x.1.sendQueues q).msgsQueue (d % (x.1.sendQueues q).qSize)).dataSeq = d
      · simp [hslot, foundMax]
      · simp [hslot, foundMax]
    simp only [Session.setQueue_sendQueues, hmax]
    by_cases hqi : q = i
    · subst hqi
      have hl := hok q d hres
      rw [hrecs] at hl
      rw [Function.update_self, if_pos rfl, ← max_assoc]
      exact (h q hi).lookup hi.ne_zero hchain hl
    · rw [Function.update_of_ne (Ne.symm hqi), if_neg hqi, Nat.max_zero]
      exact h i hi

lemma resend_inv (h : Inv o M files sent p) {b e : UInt64} {ok : ℕ → Bool} {s : Session}
    {outs : List (Out (ℕ × SendQueueInfo) × Bool)} (hok : ActOk o sent p (.resend b e ok))
    (hr : resendLoop Session.getSentMsg (fun k => ok (p.wire.length + k))
      (p.resendEnd e.toNat) (rounds b.toNat (p.resendEnd e.toNat)) p.session b.toNat b.toNat [] =
        some (s, outs))
    (hnum : Numbering o (Session.startSeq o M files) files.seqsSent p') (hs : p'.session = s)
    (hw : p'.wire = p.wire ++ outs.map SocketConnector.resendPacket)
    (hl : p'.logonSent = p.logonSent) : Inv o M files sent p' := by
  obtain ⟨hall, hmeets⟩ := hok
  have hsame := Resend.resendLoop_same (UInt64.toNat_lt _) hr
  rw [show (fun k => ok (p.wire.length + k)) = fun _ => true from funext fun k => hall _] at hr
  obtain ⟨hend, hfirst⟩ := Resend.rounds_end (UInt64.toNat_lt b) (p.resendEnd_lt e.toNat)
  obtain ⟨n, hn⟩ : ∃ n, rounds b.toNat (p.resendEnd e.toNat) = n + 1 := ⟨_, rfl⟩
  rw [hn] at hr hend hfirst hmeets
  have hrun := Resend.resendLoop_run (UInt64.toNat_lt b) hend
    (fun k h0 hk => hfirst k h0 (by omega)) hr
  -- every lookup keeps the queues, and leaves the marks alone
  have hqueues := (run_induct
    (P := fun x => p.session.SameButHeads x.1 ∧ ∀ i, IsQueue o i →
      QueueInv o.windowMarkSize p.session.pManager.seqsSent p.session.msgSeq
        (max (transmitted (sent ++ p.wire) i) (foundMax x.2 i))
        (p.session.pManager.dataQueue i).length (p.logonSent = true) (x.1.sendQueues i) i)
    (fun x seq y hx hseq hy => by
      obtain ⟨⟨t, r⟩, ht, rfl⟩ := Option.map_eq_some_iff.mp hy
      exact ⟨hx.1.trans (Session.getSentMsg_same ht),
        lookup_queues (by rw [hx.1.pManager]) h.chain hx.2 hseq hy⟩)
    ⟨.refl p.session, by simpa [foundMax] using h.queue⟩ hmeets hrun).2
  subst hs
  refine ⟨hnum, ?_, ?_, ?_, fun i hi => ?_⟩
  · rw [hsame.pManager]; exact h.chain
  · rw [hsame.pManager, hsame.msgSeq]; exact h.next
  · rw [hsame.pManager, hsame.msgSeq, hl]; exact h.jump
  · rw [hsame.pManager, hsame.msgSeq, hl, hw, ← List.append_assoc, transmitted_append,
      transmitted_resend]
    exact hqueues i hi

/-- **Every step that meets its condition keeps the queues counted.** -/
lemma step_inv (hW : 1 ≤ o.windowMarkSize) {a : Act} (h : Inv o M files sent p)
    (hok : ActOk o sent p a) (hs : step o p a = some p') : Inv o M files sent p' := by
  have hnum := step_numbering h.numbering hs
  obtain ⟨new, he, hw, hl, hl'⟩ := step_effect hs
  generalize hsess : p'.session = s at he
  -- a step that sends nothing and is no Logon
  have hquiet : p'.wire = p.wire → p'.logonSent = p.logonSent →
      p'.session.msgSeq = p.session.msgSeq →
      p'.session.pManager.seqsSent = p.session.pManager.seqsSent →
      (∀ i, IsQueue o i → QueueInv o.windowMarkSize p.session.pManager.seqsSent p.session.msgSeq
        (transmitted (sent ++ p.wire) i) (p'.session.pManager.dataQueue i).length
        (p.logonSent = true) (p'.session.sendQueues i) i) → Inv o M files sent p' := by
    intro hwire hlogon hc hf hq
    refine ⟨hnum, ?_, ?_, ?_, fun i hi => ?_⟩
    · rw [hf]; exact h.chain
    · rw [hf, hc]; exact h.next
    · rw [hf, hc, hlogon]; exact h.jump
    · rw [hf, hc, hlogon, hwire]
      exact hq i hi
  have hlogon : (∀ junk ok, a ≠ .logon junk ok) → p'.logonSent = p.logonSent := by
    intro ha
    cases hb : p.logonSent with
    | true => exact hl hb
    | false =>
      by_contra hne
      rcases hl' (by simpa using hne) with h1 | ⟨junk, ok, h1⟩
      · rw [hb] at h1
        cases h1
      · exact ha junk ok h1
  cases he with
  | @addMsg i data q hi hq =>
    refine hquiet (by simpa using hw) (hlogon fun _ _ he => by cases he) (by rw [hsess]; rfl)
      (by rw [hsess]; rfl) fun j hj => ?_
    rw [hsess]
    by_cases hij : j = i
    · subst hij
      simpa [PManager.writeData, Session.setQueue] using (h.queue j hj).add hq
    · simpa [PManager.writeData, Session.setQueue, hij] using h.queue j hj
  | reconnect =>
    refine hquiet (by simpa using hw) (hlogon fun _ _ he => by cases he) (by rw [hsess])
      (by rw [hsess]) ?_
    rw [hsess]
    exact h.queue
  | @poll i q hq hh =>
    refine hquiet (by simpa using hw) (hlogon fun _ _ he => by cases he) (by rw [hsess]; rfl)
      (by rw [hsess]; rfl) fun j hj => ?_
    rw [hsess]
    by_cases hij : j = i
    · subst hij
      simpa [Session.setQueue] using (h.queue j hj).same hq hh
    · simpa [Session.setQueue, hij] using h.queue j hj
  | logon =>
    cases hok
    exact sendSession_inv h hnum hsess hw (by cases hs; rfl)
  | session hb =>
    cases hok
    exact sendSession_inv h hnum hsess hw (hl hb)
  | data hb hi hinfo =>
    obtain ⟨hok, hheld, hnear⟩ := hok
    cases hok
    exact sendData_inv hW h hi hinfo hheld hb hnear hnum hsess hw (hl hb)
  | resend hb hr => exact resend_inv h hok hr hnum hsess hw (hlogon fun _ _ he => by cases he)

/-! ### Across restarts -/

structure Left (o : SessionOption) (w : World) : Prop where
  chain : w.files.seqsSent.IsChain (Spaced o.windowMarkSize)
  pos : w.files.seqsSent ≠ [] → 1 ≤ lastNum w.files.seqsSent
  disk : ∀ i, IsQueue o i → OnDisk o.windowMarkSize w.files.seqsSent (transmitted w.sent i)
    (w.files.dataQueue i).length i

lemma init_head (files : PManager) (lastQ : ℤ) (i : ℕ) :
    ((Session.init o M files lastQ).sendQueues i).headDataSeq =
      headAt (lastSeqsOf files.seqsSent i).toNat (files.dataQueue i).length :=
  Session.init_headDataSeq o M files lastQ i

lemma boot_inv (hW : 1 ≤ o.windowMarkSize) {w : World} (lastQ : ℤ) (h : Left o w)
    (hc : ∀ i, IsQueue o i → Counted o.windowMarkSize w.files.seqsSent (transmitted w.sent i)
      (w.files.dataQueue i).length i) : Inv o M w.files w.sent (boot o M w.files lastQ) := by
  have hstart : w.files.seqsSent ≠ [] →
      Session.startSeq o M w.files = lastNum w.files.seqsSent + o.windowMarkSize + 1 := by
    intro hne
    have hpos := h.pos hne
    obtain ⟨recs, r, hr⟩ := (List.eq_nil_or_concat' w.files.seqsSent).resolve_left hne
    rw [hr, lastNum_concat] at hpos ⊢
    exact Session.startSeq_of_concat o M hr hpos
  refine ⟨boot_numbering w.files lastQ, h.chain, fun hne => ?_, fun _ => hstart, fun i hi => ?_⟩
  · change _ < Session.startSeq o M w.files ∧ Session.startSeq o M w.files ≤ _
    rw [hstart hne]
    simp only [boot, Session.init]
    omega
  · have hd := h.disk i hi
    have hwin := (inWindow_iff_counted hW hi.ne_zero h.chain hd).mpr (hc i hi)
    have hhead := init_head (o := o) (M := M) w.files lastQ i
    refine ⟨Session.init_dataSeq o M _ _ _, (Session.init_recoverDataSeq o M _ _ _).le, ?_,
      Session.init_slot_le o M _ _ _, ?_, ?_, fun hb => by cases hb⟩
    · rw [boot, hhead]
      exact headAt_le _ _
    · simp only [boot, hhead, List.append_nil]
      exact (Nat.le_succ _).trans ((Nat.add_comm _ _).trans_le hwin.2)
    · simp only [boot, List.append_nil]
      exact hd

lemma lifeStep_left (hW : 1 ≤ o.windowMarkSize) {w w' : World} {l : Life} (h : Left o w)
    (hok : LifeOk o M w l) (hl : lifeStep o M w l = some w') : Left o w' := by
  obtain ⟨hc, hmeets, hcut⟩ := hok
  obtain ⟨p, files, hp, hf, rfl⟩ := lifeStep_eq_some.mp hl
  have hinv : Inv o M w.files w.sent p :=
    run_induct (fun _ _ _ hq ha hs => step_inv hW hq ha hs) (boot_inv hW l.lastQ h hc) hmeets hp
  have hpos : p.session.pManager.seqsSent ≠ [] → 1 ≤ lastNum p.session.pManager.seqsSent := by
    intro hne
    cases hb : p.logonSent with
    | true => exact (hinv.numbering.after hb).pos
    | false =>
      have hrecs := (hinv.numbering.before hb).2.1
      rw [hrecs] at hne ⊢
      exact h.pos hne
  rcases crash_cases hf with ⟨-, rfl⟩ | ⟨c, msg, hcs, hm, hseq, hlogon, rfl⟩
  · exact ⟨hinv.chain, hpos, fun i hi => (hinv.queue i hi).disk⟩
  · cases hmark : p.session.marksSeq o msg.qIndex msg.seq with
    | false =>
      rw [afterSend_pManager, if_neg (by simp [hmark])]
      exact ⟨hinv.chain, hpos, fun i hi => (hinv.queue i hi).disk⟩
    | true =>
      rw [afterSend_pManager, if_pos hmark]
      refine ⟨?_, fun _ => ?_, fun i hi => ?_⟩
      · simp only [writeSeqSent_seqsSent]
        exact chain_concat hinv.chain fun hne => by simpa [hseq] using hinv.next hne
      · simp only [writeSeqSent_seqsSent, lastNum_concat, hseq]
        exact hinv.numbering.pos
      · have hq := hinv.queue i hi
        simp only [writeSeqSent_seqsSent, writeSeqSent_dataQueue]
        by_cases hqi : msg.qIndex = i
        · -- the mark names a message of the queue that was not sent: it was sent before
          cases c with
          | session junk =>
            cases hm
            exact absurd hqi.symm hi.ne_zero
          | data j =>
            simp only [Cut.msg] at hm
            split at hm
            · obtain ⟨info, hinfo, rfl⟩ := Option.map_eq_some_iff.mp hm
              have hcut' := hcut p hp
              rw [hcs] at hcut'
              have hji : j = i := hqi
              subst hji
              obtain ⟨hsent, hwin⟩ := hcut' (hseq ▸ hmark) info hinfo
              exact onDisk_ownMark hq.disk.file rfl hsent hwin
            · cases hm
        · exact hq.onDisk_other hi.ne_zero hqi hseq (fun hne => (hinv.next hne).1) hinv.jump

/-- One process that sends a message of the queue, and for a ResendRequest also the one that still
waits behind it. -/
def askedAhead : Life :=
  ⟨0, [.logon 0 true, .addMsg 1 [], .addMsg 1 [], .data 1 true, .resend 3 3 fun _ => true], none⟩

def windowOne : SessionOption := { SessionOption.oneQueue with windowMarkSize := 1 }

/-- Three messages are added and one is sent, and a second process sends its Logon only. -/
def crashedTwice : List Life :=
  [⟨0, [.logon 0 true, .addMsg 1 [], .addMsg 1 [], .addMsg 1 [], .data 1 true], none⟩,
    ⟨0, [.logon 0 true], none⟩]

end Ufix.Recovery
