import Ufix.Memory
import Ufix.SentLog

/-!
A session that was never restarted and whose sends all succeed.

Its new messages are a log in order. Every message has a mark that governs it, and the marks in
memory are the ring of the marks on disk.
-/

namespace Ufix.SingleProcess

open Ufix.Runs Ufix.Sender Ufix.Marks Ufix.History Ufix.SentLog PManager

/-- A queue with nothing recovered, whose pending messages are all in their slots. -/
structure Fresh (q : SendQueue) : Prop where
  recover : q.recoverDataSeq = 1
  pos : 1 ≤ q.headDataSeq
  le : q.headDataSeq ≤ q.dataSeq
  max : q.qMaxMsgs ≤ q.qSize
  room : q.dataSeq ≤ q.headDataSeq + q.qSize
  held : ∀ d, q.headDataSeq ≤ d → d < q.dataSeq → (q.msgsQueue (d % q.qSize)).dataSeq = d

def Taken : Act → Prop
  | .logon _ ok => ok = true
  | .session _ ok => ok = true
  | .data _ ok => ok = true
  | _ => True

instance : DecidablePred Taken
  | .logon _ ok | .session _ ok | .data _ ok => inferInstanceAs (Decidable (ok = true))
  | .addMsg _ _ | .reconnect | .poll _ | .resend _ _ _ => inferInstanceAs (Decidable True)

variable {o : SessionOption} {M : ℕ} {p p' : SocketConnector}

/-! ### The queues -/

lemma fresh_addMsg {q q' : SendQueue} {data : List Byte} (h : Fresh q)
    (hq : q.addMsg data = some q') : Fresh q' ∧ q'.headDataSeq = q.headDataSeq := by
  obtain ⟨h1, h2, h3, h4, h5, h6⟩ := h
  obtain ⟨hroom, rfl⟩ := SendQueue.addMsg_eq_some.mp hq
  refine ⟨⟨h1, h2, ?_, h4, ?_, fun d hd hlt => ?_⟩, rfl⟩
  · simp only
    omega
  · simp only
    omega
  · simp only at hd hlt ⊢
    rcases Nat.lt_or_ge d q.dataSeq with hlt' | hge
    · -- another slot: the two numbers differ by less than the size
      have hne : d % q.qSize ≠ q.dataSeq % q.qSize :=
        Memory.mod_ne_of_lt hlt' (by omega)
      rw [Function.update_of_ne hne]
      exact h6 d hd hlt'
    · have : d = q.dataSeq := by omega
      rw [this, Function.update_self]

lemma Fresh.same {q q' : SendQueue} (h : Fresh q) (hs : q.SameMsgs q')
    (hh : q'.headDataSeq = q.headDataSeq) : Fresh q' := by
  obtain ⟨h1, h2, h3, h4, h5, h6⟩ := h
  constructor
  · rw [hs.recoverDataSeq, h1]
  · rw [hh]; exact h2
  · rw [hh, hs.dataSeq]; exact h3
  · rw [hs.qMaxMsgs, hs.qSize]; exact h4
  · rw [hh, hs.dataSeq, hs.qSize]; exact h5
  · rw [hh, hs.dataSeq, hs.msgsQueue, hs.qSize]; exact h6

lemma Fresh.markMsgSent {q : SendQueue} (h : Fresh q) (hne : q.dataSeq ≠ q.headDataSeq) :
    Fresh q.markMsgSent := by
  obtain ⟨h1, h2, h3, h4, h5, h6⟩ := h
  refine ⟨h1, ?_, ?_, h4, ?_, fun d hd hlt => h6 d ?_ hlt⟩ <;>
    simp only [SendQueue.markMsgSent] at * <;> omega

/-- A queue without a file starts fresh, whatever marks there are. -/
lemma fresh_init {files : PManager} {i : ℕ} (hfiles : files.dataQueue i = []) (lastQ : ℤ) :
    Fresh ((Session.init o M files lastQ).sendQueues i) ∧
      ((Session.init o M files lastQ).sendQueues i).headDataSeq = 1 := by
  have hh : ((Session.init o M files lastQ).sendQueues i).headDataSeq = 1 := by
    rw [Session.init_headDataSeq, hfiles, List.length_nil]
    split <;> omega
  have hd := Session.init_dataSeq o M files lastQ i
  have hr := Session.init_recoverDataSeq o M files lastQ i
  simp only [hfiles, List.length_nil, Nat.zero_add] at hd hr
  refine ⟨⟨hr, hh.ge, ?_, ?_, ?_, fun d h1 h2 => ?_⟩, hh⟩
  · rw [hh, hd]
  · have hs := SendQueue.markSeqSent_same (Session.initSendQueue o files i)
      ((files.readSentMarks (SentMark.new M)).lastSeqs i).toNat
    simp only [Session.init]
    rw [hs.qMaxMsgs, hs.qSize]
    simp only [Session.initSendQueue, hfiles]
    split
    · simp only [SendQueue.setOpen, SendQueue.new, SendQueue.recoverData, List.foldl_nil,
        SendQueue.blank]
      omega
    · split <;>
      · simp only [SendQueue.setOpen, SendQueue.setClose, SendQueue.new, SendQueue.recoverData,
          List.foldl_nil, SendQueue.blank]
        omega
  · omega
  · omega

/-! ### The session -/

/-- The mark that governs a message: the youngest one not above its number, of its queue, less
than a window away, with no message of another queue in between. -/
def Governs (W : ℕ) (recs : List SeqSentInfo) (l : List Packet) (r : SeqSentInfo)
    (pk : Packet) : Prop :=
  r.msgSeq ≤ pk.msg.seq ∧ pk.msg.seq < r.msgSeq + W ∧
    (∀ r' ∈ recs, r'.msgSeq ≤ pk.msg.seq → r'.msgSeq ≤ r.msgSeq) ∧
    (∀ a ∈ l, r.msgSeq ≤ a.msg.seq → a.msg.seq ≤ pk.msg.seq → a.msg.qIndex = r.qIndex) ∧
    (r.qIndex = queueSession → r.msgSeq = pk.msg.seq)

structure Sent (o : SessionOption) (M : ℕ) (p : SocketConnector) : Prop where
  numbering : Numbering o 1 [] p
  inOrder : InOrder (news p.wire)
  next : p.session.msgSeq = (news p.wire).length + 1
  marks : p.session.sentMarks = SentMark.ofRecords M p.session.pManager.seqsSent
  sorted : p.session.pManager.seqsSent.Pairwise fun a b => a.msgSeq < b.msgSeq
  recs : ∀ r ∈ p.session.pManager.seqsSent,
    ∃ pk ∈ news p.wire, r = ⟨pk.msg.qIndex, pk.msg.seq, pk.msg.dataSeq⟩
  governed : ∀ pk ∈ news p.wire, ∃ r ∈ p.session.pManager.seqsSent,
    Governs o.windowMarkSize p.session.pManager.seqsSent (news p.wire) r pk
  queue : ∀ i, Fresh (p.session.sendQueues i)
  head : ∀ i, i ≠ 0 → (p.session.sendQueues i).headDataSeq = countOf i (news p.wire) + 1

lemma Sent.recs_lt (h : Sent o M p) {r : SeqSentInfo}
    (hr : r ∈ p.session.pManager.seqsSent) : r.msgSeq < p.session.msgSeq := by
  obtain ⟨pk, hpk, rfl⟩ := h.recs r hr
  have := (h.inOrder.seq_le hpk).2
  have := h.next
  simp only
  omega

lemma Sent.recs_inj (h : Sent o M p) {r r' : SeqSentInfo}
    (hr : r ∈ p.session.pManager.seqsSent) (hr' : r' ∈ p.session.pManager.seqsSent)
    (he : r.msgSeq = r'.msgSeq) : r = r' := by
  obtain ⟨a, ha, rfl⟩ := h.recs r hr
  obtain ⟨b, hb, rfl⟩ := h.recs r' hr'
  rw [h.inOrder.seq_inj ha hb he]

lemma Sent.le_lastNum (h : Sent o M p) {r : SeqSentInfo}
    (hr : r ∈ p.session.pManager.seqsSent) : r.msgSeq ≤ lastNum p.session.pManager.seqsSent := by
  have hsorted := h.sorted
  obtain ⟨pre, x, hx⟩ := (List.eq_nil_or_concat' _).resolve_left (List.ne_nil_of_mem hr)
  rw [hx] at hr hsorted ⊢
  rw [lastNum_concat]
  rcases List.mem_append.mp hr with hr | hr
  · exact ((List.pairwise_append.mp hsorted).2.2 r hr x (by simp)).le
  · rw [List.mem_singleton.mp hr]

/-- The last mark governs the last message. -/
lemma Sent.last_mark (h : Sent o M p) (hm : Marked o p.session) :
    ∃ r ∈ p.session.pManager.seqsSent, r.msgSeq = lastNum p.session.pManager.seqsSent ∧
      r.qIndex = lastQueue p.session.pManager.seqsSent ∧
      ∀ a ∈ news p.wire, r.msgSeq ≤ a.msg.seq → a.msg.qIndex = r.qIndex := by
  obtain ⟨pre, r, hr⟩ := (List.eq_nil_or_concat' p.session.pManager.seqsSent).resolve_left hm.ne
  have hmem : r ∈ p.session.pManager.seqsSent := by rw [hr]; simp
  refine ⟨r, hmem, by rw [hr, lastNum_concat], by rw [hr, lastQueue_concat], fun a ha hra => ?_⟩
  have hlt := h.recs_lt hmem
  have hnext := h.next
  have hpos := h.inOrder.seq_le ha
  obtain ⟨pk, hpk, hseq⟩ := h.inOrder.exists_seq (n := (news p.wire).length) (by omega) le_rfl
  obtain ⟨r', hr', h1, -, h3, h4, -⟩ := h.governed pk hpk
  have hle : r'.msgSeq ≤ r.msgSeq := by
    have := h.le_lastNum hr'
    rwa [hr, lastNum_concat] at this
  have hge := h3 r hmem (by omega)
  have : r' = r := h.recs_inj hr' hmem (by omega)
  subst this
  exact h4 a ha hra (by omega)

/-! ### What a step keeps -/

lemma Governs.concat {W : ℕ} {recs recs' : List SeqSentInfo} {l : List Packet} {r : SeqSentInfo}
    {a pk : Packet} (hlt : a.msg.seq < pk.msg.seq)
    (hrecs : ∀ r' ∈ recs', r' ∈ recs ∨ r'.msgSeq = pk.msg.seq) (h : Governs W recs l r a) :
    Governs W recs' (l ++ [pk]) r a := by
  obtain ⟨h1, h2, h3, h4, h5⟩ := h
  refine ⟨h1, h2, fun r' hr' hle => ?_, fun b hb hrb hba => ?_, h5⟩
  · rcases hrecs r' hr' with hr' | hr'
    · exact h3 r' hr' hle
    · omega
  · rcases List.mem_append.mp hb with hb | hb
    · exact h4 b hb hrb hba
    · rw [List.mem_singleton.mp hb] at hba
      omega

/-- A new message with a mark of its own is governed by it. -/
lemma governed_marked (hW : 1 ≤ o.windowMarkSize) (h : Sent o M p) {pk : Packet}
    (hlt : ∀ a ∈ news p.wire, a.msg.seq < pk.msg.seq) {recs : List SeqSentInfo}
    (hrecs : recs = p.session.pManager.seqsSent ++ [⟨pk.msg.qIndex, pk.msg.seq, pk.msg.dataSeq⟩])
    {a : Packet} (ha : a ∈ news p.wire ++ [pk]) :
    ∃ r ∈ recs, Governs o.windowMarkSize recs (news p.wire ++ [pk]) r a := by
  subst hrecs
  rcases List.mem_append.mp ha with ha | ha
  · obtain ⟨r, hr, hg⟩ := h.governed a ha
    refine ⟨r, List.mem_append_left _ hr, hg.concat (hlt a ha) fun r' hr' => ?_⟩
    rcases List.mem_append.mp hr' with hr' | hr'
    · exact Or.inl hr'
    · rw [List.mem_singleton.mp hr']
      exact Or.inr rfl
  · rw [List.mem_singleton.mp ha]
    refine ⟨_, List.mem_append_right _ (List.mem_singleton_self _), le_rfl, ?_,
      fun _ _ h' => h', fun b hb h1 _ => ?_, fun _ => rfl⟩
    · simp only
      omega
    · rcases List.mem_append.mp hb with hb | hb
      · have := hlt b hb
        simp only at h1
        omega
      · rw [List.mem_singleton.mp hb]

/-- A new message without a mark goes on where the last mark left off. -/
lemma governed_unmarked (h : Sent o M p) {pk : Packet}
    (hlt : ∀ a ∈ news p.wire, a.msg.seq < pk.msg.seq) (hm : Marked o p.session)
    (hq : pk.msg.qIndex = lastQueue p.session.pManager.seqsSent)
    (h0 : pk.msg.qIndex ≠ queueSession)
    (hge : lastNum p.session.pManager.seqsSent ≤ pk.msg.seq)
    (hnear : pk.msg.seq < lastNum p.session.pManager.seqsSent + o.windowMarkSize)
    {a : Packet} (ha : a ∈ news p.wire ++ [pk]) :
    ∃ r ∈ p.session.pManager.seqsSent,
      Governs o.windowMarkSize p.session.pManager.seqsSent (news p.wire ++ [pk]) r a := by
  rcases List.mem_append.mp ha with ha | ha
  · obtain ⟨r, hr, hg⟩ := h.governed a ha
    exact ⟨r, hr, hg.concat (hlt a ha) fun r' hr' => Or.inl hr'⟩
  · rw [List.mem_singleton.mp ha]
    obtain ⟨r, hr, hrn, hrq, hall⟩ := h.last_mark hm
    refine ⟨r, hr, by rwa [hrn], by rwa [hrn], fun r' hr' _ => ?_, fun b hb h1 _ => ?_,
      fun hs => ?_⟩
    · rw [hrn]
      exact h.le_lastNum hr'
    · rcases List.mem_append.mp hb with hb | hb
      · exact hall b hb h1
      · rw [List.mem_singleton.mp hb, hrq, hq]
    · rw [hrq, ← hq] at hs
      exact absurd hs h0

/-- A new message that continues the log. -/
lemma send_sent (hW : 1 ≤ o.windowMarkSize) (h : Sent o M p) {msg : WMsg}
    (hnum : Numbering o 1 [] p') (hl : p'.logonSent = true)
    (hlogon : p.logonSent = true ∨ msg.qIndex = queueSession)
    (hn : NextOf (news p.wire) ⟨msg, true, true⟩)
    (hw : p'.wire = p.wire ++ [⟨msg, true, true⟩])
    (hc : p'.session.msgSeq = (afterSend o p.session msg true).msgSeq)
    (hf : p'.session.pManager.seqsSent = (afterSend o p.session msg true).pManager.seqsSent)
    (ht : p'.session.sentMarks = (afterSend o p.session msg true).sentMarks)
    (hq : ∀ i, Fresh (p'.session.sendQueues i))
    (hh : ∀ i, i ≠ 0 → (p'.session.sendQueues i).headDataSeq =
      countOf i (news p.wire ++ [⟨msg, true, true⟩]) + 1) : Sent o M p' := by
  have hseq : msg.seq = p.session.msgSeq := hn.1.trans h.next.symm
  have hnews : news p'.wire = news p.wire ++ [⟨msg, true, true⟩] := by rw [hw, news_append]; rfl
  have hc' : p'.session.msgSeq = p.session.msgSeq + 1 := by rw [hc, afterSend_msgSeq, if_pos rfl]
  have hin : InOrder (news p'.wire) := by rw [hnews]; exact h.inOrder.concat hn
  have hnext : p'.session.msgSeq = (news p'.wire).length + 1 := by
    rw [hc', hnews, List.length_append, List.length_singleton, h.next]
  have hlt : ∀ a ∈ news p.wire, a.msg.seq < msg.seq := by
    intro a ha
    have := (h.inOrder.seq_le ha).2
    have := h.next
    omega
  cases hm : p.session.marksSeq o msg.qIndex msg.seq with
  | true =>
    have hrecs : p'.session.pManager.seqsSent =
        p.session.pManager.seqsSent ++ [⟨msg.qIndex, msg.seq, msg.dataSeq⟩] := by
      rw [hf, afterSend_pManager, if_pos hm]
      rfl
    refine ⟨hnum, hin, hnext, ?_, ?_, fun r hr => ?_, fun a ha => ?_, hq, ?_⟩
    · rw [ht, afterSend_sentMarks, if_pos hm, h.marks, hrecs, SentMark.ofRecords_concat]
    · rw [hrecs, List.pairwise_append]
      refine ⟨h.sorted, List.pairwise_singleton _ _, fun r hr r' hr' => ?_⟩
      rw [List.mem_singleton.mp hr']
      have := h.recs_lt hr
      simp only
      omega
    · rw [hrecs] at hr
      rw [hnews]
      rcases List.mem_append.mp hr with hr | hr
      · obtain ⟨pk, hpk, he⟩ := h.recs r hr
        exact ⟨pk, List.mem_append_left _ hpk, he⟩
      · exact ⟨_, List.mem_append_right _ (List.mem_singleton_self _), List.mem_singleton.mp hr⟩
    · rw [hnews] at ha ⊢
      exact governed_marked hW h hlt hrecs ha
    · rw [hnews]
      exact hh
  | false =>
    have hrecs : p'.session.pManager.seqsSent = p.session.pManager.seqsSent := by
      rw [hf, afterSend_pManager, if_neg (by simp [hm])]
    have hmarked : Marked o p.session := by
      rcases hlogon with hb | hb
      · exact h.numbering.after hb
      · rw [hb, marksSeq_session] at hm
        cases hm
    obtain ⟨hlast, h0, -⟩ := hmarked.of_not_marksSeq hm
    refine ⟨hnum, hin, hnext, ?_, ?_, fun r hr => ?_, fun a ha => ?_, hq, ?_⟩
    · rw [ht, afterSend_sentMarks, if_neg (by simp [hm]), h.marks, hrecs]
    · rw [hrecs]
      exact h.sorted
    · rw [hrecs] at hr
      rw [hnews]
      obtain ⟨pk, hpk, he⟩ := h.recs r hr
      exact ⟨pk, List.mem_append_left _ hpk, he⟩
    · have hle := (hnum.after hl).msgSeq_le hW
      obtain ⟨r, hr, hrn, -⟩ := h.last_mark hmarked
      have hrlt := h.recs_lt hr
      rw [hc', hrecs] at hle
      rw [hnews] at ha ⊢
      rw [hrecs]
      exact governed_unmarked h hlt hmarked hlast h0 (by simp only; omega) (by simp only; omega) ha
    · rw [hnews]
      exact hh

lemma getSentMsg_eq_self {s t : Session} (h : ∀ i, Fresh (s.sendQueues i)) {seq : ℕ}
    {r : Option (ℕ × SendQueueInfo)} (hr : s.getSentMsg seq = some (t, r)) : t = s := by
  rcases Session.getSentMsg_eq_some.mp hr with ⟨-, ht, -⟩ | ⟨q, d, -, ht, -⟩
  · exact ht
  · rw [ht, SendQueue.getSentMsg_of_fresh (h q).recover (h q).pos]
    simp [Session.setQueue]

lemma resendLoop_eq_self {s t : Session} (h : ∀ i, Fresh (s.sendQueues i)) {ok : ℕ → Bool}
    {e n start : ℕ} {b : UInt64} {outs : List (Out (ℕ × SendQueueInfo) × Bool)}
    (hr : resendLoop Session.getSentMsg ok e n s b.toNat start [] = some (t, outs)) : t = s :=
  (Resend.resendLoop_inv (P := (· = s)) (Q := fun _ _ => True)
    (fun _ _ _ _ _ hs hr' => by
      subst hs
      exact ⟨getSentMsg_eq_self h hr', fun _ _ => trivial⟩)
    (UInt64.toNat_lt _) rfl (Resend.Msgs.nil _) hr).1

/-- Every step keeps the queues fresh, and only a message sent moves a head. -/
lemma effect_queues {a : Act} {s : Session} {new : List Packet}
    (h : ∀ i, Fresh (p.session.sendQueues i)) (he : Effect o p a s new) (j : ℕ) :
    Fresh (s.sendQueues j) ∧ ((∀ i ok, a ≠ .data i ok) →
      (s.sendQueues j).headDataSeq = (p.session.sendQueues j).headDataSeq) := by
  cases he with
  | @addMsg i data q hi hq =>
    simp only [Session.setQueue]
    by_cases hij : j = i
    · subst hij
      rw [Function.update_self]
      exact (fresh_addMsg (h j) hq).imp_right fun hh _ => hh
    · rw [Function.update_of_ne hij]
      exact ⟨h j, fun _ => rfl⟩
  | reconnect => exact ⟨h j, fun _ => rfl⟩
  | @poll i q hq hh =>
    simp only [Session.setQueue]
    by_cases hij : j = i
    · subst hij
      rw [Function.update_self]
      exact ⟨(h j).same hq hh, fun _ => hh⟩
    · rw [Function.update_of_ne hij]
      exact ⟨h j, fun _ => rfl⟩
  | logon =>
    rw [afterSend_sendQueues]
    exact ⟨h j, fun _ => rfl⟩
  | session =>
    rw [afterSend_sendQueues]
    exact ⟨h j, fun _ => rfl⟩
  | @data i ok info hb hi hinfo =>
    obtain ⟨hne, -⟩ := SendQueue.getMsg_eq_some.mp hinfo
    refine ⟨?_, fun hdata => absurd rfl (hdata i ok)⟩
    rw [Session.markMsgSent, Session.setQueue_sendQueues, afterSend_sendQueues]
    by_cases hij : j = i
    · rw [hij, Function.update_self]
      exact (h i).markMsgSent hne
    · rw [Function.update_of_ne hij]
      exact h j
  | resend hb hr =>
    rw [resendLoop_eq_self h hr]
    exact ⟨h j, fun _ => rfl⟩

lemma Sent.quiet (h : Sent o M p) (hnum : Numbering o 1 [] p')
    (hn : news p'.wire = news p.wire) (hc : p'.session.msgSeq = p.session.msgSeq)
    (hf : p'.session.pManager.seqsSent = p.session.pManager.seqsSent)
    (ht : p'.session.sentMarks = p.session.sentMarks)
    (hq : ∀ i, Fresh (p'.session.sendQueues i) ∧
      (p'.session.sendQueues i).headDataSeq = (p.session.sendQueues i).headDataSeq) :
    Sent o M p' := by
  refine ⟨hnum, ?_, ?_, ?_, ?_, ?_, ?_, fun i => (hq i).1, fun i hi => ?_⟩
  · rw [hn]; exact h.inOrder
  · rw [hn, hc]; exact h.next
  · rw [ht, hf]; exact h.marks
  · rw [hf]; exact h.sorted
  · rw [hf, hn]; exact h.recs
  · rw [hf, hn]; exact h.governed
  · rw [hn, (hq i).2]; exact h.head i hi

lemma session_sent (hW : 1 ≤ o.windowMarkSize) (h : Sent o M p) (hnum : Numbering o 1 [] p')
    (hl : p'.logonSent = true) {junk : ℕ}
    (hw : p'.wire = p.wire ++ [⟨p.sessionMsg junk, true, true⟩])
    (hs : p'.session = afterSend o p.session (p.sessionMsg junk) true) : Sent o M p' := by
  refine send_sent hW h hnum hl (Or.inr rfl) ⟨h.next, Or.inl ⟨rfl, rfl⟩⟩ hw (by rw [hs])
    (by rw [hs]) (by rw [hs]) (fun i => ?_) (fun i hi => ?_)
  · rw [hs, afterSend_sendQueues]
    exact h.queue i
  · rw [hs, afterSend_sendQueues, countOf_concat]
    have h0 : queueSession ≠ i := Ne.symm hi
    simp only [SocketConnector.sessionMsg, h0, if_false, Nat.add_zero]
    exact h.head i hi

lemma step_sent (hW : 1 ≤ o.windowMarkSize) {a : Act} (h : Sent o M p) (ha : Taken a)
    (hs : step o p a = some p') : Sent o M p' := by
  have hnum := step_numbering h.numbering hs
  obtain ⟨new, he, hw, hl, -⟩ := step_effect hs
  have hqueues := effect_queues h.queue he
  generalize hsess : p'.session = s at he hqueues
  cases he with
  | addMsg =>
    refine h.quiet hnum (by simp [hw]) (by rw [hsess]; rfl) (by rw [hsess]; rfl)
      (by rw [hsess]; rfl) fun j => ?_
    rw [hsess]
    exact (hqueues j).imp_right fun hh => hh (by simp)
  | reconnect =>
    refine h.quiet hnum (by simp [hw]) (by rw [hsess]) (by rw [hsess]) (by rw [hsess]) fun j => ?_
    rw [hsess]
    exact (hqueues j).imp_right fun hh => hh (by simp)
  | poll =>
    refine h.quiet hnum (by simp [hw]) (by rw [hsess]; rfl) (by rw [hsess]; rfl)
      (by rw [hsess]; rfl) fun j => ?_
    rw [hsess]
    exact (hqueues j).imp_right fun hh => hh (by simp)
  | logon =>
    cases ha
    exact session_sent hW h hnum (by cases hs; rfl) hw hsess
  | session hb =>
    cases ha
    exact session_sent hW h hnum (hl hb) hw hsess
  | @data i ok info hb hi hinfo =>
    cases ha
    obtain ⟨hne, hslot⟩ := SendQueue.getMsg_eq_some.mp hinfo
    have hq := h.queue i
    have hle := hq.le
    have hd : info.dataSeq = countOf i (news p.wire) + 1 := by
      rw [← h.head i hi.ne_zero, ← hslot]
      exact hq.held _ le_rfl (by omega)
    refine send_sent hW h hnum (hl hb) (Or.inl hb)
      ⟨h.next, Or.inr ⟨hi.ne_zero, hd, rfl⟩⟩ hw (by rw [hsess]; rfl) (by rw [hsess]; rfl)
      (by rw [hsess]; rfl) (fun j => ?_) (fun j hj => ?_)
    · rw [hsess]
      exact (hqueues j).1
    · rw [hsess, Session.markMsgSent, Session.setQueue_sendQueues, afterSend_sendQueues,
        countOf_concat]
      by_cases hij : j = i
      · rw [hij, Function.update_self, if_pos rfl]
        simp only [SendQueue.markMsgSent, h.head i hi.ne_zero]
      · rw [Function.update_of_ne hij, if_neg (Ne.symm hij), Nat.add_zero]
        exact h.head j hj
  | resend hb hr =>
    rw [resendLoop_eq_self h.queue hr] at hsess hqueues
    refine h.quiet hnum ?_ (by rw [hsess]) (by rw [hsess]) (by rw [hsess]) fun j => ?_
    · rw [hw, news_append, news_resend, List.append_nil]
    · rw [hsess]
      exact (hqueues j).imp_right fun hh => hh (by simp)

lemma boot_sent (lastQ : ℤ) : Sent o M (boot o M PManager.empty lastQ) := by
  have hnum := boot_numbering (o := o) (M := M) PManager.empty lastQ
  have hstart : Session.startSeq o M PManager.empty = 1 := Session.startSeq_of_nil o M rfl
  rw [hstart] at hnum
  refine ⟨hnum, inOrder_nil, hstart, ?_, List.Pairwise.nil, nofun, nofun,
    fun i => (fresh_init (i := i) rfl lastQ).1, fun i _ => (fresh_init (i := i) rfl lastQ).2⟩
  exact readSentMarks_marks PManager.empty M

/-- **Every run of a first process whose new messages all go out keeps its log.** -/
theorem run_sent (hW : 1 ≤ o.windowMarkSize) {lastQ : ℤ} {acts : List Act}
    (hok : ∀ a ∈ acts, Taken a)
    (hr : run (step o) (boot o M PManager.empty lastQ) acts = some p) : Sent o M p :=
  run_induct (fun _ _ _ hp ha hs => step_sent hW hp ha hs) (boot_sent lastQ)
    (meets_of_mem hok _) hr

end Ufix.SingleProcess
