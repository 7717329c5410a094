import Ufix.SingleProcess

/-!
What a lookup of a sent number finds, in a session that was never restarted.

A number without a mark is reconstructed from the youngest mark the ring still holds below it.
Near the counter this is the mark that governs the number; further back it may be an older one
of another queue, or none at all.
-/

namespace Ufix.Lookup

open Ufix.Runs Ufix.Sender Ufix.History Ufix.SentLog Ufix.SingleProcess PManager

variable {o : SessionOption} {M : ℕ} {p : SocketConnector}

/-- The youngest mark in the ring at or below a number. -/
def Youngest (t : SentMark) (s : ℕ) (r : SeqSentInfo) : Prop :=
  ∃ x ≤ s, t.getMark x = some r ∧ ∀ y, x < y → y ≤ s → t.getMark y = none

lemma getLastMark_succ {t : SentMark} {s : ℕ} {r : SeqSentInfo} :
    t.getLastMark (s + 1) = some r ↔ Youngest t s r := by
  rw [SentMark.getLastMark_eq_some]
  simp only [Youngest, Nat.lt_succ_iff]

lemma Youngest.unique {t : SentMark} {s : ℕ} {r r' : SeqSentInfo} (h : Youngest t s r)
    (h' : Youngest t s r') : r' = r := by
  have heq := (getLastMark_succ.mpr h').symm.trans (getLastMark_succ.mpr h)
  simpa using heq

lemma resolve_youngest {t : SentMark} {s : ℕ} {r : SeqSentInfo} (h : Youngest t s r) :
    Session.resolve t s = if r.qIndex = queueSession then .notData
      else .data r.qIndex (r.dataSeq + (s - r.msgSeq)) := by
  rw [Session.resolve_eq, getLastMark_succ.mpr h]
  obtain ⟨x, hx, hmark, -⟩ := h
  have hxr := SentMark.getMark_msgSeq hmark
  simp only
  split
  · rfl
  · congr 1
    omega

/-- Near the counter no mark is lost: the one that governs a message is the youngest found. -/
lemma youngest_of_governs (h : Sent o M p) {pk : Packet} {r : SeqSentInfo}
    (hr : r ∈ p.session.pManager.seqsSent)
    (hg : Governs o.windowMarkSize p.session.pManager.seqsSent (news p.wire) r pk)
    (hnear : p.session.msgSeq + o.windowMarkSize ≤ pk.msg.seq + M) :
    Youngest p.session.sentMarks pk.msg.seq r := by
  obtain ⟨h1, h2, h3, -, -⟩ := hg
  have hpos : 1 ≤ r.msgSeq := by
    obtain ⟨a, ha, rfl⟩ := h.recs r hr
    exact (h.inOrder.seq_le ha).1
  refine ⟨r.msgSeq, h1, ?_, fun y hy1 hy2 => ?_⟩
  · rw [h.marks]
    refine SentMark.getMark_ofRecords h.sorted hr fun r' hr' hmod => ?_
    have hlt := h.recs_lt hr'
    -- a younger mark in the slot would be a whole ring further on
    by_contra hgt
    exact Memory.mod_ne_of_lt (by omega) (by omega) hmod.symm
  · rw [h.marks]
    cases hy : (SentMark.ofRecords M p.session.pManager.seqsSent).getMark y with
    | none => rfl
    | some r' =>
      have hn := SentMark.getMark_msgSeq hy
      rcases SentMark.mem_of_getMark_ofRecords hy with hr' | ⟨h0, -⟩
      · have := h3 r' hr' (by omega)
        omega
      · omega

def threeSent : List Act :=
  [.logon 0 true, .addMsg 1 [], .addMsg 1 [], .addMsg 1 [], .data 1 true, .data 1 true,
    .data 1 true]

def afterThree : SocketConnector :=
  (run (step .oneQueue) (boot .oneQueue 64 PManager.empty 0) threeSent).get rfl

lemma run_afterThree :
    run (step .oneQueue) (boot .oneQueue 64 PManager.empty 0) threeSent = some afterThree :=
  (Option.some_get _).symm

/-- The lookup reads through no null mark, and what it returns has the number of the message that
was sent. -/
def FindsOwn (p : SocketConnector) (s : ℕ) : Prop :=
  ∃ t found, p.session.getSentMsg s = some (t, found) ∧
    ∀ q info, found = some (q, info) →
      ∃ pk ∈ news p.wire, pk.msg.seq = s ∧ pk.msg.content = .queued q info.dataSeq

/-- The youngest mark left below the number can stand for it: it marks a session message, or only
its queue sent between the two, or that queue has let go of the message it stands for. -/
def Stands (p : SocketConnector) (s : ℕ) (r : SeqSentInfo) : Prop :=
  r.qIndex = queueSession ∨
    (∀ pk ∈ news p.wire, r.msgSeq < pk.msg.seq → pk.msg.seq ≤ s → pk.msg.qIndex = r.qIndex) ∨
    let q := p.session.sendQueues r.qIndex
    let d := r.dataSeq + (s - r.msgSeq)
    (q.msgsQueue (d % q.qSize)).dataSeq ≠ d

lemma youngest_sent (h : Sent o M p) {s : ℕ} {r : SeqSentInfo}
    (hy : Youngest p.session.sentMarks s r) (hq : r.qIndex ≠ queueSession) :
    ∃ a ∈ news p.wire, r = ⟨a.msg.qIndex, a.msg.seq, a.msg.dataSeq⟩ ∧ a.msg.seq ≤ s := by
  obtain ⟨x, hx, hmark, -⟩ := hy
  have hxr := SentMark.getMark_msgSeq hmark
  rw [h.marks] at hmark
  rcases SentMark.mem_of_getMark_ofRecords hmark with hr | ⟨-, rfl⟩
  · obtain ⟨a, ha, rfl⟩ := h.recs r hr
    exact ⟨a, ha, rfl, by simp only at hxr; omega⟩
  · exact absurd rfl hq

/-- A lookup that resolves to a data message is right if the slot holds another message, or if
the number was sent with that one. -/
lemma findsOwn_data_iff {s q d : ℕ} (hres : Session.resolve p.session.sentMarks s = .data q d) :
    FindsOwn p s ↔
      (((p.session.sendQueues q).msgsQueue (d % (p.session.sendQueues q).qSize)).dataSeq = d →
        ∃ pk ∈ news p.wire, pk.msg.seq = s ∧ pk.msg.content = .queued q d) := by
  have hget : p.session.getSentMsg s = some
      (p.session.setQueue q ((p.session.sendQueues q).getSentMsg d).1,
      ((p.session.sendQueues q).getSentMsg d).2.map fun info => (q, info)) := by
    simp [Session.getSentMsg, hres]
  have hsnd := SendQueue.getSentMsg_snd (p.session.sendQueues q) d
  constructor
  · rintro ⟨t, found, hg, hfound⟩ hslot
    rw [hget, hsnd, if_pos hslot] at hg
    cases hg
    obtain ⟨pk, hpk, hpks, hpkc⟩ := hfound _ _ rfl
    exact ⟨pk, hpk, hpks, by rw [hpkc, hslot]⟩
  · intro h
    refine ⟨_, _, hget, fun q' info hfound => ?_⟩
    rw [hsnd] at hfound
    split at hfound
    · next hslot =>
      simp only [Option.map_some, Option.some.injEq, Prod.mk.injEq] at hfound
      obtain ⟨rfl, rfl⟩ := hfound
      rw [hslot]
      exact h hslot
    · cases hfound

/-- The message that a number was sent with is the one counted on from a mark before it, if and
only if only the mark's queue sent between the two. -/
lemma counted_iff (h : Sent o M p) {s : ℕ} (hs : s < p.session.msgSeq) {a : Packet}
    (ha : a ∈ news p.wire) (hq : a.msg.qIndex ≠ queueSession) (has : a.msg.seq ≤ s) :
    (∃ pk ∈ news p.wire, pk.msg.seq = s ∧
        pk.msg.content = .queued a.msg.qIndex (a.msg.dataSeq + (s - a.msg.seq))) ↔
      ∀ pk ∈ news p.wire, a.msg.seq < pk.msg.seq → pk.msg.seq ≤ s →
        pk.msg.qIndex = a.msg.qIndex := by
  have hnext := h.next
  obtain ⟨h1, -⟩ := h.inOrder.seq_le ha
  obtain ⟨b, hb, rfl⟩ := h.inOrder.exists_seq (n := s) (by omega) (by omega)
  rw [← h.inOrder.interpolate_iff ha hb hq has]
  constructor
  · rintro ⟨pk, hpk, hpks, hpkc⟩
    rw [h.inOrder.seq_inj hpk hb hpks, h.inOrder.queued_iff hb] at hpkc
    exact ⟨hpkc.2.1, by omega⟩
  · rintro ⟨h2, h3⟩
    refine ⟨b, hb, rfl, (h.inOrder.queued_iff hb).mpr ⟨h2 ▸ hq, h2, ?_⟩⟩
    omega

/-- **When the message found is the one sent**: the ring still holds a mark at or below the number,
and the youngest such mark can stand for it. -/
theorem findsOwn_iff (h : Sent o M p) {s : ℕ} (hs : s < p.session.msgSeq) :
    FindsOwn p s ↔ ∃ r, Youngest p.session.sentMarks s r ∧ Stands p s r := by
  cases hlast : p.session.sentMarks.getLastMark (s + 1) with
  | none =>
    have hres : Session.resolve p.session.sentMarks s = .null := by
      rw [Session.resolve_eq, hlast]
    constructor
    · rintro ⟨t, found, hget, -⟩
      simp [Session.getSentMsg, hres] at hget
    · rintro ⟨r, hr, -⟩
      rw [getLastMark_succ.mpr hr] at hlast
      cases hlast
  | some r =>
    have hy := getLastMark_succ.mp hlast
    have huniq : (∃ r, Youngest p.session.sentMarks s r ∧ Stands p s r) ↔ Stands p s r := by
      refine ⟨?_, fun hst => ⟨r, hy, hst⟩⟩
      rintro ⟨r', hr', hst⟩
      rwa [hy.unique hr'] at hst
    have hres := resolve_youngest hy
    rw [huniq]
    by_cases hq : r.qIndex = queueSession
    · rw [if_pos hq] at hres
      refine ⟨fun _ => Or.inl hq, fun _ => ⟨p.session, none, ?_, fun _ _ hn => by cases hn⟩⟩
      simp [Session.getSentMsg, hres]
    · rw [if_neg hq] at hres
      obtain ⟨a, ha, rfl, has⟩ := youngest_sent h hy hq
      rw [findsOwn_data_iff hres, counted_iff h hs ha hq has]
      simp only [Stands, hq, false_or]
      rw [imp_iff_not_or, or_comm]

def twoQueues : SessionOption :=
  { SessionOption.oneQueue with numSendQueues := 2, windowMarkSize := 2 }

/-- Number `3` is the first message of queue `2`, the numbers around it are of queue `1`. -/
def queueInBetween : List Act :=
  [.addMsg 1 [], .addMsg 1 [], .addMsg 1 [], .addMsg 1 [], .addMsg 1 [], .addMsg 1 [],
    .addMsg 2 [], .addMsg 2 [], .addMsg 2 [], .logon 0 true, .data 1 true, .data 2 true,
    .data 1 true, .data 1 true, .data 1 true, .data 1 true, .data 1 true]

end Ufix.Lookup
