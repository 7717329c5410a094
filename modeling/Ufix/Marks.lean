import Ufix.Sender

/-!
What the last mark says about the message counter.

From the first message of a process on, a number is left without a mark only if its message
came from the queue of the last mark and the number is no multiple of the window. So the
counter is never more than a window past the last mark.
-/

namespace Ufix.Marks

open Ufix.Runs Ufix.Sender PManager

/-- `last_q_index_sent` is the queue of the last mark, and no multiple of the window lies
between its number and the counter. -/
structure Marked (o : SessionOption) (s : Session) : Prop where
  ne : s.pManager.seqsSent ≠ []
  lastQ : s.lastQIndexSent = lastQueue s.pManager.seqsSent
  pos : 1 ≤ lastNum s.pManager.seqsSent
  le : lastNum s.pManager.seqsSent ≤ s.msgSeq
  gap : ∀ n, lastNum s.pManager.seqsSent < n → n < s.msgSeq → n % o.windowMarkSize ≠ 0

variable {o : SessionOption} {M : ℕ}

lemma exists_multiple {W : ℕ} (hW : 1 ≤ W) (m : ℕ) : ∃ n, m < n ∧ n ≤ m + W ∧ n % W = 0 := by
  have hlt := Nat.mod_lt m hW
  have hdiv := Nat.div_add_mod m W
  refine ⟨W * (m / W + 1), ?_, ?_, Nat.mul_mod_right W _⟩
  · rw [Nat.mul_add]; omega
  · rw [Nat.mul_add]; omega

lemma Marked.msgSeq_le {s : Session} (h : Marked o s) (hW : 1 ≤ o.windowMarkSize) :
    s.msgSeq ≤ lastNum s.pManager.seqsSent + o.windowMarkSize := by
  obtain ⟨n, h1, h2, h3⟩ := exists_multiple hW (lastNum s.pManager.seqsSent)
  by_contra hc
  exact h.gap n h1 (by omega) h3

lemma Marked.lt_startSeq {s : Session} (h : Marked o s) (hW : 1 ≤ o.windowMarkSize) :
    s.msgSeq < Session.startSeq o M s.pManager := by
  have hle := h.msgSeq_le hW
  have hpos := h.pos
  obtain ⟨recs, r, hr⟩ := List.eq_nil_or_concat' s.pManager.seqsSent |>.resolve_left h.ne
  rw [hr, lastNum_concat] at hle hpos
  rw [Session.startSeq_of_concat o M hr hpos]
  omega

lemma Marked.of_not_marksSeq {s : Session} (h : Marked o s) {q n : ℕ}
    (hm : s.marksSeq o q n = false) :
    q = lastQueue s.pManager.seqsSent ∧ q ≠ 0 ∧ n % o.windowMarkSize ≠ 0 := by
  simp only [Session.marksSeq, decide_eq_false_iff_not, not_or, not_not] at hm
  obtain ⟨h1, h2, h3⟩ := hm
  rw [h.lastQ] at h1
  exact ⟨by exact_mod_cast h1, h2, h3⟩

lemma marksSeq_session (s : Session) (n : ℕ) : s.marksSeq o queueSession n = true := by
  simp [Session.marksSeq, queueSession]

/-- **A new message keeps the marks in order**, whether or not the socket takes it; a session
message does so from any session. -/
lemma afterSend_marked {s : Session} {msg : WMsg} (ok : Bool) (hseq : msg.seq = s.msgSeq)
    (hpos : 1 ≤ s.msgSeq) (h : Marked o s ∨ msg.qIndex = queueSession) :
    Marked o (afterSend o s msg ok) := by
  cases hm : s.marksSeq o msg.qIndex msg.seq with
  | true =>
    have hf : (afterSend o s msg ok).pManager.seqsSent =
        s.pManager.seqsSent ++ [⟨msg.qIndex, msg.seq, msg.dataSeq⟩] := by simp [hm]
    have hn : lastNum (afterSend o s msg ok).pManager.seqsSent = s.msgSeq := by
      rw [hf, lastNum_concat]
      exact hseq
    constructor
    · rw [hf]; simp
    · rw [hf, lastQueue_concat, afterSend_lastQIndexSent, hm, if_pos rfl]
    · rw [hn]; exact hpos
    · rw [hn, afterSend_msgSeq]
      split <;> omega
    · rw [hn, afterSend_msgSeq]
      intro n h1 h2
      split at h2 <;> omega
  | false =>
    have h : Marked o s := by
      rcases h with h | h
      · exact h
      · rw [h, marksSeq_session] at hm
        cases hm
    have hf : (afterSend o s msg ok).pManager.seqsSent = s.pManager.seqsSent := by simp [hm]
    obtain ⟨-, -, hn⟩ := h.of_not_marksSeq hm
    constructor
    · rw [hf]; exact h.ne
    · rw [hf, afterSend_lastQIndexSent, hm]; exact h.lastQ
    · rw [hf]; exact h.pos
    · have := h.le
      rw [hf, afterSend_msgSeq]
      split <;> omega
    · rw [hf, afterSend_msgSeq]
      intro n h1 h2
      rcases Nat.lt_or_ge n s.msgSeq with h3 | h3
      · exact h.gap n h1 h3
      · have : n = s.msgSeq := by split at h2 <;> omega
        rw [this, ← hseq]
        exact hn

lemma Marked.congr {s t : Session} (h : Marked o s) (hc : t.msgSeq = s.msgSeq)
    (hq : t.lastQIndexSent = s.lastQIndexSent)
    (hf : t.pManager.seqsSent = s.pManager.seqsSent) : Marked o t := by
  obtain ⟨h1, h2, h3, h4, h5⟩ := h
  constructor
  · rwa [hf]
  · rwa [hf, hq]
  · rwa [hf]
  · rwa [hf, hc]
  · rwa [hf, hc]

/-! ### In a process -/

/-- A process that started from number `start` with the marks `recs` on disk: nothing happened
to the marks before the Logon, and then they are in order. -/
structure Numbering (o : SessionOption) (start : ℕ) (recs : List SeqSentInfo)
    (p : SocketConnector) : Prop where
  pos : 1 ≤ p.session.msgSeq
  start_le : start ≤ p.session.msgSeq
  before : p.logonSent = false →
    p.session.msgSeq = start ∧ p.session.pManager.seqsSent = recs ∧ news p.wire = []
  after : p.logonSent = true → Marked o p.session
  used : ∀ pk ∈ news p.wire, pk.msg.seq ≤ p.session.msgSeq

lemma used_concat {p : SocketConnector} {s : Session} {msg : WMsg} {ok : Bool}
    (h : ∀ pk ∈ news p.wire, pk.msg.seq ≤ p.session.msgSeq) (hseq : msg.seq = p.session.msgSeq)
    (hs : p.session.msgSeq ≤ s.msgSeq) :
    ∀ pk ∈ news p.wire ++ [⟨msg, true, ok⟩], pk.msg.seq ≤ s.msgSeq := by
  intro pk hpk
  rcases List.mem_append.mp hpk with hpk | hpk
  · exact (h pk hpk).trans hs
  · rw [List.mem_singleton.mp hpk]
    exact hseq.le.trans hs

variable {start : ℕ} {recs : List SeqSentInfo}

lemma Numbering.quiet {p p' : SocketConnector} (h : Numbering o start recs p)
    (hlogon : p'.logonSent = p.logonSent) (hc : p'.session.msgSeq = p.session.msgSeq)
    (hq : p'.session.lastQIndexSent = p.session.lastQIndexSent)
    (hf : p'.session.pManager.seqsSent = p.session.pManager.seqsSent)
    (hnews : news p'.wire = news p.wire) : Numbering o start recs p' := by
  constructor
  · rw [hc]; exact h.pos
  · rw [hc]; exact h.start_le
  · rw [hlogon, hc, hf, hnews]; exact h.before
  · rw [hlogon]; exact fun hb => (h.after hb).congr hc hq hf
  · rw [hnews, hc]; exact h.used

lemma Numbering.send {p p' : SocketConnector} (h : Numbering o start recs p) {msg : WMsg}
    {ok : Bool} (hnews : news p'.wire = news p.wire ++ [⟨msg, true, ok⟩])
    (hseq : msg.seq = p.session.msgSeq)
    (hc : p'.session.msgSeq = (afterSend o p.session msg ok).msgSeq)
    (hq : p'.session.lastQIndexSent = (afterSend o p.session msg ok).lastQIndexSent)
    (hf : p'.session.pManager.seqsSent = (afterSend o p.session msg ok).pManager.seqsSent)
    (hm : p.logonSent = true ∨ msg.qIndex = queueSession) (hlogon : p'.logonSent = true) :
    Numbering o start recs p' := by
  have hle : p.session.msgSeq ≤ (afterSend o p.session msg ok).msgSeq := by
    rw [afterSend_msgSeq]
    split <;> omega
  have hmarked := (afterSend_marked ok hseq h.pos (hm.imp_left h.after)).congr hc hq hf
  refine ⟨?_, ?_, fun hb => ?_, fun _ => hmarked, ?_⟩
  · rw [hc]; exact h.pos.trans hle
  · rw [hc]; exact h.start_le.trans hle
  · rw [hlogon] at hb; cases hb
  · rw [hnews, hc]
    exact used_concat h.used hseq hle

lemma step_numbering {p p' : SocketConnector} {a : Act} (h : Numbering o start recs p)
    (hs : step o p a = some p') : Numbering o start recs p' := by
  obtain ⟨new, he, hw, hl, hl'⟩ := step_effect hs
  have hnews : news p'.wire = news p.wire ++ news new := by rw [hw, news_append]
  have hlogon : (∀ junk ok, a ≠ .logon junk ok) → p'.logonSent = p.logonSent := by
    intro ha
    cases hb : p.logonSent with
    | true => exact hl hb
    | false =>
      by_contra hne
      rcases hl' (by simpa using hne) with h1 | ⟨junk, ok, h1⟩
      · rw [hb] at h1
        cases h1
      · exact ha junk ok h1
  generalize hsess : p'.session = s at he
  cases he with
  | addMsg _ _ =>
    exact h.quiet (hlogon fun _ _ => nofun) (by rw [hsess]; rfl) (by rw [hsess]; rfl)
      (by rw [hsess]; rfl) (hnews.trans (List.append_nil _))
  | reconnect =>
    exact h.quiet (hlogon fun _ _ => nofun) (by rw [hsess]) (by rw [hsess]) (by rw [hsess])
      (hnews.trans (List.append_nil _))
  | poll _ _ =>
    exact h.quiet (hlogon fun _ _ => nofun) (by rw [hsess]; rfl) (by rw [hsess]; rfl)
      (by rw [hsess]; rfl) (hnews.trans (List.append_nil _))
  | logon =>
    refine h.send hnews rfl (by rw [hsess]) (by rw [hsess]) (by rw [hsess]) (Or.inr rfl) ?_
    cases hs
    rfl
  | session hb =>
    exact h.send hnews rfl (by rw [hsess]) (by rw [hsess]) (by rw [hsess]) (Or.inl hb) (hl hb)
  | data hb _ _ =>
    exact h.send hnews rfl (by rw [hsess]; rfl) (by rw [hsess]; rfl) (by rw [hsess]; rfl)
      (Or.inl hb) (hl hb)
  | resend hb hr =>
    have hsame := Resend.resendLoop_same (UInt64.toNat_lt _) hr
    rw [← hsess] at hsame
    rw [news_resend, List.append_nil] at hnews
    exact h.quiet (hlogon fun _ _ => nofun) hsame.msgSeq hsame.lastQIndexSent
      (by rw [hsame.pManager]) hnews

lemma run_numbering {p p' : SocketConnector} {acts : List Act} (h : Numbering o start recs p)
    (hr : run (step o) p acts = some p') : Numbering o start recs p' :=
  run_induct (fun _ _ _ hp _ hs => step_numbering hp hs) h
    (meets_of_forall (fun _ _ => trivial) p acts) hr

end Ufix.Marks
