import Ufix.Arrivals
import Ufix.InOrderQueue
import Ufix.Resend
import Ufix.ResendRequests

/-!
A gap in what was received, from the request to the answer and back to the consumer.

The requester's `get` waits at a number that is missing and asks for it and those behind it. The
peer's resend loop answers with old messages and gap fills. While they arrive, new messages arrive
too and the consumer takes what it can, in any order of steps.
-/

namespace Ufix.GapRecovery

open Ufix.Runs Ufix.Reassembly Ufix.InOrderQueue Ufix.Resend
open Ufix.Delivery (Awaited InReach)
open Buffer (Consecutive)

/-! ### The answer -/

section Answer

variable {σ μ : Type*}

/-- A message of the loop is the one found for its number; a gap fill stands for numbers nothing
was found for. -/
def Sound (found : ℕ → Option μ) : Out μ → Prop
  | .msg n m => found n = some m
  | .gap a b => a < b ∧ ∀ n, a ≤ n → n < b → found n = none

variable {getSent : σ → ℕ → Option (σ × Option μ)} {I : σ → Prop} {found : ℕ → Option μ}
  {b e n : ℕ} {s : σ} {seq start : ℕ} {outs : List (Out μ × Bool)}

lemma sound_concat {out : Out μ} (houts : ∀ o ∈ outs, Sound found o.1) (hout : Sound found out) :
    ∀ o ∈ outs ++ [(out, true)], Sound found o.1 := by
  intro o ho
  rcases List.mem_append.mp ho with ho | ho
  · exact houts o ho
  · rw [List.mem_singleton.mp ho]
    exact hout

lemma sound_found {m : μ} (houts : ∀ o ∈ outs, Sound found o.1) (hf : found seq = some m)
    (hmiss : ∀ k, start ≤ k → k < seq → found k = none) :
    ∀ o ∈ (if start < seq then outs ++ [(.gap start seq, true)] else outs) ++ [(.msg seq m, true)],
      Sound found o.1 := by
  refine sound_concat ?_ hf
  split
  · next hlt => exact sound_concat houts ⟨hlt, hmiss⟩
  · exact houts

/-- **Every message of the loop is sound.** -/
lemma resendLoop_sound {t : σ} {outs' : List (Out μ × Bool)} (hA : Answers getSent I found b e)
    (he : e < 2 ^ 64) (hI : I s) (hb : b ≤ seq) (hs : start ≤ seq) (hn : seq + (n + 1) = e)
    (hmiss : ∀ k, start ≤ k → k < seq → found k = none) (houts : ∀ o ∈ outs, Sound found o.1)
    (h : resendLoop getSent (fun _ => true) e (n + 1) s seq start outs = some (t, outs')) :
    ∀ o ∈ outs', Sound found o.1 := by
  induction n generalizing s seq start outs with
  | zero =>
    obtain ⟨u, hu, -⟩ := hA s seq hI hb (by omega)
    have hseq : ulong (seq + 1) = e := by rw [ulong_of_lt (by omega)]; omega
    have hp : ulong (e + (2 ^ 64 - 1)) = seq := by unfold ulong; omega
    cases hf : found seq with
    | none =>
      rw [hf] at hu
      rw [resendLoop_miss hu, if_pos hseq, hseq, hp] at h
      split at h
      · next hlt =>
        cases h
        refine sound_concat houts ⟨by omega, fun k h1 h2 => ?_⟩
        rcases Nat.lt_or_ge k seq with h3 | h3
        · exact hmiss k h1 h3
        · rw [show k = seq by omega, hf]
      · cases h
        exact houts
    | some m =>
      rw [hf] at hu
      have hstart : ulong ((if start < seq then seq else start) + 1) = e := by
        split <;> rw [ulong_of_lt (by omega)] <;> omega
      rw [resendLoop_hit hu] at h
      simp only [hseq, hp, hstart, if_true] at h
      rw [if_neg (by omega)] at h
      cases h
      exact sound_found houts hf hmiss
  | succ n ih =>
    obtain ⟨u, hu, hIu⟩ := hA s seq hI hb (by omega)
    have hseq : ulong (seq + 1) = seq + 1 := ulong_of_lt (by omega)
    cases hf : found seq with
    | none =>
      rw [hf] at hu
      rw [resendLoop_miss hu, hseq, if_neg (by omega)] at h
      refine ih hIu (by omega) (by omega) (by omega) (fun k h1 h2 => ?_) houts h
      rcases Nat.lt_or_ge k seq with h3 | h3
      · exact hmiss k h1 h3
      · rw [show k = seq by omega, hf]
    | some m =>
      rw [hf] at hu
      have hstart : ulong ((if start < seq then seq else start) + 1) = seq + 1 := by
        split <;> rw [ulong_of_lt (by omega)]
        omega
      rw [resendLoop_hit hu] at h
      simp only [hseq, hstart] at h
      rw [if_neg (by omega)] at h
      exact ih hIu (by omega) le_rfl (by omega) (fun k h1 h2 => by omega)
        (sound_found houts hf hmiss) h

end Answer

def resentMsg (n : ℕ) (m : ℕ × SendQueueInfo) : WMsg :=
  ⟨queueSession, n, m.2.dataSeq, .queued m.1 m.2.dataSeq⟩

/-- The answer to a request from `first`, up to `fin`. -/
structure Answer (found : ℕ → Option (ℕ × SendQueueInfo)) (first fin : ℕ) (sent : List Packet) :
    Prop where
  covers : sent.flatMap Packet.covered = List.range' first (fin - first)
  sound : ∀ pk ∈ sent, (∃ r, found pk.msg.seq = some r ∧ pk.msg = resentMsg pk.msg.seq r) ∨
    ∃ newSeqNo, pk.msg.content = .gapFill newSeqNo ∧ pk.msg.seq < newSeqNo ∧
      ∀ n, pk.msg.seq ≤ n → n < newSeqNo → found n = none

/-- **The resend loop answers** the whole request, or up to a last number that is missing alone. -/
lemma sendSequenceReset_answer (p : SocketConnector) {first last : ℕ}
    {found : ℕ → Option (ℕ × SendQueueInfo)} (h0 : 0 < first) (hle : first ≤ last)
    (hlast : last < p.session.msgSeq) (hc : p.session.msgSeq < 2 ^ 64)
    (hfound : ∀ n, first ≤ n → n ≤ last → (p.session.getSentMsg n).map Prod.snd = some (found n)) :
    ∃ p' sent fin, p.sendSequenceReset first last (fun _ => true) = some p' ∧
      p'.wire = p.wire ++ sent ∧ Answer found first fin sent ∧
      (fin = last + 1 ∧ Filled found first (last + 1) ∨
        fin = last ∧ ¬ Filled found first (last + 1)) := by
  have hend : p.resendEnd last = last + 1 := by
    rw [SocketConnector.resendEnd, if_neg (by omega), ulong_of_lt (by omega)]
  have hA : Answers Session.getSentMsg (Session.SameButHeads p.session) found first (last + 1) :=
    answers_session fun n h1 h2 => hfound n h1 (by omega)
  have hrounds : rounds first (last + 1) = (last - first) + 1 := by
    rw [rounds_eq (by omega) (by omega)]
    omega
  have hself := Session.SameButHeads.refl p.session
  obtain ⟨t, outs, fin, hr, -, hcov, hfin⟩ := resendLoop_covers (n := last - first) hA (by omega)
    hself le_rfl le_rfl (by omega) (fun k h1 h2 => by omega) (covers_nil.trans (by simp))
  have hsound := resendLoop_sound hA (by omega) hself le_rfl le_rfl (by omega)
    (fun k h1 h2 => by omega) (fun o ho => by cases ho) hr
  refine ⟨{ p with
      session := t
      socketSendFlag := p.socketSendFlag && outs.all Prod.snd
      wire := p.wire ++ outs.map SocketConnector.resendPacket },
    outs.map SocketConnector.resendPacket, fin, ?_, rfl, ⟨?_, ?_⟩, by simpa using hfin⟩
  · simp only [SocketConnector.sendSequenceReset, hend, hrounds]
    rw [hr]
    rfl
  · rw [covers_eq]
    exact hcov
  · intro pk hpk
    obtain ⟨⟨out, ok⟩, ho, rfl⟩ := List.mem_map.mp hpk
    have h := hsound _ ho
    cases out with
    | msg n m => exact Or.inl ⟨m, h, rfl⟩
    | gap a b => exact Or.inr ⟨b, rfl, h⟩

/-! ### Its way into the queue -/

variable (frame : WMsg → List Byte × ℤ)

/-- What the receiver does with a message, given its bytes and the place of its type. -/
def deliver (m : WMsg) : List Act :=
  let msg := RMessage.new (frame m).1 (frame m).2 m.seq
  match m.content with
  | .gapFill newSeqNo => [.updateSeq (.ofNat m.seq) (.ofNat newSeqNo), .put msg]
  | _ => [.put msg]

/-- What belongs to the answer, among all steps: gap fills, and messages up to the last number
asked for. -/
def Recovers (last : ℕ) : Act → Bool
  | .put msg => msg.seq ≤ last
  | .updateSeq _ _ => true
  | .wait _ | .get => false

def storedBy (acts : List Act) : List (ℕ × Entry) := (acts.map toOp).flatMap Op.stored

lemma storedBy_cons (a : Act) (acts : List Act) :
    storedBy (a :: acts) = (toOp a).stored ++ storedBy acts := rfl

lemma storedBy_append (acts acts' : List Act) :
    storedBy (acts ++ acts') = storedBy acts ++ storedBy acts' := by
  rw [storedBy, List.map_append, List.flatMap_append, storedBy, storedBy]

/-- A message brings the numbers it covers, a gap fill its own number last. -/
lemma storedBy_deliver {pk : Packet} (hseq : pk.msg.seq + 1 < 2 ^ 64)
    (hgap : ∀ newSeqNo, pk.msg.content = .gapFill newSeqNo → pk.msg.seq < newSeqNo ∧
      newSeqNo < 2 ^ 64) :
    ((storedBy (deliver frame pk.msg)).map Prod.fst).Perm pk.covered := by
  cases hc : pk.msg.content with
  | gapFill newSeqNo =>
    obtain ⟨hlt, hnew⟩ := hgap newSeqNo hc
    have hkeys : (storedBy (deliver frame pk.msg)).map Prod.fst =
        List.range' (pk.msg.seq + 1) (newSeqNo - (pk.msg.seq + 1)) ++ [pk.msg.seq] := by
      have h1 : (UInt64.ofNat pk.msg.seq).toNat = pk.msg.seq :=
        UInt64.toNat_ofNat_of_lt' (show pk.msg.seq < 2 ^ 64 by omega)
      have h2 : (UInt64.ofNat newSeqNo).toNat = newSeqNo := UInt64.toNat_ofNat_of_lt' hnew
      simp only [deliver, hc, storedBy, List.map_cons, List.map_nil, toOp, List.flatMap_cons,
        List.flatMap_nil, Op.stored, h1, h2, RecvQueue.gapFill, ulong_of_lt hseq, RMessage.new,
        List.append_nil, List.map_append, List.map_map]
      congr 1
      exact List.map_id _
    have hcov : pk.covered = pk.msg.seq :: List.range' (pk.msg.seq + 1)
        (newSeqNo - (pk.msg.seq + 1)) := by
      have hlen : newSeqNo - pk.msg.seq = (newSeqNo - (pk.msg.seq + 1)) + 1 := by omega
      rw [Packet.covered, hc]
      simp only [hlen, List.range'_succ]
    rw [hkeys, hcov]
    exact List.perm_append_singleton _ _
  | session | queued q d =>
    simp [deliver, hc, storedBy, toOp, Op.stored, Packet.covered, RMessage.new]

/-- **The answer brings the numbers of its range**, each once. -/
lemma Answer.stored {found : ℕ → Option (ℕ × SendQueueInfo)} {first fin : ℕ} {sent : List Packet}
    (h : Answer found first fin sent) (hfin : fin < 2 ^ 64) :
    ((storedBy (sent.flatMap fun pk => deliver frame pk.msg)).map Prod.fst).Perm
      (List.range' first (fin - first)) := by
  have hin : ∀ pk ∈ sent, ∀ n ∈ pk.covered, n < fin := by
    intro pk hpk n hn
    have hmem : n ∈ sent.flatMap Packet.covered := List.mem_flatMap.mpr ⟨pk, hpk, hn⟩
    rw [h.covers, List.mem_range'_1] at hmem
    omega
  have hone : ∀ pk ∈ sent, ((storedBy (deliver frame pk.msg)).map Prod.fst).Perm pk.covered := by
    intro pk hpk
    rcases h.sound pk hpk with ⟨r, -, hmsg⟩ | ⟨newSeqNo, hc, hlt, -⟩
    · have hlast := hin pk hpk pk.msg.seq (by rw [Packet.covered, hmsg]; simp [resentMsg])
      refine storedBy_deliver frame (by omega) fun newSeqNo hc => ?_
      rw [hmsg] at hc
      cases hc
    · have hlast := hin pk hpk (newSeqNo - 1) (by
        rw [Packet.covered, hc, List.mem_range'_1]
        omega)
      refine storedBy_deliver frame (by omega) fun newSeqNo' hc' => ?_
      rw [hc] at hc'
      cases hc'
      exact ⟨hlt, by omega⟩
  rw [← h.covers]
  clear h hin
  induction sent with
  | nil => exact List.Perm.nil
  | cons pk sent ih =>
    rw [List.flatMap_cons, storedBy_append, List.map_append, List.flatMap_cons]
    exact (hone pk (by simp)).append (ih fun pk' hpk' => hone pk' (by simp [hpk']))

/-- An old message found arrives with its own bytes. -/
lemma Answer.mem_stored {found : ℕ → Option (ℕ × SendQueueInfo)} {first fin : ℕ}
    {sent : List Packet} (h : Answer found first fin sent) {n : ℕ} {r : ℕ × SendQueueInfo}
    (hn : first ≤ n) (hlt : n < fin) (hfound : found n = some r) :
    (n, Entry.msg (frame (resentMsg n r)).1 (frame (resentMsg n r)).2) ∈
      storedBy (sent.flatMap fun pk => deliver frame pk.msg) := by
  have hmem : n ∈ sent.flatMap Packet.covered := by
    rw [h.covers, List.mem_range'_1]
    omega
  obtain ⟨pk, hpk, hcov⟩ := List.mem_flatMap.mp hmem
  rcases h.sound pk hpk with ⟨r', hr', hmsg⟩ | ⟨newSeqNo, hc, hlt', hnone⟩
  · have hseq : n = pk.msg.seq := by
      rw [Packet.covered, hmsg] at hcov
      simpa [resentMsg] using hcov
    rw [← hseq, hfound] at hr'
    cases hr'
    rw [← hseq] at hmsg
    refine List.mem_flatMap.mpr ⟨toOp (.put (.new (frame pk.msg).1 (frame pk.msg).2 n)), ?_, ?_⟩
    · refine List.mem_map_of_mem (List.mem_flatMap.mpr ⟨pk, hpk, ?_⟩)
      rw [hmsg]
      exact List.mem_singleton.mpr rfl
    · rw [hmsg]
      exact List.mem_singleton.mpr rfl
  · rw [Packet.covered, hc, List.mem_range'_1] at hcov
    rw [hnone n hcov.1 (by omega)] at hfound
    cases hfound

/-! ### While it arrives -/

section Run

variable {start last : ℕ} {s t s' : State} {a : Act} {acts rest : List Act}

/-- The gap while `rest` of the answer is still to come: the message behind the gap is there, and
the numbers to come are missing. -/
structure Open (start last : ℕ) (s : State) (rest : List Act) : Prop where
  inv : Inv s.queue
  le : start ≤ last
  consecutive : Consecutive start (toBuffer s)
  closed : ((toBuffer s).entry (last + 1)).isSome
  missing : ∀ n ∈ (storedBy rest).map Prod.fst,
    start < n ∧ n ≤ last ∧ (toBuffer s).entry n = none
  nodup : ((storedBy rest).map Prod.fst).Nodup

/-- A number without an entry is behind the head and nothing waits for it. -/
lemma Open.awaited (h : Open start last s rest) {n : ℕ} (hn : start < n) (hle : n ≤ last)
    (hnone : (toBuffer s).entry n = none) :
    Awaited s.queue n ∧ pendingOf s.queue n = none := by
  have hlt : s.queue.headSeq < n := by
    by_contra hge
    have hsome := h.consecutive.lookup_isSome hn (not_lt.mp hge)
    rw [← Buffer.entry_of_le (not_lt.mp hge), hnone] at hsome
    cases hsome
  have hpending : pendingOf s.queue n = none := (Buffer.entry_of_lt hlt).symm.trans hnone
  refine ⟨⟨hlt, ?_⟩, hpending⟩
  by_cases hnext : last + 1 ≤ s.queue.headSeq
  · omega
  · have hclosed := h.closed
    have hpos : (toBuffer s).entry (last + 1) = pendingOf s.queue (last + 1) :=
      Buffer.entry_of_lt (not_le.mp hnext)
    rw [hpos] at hclosed
    have hreach := (h.inv.pendingOf_awaited (Option.isSome_iff_ne_none.mp hclosed)).2
    unfold InReach at hreach ⊢
    omega

lemma lookup_of_not_recovers (h : Recovers last a = false) {n : ℕ} (hn : n ≤ last) :
    (toOp a).stored.lookup n = none := by
  cases a with
  | put msg =>
    have hlt : last < msg.seq := by simpa [Recovers] using h
    have hne : (n == msg.seq) = false := by
      rw [beq_eq_false_iff_ne]
      omega
    simp [toOp, Op.stored, List.lookup_cons, hne]
  | updateSeq c n => cases h
  | wait ts => rfl
  | get => rfl

/-- A step of the answer meets what the queue needs. -/
lemma Open.admitted (h : Open start last s (a :: rest)) (hrec : Recovers last a = true) :
    Admitted s a := by
  have hone : ∀ n ∈ (toOp a).stored.map Prod.fst,
      Awaited s.queue n ∧ pendingOf s.queue n = none := by
    intro n hn
    obtain ⟨h1, h2, h3⟩ := h.missing n (by
      rw [storedBy_cons, List.map_append]
      exact List.mem_append_left _ hn)
    exact h.awaited h1 h2 h3
  cases a with
  | put msg => exact (hone msg.seq (by simp [toOp, Op.stored])).1
  | updateSeq c n =>
    intro i hi
    obtain ⟨hawaited, hnone⟩ := hone i (by simpa [toOp, Op.stored] using hi)
    refine ⟨hawaited, fun data pos => ?_⟩
    rw [hnone]
    simp
  | wait ts => cases hrec
  | get => cases hrec

/-- A step leaves the gap open for the rest of the answer. -/
lemma Open.step (h : Open start last s rest) {rest' : List Act} (hadm : Admitted s a)
    (hs : InOrderQueue.step s a = some t)
    (hrest : rest = if Recovers last a then a :: rest' else rest') : Open start last t rest' := by
  obtain ⟨hinv, hbuf⟩ := step_refines h.inv hadm hs
  have hentry : ∀ n, start < n → (toBuffer t).entry n =
      ((toBuffer s).entry n).or ((toOp a).stored.lookup n) :=
    fun n hn => Buffer.step_entry h.consecutive hbuf hn
  have hle := h.le
  refine ⟨hinv, h.le, Buffer.step_consecutive h.consecutive hbuf, ?_, fun n hn => ?_, ?_⟩
  · rw [hentry _ (by omega), Option.isSome_or, h.closed]
    rfl
  · cases hrec : Recovers last a with
    | true =>
      rw [hrec, if_pos rfl] at hrest
      subst hrest
      have hmem : n ∈ (storedBy (a :: rest')).map Prod.fst := by
        rw [storedBy_cons, List.map_append]
        exact List.mem_append_right _ hn
      obtain ⟨h1, h2, h3⟩ := h.missing n hmem
      refine ⟨h1, h2, ?_⟩
      have hnodup := h.nodup
      rw [storedBy_cons, List.map_append, List.nodup_append] at hnodup
      rw [hentry n h1, h3, Option.none_or, List.lookup_eq_none_iff]
      intro p hp
      have hne := hnodup.2.2 p.1 (List.mem_map_of_mem hp) n hn
      simpa using Ne.symm hne
    | false =>
      rw [hrec, if_neg Bool.false_ne_true] at hrest
      subst hrest
      obtain ⟨h1, h2, h3⟩ := h.missing n hn
      exact ⟨h1, h2, by rw [hentry n h1, h3, lookup_of_not_recovers hrec h2]; rfl⟩
  · have hnodup := h.nodup
    rw [hrest] at hnodup
    split at hnodup
    · rw [storedBy_cons, List.map_append, List.nodup_append] at hnodup
      exact hnodup.2.1
    · exact hnodup

/-- **While the answer arrives**, among any other steps: every number asked for has the entry the
answer brings. -/
lemma Open.run (h : Open start last s rest)
    (hacts : acts.filter (Recovers last) = rest)
    (hothers : Meets InOrderQueue.step (fun s a => Recovers last a = false → Admitted s a) s acts)
    (hr : Runs.run InOrderQueue.step s acts = some s') :
    Open start last s' [] ∧ ∀ n, start < n → n ≤ last →
      (toBuffer s').entry n = ((toBuffer s).entry n).or ((storedBy rest).lookup n) := by
  induction acts generalizing s rest with
  | nil =>
    cases hr
    cases hacts
    exact ⟨h, fun n _ _ => by simp [storedBy]⟩
  | cons a acts ih =>
    obtain ⟨t, ht, hr⟩ := (run_cons_eq_some InOrderQueue.step).mp hr
    obtain ⟨hother, hothers⟩ := hothers t ht
    have hrest : rest = if Recovers last a then a :: acts.filter (Recovers last)
        else acts.filter (Recovers last) := by rw [← hacts, List.filter_cons]
    have hadm : Admitted s a := by
      cases hrec : Recovers last a with
      | true =>
        rw [hrec, if_pos rfl] at hrest
        subst hrest
        exact h.admitted hrec
      | false => exact hother hrec
    obtain ⟨hopen, hentry⟩ := ih (h.step hadm ht hrest) rfl hothers hr
    refine ⟨hopen, fun n hn hle => ?_⟩
    rw [hentry n hn hle, Buffer.step_entry h.consecutive (step_refines h.inv hadm ht).2 hn,
      Option.or_assoc, hrest]
    cases hrec : Recovers last a with
    | true => rw [if_pos rfl, storedBy_cons, List.lookup_append]
    | false => rw [if_neg Bool.false_ne_true, lookup_of_not_recovers hrec hle, Option.none_or]

lemma filter_gets (k : ℕ) : (List.replicate k Act.get).filter (Recovers last) = [] := by
  rw [List.filter_replicate]
  rfl

lemma meets_gets (s : State) (k : ℕ) : Meets InOrderQueue.step
    (fun s a => Recovers last a = false → Admitted s a) s (List.replicate k Act.get) := by
  induction k generalizing s with
  | zero => trivial
  | succ k ih => exact fun t _ => ⟨fun _ => trivial, ih t⟩

/-- The consumer goes on to a number when everything up to it has arrived. -/
lemma run_gets {k : ℕ} (hinv : Inv s.queue) (hcons : Consecutive start (toBuffer s))
    (hall : ∀ n, start < n → n ≤ s.queue.headSeq + k → ((toBuffer s).entry n).isSome) :
    ∃ u, Runs.run InOrderQueue.step s (List.replicate k .get) = some u ∧
      u.queue.headSeq = s.queue.headSeq + k := by
  induction k generalizing s with
  | zero => exact ⟨s, rfl, rfl⟩
  | succ k ih =>
    have hle : start ≤ s.queue.headSeq := hcons.1
    have hnext := hall (s.queue.headSeq + 1) (by omega) (by omega)
    have hpos : (toBuffer s).entry (s.queue.headSeq + 1) =
        pendingOf s.queue (s.queue.headSeq + 1) := Buffer.entry_of_lt (Nat.lt_succ_self _)
    rw [hpos, ← hinv.get_isSome_iff] at hnext
    obtain ⟨⟨q, index⟩, hget⟩ := Option.isSome_iff_exists.mp hnext
    have hstep : InOrderQueue.step s .get = some ⟨q.resetSlot index,
        s.got ++ [((q.msgsRecv index).seq, entryOf (q.msgsRecv index))]⟩ := by
      rw [InOrderQueue.step, hget]
      rfl
    obtain ⟨hinv', hbuf⟩ := step_refines (a := Act.get) hinv trivial hstep
    have hlast : (q.resetSlot index).headSeq = s.queue.headSeq + 1 := by
      obtain ⟨e, -, he⟩ := Option.map_eq_some_iff.mp hbuf
      exact (congrArg Buffer.last he).symm
    obtain ⟨u, hu, hhead⟩ := ih hinv' (Buffer.step_consecutive hcons hbuf) fun n h1 h2 => by
      rw [Buffer.step_entry hcons hbuf h1, Option.isSome_or]
      have := hall n h1 (by simp only [hlast] at h2; omega)
      rw [this]
      rfl
    refine ⟨u, ?_, by rw [hhead]; simp only [hlast]; omega⟩
    rw [List.replicate_succ, run_cons, hstep, Option.bind_some, hu]

end Run

/-! ### The request -/

/-- What a waiting `get` asks for: all that is missing from the next number to the first received
behind it. -/
lemma request_of_wait {q q' : RecvQueue} {ts : ℤ} {first last : ℕ} (h : Inv q)
    (hw : q.waitMsg ts = some q') (hcmds : q'.cmds = q.cmds ++ [(first, last)]) :
    first = q.headSeq + 1 ∧ first ≤ last ∧ last + 1 < 2 ^ 64 ∧
      (∀ n, first ≤ n → n ≤ last → pendingOf q n = none) ∧ (pendingOf q (last + 1)).isSome := by
  have hself : q.cmds ≠ q.cmds ++ [(first, last)] := fun he => by
    have := congrArg List.length he
    simp at this
  unfold RecvQueue.waitMsg at hw
  split at hw
  · next hempty =>
    split at hw
    · next ht =>
      obtain ⟨⟨r, b⟩, hr, rfl⟩ := Option.map_eq_some_iff.mp hw
      obtain ⟨hreach, hlt⟩ := h.tail_awaited ht
      have hone : ulong (q.headSeq + 1) = q.headSeq + 1 := ulong_of_lt (by omega)
      have hnext : q.tailSeq ≠ q.headSeq + 1 := by
        intro he
        have hseq := h.tail ht
        rw [he, h.head_eq (by omega), h.isEmpty_iff.mp hempty] at hseq
        omega
      have htwo : ulong (q.headSeq + 1 + 1) = q.headSeq + 1 + 1 :=
        ulong_of_lt (by have := hreach.1; omega)
      have hthere : q.isEmpty (q.tailSeq % q.qSize) = false := by
        rw [Bool.eq_false_iff, ne_eq, h.isEmpty_iff, h.tail ht]
        omega
      simp only [RecvQueue.addResendRequest, hone, htwo, h.head_eq (by omega)] at hr
      split at hr
      · cases hr
        exact absurd hcmds hself
      · obtain ⟨u, k, hk, h1, h2, h3, h4, -, h6, -, -⟩ :=
          ResendRequests.stampMissing_spec ts q.qSize
          (q := q.setSlot q.head ((q.msgsRecv q.head).setTimestamp ts))
          (b := q.headSeq + 1 + 1) (m := q.tailSeq) (by have := hreach.1; omega)
          (by have := hreach.2; unfold InReach at this; omega) hlt
          (by rw [isEmpty_stamp]; exact hthere)
        have hend : ulong (k + (2 ^ 64 - 1)) = k - 1 := by
          unfold ulong
          omega
        rw [hk] at hr
        cases hr
        simp only [h6, hend, RecvQueue.setSlot, List.append_cancel_left_eq, List.cons.injEq,
          Prod.mk.injEq, and_true] at hcmds
        obtain ⟨rfl, rfl⟩ := hcmds
        have hnone : ∀ n, q.headSeq < n → n < k → pendingOf q n = none := by
          intro n hn hnk
          have hslot : (q.msgsRecv (n % q.qSize)).seq = 0 := by
            rcases Nat.lt_or_ge (q.headSeq + 1) n with hgt | hle
            · have hempty := (h4 n hgt hnk).1
              rw [isEmpty_stamp] at hempty
              exact h.isEmpty_iff.mp hempty
            · rw [show n = q.headSeq + 1 by omega, h.head_eq (by omega)]
              exact h.isEmpty_iff.mp hempty
          rw [pendingOf, if_neg]
          omega
        refine ⟨rfl, by omega, by omega, fun n hn hle => hnone n (by omega) (by omega), ?_⟩
        have hawaited : Awaited q k := by
          have := hreach.2
          unfold InReach at this
          exact ⟨by omega, by unfold InReach; omega⟩
        rw [isEmpty_stamp, Bool.eq_false_iff, ne_eq, h.isEmpty_iff] at h3
        have hseq := (h.seq_slot hawaited).resolve_left h3
        rw [Nat.sub_add_cancel (by omega), pendingOf, if_pos ⟨hawaited.1, hseq⟩]
        rfl
    · cases hw
      exact absurd hcmds hself
  · cases hw

/-! ### The whole exchange -/

/-- The gap when it was asked for and its answer is on the way. -/
lemma open_of_request {size : ℕ} (hsize : 2 ≤ size) {seq : UInt64} {acts₀ : List Act}
    {s₀ s : State} {ts first last fin : ℕ} (hok₀ : Meets step Admitted (start size seq) acts₀)
    (hr₀ : run step (start size seq) acts₀ = some s₀) (hwait : step s₀ (.wait ts) = some s)
    (hcmds : s.queue.cmds = s₀.queue.cmds ++ [(first, last)])
    {found : ℕ → Option (ℕ × SendQueueInfo)} {sent : List Packet}
    (hanswer : Answer found first fin sent) (hfin : fin ≤ last + 1) :
    Open seq.toNat last s (sent.flatMap fun pk => deliver frame pk.msg) ∧
      first = s₀.queue.headSeq + 1 ∧ first ≤ last ∧
      ∀ n, first ≤ n → n ≤ last → (toBuffer s).entry n = none := by
  obtain ⟨hinv₀, hb₀⟩ := run_toBuffer hsize hok₀ hr₀
  have hcons₀ := Buffer.run_consecutive hb₀
  obtain ⟨q, hq, rfl⟩ := Option.map_eq_some_iff.mp hwait
  obtain ⟨hfirst, hle, hlt, hnone, hsome⟩ := request_of_wait hinv₀ hq hcmds
  obtain ⟨hinv, hbuf⟩ := step_refines (a := Act.wait ts) hinv₀ trivial hwait
  have hhead : q.headSeq = s₀.queue.headSeq := (RecvQueue.waitMsg_same hq).headSeq
  have hpending := (wait_inv hinv₀ hq).2
  have hstart : seq.toNat ≤ s₀.queue.headSeq := hcons₀.1
  have hentry : ∀ n, first ≤ n → (toBuffer { s₀ with queue := q }).entry n =
      pendingOf s₀.queue n := by
    intro n hn
    have hpos : (toBuffer { s₀ with queue := q }).last < n := by
      have : (toBuffer { s₀ with queue := q }).last = q.headSeq := rfl
      omega
    rw [Buffer.entry_of_lt hpos, ← hpending]
    rfl
  have hperm := hanswer.stored frame (by omega)
  refine ⟨
    ⟨hinv, by omega, Buffer.step_consecutive hcons₀ hbuf, ?_, fun n hn => ?_, ?_⟩, hfirst, hle,
    fun n h1 h2 => (hentry n h1).trans (hnone n h1 h2)⟩
  · rw [hentry _ (by omega)]
    exact hsome
  · rw [hperm.mem_iff, List.mem_range'_1] at hn
    exact ⟨by omega, by omega, (hentry n hn.1).trans (hnone n hn.1 (by omega))⟩
  · exact hperm.nodup_iff.mpr List.nodup_range'

/-- **A gap closes exactly when the answer fills it**: however the messages of the answer are mixed
with new ones and with the steps of the consumer, the consumer comes past the last number asked for
if and only if the peer finds it, or finds neither it nor the one in front of it that was asked for
too. Old messages are delivered in their places with the bytes received for them. -/
theorem gap_closes_iff {size : ℕ} (hsize : 2 ≤ size) {seq : UInt64} {acts₀ : List Act}
    {s₀ s : State} {ts first last : ℕ} (hok₀ : Meets step Admitted (start size seq) acts₀)
    (hr₀ : run step (start size seq) acts₀ = some s₀) (hwait : step s₀ (.wait ts) = some s)
    (hcmds : s.queue.cmds = s₀.queue.cmds ++ [(first, last)]) (p : SocketConnector)
    {found : ℕ → Option (ℕ × SendQueueInfo)} (hlast : last < p.session.msgSeq)
    (hc : p.session.msgSeq < 2 ^ 64)
    (hfound : ∀ n, first ≤ n → n ≤ last → (p.session.getSentMsg n).map Prod.snd = some (found n)) :
    ∃ p' sent, p.sendSequenceReset first last (fun _ => true) = some p' ∧
      p'.wire = p.wire ++ sent ∧
      ∀ acts s', acts.filter (Recovers last) = sent.flatMap (fun pk => deliver frame pk.msg) →
        Meets step (fun s a => Recovers last a = false → Admitted s a) s acts →
        run step s acts = some s' →
        ((∃ k u, run step s' (List.replicate k .get) = some u ∧ last < u.queue.headSeq) ↔
            Filled found first (last + 1)) ∧
          ∀ k u, run step s' (List.replicate k .get) = some u →
            u.got.map Prod.fst = List.range' (seq.toNat + 1) (u.queue.headSeq - seq.toNat) ∧
            ∀ n r, first ≤ n → n ≤ last → n ≤ u.queue.headSeq → found n = some r →
              (n, .msg (frame (resentMsg n r)).1 (frame (resentMsg n r)).2) ∈ u.got := by
  obtain ⟨q, hq, hs⟩ := Option.map_eq_some_iff.mp hwait
  have hreq := request_of_wait (run_toBuffer hsize hok₀ hr₀).1 hq
    (hs ▸ hcmds)
  obtain ⟨p', sent, fin, hsend, hwire, hanswer, hfin⟩ := sendSequenceReset_answer p
    (by omega) hreq.2.1 hlast hc hfound
  obtain ⟨hopen, hfirst, hle, hmissing⟩ := open_of_request frame hsize hok₀ hr₀ hwait hcmds hanswer
    (by omega)
  have hstart : seq.toNat < first := by
    have : seq.toNat ≤ s₀.queue.headSeq :=
      (Buffer.run_consecutive (run_toBuffer hsize hok₀ hr₀).2).1
    omega
  have hperm := hanswer.stored frame (by omega)
  refine ⟨p', sent, hsend, hwire, fun acts s' hacts hothers hr => ?_⟩
  obtain ⟨hopen', hentry'⟩ := hopen.run hacts hothers hr
  -- what the consumer takes alone changes no entry
  have hgets : ∀ k u, run step s' (List.replicate k .get) = some u →
      Open seq.toNat last u [] ∧ ∀ n, first ≤ n → n ≤ last →
        (toBuffer u).entry n =
          (storedBy (sent.flatMap fun pk => deliver frame pk.msg)).lookup n := by
    intro k u hu
    obtain ⟨hopenu, hentryu⟩ := hopen'.run (filter_gets k) (meets_gets s' k) hu
    refine ⟨hopenu, fun n h1 h2 => ?_⟩
    rw [hentryu n (by omega) h2, hentry' n (by omega) h2, hmissing n h1 h2]
    simp [storedBy]
  have hsome : ∀ n, first ≤ n → n ≤ last →
      (((storedBy (sent.flatMap fun pk => deliver frame pk.msg)).lookup n).isSome ↔ n < fin) := by
    intro n h1 h2
    have hkeys : ((storedBy (sent.flatMap fun pk => deliver frame pk.msg)).lookup n).isSome ↔
        n ∈ (storedBy (sent.flatMap fun pk => deliver frame pk.msg)).map Prod.fst := by
      rw [List.lookup_isSome_iff, List.mem_map]
      constructor
      · rintro ⟨e, he, hn⟩
        exact ⟨e, he, (beq_iff_eq.mp hn).symm⟩
      · rintro ⟨e, he, rfl⟩
        exact ⟨e, he, beq_self_eq_true _⟩
    rw [hkeys, hperm.mem_iff, List.mem_range'_1]
    omega
  refine ⟨⟨?_, fun hfilled => ?_⟩, fun k u hu => ⟨?_, fun n r h1 h2 hn hr' => ?_⟩⟩
  · rintro ⟨k, u, hu, hpast⟩
    obtain ⟨hopenu, hentryu⟩ := hgets k u hu
    have htaken := hopenu.consecutive.lookup_isSome (n := last) (by omega) hpast.le
    rw [← Buffer.entry_of_le hpast.le, hentryu last hle le_rfl, hsome last hle le_rfl] at htaken
    rcases hfin with ⟨-, h⟩ | ⟨rfl, -⟩
    · exact h
    · omega
  · have hfin : fin = last + 1 := by
      rcases hfin with ⟨h, -⟩ | ⟨-, h⟩
      · exact h
      · exact absurd hfilled h
    -- everything up to the message that shows the gap has an entry
    have hall : ∀ n, seq.toNat < n → n ≤ last + 1 → ((toBuffer s').entry n).isSome := by
      intro n h1 h2
      rcases Nat.lt_or_ge last n with hgt | hge
      · rw [show n = last + 1 by omega]
        exact hopen'.closed
      · rw [hentry' n h1 hge, Option.isSome_or]
        rcases Nat.lt_or_ge n first with hlt | hge'
        · have hhead : (toBuffer s).last = s₀.queue.headSeq := by
            obtain ⟨q', hq', rfl⟩ := Option.map_eq_some_iff.mp hwait
            exact (RecvQueue.waitMsg_same hq').headSeq
          rw [Buffer.entry_of_le (by omega), hopen.consecutive.lookup_isSome h1 (by omega)]
          rfl
        · rw [(hsome n hge' hge).mpr (by omega), Bool.or_true]
    rcases Nat.lt_or_ge last s'.queue.headSeq with hpast | hbehind
    · exact ⟨0, s', rfl, hpast⟩
    · obtain ⟨u, hu, hhead⟩ := run_gets (k := last + 1 - s'.queue.headSeq) hopen'.inv
        hopen'.consecutive fun n h1 h2 => hall n h1 (by omega)
      exact ⟨_, u, hu, by omega⟩
  · exact (hgets k u hu).1.consecutive.2
  · obtain ⟨hopenu, hentryu⟩ := hgets k u hu
    have hlt : n < fin := by
      rcases hfin with ⟨h, -⟩ | ⟨rfl, h⟩
      · omega
      · rcases Nat.lt_or_ge n fin with hlt | hge
        · exact hlt
        · have hnf : n = fin := by omega
          subst hnf
          exact absurd (Or.inl (by rw [Nat.add_sub_cancel, hr']; rfl)) h
    refine Buffer.mem_of_lookup ?_
    have hlook := Buffer.lookup_of_mem (hperm.nodup_iff.mpr List.nodup_range')
      (hanswer.mem_stored frame h1 hlt hr')
    have htaken : (toBuffer u).entry n = u.got.lookup n := Buffer.entry_of_le hn
    rw [← htaken, hentryu n h1 h2, hlook]

/-- Number `3` arrives first. -/
def thirdFirst : List Act := [.put (.new [9] 0 3)]

def afterThird : State := (run step (start 8 0) thirdFirst).get rfl

/-- The consumer waits and asks for numbers `1` and `2`. -/
def asked : State := (step afterThird (.wait 1)).get rfl

def dataSent : SocketConnector :=
  let p : SocketConnector := ⟨Session.init .oneQueue 8 PManager.empty 0, true, true, []⟩
  let p := (p.sendSessionMsg .oneQueue 0 true).1
  let p := { p with session := (p.session.addMsg 1 [7]).getD p.session }
  (p.sendQueuedMsg .oneQueue 1 true).getD p

def dataFound (n : ℕ) : Option (ℕ × SendQueueInfo) := if n = 2 then some (1, ⟨1, [7]⟩) else none

def dataAnswer : List Packet :=
  [⟨⟨queueSession, 1, 0, .gapFill 2⟩, false, true⟩, ⟨resentMsg 2 (1, ⟨1, [7]⟩), false, true⟩]

/-- The answer comes between two new messages, and the consumer takes what it can. -/
def mixedActs : List Act :=
  [.put (.new [10] 0 4), .updateSeq 1 2, .put (.new [1] 0 1), .get, .wait 2, .put (.new [2] 0 2),
    .put (.new [11] 0 5), .get]

instance (last : ℕ) (s : State) : ∀ a, Decidable (Recovers last a = false → Admitted s a)
  | .put _ => inferInstanceAs (Decidable (_ → Awaited _ _))
  | .updateSeq _ _ => isTrue fun h => by cases h
  | .wait _ | .get => isTrue fun _ => trivial

lemma mixedActs_admitted :
    Meets step (fun s a => Recovers 2 a = false → Admitted s a) asked mixedActs := by
  decide +kernel

theorem gap_closes_iff_dataSent :
    ∃ s', run step asked mixedActs = some s' ∧
      (∃ k u, run step s' (List.replicate k .get) = some u ∧ 2 < u.queue.headSeq) ∧
      ∀ k u, run step s' (List.replicate k .get) = some u → 2 ≤ u.queue.headSeq →
        u.got.map Prod.fst = List.range' 1 u.queue.headSeq ∧ (2, .msg [2] 0) ∈ u.got := by
  have hok : Meets step Admitted (start 8 0) thirdFirst :=
    fun t ht => ⟨⟨by decide, by unfold InReach; decide⟩, trivial⟩
  have hfound : ∀ n, 1 ≤ n → n ≤ 2 →
      (dataSent.session.getSentMsg n).map Prod.snd = some (dataFound n) := by
    intro n h1 h2
    interval_cases n <;> rfl
  have hr : run step (start 8 0) thirdFirst = some afterThird := (Option.some_get _).symm
  have hwait : step afterThird (.wait 1) = some asked := (Option.some_get _).symm
  obtain ⟨p', sent, hsend, hwire, h⟩ := gap_closes_iff (fun m => ([.ofNat m.seq], 0))
    (by decide) hok hr hwait (by decide) dataSent (by decide) (by decide) hfound
  obtain rfl : sent = dataAnswer := by
    have hanswer : (dataSent.sendSequenceReset 1 2 (fun _ => true)).map SocketConnector.wire =
        some (dataSent.wire ++ dataAnswer) := by decide +kernel
    rw [hsend, Option.map_some, hwire, Option.some.injEq] at hanswer
    exact List.append_cancel_left hanswer
  obtain ⟨s', hs'⟩ : ∃ s', run step asked mixedActs = some s' :=
    Option.isSome_iff_exists.mp (by decide +kernel)
  obtain ⟨hcloses, htaken⟩ := h mixedActs s' rfl mixedActs_admitted hs'
  refine ⟨s', hs', hcloses.mpr (by unfold Filled; decide), fun k u hu hhead => ?_⟩
  obtain ⟨hgot, hfrom⟩ := htaken k u hu
  exact ⟨hgot, hfrom 2 _ (by decide) le_rfl hhead rfl⟩

end Ufix.GapRecovery
