import Ufix.Lookup
import Ufix.SlotsKept

/-!
What serving a resend does to the messages that wait.

The marks also answer for numbers that were never used, and a queue looks a message up whether it
was sent or not. Where every number leads to no message, or to one behind the head that was not
written over, a resend leaves the others alone; where one leads further, a message that waits is
sent, and rewritten.
-/

namespace Ufix.ResendFrame

open Ufix.Compose Ufix.Runs Ufix.Sender Ufix.History Ufix.SingleProcess Ufix.InPlace
open Ufix.SlotLayout Ufix.Lookup Ufix.SlotsKept
open Ufix.SlotBytes hiding Act step sendQueuedMsg

variable {o : SessionOption} {M : ℕ} {utc : ℕ → List Byte} {p : SocketConnector}
  {s s' t : State}

/-- Message `d` of queue `i` was added and is still to be sent. -/
def Waiting (s : Session) (i d : ℕ) : Prop :=
  (s.sendQueues i).headDataSeq ≤ d ∧ d < (s.sendQueues i).dataSeq

instance (s : Session) (i d : ℕ) : Decidable (Waiting s i d) := inferInstanceAs (Decidable (_ ∧ _))

/-- The slot of a number. -/
def slot (s : Session) (i d : ℕ) : SendQueueInfo :=
  (s.sendQueues i).msgsQueue (d % (s.sendQueues i).qSize)

/-- The last number the loop looks up. -/
def lastAsked (p : SocketConnector) (b e : UInt64) : ℕ :=
  b.toNat + rounds b.toNat (p.resendEnd e.toNat) - 1

/-- A lookup of the number finds a message in its slot. -/
def found (s : Session) (n : ℕ) : Bool :=
  match Session.resolve s.sentMarks n with
  | .data q d => (slot s q d).dataSeq = d
  | _ => false

variable (o utc) in
/-- Whatever the socket takes, serving the request comes to its end, passes no message that
`send_data` has not passed before, and leaves the bytes of every message that waits as they are. -/
def Harmless (s : State) (b e : UInt64) : Prop :=
  ∀ ok, ∃ s' sent, SlotBytes.sendSequenceReset o utc s b.toNat e.toNat ok = some s' ∧
    s'.connector.wire = s.connector.wire ++ sent ∧
    (∀ pk ∈ sent, ∀ i d, pk.msg.content = .queued i d → SentBefore s.connector.wire i d) ∧
    ∀ i d, Waiting s.connector.session i d →
      Waiting s'.connector.session i d ∧ s'.bytes i d = s.bytes i d

variable (o) in
/-- The youngest mark at or below the number marks a session message, or counting on from it leads
to a message that is no more in its slot, or to one behind the head, under a number that fits. -/
def Settled (p : SocketConnector) (n : ℕ) : Prop :=
  ∃ r, Youngest p.session.sentMarks n r ∧ (r.qIndex = queueSession ∨
    let d := r.dataSeq + (n - r.msgSeq)
    ((slot p.session r.qIndex d).dataSeq = d →
      1 ≤ d ∧ d < (p.session.sendQueues r.qIndex).headDataSeq ∧ (seqBuf o.maxMsgSeqSize n).isSome))

variable (o) in
/-- The condition: every number asked for is settled, and the gap fills fit. -/
def AllSettled (p : SocketConnector) (b e : UInt64) : Prop :=
  (∀ n, b.toNat ≤ n → n ≤ lastAsked p b e → Settled o p n) ∧
    ∀ start stop, Gap (found p.session) b.toNat (lastAsked p b e) start stop →
      gapFits o start stop = true

lemma lastAsked_eq {b e : UInt64} (hbe : b ≤ e) :
    lastAsked p b e < 2 ^ 64 ∧ ulong (lastAsked p b e + 1) = p.resendEnd e.toNat ∧
      rounds b.toNat (p.resendEnd e.toNat) = lastAsked p b e - b.toNat + 1 ∧
      b.toNat ≤ lastAsked p b e := by
  have hb := b.toNat_lt
  have he := e.toNat_lt
  have hbe' : b.toNat ≤ e.toNat := hbe
  simp only [lastAsked, rounds, SocketConnector.resendEnd]
  split
  · unfold ulong
    omega
  · unfold ulong
    omega

lemma lastAsked_of_ne {b e : UInt64} (hbe : b ≤ e) (he : e ≠ 0) : lastAsked p b e = e.toNat := by
  have hb := b.toNat_lt
  have he' := e.toNat_lt
  have hbe' : b.toNat ≤ e.toNat := hbe
  have hne : e.toNat ≠ 0 := fun h => he (UInt64.toNat_inj.mp h)
  simp only [lastAsked, rounds, SocketConnector.resendEnd, if_neg hne]
  unfold ulong
  omega

/-- Settled, by what the marks answer. -/
lemma settled_iff {n : ℕ} :
    Settled o p n ↔ Session.resolve p.session.sentMarks n ≠ .null ∧
      ∀ q d, Session.resolve p.session.sentMarks n = .data q d → (slot p.session q d).dataSeq = d →
        1 ≤ d ∧ d < (p.session.sendQueues q).headDataSeq ∧ (seqBuf o.maxMsgSeqSize n).isSome := by
  cases hlast : p.session.sentMarks.getLastMark (n + 1) with
  | none =>
    have hres : Session.resolve p.session.sentMarks n = .null := by
      rw [Session.resolve_eq, hlast]
    constructor
    · rintro ⟨r, hr, -⟩
      rw [getLastMark_succ.mpr hr] at hlast
      cases hlast
    · rintro ⟨h, -⟩
      exact absurd hres h
  | some r =>
    have hy := getLastMark_succ.mp hlast
    have hres := resolve_youngest hy
    by_cases hq : r.qIndex = queueSession
    · rw [if_pos hq] at hres
      rw [hres]
      exact ⟨fun _ => ⟨by simp, fun q d hd => by cases hd⟩, fun _ => ⟨r, hy, Or.inl hq⟩⟩
    · rw [if_neg hq] at hres
      rw [hres]
      constructor
      · rintro ⟨r', hr', hst⟩
        rw [hy.unique hr'] at hst
        refine ⟨by simp, fun q d hd => ?_⟩
        cases hd
        exact hst.resolve_left hq
      · rintro ⟨-, h⟩
        exact ⟨r, hy, Or.inr (h _ _ rfl)⟩

/-- What a lookup answers, and whether it finds anything. -/
lemma getSentMsg_same (hf : ∀ i, Fresh (s.queue i)) (hc : t.connector = s.connector) {n : ℕ}
    {u : State} {r : Option ((ℕ × SendQueueInfo) × List Byte)}
    (hr : t.getSentMsg n = some (u, r)) :
    u = t ∧ r.isSome = found s.connector.session n ∧ ∀ m, r = some m →
      (slot s.connector.session m.1.1 m.1.2.dataSeq).dataSeq = m.1.2.dataSeq ∧
      Session.resolve s.connector.session.sentMarks n = .data m.1.1 m.1.2.dataSeq ∧
        m.2 = t.bytes m.1.1 m.1.2.dataSeq := by
  have hq : ∀ i, t.queue i = s.queue i := fun i => by
    rw [State.queue, hc]
    rfl
  rw [getSentMsg_fresh fun i => hq i ▸ hf i, hc] at hr
  unfold found
  cases hres : Session.resolve s.connector.session.sentMarks n with
  | null => rw [hres] at hr; cases hr
  | notData =>
    rw [hres] at hr
    cases hr
    exact ⟨rfl, rfl, fun m hm => by cases hm⟩
  | data q d =>
    rw [hres] at hr
    cases hr
    have hslot : ((t.queue q).msgsQueue (t.index q d)).dataSeq =
        (slot s.connector.session q d).dataSeq := by
      rw [State.index, hq]
      rfl
    simp only [hslot]
    by_cases hd : (slot s.connector.session q d).dataSeq = d
    · rw [if_pos hd]
      refine ⟨trivial, by simp [hd], fun m hm => ?_⟩
      cases hm
      rw [hslot, hd]
      exact ⟨hd, rfl, rfl⟩
    · rw [if_neg hd]
      exact ⟨trivial, by simp [hd], fun m hm => by cases hm⟩

structure Spared (o : SessionOption) (s t : State) : Prop extends Resending (IsLaid o) s t where
  waiting : ∀ i d, Waiting s.connector.session i d → t.bytes i d = s.bytes i d

lemma Spared.refl (h : Kept (IsLaid o) s) : Spared o s s := ⟨.refl h, fun _ _ _ => rfl⟩

/-- Rewriting a message behind the head. -/
lemma Spared.finalizeSent (ho : WellFormed o) (h : Spared o s t) {q n : ℕ} {info : SendQueueInfo}
    {utcTime : List Byte} (htime : utcTime.length = sendingTimeSize)
    (hd : (slot s.connector.session q info.dataSeq).dataSeq = info.dataSeq)
    (hpos : 1 ≤ info.dataSeq) (hlt : info.dataSeq < (s.queue q).headDataSeq)
    (hwhole : s.Whole q info.dataSeq) (hroom : (seqBuf o.maxMsgSeqSize n).isSome) :
    ∃ u data, t.finalizeSent o utcTime n ((q, info), t.bytes q info.dataSeq) =
      some (u, ((q, info), data)) ∧ Spared o s u := by
  have hd' : ((t.queue q).msgsQueue (t.index q info.dataSeq)).dataSeq = info.dataSeq := by
    rw [h.queue, h.index]
    exact hd
  obtain ⟨flag, msgType, more, len, seq, time, origTime, sum, hlaid⟩ :=
    h.kept.laid hd' (by omega) (h.whole.mpr hwhole)
  obtain ⟨m, hm, hml⟩ := finalizeMsgResend_laid ho hlaid hroom htime
  have hlen := finalizeMsgResend_length hm
  refine ⟨t.pass q (t.index q info.dataSeq) info.dataSeq m.data, m.data, ?_,
    h.toResending.pass hd (by omega) hwhole hlen hml, fun i d hw => ?_⟩
  · simp only [State.finalizeSent, hm, Option.map_some]
  · rw [← h.waiting i d hw]
    by_cases hi : i = q
    · subst hi
      have hheld := (h.kept.fresh i).held d (by rw [h.queue]; exact hw.1)
        (by rw [h.queue]; exact hw.2)
      have hle := hw.1
      change info.dataSeq < (s.connector.session.sendQueues i).headDataSeq at hlt
      have hslot := h.kept.slot (j := t.index i d) (by rw [State.index, hheld]; omega)
      have hslot' := h.kept.slot (j := t.index i info.dataSeq) (by rw [hd']; omega)
      -- what waits was added later
      rw [State.bytes_pass_self]
      refine (h.whole.mpr hwhole).bytes_rewrite ?_ hslot'.2.1 hslot.2.1 ?_ fun hlt' => ?_
      · rw [hlen, State.bytes, QueueBuf.bytes_length]
      · rw [State.index, hheld, hd']
        omega
      · rw [State.index, hheld, hd'] at hlt'
        omega
    · exact State.bytes_pass_of_ne hi

/-- A settled range is served without harm, where what it finds was not written over. -/
lemma harmless_of_settled (ho : WellFormed o) (hutc : IsUtc utc) (hk : Kept (IsLaid o) s)
    {b e : UInt64} (hbe : b ≤ e) (h : AllSettled o s.connector b e)
    (hwhole : ∀ n ∈ asked s.connector b e, FoundWhole s n) : Harmless o utc s b e := by
  obtain ⟨hlast, hend, hrounds, hle⟩ := lastAsked_eq (p := s.connector) hbe
  have hasked : ∀ k, b.toNat ≤ k → k ≤ lastAsked s.connector b e → k ∈ asked s.connector b e := by
    intro k h1 h2
    refine List.mem_map.mpr ⟨k - b.toNat, List.mem_range.mpr ?_, ?_⟩
    · rw [hrounds]
      omega
    · rw [Nat.add_sub_cancel' h1]
      exact ulong_of_lt (by omega)
  intro ok
  have hloop : Ends (Spared o s)
      (fun _ m => SentBefore s.connector.wire m.1.1 m.1.2.dataSeq)
      (resendInPlace State.getSentMsg
        (fun k => State.finalizeSent o (utc (s.connector.wire.length + k))) (gapFits o)
        (fun k => ok (s.connector.wire.length + k)) (ulong (lastAsked s.connector b e + 1))
        (lastAsked s.connector b e - b.toNat + 1) s b.toNat b.toNat []) := by
    refine resendInPlace_ends ?_ h.2 hlast (by omega)
      ⟨le_rfl, le_rfl, fun k h1 h2 => by omega, Or.inl rfl⟩ (.refl hk) (.nil _)
    intro k h1 h2 t ht
    obtain ⟨hnull, hdata⟩ := settled_iff.mp (h.1 k h1 h2)
    have hget : ∃ r, t.getSentMsg k = some (t, r) := by
      rw [getSentMsg_fresh ht.kept.fresh, ht.connector]
      cases hres : Session.resolve s.connector.session.sentMarks k with
      | null => exact absurd hres hnull
      | notData => exact ⟨none, rfl⟩
      | data q d => exact ⟨_, rfl⟩
    obtain ⟨r, hr⟩ := hget
    obtain ⟨-, hsome, hmsg⟩ := getSentMsg_same hk.fresh ht.connector hr
    refine ⟨t, r, hr, ht, hsome, fun m hm j => ?_⟩
    obtain ⟨hd, hres, hbytes⟩ := hmsg m hm
    obtain ⟨hpos, hlt, hroom⟩ := hdata _ _ hres hd
    obtain ⟨htime, -⟩ := hutc (s.connector.wire.length + j)
    have hfound := hwhole k (hasked k h1 h2)
    rw [FoundWhole, hres] at hfound
    obtain ⟨u, data, hfin, hspared⟩ := ht.finalizeSent ho htime hd hpos hlt (hfound hd).2 hroom
    refine ⟨u, (m.1, data), ?_, hspared, (hk.unrecovered.sent _ _).mpr ⟨hpos, hlt⟩⟩
    rw [← hfin, ← hbytes]
  obtain ⟨t, outs, hr, ht, houts⟩ := hloop
  rw [hend, ← hrounds] at hr
  obtain ⟨s', hs'⟩ : ∃ s', SlotBytes.sendSequenceReset o utc s b.toNat e.toNat ok = some s' :=
    ⟨_, by rw [SlotBytes.sendSequenceReset, hr, Option.map_some]⟩
  have heq := hs'
  rw [SlotBytes.sendSequenceReset, hr, Option.map_some] at heq
  cases heq
  refine ⟨_, (outs.map (outMap Prod.fst)).map SocketConnector.resendPacket, hs', rfl,
    fun pk hpk i d hc => ?_, fun i d hw => ?_⟩
  · simp only [List.map_map, List.mem_map, Function.comp_def] at hpk
    obtain ⟨⟨⟨seq, newSeqNo⟩ | ⟨seq, m⟩, b⟩, hout, rfl⟩ := hpk
    · cases hc
    · simp only [outMap, SocketConnector.resendPacket, Content.queued.injEq] at hc
      obtain ⟨rfl, rfl⟩ := hc
      exact houts seq m b hout
  · refine ⟨?_, ?_⟩
    · simp only [ht.connector]
      exact hw
    · rw [← ht.waiting i d hw]
      simp only [State.bytes, State.index, State.queue]

/-- What a harmless resend says about every number asked for. -/
lemma settled_of_harmless (hu : Unrecovered s.connector) {b e : UInt64} (hbe : b ≤ e)
    (h : Harmless o utc s b e) : AllSettled o s.connector b e := by
  obtain ⟨hlast, hend, hrounds, hle⟩ := lastAsked_eq (p := s.connector) hbe
  obtain ⟨s', sent, hs, hw, hsent, -⟩ := h fun _ => true
  obtain ⟨⟨t, outs⟩, hr, rfl⟩ := Option.map_eq_some_iff.mp hs
  have hsent' : sent = (outs.map (outMap Prod.fst)).map SocketConnector.resendPacket :=
    List.append_cancel_left hw.symm
  rw [hrounds, ← hend] at hr
  have hvisited : Visited State.getSentMsg
      (fun k => State.finalizeSent o (utc (s.connector.wire.length + k))) (gapFits o)
      (found s.connector.session) b.toNat (lastAsked s.connector b e)
      (fun t => t.connector = s.connector) b.toNat b.toNat [] outs := by
    refine resendInPlace_visited (fun k h1 h2 u t r hu' hget => ?_) hlast (by omega)
      ⟨le_rfl, le_rfl, fun k h1 h2 => by omega, Or.inl rfl⟩ rfl hr
    obtain ⟨rfl, hf, hmsg⟩ := getSentMsg_same hu.queue hu' hget
    refine ⟨hu', hf, fun m hm j u x hx => ?_⟩
    obtain ⟨msg, -, heq⟩ := Option.map_eq_some_iff.mp hx
    cases heq
    exact hu'
  refine ⟨fun n h1 h2 => ?_, fun start stop hgap => ?_⟩
  · obtain ⟨u, v, r, hc, hget, hmsg⟩ := hvisited.round n h1 h2
    obtain ⟨rfl, hf, hfound⟩ := getSentMsg_same hu.queue hc hget
    refine settled_iff.mpr ⟨fun hnull => ?_, fun q d hres hd => ?_⟩
    · rw [getSentMsg_fresh fun i => by rw [State.queue, hc]; exact hu.queue i, hc, hnull] at hget
      cases hget
    · have hsome : r.isSome = true := by simp [hf, found, hres, hd]
      obtain ⟨m, rfl⟩ := Option.isSome_iff_exists.mp hsome
      obtain ⟨-, hres', -⟩ := hfound m rfl
      rw [hres] at hres'
      cases hres'
      obtain ⟨j, w, x, hx, hmem⟩ := hmsg _ rfl
      obtain ⟨msg, hm, heq⟩ := Option.map_eq_some_iff.mp hx
      cases heq
      have hroom : (seqBuf o.maxMsgSeqSize n).isSome := by
        cases hseq : seqBuf o.maxMsgSeqSize n with
        | none => simp [finalizeMsgResend, hseq] at hm
        | some msgSeq => rfl
      have hbefore := hsent _ (by
        rw [hsent', List.map_map]
        exact List.mem_map_of_mem hmem) m.1.1 m.1.2.dataSeq rfl
      have hpast := (hu.sent _ _).mp hbefore
      exact ⟨hpast.1, hpast.2, hroom⟩
  · cases hgap with
    | before h1 h2 h3 h4 h5 h6 => exact hvisited.room _ _ (.before h1 h2 h3 h4 h5 h6) h1
    | atEnd h1 h2 h3 h4 => exact hvisited.room _ _ (.atEnd h1 h2 h3 h4) h1
    | wrapped h1 h2 h3 => exact hvisited.wrap h1 h2 h3

/-! ### Runs -/

variable (o) in
/-- Every message that waits and was not written over would go out as it should, and none was
passed to the socket yet. -/
structure Ready (s : State) : Prop where
  goes : ∀ i d, Waiting s.connector.session i d → s.Whole i d → GoesOut o (s.bytes i d)
  behind : ∀ pk ∈ s.connector.wire, ∀ i d, pk.msg.content = .queued i d →
    d < (s.queue i).headDataSeq

variable (o) in
def Serves (s : State) : SlotBytes.Act → Prop
  | .act (.resend b e _) => b ≤ e ∧ AllSettled o s.connector b e
  | _ => True

lemma Ready.other (h : Ready o s) {i d : ℕ} (hq : s'.queue i = s.queue i)
    (hb : s'.bufs i = s.bufs i) (hwait : Waiting s'.connector.session i d) (hwhole : s'.Whole i d) :
    GoesOut o (s'.bytes i d) := by
  have hidx : s'.index i d = s.index i d := by rw [State.index, hq, State.index]
  rw [State.Whole, hq, hb, hidx] at hwhole
  rw [State.bytes, hb, hidx]
  refine h.goes i d ?_ hwhole
  change s'.connector.session.sendQueues i = s.connector.session.sendQueues i at hq
  rwa [Waiting, hq] at hwait

lemma Ready.build (h : Ready o s) (i : ℕ) (data : List Byte) :
    Ready o (s.setBuf i ((s.bufs i).build data)) := by
  refine ⟨fun i' d hwait hwhole => ?_, h.behind⟩
  by_cases hi : i' = i
  · subst hi
    simp only [State.Whole, State.bytes, State.setBuf, Function.update_self] at hwhole ⊢
    obtain ⟨hold, hbytes⟩ := hwhole.of_build
    rw [hbytes]
    exact h.goes i' d hwait hold
  · exact h.other rfl (Function.update_of_ne hi _ _) hwait hwhole

/-- A composed message is added. -/
lemma Ready.add (ho : WellFormed o) (hk : Kept (IsLaid o) s) (h : Ready o s) {i : ℕ}
    {data : List Byte} {q : SendQueue} (hq : (s.queue i).addMsg data = some q)
    (hqs : s'.connector.session.sendQueues = Function.update s.connector.session.sendQueues i q)
    (hb : s'.bufs = Function.update s.bufs i
      ((s.bufs i).put (s.index i (s.queue i).dataSeq) data))
    (hw : s'.connector.wire = s.connector.wire) (hdata : Composed o data)
    (hbuilt : (s.bufs i).built ≤ data.length) : Ready o s' := by
  have heq := (SendQueue.addMsg_eq_some.mp hq).2
  have hroom := (fresh_addMsg (hk.fresh i) hq).1.room
  have hqi : s'.queue i = q := by rw [State.queue, hqs, Function.update_self]
  have hqne : ∀ i', i' ≠ i → s'.queue i' = s.queue i' := fun i' hi => by
    rw [State.queue, hqs, Function.update_of_ne hi]
    rfl
  refine ⟨fun i' d hwait hwhole => ?_, fun pk hpk i' d hc => ?_⟩
  · by_cases hi : i' = i
    · subst hi
      have hsize : q.qSize = (s.queue i').qSize := by rw [heq]
      have hslots : q.msgsQueue = Function.update (s.queue i').msgsQueue
          ((s.queue i').dataSeq % (s.queue i').qSize) ⟨(s.queue i').dataSeq, data⟩ := by rw [heq]
      have hwait' : q.headDataSeq ≤ d ∧ d < q.dataSeq := hqi ▸ hwait
      rw [heq] at hwait' hroom
      simp only at hwait' hroom
      rw [State.Whole, State.index, hqi, hsize, hb, Function.update_self] at hwhole
      rw [State.bytes, State.index, hqi, hsize, hb, Function.update_self]
      by_cases hd : d = (s.queue i').dataSeq
      · rw [hd, State.index, QueueBuf.bytes_put_self]
        exact hdata.goesOut ho
      · have hne : d % (s.queue i').qSize ≠ (s.queue i').dataSeq % (s.queue i').qSize :=
          Memory.mod_ne_of_lt (by omega) (by omega)
        have hheld := (hk.fresh i').held d hwait'.1 (by omega)
        have hpos := (hk.fresh i').pos
        obtain ⟨hold, hbytes⟩ := hwhole.of_put (hk.window i') (by omega) hsize hslots hbuilt hne
          (by omega)
        rw [State.index, hbytes]
        exact h.goes i' d ⟨hwait'.1, by change d < (s.queue i').dataSeq; omega⟩ hold
    · exact h.other (hqne i' hi) (by rw [hb, Function.update_of_ne hi]) hwait hwhole
  · have hlt := h.behind pk (hw ▸ hpk) i' d hc
    by_cases hi : i' = i
    · subst hi
      rw [hqi, heq]
      exact hlt
    · rw [hqne i' hi]
      exact hlt

/-- A step that passes no message of a queue. -/
lemma Ready.quiet (h : Ready o s) {new : List Packet}
    (hq : ∀ i, (s.queue i).SameMsgs (s'.queue i) ∧
      (s'.queue i).headDataSeq = (s.queue i).headDataSeq) (hb : s'.bufs = s.bufs)
    (hw : s'.connector.wire = s.connector.wire ++ new)
    (hnew : ∀ pk ∈ new, pk.msg.content = .session) : Ready o s' := by
  refine ⟨fun i d hwait hwhole => ?_, fun pk hpk i d hc => ?_⟩
  · obtain ⟨hsame, hhead⟩ := hq i
    have hidx : s'.index i d = s.index i d := by rw [State.index, hsame.qSize, State.index]
    have hold : s.Whole i d := by
      rw [State.Whole, ← hidx, ← hb]
      exact hwhole.congr hsame.qSize.symm fun k => by rw [hsame.msgsQueue]
    rw [State.bytes, hb, hidx]
    refine h.goes i d ?_ hold
    change (s'.queue i).headDataSeq ≤ d ∧ d < (s'.queue i).dataSeq at hwait
    rwa [hhead, hsame.dataSeq] at hwait
  · rw [(hq i).2]
    rw [hw] at hpk
    rcases List.mem_append.mp hpk with hpk | hpk
    · exact h.behind pk hpk i d hc
    · rw [hnew pk hpk] at hc
      cases hc

/-- The head message is sent, and leaves those behind it alone. -/
lemma Ready.sent (hk : Kept (IsLaid o) s) (h : Ready o s) {i : ℕ} {ok : Bool} {info : SendQueueInfo}
    {seq : ℕ} {msg : WMessage} (hinfo : (s.queue i).getMsg = some info)
    (hwhole : s.Whole i (s.queue i).headDataSeq)
    (hlen : msg.data.length = (s.bytes i (s.queue i).headDataSeq).length)
    (hqs : s'.connector.session.sendQueues = Function.update s.connector.session.sendQueues i
      (s.queue i).markMsgSent)
    (hb : s'.bufs = (s.pass i (s.index i (s.queue i).headDataSeq) info.dataSeq msg.data).bufs)
    (hw : s'.connector.wire = s.connector.wire ++
      [⟨⟨i, seq, info.dataSeq, .queued i info.dataSeq⟩, true, ok⟩]) : Ready o s' := by
  have hf := hk.fresh i
  have hpos := hf.pos
  have hroom := hf.room
  obtain ⟨hne, hd, hslot⟩ := getMsg_fresh hf hinfo
  have hqi : s'.queue i = (s.queue i).markMsgSent := by
    rw [State.queue, hqs, Function.update_self]
  have hqne : ∀ i', i' ≠ i → s'.queue i' = s.queue i' := fun i' hi => by
    rw [State.queue, hqs, Function.update_of_ne hi]
    rfl
  refine ⟨fun i' d hwait hwhole' => ?_, fun pk hpk i' d hc => ?_⟩
  · by_cases hi : i' = i
    · subst hi
      have hwait' : (s.queue i').headDataSeq + 1 ≤ d ∧ d < (s.queue i').dataSeq :=
        (congrArg (fun q : SendQueue => q.headDataSeq ≤ d ∧ d < q.dataSeq) hqi).mp hwait
      have hheld := hf.held d (by omega) hwait'.2
      have hheld' := hf.held _ le_rfl hne
      have hidx : s'.index i' d = s.index i' d := by rw [State.index, hqi]; rfl
      have hbuf : s'.bufs i' =
          (s.bufs i').rewrite (s.index i' (s.queue i').headDataSeq) msg.data := by
        rw [hb]
        exact Function.update_self _ _ _
      have hold : s.Whole i' d := by
        rw [State.Whole, hbuf, hidx, hqi] at hwhole'
        exact (QueueBuf.Whole.congr hwhole' rfl fun _ => rfl :
          QueueBuf.Whole (s.queue i') _ (s.index i' d))
      have hmod : ∀ d, s.index i' d < (s.queue i').qSize := fun d => Nat.mod_lt _ (by omega)
      have hbytes : s'.bytes i' d = s.bytes i' d := by
        rw [State.bytes, hbuf, hidx]
        refine hwhole.bytes_rewrite (by rw [hlen, State.bytes, QueueBuf.bytes_length]) (hmod _)
          (hmod _) ?_ fun _ => hold
        rw [State.index, State.index, hheld, hheld']
        omega
      rw [hbytes]
      exact h.goes i' d ⟨by change (s.queue i').headDataSeq ≤ d; omega, hwait'.2⟩ hold
    · refine h.other (hqne i' hi) ?_ hwait hwhole'
      rw [hb]
      exact Function.update_of_ne hi _ _
  · rw [hw] at hpk
    rcases List.mem_append.mp hpk with hpk | hpk
    · have hlt := h.behind pk hpk i' d hc
      by_cases hi : i' = i
      · subst hi
        rw [hqi]
        exact Nat.lt_succ_of_lt hlt
      · rw [hqne i' hi]
        exact hlt
    · rw [List.mem_singleton.mp hpk] at hc
      cases hc
      rw [hqi, hd]
      exact Nat.lt_succ_self _

/-- A request is served without harm. -/
lemma Ready.resent (ho : WellFormed o) (hutc : IsUtc utc) (hk : Kept (IsLaid o) s) (h : Ready o s)
    {b e : UInt64} {ok : ℕ → Bool} (hbe : b ≤ e) (hsettled : AllSettled o s.connector b e)
    (hwhole : ∀ n ∈ asked s.connector b e, FoundWhole s n)
    (hr : SlotBytes.sendSequenceReset o utc s b.toNat e.toNat ok = some s') : Ready o s' := by
  obtain ⟨s₁, sent, hs₁, hw, hsent, hwait⟩ := harmless_of_settled ho hutc hk hbe hsettled hwhole ok
  rw [hr] at hs₁
  cases hs₁
  obtain ⟨t, ht, hb, -, hsess⟩ := hk.resent (isLaid_lasting ho hutc) hwhole hr
  have hq : ∀ i, s'.queue i = s.queue i := fun i => by rw [State.queue, hsess]; rfl
  refine ⟨fun i d hw' hwhole' => ?_, fun pk hpk i d hc => ?_⟩
  · rw [hsess] at hw'
    rw [(hwait i d hw').2]
    refine h.goes i d hw' ?_
    rw [State.Whole, State.index, hq, hb, (ht.places i).whole] at hwhole'
    exact hwhole'
  · rw [hq]
    rw [hw] at hpk
    rcases List.mem_append.mp hpk with hpk | hpk
    · exact h.behind pk hpk i d hc
    · exact ((hk.unrecovered.sent i d).mp (hsent pk hpk i d hc)).2

lemma step_ready (ho : WellFormed o) (hutc : IsUtc utc) {a : SlotBytes.Act} (hk : Kept (IsLaid o) s)
    (h : Ready o s) (hadds : Adds (Composed o) a) (ha : Keeps s a) (hserves : Serves o s a)
    (hs : SlotBytes.step o utc s a = some s') : Ready o s' := by
  cases step_bytes hs with
  | built he => exact he ▸ h.build _ _
  | added hq hqs _ hb _ hw => exact h.add ho hk hq hqs hb hw hadds ha.2
  | quiet hq _ hb _ hw hnew => exact h.quiet hq hb hw hnew
  | sent hinfo hmsg hqs _ hb _ hw => exact h.sent hk hinfo ha (finalizeMsg_length hmsg) hqs hb hw
  | resent hr => exact h.resent ho hutc hk hserves.1 hserves.2 ha hr

lemma boot_ready {files : PManager} (hfiles : ∀ i, files.dataQueue i = []) (lastQ : ℤ)
    (mem : ℕ → ℕ → Byte) : Ready o (SlotBytes.boot o M files lastQ mem) := by
  refine ⟨fun i d hwait => ?_, fun pk hpk => by cases hpk⟩
  obtain ⟨h1, h2⟩ := hwait
  have hd : ((Session.init o M files lastQ).sendQueues i).dataSeq = 1 := by
    have := Session.init_dataSeq o M files lastQ i
    rwa [hfiles i] at this
  have hpos := ((boot_unrecovered (o := o) (M := M) hfiles lastQ).queue i).pos
  change d < ((Session.init o M files lastQ).sendQueues i).dataSeq at h2
  change 1 ≤ ((Session.init o M files lastQ).sendQueues i).headDataSeq at hpos
  change ((Session.init o M files lastQ).sendQueues i).headDataSeq ≤ d at h1
  omega

lemma run_ready (ho : WellFormed o) (hutc : IsUtc utc) {files : PManager}
    (hfiles : ∀ i, files.dataQueue i = []) {lastQ : ℤ} {mem : ℕ → ℕ → Byte}
    {acts : List SlotBytes.Act} (hadds : ∀ a ∈ acts, Adds (Composed o) a)
    (hkeeps : Meets (SlotBytes.step o utc) Keeps (SlotBytes.boot o M files lastQ mem) acts)
    (hserves : Meets (SlotBytes.step o utc) (Serves o) (SlotBytes.boot o M files lastQ mem) acts)
    (hrun : run (SlotBytes.step o utc) (SlotBytes.boot o M files lastQ mem) acts = some s) :
    Ready o s :=
  (run_induct (P := fun s => Kept (IsLaid o) s ∧ Ready o s)
    (fun _ _ _ h ha hs => ⟨step_kept (isLaid_lasting ho hutc) h.1
        (ha.1.mono fun _ hdata => hdata.isLaid ho) ha.2.1 hs,
      step_ready ho hutc h.1 h.2 ha.1 ha.2.1 ha.2.2 hs⟩)
    ⟨boot_kept hfiles lastQ mem, boot_ready hfiles lastQ mem⟩
    ((meets_of_mem hadds _).and (hkeeps.and hserves)) hrun).2

def oneOfTwoSent : List SlotBytes.Act :=
  [.act (.logon 0 true), .build 1 order, .act (.addMsg 1 order), .act (.data 1 true),
    .act (.addMsg 1 order)]

def oneWaits : State :=
  (run (SlotBytes.step fourSlots noon) (fresh fourSlots) oneOfTwoSent).get (by decide +kernel)

lemma run_oneWaits :
    run (SlotBytes.step fourSlots noon) (fresh fourSlots) oneOfTwoSent = some oneWaits :=
  (Option.some_get _).symm

/-- The process after a request for the Logon and the message sent. -/
def oneAgain : State :=
  (run (SlotBytes.step fourSlots noon) oneWaits [.act (.resend 1 2 fun _ => true)]).get
    (by decide +kernel)

lemma run_oneAgain : run (SlotBytes.step fourSlots noon) (fresh fourSlots)
    (oneOfTwoSent ++ [.act (.resend 1 2 fun _ => true)]) = some oneAgain := by
  rw [run_append, run_oneWaits, Option.bind_some, oneAgain]
  exact (Option.some_get _).symm

lemma oneAgain_adds :
    ∀ a ∈ oneOfTwoSent ++ [.act (.resend 1 2 fun _ => true)], Adds (Composed fourSlots) a := by
  intro a ha
  simp only [oneOfTwoSent, List.cons_append, List.nil_append, List.mem_cons, List.not_mem_nil,
    or_false] at ha
  rcases ha with rfl | rfl | rfl | rfl | rfl | rfl
  · trivial
  · trivial
  · exact order_composed
  · trivial
  · exact order_composed
  · trivial

/-- Where the Logon and one message were sent, a request for the two is settled. -/
lemma settled_logonAndOrder
    (h1 : Session.resolve p.session.sentMarks 1 = .notData)
    (h2 : Session.resolve p.session.sentMarks 2 = .data 1 1)
    (hslot : (slot p.session 1 1).dataSeq = 1) (hhead : (p.session.sendQueues 1).headDataSeq = 2) :
    AllSettled fourSlots p 1 2 := by
  have hlast : lastAsked p 1 2 = 2 := lastAsked_of_ne (by decide) (by decide)
  have hfound : found p.session 2 = true := by simp [found, h2, hslot]
  have hb : (1 : UInt64).toNat = 1 := rfl
  rw [AllSettled, hlast, hb]
  refine ⟨fun n hn1 hn2 => settled_iff.mpr ?_, fun start stop hgap => ?_⟩
  · obtain rfl | rfl : n = 1 ∨ n = 2 := by omega
    · rw [h1]
      exact ⟨by simp, fun q d hd => by cases hd⟩
    · rw [h2]
      refine ⟨by simp, fun q d hd _ => ?_⟩
      cases hd
      exact ⟨le_rfl, by omega, by decide⟩
  · cases hgap with
    | before hg1 hg2 hg3 =>
      obtain ⟨rfl, rfl⟩ : start = 1 ∧ stop = 2 := by omega
      decide
    | atEnd hg1 hg2 hg3 =>
      rw [hg3 2 (by omega) le_rfl] at hfound
      cases hfound
    | wrapped _ _ hg3 => exact absurd hg3 (by decide)

lemma settled_oneWaits : AllSettled fourSlots oneWaits.connector 1 2 :=
  settled_logonAndOrder (by decide +kernel) (by decide +kernel) (by decide +kernel)
    (by decide +kernel)

lemma settled_oneAgain : AllSettled fourSlots oneAgain.connector 1 2 :=
  settled_logonAndOrder (by decide +kernel) (by decide +kernel) (by decide +kernel)
    (by decide +kernel)

lemma oneAgain_serves : Meets (SlotBytes.step fourSlots noon) (Serves fourSlots) (fresh fourSlots)
    (oneOfTwoSent ++ [.act (.resend 1 2 fun _ => true)]) := by
  have hquiet : Meets (SlotBytes.step fourSlots noon) (Serves fourSlots) (fresh fourSlots)
      oneOfTwoSent :=
    fun _ _ => ⟨trivial, fun _ _ => ⟨trivial, fun _ _ => ⟨trivial, fun _ _ => ⟨trivial,
      fun _ _ => ⟨trivial, trivial⟩⟩⟩⟩⟩
  exact hquiet.append run_oneWaits fun _ _ => ⟨⟨by decide, settled_oneWaits⟩, trivial⟩

/-- The third message lies over the first one, and a request for that rewrites it. -/
example :
    (run (SlotBytes.step shortSlots noon) (fresh shortSlots)
      [.act (.logon 0 true), .act (.addMsg 1 order), .act (.data 1 true), .act (.addMsg 1 order),
        .act (.addMsg 1 order), .act (.resend 2 2 fun _ => true)]).map (fun s =>
          (decide (s.bytes 1 3 = order), decide (s.Whole 1 1))) = some (false, false) := by
  decide +kernel

end Ufix.ResendFrame
