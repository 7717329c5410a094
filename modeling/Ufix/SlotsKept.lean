import Ufix.SingleProcess
import Ufix.SlotLayout

/-!
What the buffers of a process keep, when the process starts with nothing recovered.

A message is whole until a later one is written over it. While it is, its bytes keep what sending
keeps, and once it was passed to the socket they are the ones passed last.
-/

namespace Ufix.SlotsKept

open Ufix.Compose Ufix.Runs Ufix.Sender Ufix.History Ufix.SingleProcess Ufix.InPlace
open Ufix.SlotLayout
open Ufix.SlotBytes hiding Act step sendQueuedMsg
open Ufix.SendWindow (Window)

variable {o : SessionOption} {M : ℕ} {utc : ℕ → List Byte} {p p' : SocketConnector}
  {s s' t : State} {L : List Byte → Prop}

/-! ### A process that recovered nothing -/

/-- `send_data` has passed message `d` of queue `i` to the socket. -/
def SentBefore (wire : List Packet) (i d : ℕ) : Prop :=
  ∃ pk ∈ news wire, pk.msg.content = .queued i d

/-- Nothing is recovered, and what was sent are the messages behind the heads. -/
structure Unrecovered (p : SocketConnector) : Prop where
  queue : ∀ i, Fresh (p.session.sendQueues i)
  sent : ∀ i d, SentBefore p.wire i d ↔ 1 ≤ d ∧ d < (p.session.sendQueues i).headDataSeq

lemma sentBefore_append {wire new : List Packet} {i d : ℕ} :
    SentBefore (wire ++ new) i d ↔ SentBefore wire i d ∨ SentBefore new i d := by
  simp only [SentBefore, news_append, List.mem_append]
  constructor
  · rintro ⟨pk, hpk | hpk, hc⟩
    · exact Or.inl ⟨pk, hpk, hc⟩
    · exact Or.inr ⟨pk, hpk, hc⟩
  · rintro (⟨pk, hpk, hc⟩ | ⟨pk, hpk, hc⟩)
    · exact ⟨pk, Or.inl hpk, hc⟩
    · exact ⟨pk, Or.inr hpk, hc⟩

lemma Unrecovered.quiet {new : List Packet} (h : Unrecovered p) (hw : p'.wire = p.wire ++ new)
    (hnew : ∀ i d, ¬ SentBefore new i d)
    (hq : ∀ i, Fresh (p'.session.sendQueues i) ∧
      (p'.session.sendQueues i).headDataSeq = (p.session.sendQueues i).headDataSeq) :
    Unrecovered p' := by
  refine ⟨fun i => (hq i).1, fun i d => ?_⟩
  rw [hw, sentBefore_append, (hq i).2, ← h.sent i d]
  simp [hnew i d]

lemma not_sentBefore_session {msg : WMsg} {ok : Bool} (hc : msg.content = .session) (i d : ℕ) :
    ¬ SentBefore [⟨msg, true, ok⟩] i d := by
  rintro ⟨pk, hpk, he⟩
  simp only [news_new, List.mem_singleton] at hpk
  rw [hpk, hc] at he
  cases he

lemma not_sentBefore_nil (i d : ℕ) : ¬ SentBefore [] i d := by
  rintro ⟨pk, hpk, -⟩
  simp [news] at hpk

lemma not_sentBefore_resend (outs : List (Out (ℕ × SendQueueInfo) × Bool)) (i d : ℕ) :
    ¬ SentBefore (outs.map SocketConnector.resendPacket) i d := by
  rintro ⟨pk, hpk, -⟩
  rw [news_resend] at hpk
  cases hpk

/-- A head moves when its message is passed to the socket, and only then. -/
lemma step_unrecovered {a : Act} (h : Unrecovered p) (hs : step o p a = some p') :
    Unrecovered p' := by
  obtain ⟨new, he, hw, -, -⟩ := step_effect hs
  have hqueues := effect_queues h.queue he
  have hquiet : (∀ i ok, a ≠ .data i ok) → (∀ i d, ¬ SentBefore new i d) → Unrecovered p' :=
    fun hdata hnew => h.quiet hw hnew fun j => (hqueues j).imp_right fun hh => hh hdata
  generalize hsess : p'.session = s at he
  cases he with
  | addMsg => exact hquiet (by simp) not_sentBefore_nil
  | reconnect => exact hquiet (by simp) not_sentBefore_nil
  | poll => exact hquiet (by simp) not_sentBefore_nil
  | logon => exact hquiet (by simp) (not_sentBefore_session rfl)
  | session => exact hquiet (by simp) (not_sentBefore_session rfl)
  | @data i ok info hb hi hinfo =>
    obtain ⟨hne, hslot⟩ := SendQueue.getMsg_eq_some.mp hinfo
    have hq := h.queue i
    have hle := hq.le
    have hd : info.dataSeq = (p.session.sendQueues i).headDataSeq := by
      rw [← hslot]
      exact hq.held _ le_rfl (by omega)
    have hnew : ∀ j d, SentBefore [⟨⟨i, p.session.msgSeq, info.dataSeq,
        .queued i info.dataSeq⟩, true, ok⟩] j d ↔ j = i ∧ d = info.dataSeq := by
      intro j d
      simp [SentBefore, eq_comm]
    refine ⟨fun j => (hqueues j).1, fun j d => ?_⟩
    rw [hw, sentBefore_append, hnew, h.sent, hsess, Session.markMsgSent,
      Session.setQueue_sendQueues, afterSend_sendQueues]
    by_cases hij : j = i
    · have hpos := hq.pos
      rw [hij, Function.update_self]
      simp only [SendQueue.markMsgSent, true_and, hd]
      omega
    · rw [Function.update_of_ne hij]
      simp [hij]
  | resend => exact hquiet (by simp) (not_sentBefore_resend _)

lemma boot_unrecovered {files : PManager} (hfiles : ∀ i, files.dataQueue i = []) (lastQ : ℤ) :
    Unrecovered (boot o M files lastQ) := by
  refine ⟨fun i => (fresh_init (hfiles i) lastQ).1, fun i d => ?_⟩
  have hh := (fresh_init (o := o) (M := M) (hfiles i) lastQ).2
  change SentBefore [] i d ↔ 1 ≤ d ∧ d < ((Session.init o M files lastQ).sendQueues i).headDataSeq
  rw [hh]
  refine ⟨fun h => absurd h (not_sentBefore_nil i d), fun h => by omega⟩

/-! ### The conditions of the steps -/

/-- What `get_utc_time` returns. -/
def IsUtc (utc : ℕ → List Byte) : Prop := ∀ k, (utc k).length = sendingTimeSize ∧ soh ∉ utc k

/-- The number leads to no message, or to one that was added and that no later message lies over. -/
def FoundWhole (s : State) (n : ℕ) : Prop :=
  match Session.resolve s.connector.session.sentMarks n with
  | .data i d => ((s.queue i).msgsQueue (s.index i d)).dataSeq = d → 1 ≤ d ∧ s.Whole i d
  | _ => True

instance (s : State) (n : ℕ) : Decidable (FoundWhole s n) := by
  unfold FoundWhole
  cases Session.resolve s.connector.session.sentMarks n <;> infer_instance

/-- The numbers that a request has looked up. -/
def asked (p : SocketConnector) (b e : UInt64) : List ℕ :=
  Resend.numbers b.toNat (rounds b.toNat (p.resendEnd e.toNat))

variable (L) in
/-- Messages the application adds have the property. -/
def Adds : SlotBytes.Act → Prop
  | .act (.addMsg _ data) => L data
  | _ => True

lemma Adds.mono {L' : List Byte → Prop} (h : ∀ data, L data → L' data) {a : SlotBytes.Act}
    (ha : Adds L a) : Adds L' a := by
  rcases a with ⟨i, data⟩ | a
  · trivial
  cases a with
  | addMsg i data => exact h data ha
  | _ => trivial

variable (o utc L) in
/-- A property of bytes that `finalize_msg` keeps. -/
structure Lasting : Prop where
  sent : ∀ {data seq k msg}, L data → finalizeMsg o (Decimal.padded o.maxMsgSeqSize seq) (utc k)
    (.ofSlot data) = some msg → L msg.data
  resent : ∀ {data seq k msg}, L data → finalizeMsgResend o seq (utc k) (.ofSlot data) = some msg →
    L msg.data

lemma isLaid_lasting (ho : WellFormed o) (hutc : IsUtc utc) : Lasting o utc (IsLaid o) where
  sent h hmsg := h.sent ho (Decimal.padded_length _ _) (hutc _).1 hmsg
  resent h hmsg := h.resent ho (hutc _).1 hmsg

/-- Messages stay within the memory allocated, and no message that is sent or sent again was
written over. -/
def Keeps (s : State) : SlotBytes.Act → Prop
  | .build i data => (s.bufs i).Room data.length
  | .act (.addMsg i data) => (s.bufs i).Takes data.length
  | .act (.data i _) => s.Whole i (s.queue i).headDataSeq
  | .act (.resend b e _) => ∀ n ∈ asked s.connector b e, FoundWhole s n
  | _ => True

instance (s : State) : DecidablePred (Keeps s)
  | .build _ _ => inferInstanceAs (Decidable (QueueBuf.Room _ _))
  | .act (.addMsg _ _) => inferInstanceAs (Decidable (QueueBuf.Takes _ _))
  | .act (.data _ _) => inferInstanceAs (Decidable (State.Whole _ _ _))
  | .act (.resend b e _) =>
    inferInstanceAs (Decidable (∀ n ∈ asked s.connector b e, FoundWhole s n))
  | .act .reconnect | .act (.poll _) | .act (.logon _ _) | .act (.session _ _) =>
    inferInstanceAs (Decidable True)

/-! ### What was passed to the socket -/

/-- The bytes of message `d` of queue `i` when it was passed to the socket last. -/
def lastPassed (passed : List Passed) (i d : ℕ) : Option (List Byte) :=
  (passed.reverse.find? fun m => m.qIndex = i ∧ m.dataSeq = d).map Passed.bytes

lemma lastPassed_concat (passed : List Passed) (m : Passed) (i d : ℕ) :
    lastPassed (passed ++ [m]) i d =
      if m.qIndex = i ∧ m.dataSeq = d then some m.bytes else lastPassed passed i d := by
  unfold lastPassed
  rw [List.reverse_append, List.reverse_singleton, List.singleton_append, List.find?_cons]
  by_cases h : m.qIndex = i ∧ m.dataSeq = d <;> simp [h]

variable (L) in
/-- The bytes of message `d` of queue `i`: they have the property, and are the ones passed last. -/
structure Held (passed : List Passed) (i d : ℕ) (bytes : List Byte) : Prop where
  laid : L bytes
  last : ∀ x, lastPassed passed i d = some x → bytes = x

variable (L) in
structure Kept (s : State) : Prop where
  unrecovered : Unrecovered s.connector
  window : ∀ i, Window (s.queue i) (s.connector.session.pManager.dataQueue i)
  known : ∀ m ∈ s.passed, m.dataSeq < (s.queue m.qIndex).dataSeq
  held : ∀ i j, ((s.queue i).msgsQueue j).dataSeq ≠ 0 →
    QueueBuf.Whole (s.queue i) (s.bufs i) j →
    Held L s.passed i ((s.queue i).msgsQueue j).dataSeq ((s.bufs i).bytes j)

/-! ### Steps -/

lemma Kept.fresh (h : Kept L s) (i : ℕ) : Fresh (s.queue i) := h.unrecovered.queue i

lemma Kept.slot (h : Kept L s) {i j : ℕ} (h0 : ((s.queue i).msgsQueue j).dataSeq ≠ 0) :
    ((s.queue i).msgsQueue j).dataSeq % (s.queue i).qSize = j ∧ j < (s.queue i).qSize ∧
      ((s.queue i).msgsQueue j).dataSeq < (s.queue i).dataSeq := by
  obtain ⟨hmod, hle, hlt⟩ := (h.window i).slot j h0
  have hseq := (h.window i).dataSeq
  refine ⟨hmod, ?_, by omega⟩
  rw [← hmod]
  exact Nat.mod_lt _ (by omega)

lemma Kept.congr (h : Kept L s) (hu : Unrecovered s'.connector)
    (hq : ∀ i, (s.queue i).SameMsgs (s'.queue i))
    (hfile : s'.connector.session.pManager.dataQueue = s.connector.session.pManager.dataQueue)
    (hb : s'.bufs = s.bufs) (hp : s'.passed = s.passed) : Kept L s' := by
  refine ⟨hu, fun i => ?_, fun m hm => ?_, fun i j h0 hwhole => ?_⟩
  · rw [hfile]
    exact (h.window i).congr (hq i)
  · rw [(hq m.qIndex).dataSeq]
    exact h.known m (hp ▸ hm)
  · rw [(hq i).msgsQueue] at h0 ⊢
    rw [hb] at hwhole ⊢
    rw [hp]
    exact h.held i j h0 (hwhole.congr (hq i).qSize.symm fun k => by rw [(hq i).msgsQueue])

/-- A message that was not written over is finalized where it lies, and passed on. -/
lemma Kept.pass (h : Kept L s) {i j d : ℕ} {data : List Byte}
    (hd : ((s.queue i).msgsQueue j).dataSeq = d) (h0 : d ≠ 0)
    (hwhole : QueueBuf.Whole (s.queue i) (s.bufs i) j) (hlen : data.length = (s.bufs i).len j)
    (hlaid : L data) : Kept L (s.pass i j d data) := by
  obtain ⟨hmod, hj, hlt⟩ := h.slot (hd ▸ h0)
  refine ⟨h.unrecovered, h.window, fun m hm => ?_, fun i' k hk hwhole' => ?_⟩
  · rcases List.mem_append.mp hm with hm | hm
    · exact h.known m hm
    · rw [List.mem_singleton.mp hm]
      exact hd ▸ hlt
  · simp only [State.pass, State.setBuf] at hwhole' ⊢
    change Held L (s.passed ++ [⟨i, d, data⟩]) i' ((s.queue i').msgsQueue k).dataSeq _
    by_cases hi : i' = i
    · subst hi
      rw [Function.update_self] at hwhole' ⊢
      by_cases hkj : k = j
      · subst hkj
        rw [QueueBuf.bytes_rewrite_self hlen, hd]
        refine ⟨hlaid, fun x hx => ?_⟩
        rw [lastPassed_concat, if_pos ⟨rfl, rfl⟩] at hx
        exact Option.some.inj hx
      · have hne : ((s.queue i').msgsQueue k).dataSeq ≠ ((s.queue i').msgsQueue j).dataSeq := by
          intro he
          exact hkj ((h.slot hk).1.symm.trans (he ▸ hmod))
        have hold : QueueBuf.Whole (s.queue i') (s.bufs i') k := hwhole'
        rw [hwhole.bytes_rewrite hlen hj (h.slot hk).2.1 hne fun _ => hold]
        obtain ⟨hlaid', hlast⟩ := h.held i' k hk hold
        refine ⟨hlaid', fun x hx => hlast x ?_⟩
        rwa [lastPassed_concat, if_neg fun hm => hne (hm.2.symm.trans hd.symm)] at hx
    · rw [Function.update_of_ne hi] at hwhole' ⊢
      obtain ⟨hlaid', hlast⟩ := h.held i' k hk hwhole'
      refine ⟨hlaid', fun x hx => hlast x ?_⟩
      rwa [lastPassed_concat, if_neg fun hm => hi hm.1.symm] at hx

lemma Kept.build (h : Kept L s) (i : ℕ) (data : List Byte) :
    Kept L (s.setBuf i ((s.bufs i).build data)) := by
  refine ⟨h.unrecovered, h.window, h.known, fun i' j h0 hwhole => ?_⟩
  simp only [State.setBuf] at hwhole ⊢
  by_cases hi : i' = i
  · subst hi
    rw [Function.update_self] at hwhole ⊢
    obtain ⟨hold, hbytes⟩ := hwhole.of_build
    rw [hbytes]
    exact h.held i' j h0 hold
  · rw [Function.update_of_ne hi] at hwhole ⊢
    exact h.held i' j h0 hwhole

/-- A composed message is added. -/
lemma Kept.add (h : Kept L s) {i : ℕ} {data : List Byte} {q : SendQueue}
    (hu : Unrecovered s'.connector) (hq : (s.queue i).addMsg data = some q)
    (hqs : s'.connector.session.sendQueues = Function.update s.connector.session.sendQueues i q)
    (hfile : s'.connector.session.pManager.dataQueue =
      Function.update s.connector.session.pManager.dataQueue i
        (s.connector.session.pManager.dataQueue i ++ [data]))
    (hb : s'.bufs = Function.update s.bufs i
      ((s.bufs i).put (s.index i (s.queue i).dataSeq) data)) (hp : s'.passed = s.passed)
    (hdata : L data) (hbuilt : (s.bufs i).built ≤ data.length) : Kept L s' := by
  have hf := h.fresh i
  obtain ⟨hroom, heq⟩ := SendQueue.addMsg_eq_some.mp hq
  have hpos : 0 < (s.queue i).qSize := by
    have := hf.le
    have := hf.max
    omega
  have hqi : s'.queue i = q := by rw [State.queue, hqs, Function.update_self]
  have hqne : ∀ i', i' ≠ i → s'.queue i' = s.queue i' := fun i' hi => by
    rw [State.queue, hqs, Function.update_of_ne hi]
    rfl
  refine ⟨hu, fun i' => ?_, fun m hm => ?_, fun i' j h0 hwhole => ?_⟩
  · by_cases hi : i' = i
    · subst hi
      rw [hqi, hfile, Function.update_self]
      exact (h.window i').addMsg hpos hq
    · rw [hqne i' hi, hfile, Function.update_of_ne hi]
      exact h.window i'
  · have hlt := h.known m (hp ▸ hm)
    by_cases hi : m.qIndex = i
    · rw [hi, hqi, heq]
      rw [hi] at hlt
      exact Nat.lt_succ_of_lt hlt
    · rw [hqne _ hi]
      exact hlt
  · rw [hb] at hwhole ⊢
    rw [hp]
    by_cases hi : i' = i
    · subst hi
      rw [Function.update_self] at hwhole ⊢
      rw [hqi] at hwhole h0 ⊢
      have hslots : q.msgsQueue = Function.update (s.queue i').msgsQueue
          ((s.queue i').dataSeq % (s.queue i').qSize) ⟨(s.queue i').dataSeq, data⟩ := by rw [heq]
      have hsize : q.qSize = (s.queue i').qSize := by rw [heq]
      by_cases hnew : j = (s.queue i').dataSeq % (s.queue i').qSize
      · subst hnew
        rw [State.index, QueueBuf.bytes_put_self, hslots, Function.update_self]
        refine ⟨hdata, fun x hx => ?_⟩
        -- nothing was passed under a number not given yet
        exfalso
        obtain ⟨m, hm, -⟩ := Option.map_eq_some_iff.mp hx
        have hmem := List.mem_reverse.mp (List.mem_of_find?_eq_some hm)
        have hmd := List.find?_some hm
        simp only [decide_eq_true_eq] at hmd
        have := h.known m hmem
        rw [hmd.1] at this
        omega
      · rw [hslots, Function.update_of_ne hnew] at h0 ⊢
        obtain ⟨hold, hbytes⟩ := hwhole.of_put (h.window i') hpos hsize hslots hbuilt hnew h0
        rw [State.index, hbytes]
        exact h.held i' j h0 hold
    · rw [Function.update_of_ne hi] at hwhole ⊢
      rw [hqne i' hi] at hwhole h0 ⊢
      exact h.held i' j h0 hwhole

/-- A lookup with nothing recovered changes nothing. -/
lemma getSentMsg_fresh (h : ∀ i, Fresh (s.queue i)) {n : ℕ} :
    s.getSentMsg n =
      match Session.resolve s.connector.session.sentMarks n with
      | .null => none
      | .notData => some (s, none)
      | .data q d => some (s,
          if ((s.queue q).msgsQueue (s.index q d)).dataSeq = d then
            some ((q, (s.queue q).msgsQueue (s.index q d)), s.bytes q d)
          else none) := by
  simp only [State.getSentMsg, Session.getSentMsg]
  cases Session.resolve s.connector.session.sentMarks n with
  | null => rfl
  | notData => rfl
  | data q d =>
    have hq : Fresh (s.connector.session.sendQueues q) := h q
    simp only [Option.map_some]
    rw [SendQueue.getSentMsg_of_fresh hq.recover hq.pos, SendQueue.getSentMsg_snd,
      Session.setQueue, Function.update_eq_self]
    by_cases hd : ((s.queue q).msgsQueue (s.index q d)).dataSeq = d
    · have hd' := hd
      simp only [State.queue, State.index] at hd'
      simp [State.queue, State.index, State.setSession, hd']
    · have hd' := hd
      simp only [State.queue, State.index] at hd'
      simp [State.queue, State.index, State.setSession, hd']

/-- Where a resend stands: the buffers are kept, and nothing but bytes has changed. -/
structure Resending (L : List Byte → Prop) (s t : State) : Prop where
  connector : t.connector = s.connector
  kept : Kept L t
  places : ∀ i, (s.bufs i).SamePlaces (t.bufs i)

lemma Resending.refl (h : Kept L s) : Resending L s s := ⟨rfl, h, fun i => .refl (s.bufs i)⟩

lemma Resending.queue (h : Resending L s t) (i : ℕ) : t.queue i = s.queue i := by
  rw [State.queue, h.connector]
  rfl

lemma Resending.index (h : Resending L s t) (i d : ℕ) : t.index i d = s.index i d := by
  rw [State.index, h.queue]
  rfl

lemma Resending.whole (h : Resending L s t) {i d : ℕ} : t.Whole i d ↔ s.Whole i d := by
  rw [State.Whole, State.Whole, h.queue, h.index, (h.places i).whole]

lemma Resending.pass (h : Resending L s t) {i d : ℕ} {data : List Byte}
    (hd : ((s.queue i).msgsQueue (s.index i d)).dataSeq = d) (h0 : d ≠ 0) (hwhole : s.Whole i d)
    (hlen : data.length = (t.bytes i d).length) (hlaid : L data) :
    Resending L s (t.pass i (t.index i d) d data) := by
  have hd' : ((t.queue i).msgsQueue (t.index i d)).dataSeq = d := by
    rw [h.queue, h.index]
    exact hd
  rw [State.bytes, QueueBuf.bytes_length] at hlen
  refine ⟨h.connector, h.kept.pass hd' h0 (h.whole.mpr hwhole) hlen hlaid, fun i' => ?_⟩
  simp only [State.pass, State.setBuf]
  by_cases hi : i' = i
  · subst hi
    rw [Function.update_self]
    exact (h.places i').rewrite _ _
  · rw [Function.update_of_ne hi]
    exact h.places i'

lemma Kept.laid (h : Kept L s) {i d : ℕ}
    (hd : ((s.queue i).msgsQueue (s.index i d)).dataSeq = d) (h0 : d ≠ 0) (hwhole : s.Whole i d) :
    L (s.bytes i d) :=
  (h.held i (s.index i d) (by rwa [hd]) hwhole).laid

lemma Kept.resend (hL : Lasting o utc L) (h : Kept L s) {b e : UInt64}
    {ok : ℕ → Bool} (hwhole : ∀ n ∈ asked s.connector b e, FoundWhole s n)
    {t : State} {outs : List (Out ((ℕ × SendQueueInfo) × List Byte) × Bool)}
    (hr : resendInPlace State.getSentMsg
      (fun k => State.finalizeSent o (utc (s.connector.wire.length + k))) (gapFits o)
      (fun k => ok (s.connector.wire.length + k)) (s.connector.resendEnd e.toNat)
      (rounds b.toNat (s.connector.resendEnd e.toNat)) s b.toNat b.toNat [] = some (t, outs)) :
    Resending L s t := by
  refine resendInPlace_inv (P := Resending L s) (fun k hk u v r hu hget => ?_) b.toNat_lt
    (.refl h) hr
  have hmem : ulong (b.toNat + k) ∈ asked s.connector b e :=
    List.mem_map.mpr ⟨k, List.mem_range.mpr hk, rfl⟩
  rw [getSentMsg_fresh fun i => by rw [hu.queue]; exact h.fresh i, hu.connector] at hget
  cases hres : Session.resolve s.connector.session.sentMarks (ulong (b.toNat + k)) with
  | null => rw [hres] at hget; cases hget
  | notData =>
    rw [hres] at hget
    cases hget
    exact ⟨hu, fun m hm => by cases hm⟩
  | data i d =>
    rw [hres] at hget
    cases hget
    refine ⟨hu, fun m hm j w x hx => ?_⟩
    rw [hu.queue, hu.index] at hm
    split at hm
    · next hd =>
      cases hm
      obtain ⟨msg, hmsg, heq⟩ := Option.map_eq_some_iff.mp hx
      cases heq
      have hfound := hwhole _ hmem
      rw [FoundWhole, hres] at hfound
      obtain ⟨hpos, hw⟩ := hfound hd
      have h0 : d ≠ 0 := by omega
      have hd' : ((u.queue i).msgsQueue (u.index i d)).dataSeq = d := by
        rw [hu.queue, hu.index]
        exact hd
      have hlaid := hL.resent (hu.kept.laid hd' h0 (hu.whole.mpr hw)) hmsg
      simp only [hd]
      exact hu.pass hd h0 hw (finalizeMsgResend_length hmsg) hlaid
    · cases hm

lemma getMsg_fresh {q : SendQueue} {info : SendQueueInfo} (h : Fresh q)
    (hinfo : q.getMsg = some info) :
    q.headDataSeq < q.dataSeq ∧ info.dataSeq = q.headDataSeq ∧
      q.msgsQueue (q.headDataSeq % q.qSize) = info := by
  obtain ⟨hne, hslot⟩ := SendQueue.getMsg_eq_some.mp hinfo
  have hle := h.le
  refine ⟨by omega, ?_, hslot⟩
  rw [← hslot]
  exact h.held _ le_rfl (by omega)

lemma Kept.data (hL : Lasting o utc L) (h : Kept L s) {i : ℕ}
    {info : SendQueueInfo} {msg : WMessage} (hinfo : (s.queue i).getMsg = some info)
    (hwhole : s.Whole i (s.queue i).headDataSeq)
    (hmsg : finalizeMsg o (Decimal.padded o.maxMsgSeqSize s.connector.session.msgSeq)
      (utc s.connector.wire.length) (.ofSlot (s.bytes i (s.queue i).headDataSeq)) = some msg) :
    Kept L (s.pass i (s.index i (s.queue i).headDataSeq) info.dataSeq msg.data) := by
  obtain ⟨-, hd, hslot⟩ := getMsg_fresh (h.fresh i) hinfo
  have hpos := (h.fresh i).pos
  have hnum : ((s.queue i).msgsQueue (s.index i (s.queue i).headDataSeq)).dataSeq =
      (s.queue i).headDataSeq := by rw [State.index, hslot, hd]
  have hlen := finalizeMsg_length hmsg
  rw [State.bytes, QueueBuf.bytes_length] at hlen
  rw [hd]
  refine h.pass hnum (by omega) hwhole hlen ?_
  exact hL.sent (h.laid hnum (by omega) hwhole) hmsg

/-- A step of the sender that is no message added, sent or sent again. -/
lemma sender_quiet {a : Sender.Act} (h : Sender.step o p a = some p')
    (hadd : ∀ i data, a ≠ .addMsg i data) (hdata : ∀ i ok, a ≠ .data i ok)
    (hresend : ∀ b e ok, a ≠ .resend b e ok) :
    (∀ i, (p.session.sendQueues i).SameMsgs (p'.session.sendQueues i) ∧
      (p'.session.sendQueues i).headDataSeq = (p.session.sendQueues i).headDataSeq) ∧
      p'.session.pManager.dataQueue = p.session.pManager.dataQueue ∧
      ∃ new, p'.wire = p.wire ++ new ∧ ∀ pk ∈ new, pk.msg.content = .session := by
  obtain ⟨new, he, hw, -, -⟩ := step_effect h
  generalize hsess : p'.session = s at he
  have hsend : ∀ (msg : WMsg) (ok : Bool), s = afterSend o p.session msg ok →
      (∀ i, (p.session.sendQueues i).SameMsgs (s.sendQueues i) ∧
        (s.sendQueues i).headDataSeq = (p.session.sendQueues i).headDataSeq) ∧
      s.pManager.dataQueue = p.session.pManager.dataQueue := by
    rintro msg ok rfl
    rw [afterSend_sendQueues, afterSend_pManager]
    refine ⟨fun i => ⟨.refl _, rfl⟩, ?_⟩
    split <;> rfl
  cases he with
  | addMsg => exact absurd rfl (hadd _ _)
  | reconnect => exact ⟨fun i => ⟨.refl _, rfl⟩, rfl, _, hw, fun pk hpk => by cases hpk⟩
  | @poll i q hq hh =>
    refine ⟨fun j => ?_, rfl, _, hw, fun pk hpk => by cases hpk⟩
    by_cases hij : j = i
    · subst hij
      simpa [Session.setQueue] using ⟨hq, hh⟩
    · simpa [Session.setQueue, hij] using SendQueue.SameMsgs.refl (p.session.sendQueues j)
  | logon =>
    obtain ⟨hq, hfile⟩ := hsend _ _ rfl
    exact ⟨hq, hfile, _, hw, fun pk hpk => by rw [List.mem_singleton.mp hpk]; rfl⟩
  | session =>
    obtain ⟨hq, hfile⟩ := hsend _ _ rfl
    exact ⟨hq, hfile, _, hw, fun pk hpk => by rw [List.mem_singleton.mp hpk]; rfl⟩
  | data => exact absurd rfl (hdata _ _)
  | resend => exact absurd rfl (hresend _ _ _)

variable (o utc) in
inductive Effect (s s' : State) : SlotBytes.Act → Prop
  | built {i data} : s' = s.setBuf i ((s.bufs i).build data) → Effect s s' (.build i data)
  | added {i data q} : (s.queue i).addMsg data = some q →
      s'.connector.session.sendQueues = Function.update s.connector.session.sendQueues i q →
      s'.connector.session.pManager.dataQueue =
        Function.update s.connector.session.pManager.dataQueue i
          (s.connector.session.pManager.dataQueue i ++ [data]) →
      s'.bufs = Function.update s.bufs i ((s.bufs i).put (s.index i (s.queue i).dataSeq) data) →
      s'.passed = s.passed → s'.connector.wire = s.connector.wire →
      Effect s s' (.act (.addMsg i data))
  | quiet {a new} : (∀ i, (s.queue i).SameMsgs (s'.queue i) ∧
        (s'.queue i).headDataSeq = (s.queue i).headDataSeq) →
      s'.connector.session.pManager.dataQueue = s.connector.session.pManager.dataQueue →
      s'.bufs = s.bufs → s'.passed = s.passed → s'.connector.wire = s.connector.wire ++ new →
      (∀ pk ∈ new, pk.msg.content = .session) → Effect s s' (.act a)
  | sent {i ok info msg} : (s.queue i).getMsg = some info →
      finalizeMsg o (Decimal.padded o.maxMsgSeqSize s.connector.session.msgSeq)
        (utc s.connector.wire.length) (.ofSlot (s.bytes i (s.queue i).headDataSeq)) = some msg →
      s'.connector.session.sendQueues = Function.update s.connector.session.sendQueues i
        (s.queue i).markMsgSent →
      s'.connector.session.pManager.dataQueue = s.connector.session.pManager.dataQueue →
      s'.bufs = (s.pass i (s.index i (s.queue i).headDataSeq) info.dataSeq msg.data).bufs →
      s'.passed = s.passed ++ [⟨i, info.dataSeq, msg.data⟩] →
      s'.connector.wire = s.connector.wire ++ [⟨⟨i, s.connector.session.msgSeq, info.dataSeq,
        .queued i info.dataSeq⟩, true, ok⟩] → Effect s s' (.act (.data i ok))
  | resent {b e ok} : SlotBytes.sendSequenceReset o utc s b.toNat e.toNat ok = some s' →
      Effect s s' (.act (.resend b e ok))

lemma quiet_effect {a : Sender.Act} (h : SlotBytes.step o utc s (.act a) = some s')
    (hb : s'.bufs = s.bufs ∧ s'.passed = s.passed)
    (hadd : ∀ i data, a ≠ .addMsg i data) (hdata : ∀ i ok, a ≠ .data i ok)
    (hresend : ∀ b e ok, a ≠ .resend b e ok) : Effect o utc s s' (.act a) := by
  obtain ⟨hq, hfile, new, hw, hnew⟩ := sender_quiet (step_sender h) hadd hdata hresend
  exact .quiet hq hfile hb.1 hb.2 hw hnew

/-- **The inversion of a step.** -/
theorem step_bytes {a : SlotBytes.Act} (h : SlotBytes.step o utc s a = some s') :
    Effect o utc s s' a := by
  rcases a with ⟨i, data⟩ | a
  · simp only [SlotBytes.step] at h
    split at h
    · cases h
      exact .built rfl
    · cases h
  cases a with
  | addMsg i data =>
    simp only [SlotBytes.step, Sender.step, Option.map_eq_some_iff] at h
    obtain ⟨p, hp, rfl⟩ := h
    split at hp
    · obtain ⟨t, ht, rfl⟩ := Option.map_eq_some_iff.mp hp
      obtain ⟨q, hq, rfl⟩ := Option.map_eq_some_iff.mp ht
      refine .added hq rfl ?_ rfl rfl rfl
      funext j
      by_cases hj : j = i
      · subst hj
        simp [PManager.writeData]
      · simp [PManager.writeData, hj]
    · cases hp
  | data i ok =>
    have hstep := step_sender h
    simp only [SlotBytes.step] at h
    split at h
    · obtain ⟨info, hinfo, h⟩ := Option.bind_eq_some_iff.mp h
      obtain ⟨msg, hmsg, h⟩ := Option.bind_eq_some_iff.mp h
      obtain ⟨p, hp, rfl⟩ := Option.map_eq_some_iff.mp h
      obtain ⟨new, he, hw, -, -⟩ := step_effect hstep
      generalize hsess : ({ s.pass i (s.index i (s.queue i).headDataSeq) info.dataSeq msg.data with
        connector := p } : State).connector.session = t at he
      cases he with
      | data hb hi hinfo' =>
        have heq := hinfo.symm.trans hinfo'
        cases heq
        refine .sent hinfo hmsg ?_ ?_ rfl rfl hw
        · rw [hsess, Session.markMsgSent, Session.setQueue_sendQueues, afterSend_sendQueues]
          rfl
        · rw [hsess, Session.markMsgSent_pManager, afterSend_pManager]
          split <;> rfl
    · cases h
  | resend b e ok =>
    simp only [SlotBytes.step] at h
    split at h
    · exact .resent h
    · cases h
  | reconnect =>
    refine quiet_effect h ?_ (by simp) (by simp) (by simp)
    simp only [SlotBytes.step, Option.map_eq_some_iff] at h
    obtain ⟨p, -, rfl⟩ := h
    exact ⟨rfl, rfl⟩
  | poll i =>
    refine quiet_effect h ?_ (by simp) (by simp) (by simp)
    simp only [SlotBytes.step, Option.map_eq_some_iff] at h
    obtain ⟨p, -, rfl⟩ := h
    exact ⟨rfl, rfl⟩
  | logon junk ok =>
    refine quiet_effect h ?_ (by simp) (by simp) (by simp)
    simp only [SlotBytes.step, Option.map_eq_some_iff] at h
    obtain ⟨p, -, rfl⟩ := h
    exact ⟨rfl, rfl⟩
  | session junk ok =>
    refine quiet_effect h ?_ (by simp) (by simp) (by simp)
    simp only [SlotBytes.step, Option.map_eq_some_iff] at h
    obtain ⟨p, -, rfl⟩ := h
    exact ⟨rfl, rfl⟩

lemma step_unrecovered_bytes {a : SlotBytes.Act} (h : Unrecovered s.connector)
    (hs : SlotBytes.step o utc s a = some s') : Unrecovered s'.connector := by
  rcases a with ⟨i, data⟩ | a
  · cases step_bytes hs with
    | built he => exact he ▸ h
  · exact step_unrecovered h (step_sender hs)

lemma run_unrecovered {files : PManager} (hfiles : ∀ i, files.dataQueue i = []) {lastQ : ℤ}
    {mem : ℕ → ℕ → Byte} {acts : List SlotBytes.Act}
    (hrun : run (SlotBytes.step o utc) (SlotBytes.boot o M files lastQ mem) acts = some s) :
    Unrecovered s.connector := by
  have hmeets : Meets (SlotBytes.step o utc) (fun _ _ => True)
      (SlotBytes.boot o M files lastQ mem) acts := meets_of_forall (fun _ _ => trivial) _ _
  exact run_induct (P := fun s => Unrecovered s.connector)
    (fun _ _ _ h _ hs => step_unrecovered_bytes h hs) (boot_unrecovered hfiles lastQ) hmeets hrun

lemma Kept.resent (hL : Lasting o utc L) (h : Kept L s) {b e : UInt64}
    {ok : ℕ → Bool} (hwhole : ∀ n ∈ asked s.connector b e, FoundWhole s n)
    (hr : SlotBytes.sendSequenceReset o utc s b.toNat e.toNat ok = some s') :
    ∃ t, Resending L s t ∧ s'.bufs = t.bufs ∧ s'.passed = t.passed ∧
      s'.connector.session = s.connector.session := by
  obtain ⟨⟨t, outs⟩, hloop, rfl⟩ := Option.map_eq_some_iff.mp hr
  have ht := h.resend hL hwhole hloop
  exact ⟨t, ht, rfl, rfl, by simp only [ht.connector]⟩

lemma step_kept (hL : Lasting o utc L) {a : SlotBytes.Act} (h : Kept L s)
    (hadds : Adds L a) (ha : Keeps s a) (hs : SlotBytes.step o utc s a = some s') : Kept L s' := by
  have hu := step_unrecovered_bytes h.unrecovered hs
  cases step_bytes hs with
  | built he => exact he ▸ h.build _ _
  | added hq hqs hfile hb hp => exact h.add hu hq hqs hfile hb hp hadds ha.2
  | quiet hq hfile hb hp => exact h.congr hu (fun i => (hq i).1) hfile hb hp
  | @sent i ok info msg hinfo hmsg hqs hfile hb hp =>
    refine (h.data hL hinfo ha hmsg).congr hu (fun i' => ?_) hfile hb hp
    change (s.queue i').SameMsgs (s'.queue i')
    rw [State.queue, State.queue, hqs]
    by_cases hi : i' = i
    · subst hi
      rw [Function.update_self]
      exact ⟨rfl, rfl, rfl, rfl, rfl⟩
    · rw [Function.update_of_ne hi]
      exact .refl _
  | resent hr =>
    obtain ⟨t, ht, hb, hp, hsess⟩ := h.resent hL ha hr
    refine ht.kept.congr hu (fun i => ?_) (by rw [hsess, ht.connector]) hb hp
    rw [State.queue, State.queue, hsess, ht.connector]
    exact .refl _

lemma boot_kept {files : PManager} (hfiles : ∀ i, files.dataQueue i = []) (lastQ : ℤ)
    (mem : ℕ → ℕ → Byte) : Kept L (SlotBytes.boot o M files lastQ mem) := by
  have hnone : ∀ i j, (((Session.init o M files lastQ).sendQueues i).msgsQueue j).dataSeq = 0 := by
    intro i j
    have := Session.init_slot_le o M files lastQ i j
    rw [hfiles, List.length_nil] at this
    omega
  refine ⟨boot_unrecovered hfiles lastQ, fun i => ?_, fun m hm => (by cases hm),
    fun i j h0 => absurd (hnone i j) h0⟩
  have hseq := Session.init_dataSeq o M files lastQ i
  change Window ((Session.init o M files lastQ).sendQueues i) (files.dataQueue i)
  rw [hfiles] at hseq ⊢
  exact ⟨hseq, fun j h0 => absurd (hnone i j) h0, fun d data hd => by simp at hd⟩

/-- **Every run of a process that recovered nothing keeps its buffers.** -/
theorem run_kept (hL : Lasting o utc L) {files : PManager}
    (hfiles : ∀ i, files.dataQueue i = []) {lastQ : ℤ} {mem : ℕ → ℕ → Byte}
    {acts : List SlotBytes.Act} (hadds : ∀ a ∈ acts, Adds L a)
    (hkeeps : Meets (SlotBytes.step o utc) Keeps (SlotBytes.boot o M files lastQ mem) acts)
    (hrun : run (SlotBytes.step o utc) (SlotBytes.boot o M files lastQ mem) acts = some s) :
    Kept L s :=
  run_induct (fun _ _ _ h ha hs => step_kept hL h ha.1 ha.2 hs) (boot_kept hfiles lastQ mem)
    ((meets_of_mem hadds _).and hkeeps) hrun

/-! ### Runs to look at -/

/-- `20240101-12:00:00.000`, at every message. -/
def noon (_ : ℕ) : List Byte :=
  [50, 48, 50, 52, 48, 49, 48, 49, 45, 49, 50, 58, 48, 48, 58, 48, 48, 46, 48, 48, 48]

lemma noon_isUtc : IsUtc noon := by
  intro k
  unfold noon
  decide

def fourSlots : SessionOption :=
  { optionsAB with sendQueuesSize := some fun _ => 4, sendQueuesReserve := some fun _ => 1 }

lemma fourSlots_wellFormed : WellFormed fourSlots :=
  ⟨by decide, by decide, by decide, by decide, by decide, by decide, by decide⟩

/-- A message of type `D` with the text `Hi`. -/
def order : List Byte :=
  (queued fourSlots [68] (moreFields fourSlots (Decimal.padded 10 1) [68] [(58, [72, 105])])).data

lemma order_composed : Composed fourSlots order := by
  refine ⟨Decimal.padded 10 1, [68], [(58, [72, 105])], _, by simp, by decide, by decide,
    fun b => Decimal.isDigit_of_mem_padded, by decide, draft_eq fourSlots_wellFormed (by decide)
      (by decide) (by decide), rfl⟩

def fresh (o : SessionOption) : State :=
  SlotBytes.boot o 64 PManager.empty 0 fun _ _ => 0

/-- Four slots, with `60` bytes for each. -/
def shortSlots : SessionOption :=
  { fourSlots with fixMsgAvgLength := 60, fixMsgMaxLength := 256 }

end Ufix.SlotsKept
