import Ufix.SendBuffer

/-!
What a send queue hands out: the accepted messages in order, and for a resend the last `q_size`
of them.

The slots are followed with the bytes in them first; then the buffer, whose laps keep the bytes of
every slot as long as the messages of any `q_size` numbers in a row fit into it.
-/

namespace Ufix.SendWindow

open Ufix.Runs Ufix.Memory

/-! ### Slots -/

/-- The slots hold the last `q_size` accepted messages, each under its number. -/
structure Window (q : SendQueue) (accepted : List (List Byte)) : Prop where
  dataSeq : q.dataSeq = accepted.length + 1
  slot : ∀ i, (q.msgsQueue i).dataSeq ≠ 0 → (q.msgsQueue i).dataSeq % q.qSize = i ∧
    (q.msgsQueue i).dataSeq ≤ accepted.length ∧
    accepted.length < (q.msgsQueue i).dataSeq + q.qSize
  held : ∀ d data, accepted[d]? = some data → accepted.length ≤ d + q.qSize →
    q.msgsQueue ((d + 1) % q.qSize) = ⟨d + 1, data⟩

variable {q q' : SendQueue} {accepted : List (List Byte)} {data : List Byte}

lemma window_new (size reserve : ℕ) : Window (SendQueue.new size reserve []) [] :=
  ⟨rfl, fun _ h => absurd rfl h, fun d data h => by simp at h⟩

lemma Window.congr (h : Window q accepted) (hs : q.SameMsgs q') : Window q' accepted := by
  obtain ⟨h1, h2, h3⟩ := h
  refine ⟨hs.dataSeq.trans h1, ?_, ?_⟩
  · rw [hs.msgsQueue, hs.qSize]
    exact h2
  · rw [hs.msgsQueue, hs.qSize]
    exact h3

/-- A new message takes the slot of the one that leaves the window. -/
lemma Window.store (h : Window q accepted) (data : List Byte) (hpos : 1 ≤ q.qSize)
    (hsize : q'.qSize = q.qSize) (hnext : q'.dataSeq = q.dataSeq + 1)
    (hslots : q'.msgsQueue =
      Function.update q.msgsQueue (q.dataSeq % q.qSize) ⟨q.dataSeq, data⟩) :
    Window q' (accepted ++ [data]) := by
  obtain ⟨hseq, hslot, hheld⟩ := h
  have hlen : (accepted ++ [data]).length = accepted.length + 1 := by simp
  refine ⟨by rw [hlen]; omega, fun i hi => ?_, fun d msg hd hin => ?_⟩
  · rw [hlen, hsize]
    rw [hslots] at hi ⊢
    by_cases hnew : i = q.dataSeq % q.qSize
    · subst hnew
      rw [Function.update_self] at hi ⊢
      exact ⟨rfl, by simp only; omega, by simp only; omega⟩
    · rw [Function.update_of_ne hnew] at hi ⊢
      obtain ⟨hmod, hle, hlt⟩ := hslot i hi
      refine ⟨hmod, by omega, ?_⟩
      -- the message that leaves the window was in the slot of the new one
      by_contra hge
      have heq : q.dataSeq = (q.msgsQueue i).dataSeq + q.qSize := by omega
      rw [heq, Nat.add_mod_right] at hnew
      exact hnew hmod.symm
  · rw [hlen, hsize] at hin
    rw [hslots, hsize]
    rcases Nat.lt_or_ge d accepted.length with hlt | hge
    · rw [List.getElem?_append_left hlt] at hd
      have hne : (d + 1) % q.qSize ≠ q.dataSeq % q.qSize := mod_ne_of_lt (by omega) (by omega)
      rw [Function.update_of_ne hne]
      exact hheld d msg hd (by omega)
    · obtain ⟨rfl, rfl⟩ : d = accepted.length ∧ msg = data := by
        have hd' : d < (accepted ++ [data]).length := (List.getElem?_eq_some_iff.mp hd).1
        have he : d = accepted.length := by omega
        subst he
        simpa using hd.symm
      rw [← hseq, Function.update_self, hseq]

lemma Window.addMsg (h : Window q accepted) (hpos : 1 ≤ q.qSize)
    (ha : q.addMsg data = some q') : Window q' (accepted ++ [data]) := by
  obtain ⟨-, rfl⟩ := SendQueue.addMsg_eq_some.mp ha
  exact h.store data hpos rfl rfl rfl

lemma Window.recover (h : Window { q with dataSeq := q.recoverDataSeq } accepted)
    (hpos : 1 ≤ q.qSize) (file : List (List Byte)) :
    Window { file.foldl SendQueue.recoverMsg q with
      dataSeq := (file.foldl SendQueue.recoverMsg q).recoverDataSeq } (accepted ++ file) := by
  induction file generalizing q accepted with
  | nil =>
    rw [List.append_nil]
    exact h
  | cons msg file ih =>
    have hnext : Window { q.recoverMsg msg with
        dataSeq := (q.recoverMsg msg).recoverDataSeq } (accepted ++ [msg]) :=
      h.store msg hpos rfl rfl rfl
    rw [List.foldl_cons, List.append_cons]
    exact ih hnext hpos

lemma window_new_file {size : ℕ} (hpos : 1 ≤ size) (reserve : ℕ) (file : List (List Byte)) :
    Window (SendQueue.new size reserve file) file := by
  have hblank : Window { SendQueue.blank size reserve with
      dataSeq := (SendQueue.blank size reserve).recoverDataSeq } [] :=
    ⟨rfl, fun _ h => absurd rfl h, fun d data h => by simp at h⟩
  exact hblank.recover hpos file

lemma Window.msgsQueue_eq (h : Window q accepted) {d : ℕ} (hd : 1 ≤ d)
    (heq : (q.msgsQueue (d % q.qSize)).dataSeq = d) :
    accepted[d - 1]? = some (q.msgsQueue (d % q.qSize)).data := by
  obtain ⟨-, hle, hlt⟩ := h.slot (d % q.qSize) (by omega)
  rw [heq] at hle hlt
  have hget : accepted[d - 1]? = some accepted[d - 1] := List.getElem?_eq_getElem (by omega)
  have hheld := h.held (d - 1) _ hget (by omega)
  rw [Nat.sub_add_cancel hd] at hheld
  rw [hheld, hget]

/-- What can be looked up: the last `q_size` accepted messages. -/
lemma Window.getSentMsg (h : Window q accepted) {d : ℕ} (hd : 1 ≤ d) :
    (q.getSentMsg d).2 =
      if accepted.length < d + q.qSize then (accepted[d - 1]?).map fun data => ⟨d, data⟩
      else none := by
  rw [SendQueue.getSentMsg_snd]
  split
  · next heq =>
    obtain ⟨-, -, hlt⟩ := h.slot (d % q.qSize) (by omega)
    rw [heq] at hlt
    rw [if_pos hlt, h.msgsQueue_eq hd heq, Option.map_some, Option.some.injEq,
      SendQueueInfo.mk.injEq]
    exact ⟨heq, rfl⟩
  · next hne =>
    split
    · next hin =>
      cases hget : accepted[d - 1]? with
      | none => rfl
      | some data =>
        refine absurd ?_ hne
        have hheld := h.held (d - 1) data hget (by omega)
        rw [Nat.sub_add_cancel hd] at hheld
        rw [hheld]
    · rfl

lemma Window.getMsg (h : Window q accepted) {sent : ℕ} (hhead : q.headDataSeq = sent + 1)
    (hle : sent ≤ accepted.length) (hin : accepted.length ≤ sent + q.qSize) :
    q.getMsg = (accepted[sent]?).map fun data => ⟨sent + 1, data⟩ := by
  unfold SendQueue.getMsg SendQueue.isQueueEmpty
  rw [h.dataSeq, hhead]
  rcases Nat.lt_or_ge sent accepted.length with hlt | hge
  · have hget : accepted[sent]? = some accepted[sent] := List.getElem?_eq_getElem hlt
    rw [hget, h.held sent _ hget hin, if_neg (by simp; omega)]
    rfl
  · have hget : accepted[sent]? = none := List.getElem?_eq_none hge
    rw [hget, if_pos (by simp; omega)]
    rfl

/-! ### The buffer -/

/-- The queue, with what it accepted and how many messages were marked as sent. The sender marks a
message it got before. -/
structure State where
  queue : SendBuffer
  accepted : List (List Byte)
  sent : ℕ
  sending : Bool

inductive Act
  | add (data : List Byte)
  | get
  | mark
  | lookup (seq : ℕ)

def step (s : State) : Act → Option State
  | .add data =>
    (s.queue.addMsg data).map fun q => { s with queue := q, accepted := s.accepted ++ [data] }
  | .get => s.queue.getMsg.map fun _ => { s with sending := true }
  | .mark =>
    if s.sending then
      some { s with queue := s.queue.markMsgSent, sent := s.sent + 1, sending := false }
    else none
  | .lookup seq => some { s with queue := (s.queue.getSentMsg seq).1 }

def start (size reserve avgMsgSize : ℕ) (mem : ℕ → Byte) : State :=
  ⟨.new size reserve avgMsgSize mem, [], 0, false⟩

def total (l : List (List Byte)) : ℕ := (l.map List.length).sum

/-- Any `n` or fewer messages in a row fit into `limit` bytes. -/
def Fits (n limit : ℕ) (accepted : List (List Byte)) : Prop :=
  ∀ l, l <:+: accepted → l.length ≤ n → total l ≤ limit

/-- Where the message of a slot lies: what was accepted since trails behind the position. -/
structure Laid (b : SendBuffer) (accepted : List (List Byte)) : Prop where
  unused : ∀ i, (b.msgsQueue i).dataSeq = 0 → (b.msgsQueue i).data + (b.msgsQueue i).len = 0
  used : ∀ i, (b.msgsQueue i).dataSeq ≠ 0 →
    (b.msgsQueue i).len ≤ total (accepted.drop ((b.msgsQueue i).dataSeq - 1)) ∧
    Trails b.qBufSize (b.msgsQueue i).data (total (accepted.drop ((b.msgsQueue i).dataSeq - 1)))
      b.qBufPos

variable {b : SendBuffer}

@[simp] lemma total_append (l l' : List (List Byte)) : total (l ++ l') = total l + total l' := by
  simp [total]

@[simp] lemma total_singleton (data : List Byte) : total [data] = data.length := by simp [total]

lemma Fits.of_append {n limit : ℕ} {l l' : List (List Byte)} (h : Fits n limit (l ++ l')) :
    Fits n limit l :=
  fun m hm => h m (hm.trans (List.prefix_append l l').isInfix)

lemma drop_append_singleton {k : ℕ} (h : k ≤ accepted.length) :
    (accepted ++ [data]).drop k = accepted.drop k ++ [data] := List.drop_append_of_le_length h

/-- A message that fits with the others of the window spares them. -/
lemma spares_of_fits (hw : Window b.toQueue accepted) (hl : Laid b accepted)
    (hfits : Fits b.qSize b.qBufSize (accepted ++ [data])) : b.Spares data.length := by
  intro i hi
  by_cases h0 : (b.msgsQueue i).dataSeq = 0
  · have := hl.unused i h0
    exact Or.inl (by omega)
  · obtain ⟨hlen, htrail⟩ := hl.used i h0
    obtain ⟨hmod, hle, hlt⟩ := hw.slot i h0
    have hseq := hw.dataSeq
    change (b.msgsQueue i).dataSeq % b.qSize = i at hmod
    change (b.msgsQueue i).dataSeq ≤ accepted.length at hle
    change accepted.length < (b.msgsQueue i).dataSeq + b.qSize at hlt
    change b.dataSeq = accepted.length + 1 at hseq
    -- the slot is not the one whose message leaves the window
    have hne : b.dataSeq ≠ (b.msgsQueue i).dataSeq + b.qSize := by
      intro he
      rw [he, Nat.add_mod_right] at hi
      exact hi hmod.symm
    have hdrop : (accepted ++ [data]).drop ((b.msgsQueue i).dataSeq - 1) =
        accepted.drop ((b.msgsQueue i).dataSeq - 1) ++ [data] :=
      drop_append_singleton (by omega)
    have hfit := hfits ((accepted ++ [data]).drop ((b.msgsQueue i).dataSeq - 1))
      (List.drop_suffix _ _).isInfix (by
        rw [hdrop, List.length_append, List.length_drop, List.length_singleton]
        omega)
    rw [hdrop, total_append, total_singleton] at hfit
    exact htrail.apart hlen hfit

lemma Laid.addMsg {b' : SendBuffer} (h : Laid b accepted) (hw : Window b.toQueue accepted)
    (ha : b.addMsg data = some b') : Laid b' (accepted ++ [data]) := by
  obtain ⟨-, rfl⟩ := SendBuffer.addMsg_eq_some.mp ha
  have hseq : b.dataSeq = accepted.length + 1 := hw.dataSeq
  refine ⟨fun i hi => ?_, fun i hi => ?_⟩
  · simp only at hi ⊢
    by_cases hnew : i = b.dataSeq % b.qSize
    · subst hnew
      rw [Function.update_self] at hi
      simp only at hi
      omega
    · rw [Function.update_of_ne hnew] at hi ⊢
      exact h.unused i hi
  · simp only at hi ⊢
    by_cases hnew : i = b.dataSeq % b.qSize
    · subst hnew
      simp only [Function.update_self, hseq, Nat.add_sub_cancel, List.drop_left, total_singleton]
      exact ⟨le_rfl, trails_self _ _ _⟩
    · rw [Function.update_of_ne hnew] at hi ⊢
      obtain ⟨hlen, htrail⟩ := h.used i hi
      have hle : (b.msgsQueue i).dataSeq ≤ accepted.length := (hw.slot i hi).2.1
      rw [drop_append_singleton (by omega), total_append, total_singleton]
      exact ⟨by omega, htrail.advance _⟩

structure Inv (size limit : ℕ) (s : State) : Prop where
  qSize : s.queue.qSize = size
  qMaxMsgs : s.queue.qMaxMsgs ≤ size
  qBufSize : s.queue.qBufSize = limit
  qBufPos : s.queue.qBufPos ≤ limit
  window : Window s.queue.toQueue s.accepted
  laid : Laid s.queue s.accepted
  recover : s.queue.recoverDataSeq = 1
  head : s.queue.headDataSeq = s.sent + 1
  sent : s.sent ≤ s.accepted.length
  pending : s.accepted.length ≤ s.sent + size
  sending : s.sending = true → s.sent < s.accepted.length

variable {size limit : ℕ} {s t : State}

lemma Inv.getSentMsg (h : Inv size limit s) (d : ℕ) : (s.queue.getSentMsg d).1 = s.queue := by
  have hfresh : ∀ n, s.queue.markSeqSent n = s.queue := by
    intro n
    unfold SendBuffer.markSeqSent
    rw [h.recover, h.head]
    split
    · rfl
    · rw [if_pos (by omega)]
  unfold SendBuffer.getSentMsg
  simp only [hfresh]
  split
  · split
    · split <;> rfl
    · rfl
  · rfl

lemma Inv.add (h : Inv size limit s) (hs : step s (.add data) = some t)
    (hfits : Fits size limit t.accepted) : Inv size limit t := by
  obtain ⟨b, hb, rfl⟩ := Option.map_eq_some_iff.mp hs
  obtain ⟨h1, h2, h3, h4, hw, hl, h7, h8, h9, h10, h11⟩ := h
  have hspares := spares_of_fits hw hl (by rw [h1, h3]; exact hfits)
  have hadd := SendBuffer.toQueue_addMsg hspares
  rw [hb, Option.map_some] at hadd
  have hlaid := hl.addMsg hw hb
  have hseq : s.queue.dataSeq = s.accepted.length + 1 := hw.dataSeq
  obtain ⟨hroom, rfl⟩ := SendBuffer.addMsg_eq_some.mp hb
  have hwindow := hw.addMsg (by change 1 ≤ s.queue.qSize; omega) hadd.symm
  refine ⟨h1, h2, h3, ?_, hwindow, hlaid, h7, h8, ?_, ?_, ?_⟩
  · simp only [h3]
    exact advance_le limit _ _
  all_goals simp only [List.length_append, List.length_singleton]
  · omega
  · omega
  · intro hsend
    have := h11 hsend
    omega

lemma step_inv {a : Act} (h : Inv size limit s) (hs : step s a = some t)
    (hfits : Fits size limit t.accepted) : Inv size limit t := by
  cases a with
  | add data => exact h.add hs hfits
  | get =>
    obtain ⟨info, hget, rfl⟩ := Option.map_eq_some_iff.mp hs
    obtain ⟨h1, h2, h3, h4, h5, h6, h7, h8, h9, h10, -⟩ := h
    refine ⟨h1, h2, h3, h4, h5, h6, h7, h8, h9, h10, fun _ => ?_⟩
    have hne := (SendQueue.getMsg_eq_some (q := s.queue.toQueue).mp hget).1
    have hseq := h5.dataSeq
    have hhead : s.queue.toQueue.headDataSeq = s.sent + 1 := h8
    simp only
    omega
  | mark =>
    simp only [step] at hs
    split at hs
    · next hsend =>
      cases hs
      obtain ⟨h1, h2, h3, h4, h5, h6, h7, h8, h9, h10, h11⟩ := h
      have hlt := h11 hsend
      refine ⟨h1, h2, h3, h4, ⟨h5.dataSeq, h5.slot, h5.held⟩, ⟨h6.unused, h6.used⟩, h7, ?_, ?_, ?_,
        fun hf => by cases hf⟩
      · exact congrArg (· + 1) h8
      · exact hlt
      · simp only
        omega
    · cases hs
  | lookup seq =>
    cases hs
    simp only [h.getSentMsg]
    exact h

lemma step_accepted {a : Act} (hs : step s a = some t) : ∃ l, t.accepted = s.accepted ++ l := by
  cases a with
  | add data =>
    obtain ⟨b, -, rfl⟩ := Option.map_eq_some_iff.mp hs
    exact ⟨[data], rfl⟩
  | get =>
    obtain ⟨info, -, rfl⟩ := Option.map_eq_some_iff.mp hs
    exact ⟨[], (List.append_nil _).symm⟩
  | mark =>
    simp only [step] at hs
    split at hs
    · cases hs
      exact ⟨[], (List.append_nil _).symm⟩
    · cases hs
  | lookup seq =>
    cases hs
    exact ⟨[], (List.append_nil _).symm⟩

lemma start_inv (size reserve avgMsgSize : ℕ) (mem : ℕ → Byte) :
    Inv size (size * avgMsgSize) (start size reserve avgMsgSize mem) := by
  refine ⟨rfl, ?_, rfl, Nat.zero_le _, window_new size reserve, ⟨fun _ _ => rfl,
    fun _ h => absurd rfl h⟩, rfl, rfl, Nat.zero_le _, Nat.zero_le _, fun hf => by cases hf⟩
  simp only [start, SendBuffer.new]
  omega

/-- **A FIFO with a resend window.** In every run whose messages fit, any `q_size` or fewer in a
row, `get_msg` hands out the oldest message not marked as sent, with its number and its bytes;
a lookup finds the last `q_size` accepted messages, with their bytes, and moves nothing; and the
next message stays within the memory allocated. -/
theorem run_window {size reserve avgMsgSize maxMsgSize : ℕ} {mem : ℕ → Byte} {acts : List Act}
    {s : State} (hr : run step (start size reserve avgMsgSize mem) acts = some s)
    (hfits : Fits size (size * avgMsgSize) s.accepted) :
    (s.queue.getMsg = (s.accepted[s.sent]?).map fun data => ⟨s.sent + 1, data⟩) ∧
      (∀ d, 1 ≤ d → s.queue.getSentMsg d =
        (s.queue, if s.accepted.length < d + size then
          (s.accepted[d - 1]?).map fun data => ⟨d, data⟩ else none)) ∧
      ∀ data : List Byte, data.length ≤ maxMsgSize →
        s.queue.qBufPos + data.length ≤ size * avgMsgSize + maxMsgSize := by
  have hinv : Fits size (size * avgMsgSize) s.accepted → Inv size (size * avgMsgSize) s :=
    run_induct
      (P := fun s => Fits size (size * avgMsgSize) s.accepted → Inv size (size * avgMsgSize) s)
      (fun u a v hu (_ : True) hv hfits => by
        obtain ⟨l, hl⟩ := step_accepted hv
        have hfits' := hfits
        rw [hl] at hfits'
        exact step_inv (hu hfits'.of_append) hv hfits)
      (fun _ => start_inv size reserve avgMsgSize mem) (meets_of_forall (fun _ _ => trivial) _ _) hr
  have h := hinv hfits
  refine ⟨?_, fun d hd => ?_, fun data hlen => ?_⟩
  · rw [SendBuffer.toQueue_getMsg]
    refine h.window.getMsg h.head h.sent ?_
    change s.accepted.length ≤ s.sent + s.queue.qSize
    rw [h.qSize]
    exact h.pending
  · have hlook := congrArg Prod.snd (SendBuffer.toQueue_getSentMsg s.queue d)
    rw [h.window.getSentMsg hd] at hlook
    simp only at hlook
    refine Prod.ext (h.getSentMsg d) ?_
    rw [hlook]
    change (if s.accepted.length < d + s.queue.qSize then _ else _) = _
    rw [h.qSize]
  · have := h.qBufPos
    omega

lemma total_le {avgMsgSize : ℕ} {l : List (List Byte)}
    (h : ∀ data ∈ l, data.length ≤ avgMsgSize) : total l ≤ l.length * avgMsgSize := by
  induction l with
  | nil => simp [total]
  | cons data l ih =>
    have hhead := h data (by simp)
    have htail := ih fun m hm => h m (by simp [hm])
    simp only [total, List.map_cons, List.sum_cons, List.length_cons, Nat.succ_mul] at htail ⊢
    omega

lemma fits_of_le {n avgMsgSize : ℕ} (h : ∀ data ∈ accepted, data.length ≤ avgMsgSize) :
    Fits n (n * avgMsgSize) accepted := fun _ hl hn =>
  (total_le fun data hd => h data (hl.subset hd)).trans (Nat.mul_le_mul_right _ hn)

/-- Two slots: the third message takes the slot of the first one, which was sent. -/
def threeAdded : State :=
  (run step (start 2 0 2 fun _ => 0)
    [.add [1, 2], .add [3], .get, .mark, .add [4, 5], .lookup 2]).get rfl

theorem run_window_threeAdded :
    (threeAdded.queue.getMsg =
        (threeAdded.accepted[threeAdded.sent]?).map fun data => ⟨threeAdded.sent + 1, data⟩) ∧
      (∀ d, 1 ≤ d → threeAdded.queue.getSentMsg d =
        (threeAdded.queue, if threeAdded.accepted.length < d + 2 then
          (threeAdded.accepted[d - 1]?).map fun data => ⟨d, data⟩ else none)) ∧
      ∀ data : List Byte, data.length ≤ 4 → threeAdded.queue.qBufPos + data.length ≤ 2 * 2 + 4 :=
  run_window (Option.some_get _).symm (fits_of_le (by decide))

end Ufix.SendWindow
