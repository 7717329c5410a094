import Ufix.RecvQueue
import Ufix.Utils

/-!
The receiver of a connection: bytes are appended to `recv_buf`, and complete messages are cut
off at its head.

Bytes between head and tail are what was received and not handed on yet; what stands beyond the
tail is left over from before and can be anything.
-/

namespace Ufix

def seqPattern : List Byte := [51, 52, 61]
def seqPatternLength : ℕ := 3

def bytesFrom (mem : List Byte) (pos : ℤ) : Option (List Byte) :=
  if pos < 0 then none else some (mem.drop pos.toNat)

/-- The scan for `SOH` in `process_new_data`, over the bytes from `pos` on. It stops after the
tail, one byte later than what was received; that is the inner `none`. -/
def scanSohFrom (tail : ℤ) : ℤ → List Byte → Option (Option ℤ)
  | pos, [] => if pos > tail then some none else none
  | pos, b :: buf =>
    if pos > tail then some none
    else if b = soh then some (some pos)
    else scanSohFrom tail (pos + 1) buf

def scanSoh (mem : List Byte) (tail pos : ℤ) : Option (Option ℤ) :=
  (bytesFrom mem pos).bind (scanSohFrom tail pos)

/-- What one round of `process_new_data` comes to: wait for more bytes, a message without a
number, or a message and its length. -/
inductive Round
  | wait
  | noSeq
  | msg (m : RMessage) (msgLen : ℤ)

/-- The round once the length and the place of the type are known. -/
def cutMsg (mem : List Byte) (head tail msgTypePos msgLen : ℤ) : Option Round :=
  if tail - head < msgLen then some .wait
  else do
    let dataLen := (msgLen - (msgTypePos - head)).bmod (2 ^ 32)
    let seqPos ← seek (← bytesFrom mem msgTypePos) dataLen seqPattern
    if seqPos < 0 then some .noSeq
    else do
      let seq ← convertAtoll (← bytesFrom mem (msgTypePos + seqPos + seqPatternLength))
      let data ← bytesFrom mem head
      some (.msg (.new (data.take msgLen.toNat) (msgTypePos - head) seq) msgLen)

/-- One round, its lengths in `int` arithmetic. -/
def nextMsg (fixVersionLen : ℕ) (mem : List Byte) (head tail : ℤ) : Option Round :=
  if tail - head < 12 then some .wait
  else
    (scanSoh mem tail (head + fixVersionLen + 2)).bind fun
      | none => some .wait
      | some pos =>
        let msgLenPos := pos + 3
        (scanSoh mem tail msgLenPos).bind fun
          | none => some .wait
          | some pos => do
            let bodyLen ← convertAtoi (← bytesFrom mem msgLenPos)
            let msgLen := (pos + 1 - head + bodyLen + checksumSize).bmod (2 ^ 32)
            cutMsg mem head tail (pos + 4) msgLen

/-- `process_new_data` for at most `n` rounds: the new head, the messages given to `process_msg`,
and the result. -/
def processRounds (fixVersionLen : ℕ) (mem : List Byte) (tail : ℤ) :
    ℕ → ℤ → List RMessage → Option (ℤ × List RMessage × Bool)
  | 0, _, _ => none
  | n + 1, head, msgs =>
    match nextMsg fixVersionLen mem head tail with
    | none => none
    | some .wait => some (head, msgs, true)
    | some .noSeq => some (head, msgs, false)
    | some (.msg m msgLen) => processRounds fixVersionLen mem tail n (head + msgLen) (msgs ++ [m])

/-- `process_new_data`. Rounds that all move the head towards the tail end before there were more
of them than bytes. -/
def processNewData (fixVersionLen : ℕ) (mem : List Byte) (head tail : ℤ) :
    Option (ℤ × List RMessage × Bool) :=
  processRounds fixVersionLen mem tail ((tail - head).toNat + 1) head []

structure Receiver where
  recvBuf : List Byte
  recvBufSize : ℤ
  recvBufHead : ℤ
  recvBufTail : ℤ

namespace Receiver

def pending (r : Receiver) : List Byte :=
  (r.recvBuf.drop r.recvBufHead.toNat).take (r.recvBufTail - r.recvBufHead).toNat

def moveToFront (r : Receiver) : Receiver :=
  { r with
    recvBuf := r.pending ++ r.recvBuf.drop (r.recvBufTail - r.recvBufHead).toNat
    recvBufHead := 0
    recvBufTail := r.recvBufTail - r.recvBufHead }

/-- One pass of the loop of `recv_msgs` in which `recv` gave the bytes of `chunk`, with `stale`
in the buffer behind them: the messages given to `process_msg`, and the result of
`process_new_data`. After a failure the connection is given up. -/
def recvMsgs (fixVersionLen : ℕ) (r : Receiver) (chunk stale : List Byte) :
    Option (Receiver × List RMessage × Bool) :=
  let mem := r.recvBuf.take r.recvBufTail.toNat ++ chunk ++ stale
  let tail := r.recvBufTail + chunk.length
  (processNewData fixVersionLen mem r.recvBufHead tail).map fun (head, msgs, ok) =>
    let r := { r with recvBuf := mem, recvBufHead := head, recvBufTail := tail }
    if ok then (if tail > r.recvBufSize then r.moveToFront else r, msgs, true)
    else ({ r with recvBufTail := head }, msgs, false)

def recvAll (fixVersionLen : ℕ) :
    Receiver → List (List Byte × List Byte) → Option (Receiver × List (List RMessage × Bool))
  | r, [] => some (r, [])
  | r, (chunk, stale) :: chunks =>
    (r.recvMsgs fixVersionLen chunk stale).bind fun (r, out) =>
      (recvAll fixVersionLen r chunks).map fun (r, outs) => (r, out :: outs)

end Receiver

/-! ### Scanning -/

lemma bytesFrom_append (pre : List Byte) {mem rest : List Byte} {pos : ℤ} (hmem : mem = pre ++ rest)
    (hpos : pos = pre.length) : bytesFrom mem pos = some rest := by
  subst hmem hpos
  rw [bytesFrom, if_neg (by omega), Int.toNat_natCast, List.drop_left]

lemma bytesFrom_inside {mem pre data rest : List Byte} {head : ℤ} (k : ℕ)
    (hmem : mem = pre ++ (data ++ rest)) (hhead : head = pre.length) (hk : k ≤ data.length) :
    bytesFrom mem (head + k) = some (data.drop k ++ rest) := by
  refine bytesFrom_append (pre ++ data.take k) ?_ ?_
  · rw [hmem, ← List.append_assoc (pre ++ _), List.append_assoc pre, List.take_append_drop,
      List.append_assoc]
  · rw [hhead, List.length_append, List.length_take, Nat.min_eq_left hk]
    push_cast
    rfl

lemma scanSohFrom_of_lt {tail pos : ℤ} (h : tail < pos) (buf : List Byte) :
    scanSohFrom tail pos buf = some none := by
  cases buf with
  | nil => rw [scanSohFrom, if_pos h]
  | cons b buf => rw [scanSohFrom, if_pos h]

lemma scanSoh_of_lt {mem : List Byte} {tail pos : ℤ} (h0 : 0 ≤ pos) (h : tail < pos) :
    scanSoh mem tail pos = some none := by
  rw [scanSoh, bytesFrom, if_neg (by omega), Option.bind_some, scanSohFrom_of_lt h]

lemma scanSohFrom_found {tail pos : ℤ} {ds rest : List Byte} (hds : soh ∉ ds)
    (h : pos + ds.length ≤ tail) :
    scanSohFrom tail pos (ds ++ soh :: rest) = some (some (pos + ds.length)) := by
  induction ds generalizing pos with
  | nil =>
    simp only [List.length_nil, Nat.cast_zero, add_zero] at h ⊢
    rw [List.nil_append, scanSohFrom, if_neg (by omega), if_pos rfl]
  | cons b ds ih =>
    have hb : b ≠ soh := fun he => hds (by simp [he])
    rw [List.length_cons] at h ⊢
    push_cast at h ⊢
    rw [List.cons_append, scanSohFrom, if_neg (by omega), if_neg hb,
      ih (fun hm => hds (by simp [hm])) (by omega)]
    congr 2
    omega

/-- Without an `SOH` up to the tail, the scan ends, or it takes a stale byte at the tail for
one. -/
lemma scanSohFrom_stale {tail pos : ℤ} {ds stale : List Byte} (hds : soh ∉ ds)
    (h : pos + ds.length = tail) (hstale : stale ≠ []) :
    scanSohFrom tail pos (ds ++ stale) = some none ∨
      (scanSohFrom tail pos (ds ++ stale) = some (some tail) ∧ ∃ l, stale = soh :: l) := by
  induction ds generalizing pos with
  | nil =>
    obtain ⟨b, l, rfl⟩ := List.exists_cons_of_ne_nil hstale
    simp only [List.length_nil, Nat.cast_zero, add_zero] at h
    subst h
    rw [List.nil_append, scanSohFrom, if_neg (by omega)]
    by_cases hb : b = soh
    · rw [if_pos hb, hb]
      exact Or.inr ⟨rfl, l, rfl⟩
    · rw [if_neg hb]
      exact Or.inl (scanSohFrom_of_lt (by omega) l)
  | cons b ds ih =>
    have hb : b ≠ soh := fun he => hds (by simp [he])
    rw [List.length_cons] at h
    push_cast at h
    rw [List.cons_append, scanSohFrom, if_neg (by omega), if_neg hb]
    exact ih (fun hm => hds (by simp [hm])) (by omega)

/-! ### Cutting off -/

/-- What cutting off a message can come to. -/
lemma cutMsg_some {mem : List Byte} {head tail msgTypePos msgLen : ℤ} {r : Round}
    (h : cutMsg mem head tail msgTypePos msgLen = some r) :
    (tail - head < msgLen ∧ r = .wait) ∨
      (msgLen ≤ tail - head ∧ (r = .noSeq ∨ 0 ≤ head ∧ ∃ seq,
        r = .msg (.new ((mem.drop head.toNat).take msgLen.toNat) (msgTypePos - head) seq)
          msgLen)) := by
  unfold cutMsg at h
  split at h
  · next hlt => exact Or.inl ⟨hlt, (Option.some.inj h).symm⟩
  · next hle =>
    refine Or.inr ⟨by omega, ?_⟩
    simp only [Option.bind_eq_bind, Option.bind_eq_some_iff] at h
    obtain ⟨_, -, seqPos, -, h⟩ := h
    split at h
    · exact Or.inl (Option.some.inj h).symm
    · simp only [Option.bind_eq_some_iff] at h
      obtain ⟨_, -, seq, -, data, hdata, h⟩ := h
      unfold bytesFrom at hdata
      split at hdata
      · cases hdata
      · next hhead =>
        cases hdata
        exact Or.inr ⟨by omega, seq, (Option.some.inj h).symm⟩

end Ufix
