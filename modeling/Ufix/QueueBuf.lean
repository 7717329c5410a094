import Ufix.SendWindow

/-!
The bytes of a send queue, where they lie.

`q_buf` takes the messages one after the other and starts over at the front, so a long message may
run over older ones whose slots are still in use. A slot is whole as long as nothing later lies over
its message; what is written to one message leaves the whole ones beside it alone.
-/

namespace Ufix

open Memory SendWindow

/-- The part of `SendQueue` that concerns bytes: `q_buf` with its size, the limit at which the
position starts over, the position, and where the message of each slot lies. `built` counts the
bytes that a message under construction has at the position already. -/
structure QueueBuf where
  allocated : ℕ
  qBufSize : ℕ
  qBuf : ℕ → Byte
  qBufPos : ℕ
  data : ℕ → ℕ
  len : ℕ → ℕ
  built : ℕ

namespace QueueBuf

/-- The buffer the constructor allocates; `mem` is what the memory held. -/
def new (size avgMsgSize maxMsgSize : ℕ) (mem : ℕ → Byte) : QueueBuf where
  allocated := size * avgMsgSize + maxMsgSize
  qBufSize := size * avgMsgSize
  qBuf := mem
  qBufPos := 0
  data := fun _ => 0
  len := fun _ => 0
  built := 0

/-- A message is put at the position, and slot `j` points to it: the copy in `add_msg` and in
`recover_msg`. The bytes of a direct message lie there already. -/
def put (b : QueueBuf) (j : ℕ) (msg : List Byte) : QueueBuf :=
  { b with
    qBuf := write b.qBuf b.qBufPos msg
    qBufPos := advance b.qBufSize b.qBufPos msg.length
    data := Function.update b.data j b.qBufPos
    len := Function.update b.len j msg.length
    built := 0 }

/-- A direct message is written at the position before it is added. -/
def build (b : QueueBuf) (msg : List Byte) : QueueBuf :=
  { b with qBuf := write b.qBuf b.qBufPos msg, built := max b.built msg.length }

/-- What `switch_data` finds for slot `j`. -/
def bytes (b : QueueBuf) (j : ℕ) : List Byte := read b.qBuf (b.data j) (b.len j)

/-- A message that was switched to slot `j` writes there. -/
def rewrite (b : QueueBuf) (j : ℕ) (msg : List Byte) : QueueBuf :=
  { b with qBuf := write b.qBuf (b.data j) msg }

/-- The messages of a recovered file, from number `n` on. -/
def recover (size : ℕ) : ℕ → QueueBuf → List (List Byte) → QueueBuf
  | _, b, [] => b
  | n, b, msg :: file => recover size (n + 1) (b.put (n % size) msg) file

/-- `len` bytes at the position stay within what was allocated. -/
def Room (b : QueueBuf) (len : ℕ) : Prop := b.qBufPos + len ≤ b.allocated

instance (b : QueueBuf) (len : ℕ) : Decidable (b.Room len) := inferInstanceAs (Decidable (_ ≤ _))

/-- A message of `len` bytes can be put where it was built, if it was. -/
def Takes (b : QueueBuf) (len : ℕ) : Prop := b.Room len ∧ b.built ≤ len

instance (b : QueueBuf) (len : ℕ) : Decidable (b.Takes len) := inferInstanceAs (Decidable (_ ∧ _))

/-- The message of slot `j` lies apart from what is built and from every later message. -/
def Whole (q : SendQueue) (b : QueueBuf) (j : ℕ) : Prop :=
  (0 < b.built → Apart (b.data j) (b.len j) b.qBufPos b.built) ∧
    ∀ k < q.qSize, (q.msgsQueue j).dataSeq < (q.msgsQueue k).dataSeq →
      Apart (b.data j) (b.len j) (b.data k) (b.len k)

instance (q : SendQueue) (b : QueueBuf) (j : ℕ) : Decidable (Whole q b j) :=
  inferInstanceAs (Decidable (_ ∧ _))

variable {q q' : SendQueue} {b : QueueBuf} {j k : ℕ} {msg : List Byte}

@[simp] lemma bytes_length (b : QueueBuf) (j : ℕ) : (b.bytes j).length = b.len j :=
  read_length _ _ _

@[simp] lemma bytes_put_self (b : QueueBuf) (j : ℕ) (msg : List Byte) :
    (b.put j msg).bytes j = msg := by
  simp only [bytes, put, Function.update_self, read_write]

lemma bytes_put_of_apart (hne : k ≠ j) (h : Apart (b.data k) (b.len k) b.qBufPos msg.length) :
    (b.put j msg).bytes k = b.bytes k := by
  simp only [bytes, put, Function.update_of_ne hne, read_write_of_apart h]

lemma bytes_rewrite_self (h : msg.length = b.len j) : (b.rewrite j msg).bytes j = msg := by
  simp only [bytes, rewrite, ← h, read_write]

lemma bytes_rewrite_of_apart (hlen : msg.length = b.len j)
    (h : Apart (b.data k) (b.len k) (b.data j) (b.len j)) :
    (b.rewrite j msg).bytes k = b.bytes k := by
  simp only [bytes, rewrite]
  exact read_write_of_apart (hlen ▸ h)

lemma Whole.congr (h : Whole q b j) (hsize : q'.qSize = q.qSize)
    (hslots : ∀ k, (q'.msgsQueue k).dataSeq = (q.msgsQueue k).dataSeq) : Whole q' b j := by
  refine ⟨h.1, fun k hk hlt => ?_⟩
  rw [hslots, hslots] at hlt
  exact h.2 k (hsize ▸ hk) hlt

structure SamePlaces (b b' : QueueBuf) : Prop where
  data : b'.data = b.data
  len : b'.len = b.len
  qBufPos : b'.qBufPos = b.qBufPos
  built : b'.built = b.built

lemma SamePlaces.refl (b : QueueBuf) : SamePlaces b b := ⟨rfl, rfl, rfl, rfl⟩

lemma SamePlaces.rewrite {b' : QueueBuf} (h : SamePlaces b b') (j : ℕ) (msg : List Byte) :
    SamePlaces b (b'.rewrite j msg) := ⟨h.data, h.len, h.qBufPos, h.built⟩

lemma SamePlaces.whole {b' : QueueBuf} (h : SamePlaces b b') : Whole q b' j ↔ Whole q b j := by
  unfold Whole
  rw [h.data, h.len, h.qBufPos, h.built]

lemma Whole.apart (h : Whole q b j) (hk : k < q.qSize)
    (hlt : (q.msgsQueue j).dataSeq < (q.msgsQueue k).dataSeq) :
    Apart (b.data j) (b.len j) (b.data k) (b.len k) := h.2 k hk hlt

lemma Whole.bytes_rewrite (h : Whole q b j) (hlen : msg.length = b.len j) (hj : j < q.qSize)
    (hk : k < q.qSize) (hne : (q.msgsQueue k).dataSeq ≠ (q.msgsQueue j).dataSeq)
    (hwhole : (q.msgsQueue k).dataSeq < (q.msgsQueue j).dataSeq → Whole q b k) :
    (b.rewrite j msg).bytes k = b.bytes k := by
  refine bytes_rewrite_of_apart hlen ?_
  rcases Nat.lt_or_gt_of_ne hne with hlt | hgt
  · exact (hwhole hlt).apart hj hlt
  · exact (h.apart hk hgt).symm

lemma Whole.of_build (h : Whole q (b.build msg) j) :
    Whole q b j ∧ (b.build msg).bytes j = b.bytes j := by
  obtain ⟨hbuilt, hlater⟩ := h
  rcases Nat.eq_zero_or_pos (max b.built msg.length) with h0 | hpos
  · have hnil : msg = [] := List.length_eq_zero_iff.mp (by omega)
    refine ⟨⟨fun hb => by omega, hlater⟩, ?_⟩
    simp only [bytes, build, hnil, write_nil]
  · have hapart : Apart (b.data j) (b.len j) b.qBufPos (max b.built msg.length) := hbuilt hpos
    refine ⟨⟨fun _ => hapart.mono (le_max_left _ _), hlater⟩, ?_⟩
    simp only [bytes, build]
    exact read_write_of_apart (hapart.mono (le_max_right _ _))

variable {accepted : List (List Byte)}

/-- A message that is put leaves the messages alone that are whole after it. -/
lemma Whole.of_put (hw : Window q accepted) (hpos : 0 < q.qSize) (hsize : q'.qSize = q.qSize)
    (hslots : q'.msgsQueue = Function.update q.msgsQueue (q.dataSeq % q.qSize) ⟨q.dataSeq, msg⟩)
    (hbuilt : b.built ≤ msg.length) (hj : j ≠ q.dataSeq % q.qSize)
    (h0 : (q.msgsQueue j).dataSeq ≠ 0) (h : Whole q' (b.put (q.dataSeq % q.qSize) msg) j) :
    Whole q b j ∧ (b.put (q.dataSeq % q.qSize) msg).bytes j = b.bytes j := by
  obtain ⟨-, hlater⟩ := h
  have hseq := hw.dataSeq
  obtain ⟨-, hle, hlt⟩ := hw.slot j h0
  simp only [put, hslots, hsize, Function.update_of_ne hj] at hlater
  -- the new message is the latest one
  have hapart : Apart (b.data j) (b.len j) b.qBufPos msg.length := by
    have := hlater (q.dataSeq % q.qSize) (Nat.mod_lt _ hpos) (by
      rw [Function.update_self]
      simp only
      omega)
    rwa [Function.update_self, Function.update_self] at this
  refine ⟨⟨fun _ => hapart.mono hbuilt, fun k hk hlt' => ?_⟩, bytes_put_of_apart hj hapart⟩
  by_cases hkn : k = q.dataSeq % q.qSize
  · -- what the new message replaces was the oldest one
    obtain ⟨hmod, hle', -⟩ := hw.slot k (by omega)
    have hring : (q.msgsQueue k).dataSeq + q.qSize ≤ q.dataSeq := by
      by_contra hgt
      refine mod_ne_of_lt (q := q.qSize) (a := (q.msgsQueue k).dataSeq) (b := q.dataSeq)
        (by omega) (by omega) ?_
      rw [hmod, hkn]
    omega
  · have := hlater k hk (by rwa [Function.update_of_ne hkn])
    rwa [Function.update_of_ne hkn, Function.update_of_ne hkn] at this

end QueueBuf

end Ufix
