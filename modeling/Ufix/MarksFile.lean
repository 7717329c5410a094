import Ufix.LittleEndian
import Ufix.Memory
import Ufix.PManager

/-!
The file of the marks, byte by byte. A record is the queue in four bytes, then the number and the
number in its queue in eight bytes each.

The file is read in chunks into one buffer. A record that was cut off at the end of the file is read
all the same, with the bytes that lie behind it in the buffer.
-/

namespace Ufix.MarksFile

open LittleEndian Memory

/-- What `write_seq_sent` appends to the file. -/
def record (r : SeqSentInfo) : List Byte :=
  bytesOf 4 r.qIndex ++ bytesOf 8 r.msgSeq ++ bytesOf 8 r.dataSeq

def recordSize : ℕ := 20

/-- `1 << 12` records. -/
def chunkRecords : ℕ := 2 ^ 12

def maxReadSize : ℕ := recordSize * chunkRecords

/-- The entries of `last_seqs` in `init_session`. -/
def numLastSeqs : ℕ := 512

def infoAt (buf : ℕ → Byte) (pos : ℕ) : SeqSentInfo where
  qIndex := numberOf (read buf pos 4)
  msgSeq := numberOf (read buf (pos + 4) 8)
  dataSeq := numberOf (read buf (pos + 12) 8)

/-- The inner loop of `read_sent_marks`, `n` rounds at most: `none` when a queue is none of
`last_seqs`. -/
def readRecords (len : ℕ) (buf : ℕ → Byte) :
    ℕ → ℕ → PManager.ReadState → Option PManager.ReadState
  | 0, _, _ => none
  | n + 1, pos, s =>
    if pos ≥ len then some s
    else
      let info := infoAt buf pos
      if info.qIndex < numLastSeqs then
        readRecords len buf n (pos + recordSize) (PManager.readMark s info)
      else none

/-- The outer loop, `n` chunks at most. -/
def readChunks : ℕ → (ℕ → Byte) → List Byte → PManager.ReadState → Option PManager.ReadState
  | 0, _, _, _ => none
  | n + 1, buf, file, s =>
    let chunk := file.take maxReadSize
    let buf := write buf 0 chunk
    (readRecords chunk.length buf (chunk.length + 1) 0 s).bind fun s =>
      if chunk.length ≠ maxReadSize then some s
      else readChunks n buf (file.drop maxReadSize) s

/-- `read_sent_marks` on a file, with what was in the memory of the buffer. -/
def readSentMarks (stale : ℕ → Byte) (marks : SentMark) (file : List Byte) :
    Option PManager.ReadState :=
  readChunks (file.length + 1) stale file ⟨marks, fun _ => 0, 0, 0⟩

/-! ### Records -/

structure Fits (r : SeqSentInfo) : Prop where
  qIndex : r.qIndex < numLastSeqs
  msgSeq : r.msgSeq < 2 ^ 64
  dataSeq : r.dataSeq < 2 ^ 64

lemma record_length (r : SeqSentInfo) : (record r).length = recordSize := by
  simp [record, recordSize]

def infoOf (bytes : List Byte) : SeqSentInfo where
  qIndex := numberOf (bytes.take 4)
  msgSeq := numberOf ((bytes.drop 4).take 8)
  dataSeq := numberOf ((bytes.drop 12).take 8)

lemma infoOf_append {a b c : List Byte} (ha : a.length = 4) (hb : b.length = 8)
    (hc : c.length = 8) : infoOf (a ++ b ++ c) = ⟨numberOf a, numberOf b, numberOf c⟩ := by
  have hab : (a ++ b).length = 12 := by rw [List.length_append, ha, hb]
  have h1 : (a ++ b ++ c).take 4 = a := by rw [List.append_assoc, List.take_left' ha]
  have h2 : ((a ++ b ++ c).drop 4).take 8 = b := by
    rw [List.append_assoc, List.drop_left' ha, List.take_left' hb]
  have h3 : ((a ++ b ++ c).drop 12).take 8 = c := by
    rw [List.drop_left' hab, List.take_of_length_le (by omega)]
  rw [infoOf, h1, h2, h3]

lemma infoOf_record {r : SeqSentInfo} (h : Fits r) : infoOf (record r) = r := by
  rw [record, infoOf_append (bytesOf_length _ _) (bytesOf_length _ _) (bytesOf_length _ _),
    numberOf_bytesOf_of_lt (lt_trans h.qIndex (by decide)), numberOf_bytesOf_of_lt h.msgSeq,
    numberOf_bytesOf_of_lt h.dataSeq]

lemma infoAt_eq (buf : ℕ → Byte) (pos : ℕ) : infoAt buf pos = infoOf (read buf pos recordSize) := by
  have hsplit : read buf pos recordSize =
      read buf pos 4 ++ read buf (pos + 4) 8 ++ read buf (pos + 12) 8 := by
    rw [← read_add, ← read_add]
    rfl
  rw [hsplit, infoOf_append (read_length ..) (read_length ..) (read_length ..)]
  rfl

variable {len pos n : ℕ} {buf : ℕ → Byte} {s : PManager.ReadState} {recs : List SeqSentInfo}

/-- Whole records in the buffer are read one after the other. -/
lemma readRecords_append (hfit : ∀ r ∈ recs, Fits r)
    (hread : read buf pos (recordSize * recs.length) = recs.flatMap record)
    (hlen : pos + recordSize * recs.length ≤ len) :
    readRecords len buf (n + recs.length) pos s =
      readRecords len buf n (pos + recordSize * recs.length) (recs.foldl PManager.readMark s) := by
  induction recs generalizing pos s with
  | nil => rfl
  | cons r recs ih =>
    have hsize : recordSize * (r :: recs).length = recordSize + recordSize * recs.length := by
      rw [List.length_cons, Nat.mul_add, Nat.mul_one, Nat.add_comm]
    rw [hsize, read_add, List.flatMap_cons] at hread
    obtain ⟨hr, hrecs⟩ := List.append_inj hread (by rw [read_length, record_length])
    have hinfo : infoAt buf pos = r := by
      rw [infoAt_eq, hr, infoOf_record (hfit r (by simp))]
    rw [hsize] at hlen
    have hpos : 0 < recordSize := by decide
    rw [List.length_cons, ← Nat.add_assoc, readRecords, if_neg (by omega)]
    simp only [hinfo, if_pos (hfit r (by simp)).qIndex]
    rw [ih (fun r' hr' => hfit r' (by simp [hr'])) hrecs (by omega), Nat.add_assoc, ← hsize]
    rfl

/-! ### Files -/

/-- The twenty bytes the buffer holds where the record behind `recs` goes: what was in the memory,
or the record of the chunk before. -/
def under (stale : ℕ → Byte) (recs : List SeqSentInfo) : List Byte :=
  if recs.length < chunkRecords then read stale (recordSize * recs.length) recordSize
  else ((recs[recs.length - chunkRecords]?).map record).getD []

/-- What is read for a record of which only `tail` is there. -/
def torn (stale : ℕ → Byte) (recs : List SeqSentInfo) (tail : List Byte) : SeqSentInfo :=
  infoOf (tail ++ (under stale recs).drop tail.length)

def readTail (stale : ℕ → Byte) (recs : List SeqSentInfo) (tail : List Byte)
    (s : PManager.ReadState) : Option PManager.ReadState :=
  if tail = [] then some s
  else if (torn stale recs tail).qIndex < numLastSeqs then
    some (PManager.readMark s (torn stale recs tail))
  else none

lemma readRecords_end {len pos n : ℕ} {buf : ℕ → Byte} {s : PManager.ReadState} (h : len ≤ pos) :
    readRecords len buf (n + 1) pos s = some s := by
  rw [readRecords, if_pos h]

lemma encode_length (recs : List SeqSentInfo) :
    (recs.flatMap record).length = recordSize * recs.length := by
  induction recs with
  | nil => rfl
  | cons r recs ih =>
    rw [List.flatMap_cons, List.length_append, ih, record_length, List.length_cons]
    exact (Nat.mul_succ ..).symm ▸ Nat.add_comm ..

lemma drop_read {mem : ℕ → Byte} {pos k len : ℕ} (h : k ≤ len) :
    (read mem pos len).drop k = read mem (pos + k) (len - k) := by
  obtain ⟨m, rfl⟩ := Nat.exists_eq_add_of_le h
  rw [read_add, List.drop_left' (read_length ..), Nat.add_sub_cancel_left]

/-- The buffer with the records and the tail written to its front. -/
lemma infoAt_torn {stale : ℕ → Byte} {recs : List SeqSentInfo} {tail : List Byte}
    (hlen : recs.length < chunkRecords) (htail : tail.length < recordSize) :
    infoAt (write stale 0 (recs.flatMap record ++ tail)) (recordSize * recs.length) =
      torn stale recs tail := by
  have hencode := encode_length recs
  have htailAt : read (write stale 0 (recs.flatMap record ++ tail)) (recordSize * recs.length)
      tail.length = tail := by
    have hread := read_write stale 0 (recs.flatMap record ++ tail)
    rw [List.length_append, read_add, hencode, Nat.zero_add] at hread
    exact (List.append_inj hread (by rw [read_length, hencode])).2
  have hbehind : read (write stale 0 (recs.flatMap record ++ tail))
      (recordSize * recs.length + tail.length) (recordSize - tail.length) =
      (under stale recs).drop tail.length := by
    rw [under, if_pos hlen, drop_read htail.le]
    refine read_congr fun i h1 h2 => write_of_ge ?_
    rw [List.length_append, hencode]
    omega
  have hsplit : ∀ (mem : ℕ → Byte) pos, read mem pos recordSize =
      read mem pos tail.length ++ read mem (pos + tail.length) (recordSize - tail.length) := by
    intro mem pos
    rw [← read_add, Nat.add_sub_cancel' htail.le]
  rw [infoAt_eq, torn, ← hbehind, hsplit, htailAt]

/-- The last chunk. -/
lemma readChunks_last {stale : ℕ → Byte} {recs : List SeqSentInfo} {tail : List Byte} {n : ℕ}
    {s : PManager.ReadState} (hfit : ∀ r ∈ recs, Fits r) (hlen : recs.length < chunkRecords)
    (htail : tail.length < recordSize) :
    readChunks (n + 1) stale (recs.flatMap record ++ tail) s =
      readTail stale recs tail (recs.foldl PManager.readMark s) := by
  have hencode := encode_length recs
  have hfile : (recs.flatMap record ++ tail).length = recordSize * recs.length + tail.length := by
    rw [List.length_append, hencode]
  have hshort : (recs.flatMap record ++ tail).length < maxReadSize := by
    unfold maxReadSize recordSize chunkRecords at *
    omega
  have hread : read (write stale 0 (recs.flatMap record ++ tail)) 0 (recordSize * recs.length) =
      recs.flatMap record := by
    have h := read_write stale 0 (recs.flatMap record ++ tail)
    rw [hfile, read_add] at h
    exact (List.append_inj h (by rw [read_length, hencode])).1
  have hinfo : infoAt (write stale 0 (recs.flatMap record ++ tail)) (recordSize * recs.length) =
      torn stale recs tail := infoAt_torn hlen htail
  simp only [readChunks, List.take_of_length_le hshort.le, if_pos (Nat.ne_of_lt hshort)]
  generalize write stale 0 (recs.flatMap record ++ tail) = buf at hread hinfo ⊢
  rw [hfile]
  obtain ⟨m, hm⟩ : ∃ m, recordSize * recs.length + tail.length + 1 = m + 1 + recs.length :=
    ⟨recordSize * recs.length + tail.length - recs.length, by unfold recordSize; omega⟩
  rw [hm, readRecords_append hfit hread (by omega), Nat.zero_add]
  unfold readTail
  by_cases ht : tail = []
  · subst ht
    rw [readRecords_end (by simp), if_pos rfl]
    rfl
  · have hpos : 0 < tail.length := List.length_pos_iff.mpr ht
    rw [readRecords, if_neg (by omega), if_neg ht]
    obtain ⟨k, rfl⟩ : ∃ k, m = k + 1 := ⟨m - 1, by unfold recordSize at hm; omega⟩
    simp only [hinfo]
    split
    · rw [readRecords_end (by omega)]
      rfl
    · rfl

/-- A whole chunk, with more to come. -/
lemma readChunks_chunk {stale : ℕ → Byte} {recs : List SeqSentInfo} {rest : List Byte} {n : ℕ}
    {s : PManager.ReadState} (hfit : ∀ r ∈ recs, Fits r) (hlen : recs.length = chunkRecords) :
    readChunks (n + 1) stale (recs.flatMap record ++ rest) s =
      readChunks n (write stale 0 (recs.flatMap record)) rest
        (recs.foldl PManager.readMark s) := by
  have hencode : (recs.flatMap record).length = maxReadSize := by
    rw [encode_length, hlen, maxReadSize]
  have hread : read (write stale 0 (recs.flatMap record)) 0 (recordSize * recs.length) =
      recs.flatMap record := by
    rw [← encode_length]
    exact read_write stale 0 (recs.flatMap record)
  simp only [readChunks, List.take_left' hencode, List.drop_left' hencode, hencode, ne_eq,
    not_true_eq_false, if_false]
  obtain ⟨m, hm⟩ : ∃ m, maxReadSize + 1 = m + 1 + recs.length :=
    ⟨maxReadSize - recs.length, by rw [hlen]; decide⟩
  have hend : maxReadSize ≤ 0 + recordSize * recs.length := by rw [hlen, Nat.zero_add, maxReadSize]
  rw [hm, readRecords_append hfit hread (by rw [hlen, Nat.zero_add, maxReadSize]),
    readRecords_end hend]
  rfl

lemma read_record {stale : ℕ → Byte} {recs : List SeqSentInfo} {i : ℕ} (hi : i < recs.length) :
    read (write stale 0 (recs.flatMap record)) (recordSize * i) recordSize = record recs[i] := by
  have hsplit : recs.flatMap record =
      (recs.take i).flatMap record ++ (record recs[i] ++ (recs.drop (i + 1)).flatMap record) := by
    rw [← List.flatMap_cons, List.getElem_cons_drop, ← List.flatMap_append, List.take_append_drop]
  have hfront : ((recs.take i).flatMap record).length = recordSize * i := by
    rw [encode_length, List.length_take_of_le hi.le]
  have hread := read_write stale 0 (recs.flatMap record)
  rw [hsplit, List.length_append, List.length_append, hfront, record_length, read_add, read_add,
    Nat.zero_add] at hread
  rw [hsplit]
  have hback := (List.append_inj hread (by rw [read_length, hfront])).2
  exact (List.append_inj hback (by rw [read_length, record_length])).1

lemma under_write {stale : ℕ → Byte} {recs rest : List SeqSentInfo}
    (hlen : recs.length = chunkRecords) :
    under (write stale 0 (recs.flatMap record)) rest = under stale (recs ++ rest) := by
  have hlong : ¬ (recs ++ rest).length < chunkRecords := by
    rw [List.length_append]
    omega
  have hindex : (recs ++ rest).length - chunkRecords = rest.length := by
    rw [List.length_append]
    omega
  rw [under, under, if_neg hlong, hindex]
  split
  · next hshort =>
    have hi : rest.length < recs.length := by omega
    rw [read_record hi, List.getElem?_append_left hi, List.getElem?_eq_getElem hi]
    rfl
  · rw [List.getElem?_append_right (by omega), hlen]

lemma readChunks_eq {stale : ℕ → Byte} {recs : List SeqSentInfo} {tail : List Byte} {n : ℕ}
    {s : PManager.ReadState} (hfit : ∀ r ∈ recs, Fits r) (htail : tail.length < recordSize)
    (hn : recs.length < n) :
    readChunks n stale (recs.flatMap record ++ tail) s =
      readTail stale recs tail (recs.foldl PManager.readMark s) := by
  induction n generalizing stale recs s with
  | zero => omega
  | succ n ih =>
    rcases Nat.lt_or_ge recs.length chunkRecords with hshort | hlong
    · exact readChunks_last hfit hshort htail
    · -- one chunk, and the file behind it
      obtain ⟨chunk, rest, rfl, hchunk⟩ : ∃ chunk rest, recs = chunk ++ rest ∧
          chunk.length = chunkRecords :=
        ⟨_, _, (List.take_append_drop chunkRecords recs).symm, List.length_take_of_le hlong⟩
      have hpos : 0 < chunkRecords := by decide
      rw [List.length_append] at hn
      rw [List.flatMap_append, List.append_assoc,
        readChunks_chunk (fun r hr => hfit r (List.mem_append_left _ hr)) hchunk,
        ih (fun r hr => hfit r (List.mem_append_right _ hr)) (by omega), List.foldl_append]
      unfold readTail torn
      rw [under_write hchunk]

/-! ### The files of a session -/

def fileOf (pm : PManager) : List Byte := pm.seqsSent.flatMap record

/-- `write_seq_sent`. -/
def writeSeqSent (file : List Byte) (qIndex seq dataSeq : ℕ) : List Byte :=
  file ++ record ⟨qIndex, seq, dataSeq⟩

lemma fileOf_writeSeqSent (pm : PManager) (q n d : ℕ) :
    fileOf (pm.writeSeqSent q n d) = writeSeqSent (fileOf pm) q n d := by
  simp [fileOf, writeSeqSent]

/-- **What `read_sent_marks` reads** of every file, whatever was in its buffer: the marks of the
whole records, and one more when the file ends within a record. -/
theorem readSentMarks_eq (stale : ℕ → Byte) (marks : SentMark) (pm : PManager) (tail : List Byte)
    (hfit : ∀ r ∈ pm.seqsSent, Fits r) (htail : tail.length < recordSize) :
    readSentMarks stale marks (fileOf pm ++ tail) =
      readTail stale pm.seqsSent tail (pm.readSentMarks marks) := by
  refine readChunks_eq hfit htail ?_
  rw [List.length_append, fileOf, encode_length]
  unfold recordSize
  omega

def twoMarks : PManager := ⟨[⟨1, 1, 1⟩, ⟨2, 3, 1⟩], fun _ => []⟩

lemma twoMarks_fits : ∀ r ∈ twoMarks.seqsSent, Fits r := by
  intro r hr
  simp only [twoMarks, List.mem_cons, List.not_mem_nil, or_false] at hr
  rcases hr with rfl | rfl <;> exact ⟨by decide, by decide, by decide⟩

/-- A third mark is cut off within its number, and read with what the memory holds. -/
theorem readSentMarks_eq_cutOff :
    (readSentMarks (fun _ => 0) (SentMark.new 8) (fileOf twoMarks ++ [1, 0, 0, 0, 9])).map
      PManager.ReadState.lastSeq = some 9 := by
  rw [readSentMarks_eq _ _ twoMarks _ twoMarks_fits (by decide)]
  rfl

end Ufix.MarksFile
