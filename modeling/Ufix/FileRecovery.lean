import Ufix.DataFile

/-!
Recovery undoes logging exactly when no block ends between the length of a record and the end of
the first characters of its message.

There the test for a message looks at bytes behind those read. Every other place where a block can
end inside a record is right: what was not parsed is parsed with the next block.
-/

namespace Ufix.FileRecovery

open Ufix.LittleEndian Ufix.Memory Ufix.Runs Ufix.DataFile

/-! ### Where blocks end -/

/-- How far a block is used after a record of `n` bytes: one that does not fit starts the next
block. -/
def next (size used n : ℕ) : ℕ := if used + n ≤ size then used + n else n

def place (size used : ℕ) (ns : List ℕ) : ℕ := ns.foldl (next size) used

/-- The block does not end 4 to 7 bytes further on. -/
def Clear (size used : ℕ) : Prop := size < used + 4 ∨ used + 8 ≤ size

instance (size used : ℕ) : Decidable (Clear size used) := inferInstanceAs (Decidable (_ ∨ _))

/-- No block ends 4 to 7 bytes behind the start of a record that it cuts. -/
def Fits (size : ℕ) : ℕ → List ℕ → Prop
  | _, [] => True
  | used, n :: ns => (size < used + n → Clear size used) ∧ Fits size (next size used n) ns

instance decidableFits (size : ℕ) : ∀ used ns, Decidable (Fits size used ns)
  | _, [] => isTrue trivial
  | used, n :: ns =>
    have := decidableFits size (next size used n) ns
    inferInstanceAs (Decidable (_ ∧ _))

def msgStart : List Byte := [56, 61, 70, 73]

/-- A message as `add_msg` gets it, whose record is no longer than the buffer. -/
def IsMsg (size : ℕ) (msg : List Byte) : Prop := msgStart <+: msg ∧ (record msg).length ≤ size

/-! ### The middle of a recovery -/

/-- A recovery that stands at `start` in a block. -/
structure Config where
  blocks : ℕ
  scans : ℕ
  buf : ℕ → Byte
  bufLen : ℕ
  start : ℕ
  file : List Byte

def Config.result (size : ℕ) (c : Config) : Option Recovery :=
  (recoverMsgs c.bufLen c.buf c.scans c.start).bind fun s =>
    (recoverBlocks size c.blocks s.buf s.rest c.file).map fun r =>
      ⟨s.calls ++ r.msgs, decide (s.testedTo ≤ c.bufLen) && r.inside⟩

/-- What is left is `w`: the end of the block, and the rest of the file. -/
structure Config.Left (size : ℕ) (c : Config) (w : List Byte) : Prop where
  start : c.start ≤ c.bufLen
  bufLen : c.bufLen ≤ size
  left : read c.buf c.start (c.bufLen - c.start) ++ c.file = w
  full : c.file = [] ∨ c.bufLen = size
  scans : c.bufLen - c.start < c.scans
  blocks : c.file.length < c.blocks

def prepend (msgs : List (List Byte)) (r : Recovery) : Recovery := ⟨msgs ++ r.msgs, r.inside⟩

variable {size start n : ℕ} {c : Config} {w msg : List Byte} {msgs : List (List Byte)}
  {buf : ℕ → Byte}

lemma Config.Left.length (h : c.Left size w) : c.bufLen - c.start + c.file.length = w.length := by
  rw [← h.left, List.length_append, read_length]

lemma result_block {file : List Byte} (hblock : file.take (size - start) ≠ []) :
    recoverBlocks size (n + 1) buf start file =
      Config.result size ⟨n, start + (file.take (size - start)).length + 1,
        write buf start (file.take (size - start)), start + (file.take (size - start)).length, 0,
        file.drop (file.take (size - start)).length⟩ := by
  rw [recoverBlocks, if_neg hblock]
  rfl

lemma left_block {file kept : List Byte} (hstart : start ≤ size)
    (hkept : read buf 0 start = kept) (hn : file.length ≤ n)
    (hblock : file.take (size - start) ≠ []) :
    Config.Left size ⟨n, start + (file.take (size - start)).length + 1,
      write buf start (file.take (size - start)), start + (file.take (size - start)).length, 0,
      file.drop (file.take (size - start)).length⟩ (kept ++ file) := by
  have hlen : (file.take (size - start)).length = min (size - start) file.length :=
    List.length_take
  have hpos := List.length_pos_iff.mpr hblock
  refine ⟨Nat.zero_le _, by simp only; omega, ?_, ?_, by simp only; omega, ?_⟩
  · have hread : read (write buf start (file.take (size - start))) 0 start = kept := by
      rw [read_write_of_apart (Or.inl (by omega)), hkept]
    have hsplit : file = file.take (size - start) ++ file.drop (file.take (size - start)).length :=
      List.prefix_iff_eq_append.mp (List.take_prefix _ _) |>.symm
    simp only [Nat.sub_zero]
    rw [read_add, hread, Nat.zero_add, read_write, List.append_assoc, ← hsplit]
  · rcases Nat.le_total file.length (size - start) with h | h
    · exact Or.inl (List.drop_eq_nil_of_le (by omega))
    · exact Or.inr (by simp only; omega)
  · simp only [List.length_drop]
    omega

lemma recoverData_result (stale : ℕ → Byte) {file : List Byte} (hfile : file ≠ []) :
    ∃ c : Config, recoverData stale file = c.result bufSize ∧ c.Left bufSize file ∧
      c.start = 0 := by
  have hblock : file.take (bufSize - 0) ≠ [] := by
    intro h
    rcases List.take_eq_nil_iff.mp h with h | h
    · cases h
    · exact hfile h
  have hkept : Memory.read stale 0 0 = [] := rfl
  exact ⟨_, result_block hblock, left_block (Nat.zero_le _) hkept le_rfl hblock, rfl⟩

/-- When the rest of a block is kept the next block goes on with it. -/
lemma Config.Left.keepRest {t : ℕ} (h : c.Left size w) (hfile : c.file ≠ []) (hpos : 0 < c.start)
    (hscan : recoverMsgs c.bufLen c.buf c.scans c.start =
      some (DataFile.keepRest c.buf c.bufLen c.start t)) :
    ∃ c' : Config, c'.Left size w ∧ c'.start = 0 ∧ c.result size =
      (c'.result size).map fun r => ⟨r.msgs, decide (t ≤ c.bufLen) && r.inside⟩ := by
  have hfull : c.bufLen = size := h.full.resolve_left hfile
  have hle := h.start
  obtain ⟨k, hk⟩ : ∃ k, c.blocks = k + 1 := ⟨c.blocks - 1, by have := h.blocks; omega⟩
  have hblock : c.file.take (size - (c.bufLen - c.start)) ≠ [] := by
    intro hnil
    rcases List.take_eq_nil_iff.mp hnil with h' | h'
    · omega
    · exact hfile h'
  have hkept : read (DataFile.keepRest c.buf c.bufLen c.start t).buf 0 (c.bufLen - c.start) =
      read c.buf c.start (c.bufLen - c.start) := by
    have := read_write c.buf 0 (read c.buf c.start (c.bufLen - c.start))
    rwa [read_length] at this
  have hleft := left_block (n := k) (by omega) hkept (by have := h.blocks; omega) hblock
  rw [h.left] at hleft
  refine ⟨_, hleft, rfl, ?_⟩
  rw [Config.result, hscan, hk]
  simp only [Option.bind_some]
  change (recoverBlocks size (k + 1) _ (c.bufLen - c.start) c.file).map _ = _
  rw [result_block hblock]
  rfl

lemma Config.Left.read_of_le {l : List Byte} (h : c.Left size (l ++ w))
    (hin : c.start + l.length ≤ c.bufLen) :
    read c.buf c.start l.length = l ∧
      read c.buf (c.start + l.length) (c.bufLen - (c.start + l.length)) ++ c.file = w := by
  have hlen : c.bufLen - c.start = l.length + (c.bufLen - (c.start + l.length)) := by omega
  have hleft := h.left
  rw [hlen, read_add, List.append_assoc] at hleft
  exact List.append_inj hleft (by simp)

lemma Config.Left.read_at {l l' : List Byte} (h : c.Left size (l ++ (l' ++ w)))
    (hin : c.start + l.length + l'.length ≤ c.bufLen) :
    read c.buf (c.start + l.length) l'.length = l' := by
  rw [← List.append_assoc] at h
  have hread := (h.read_of_le (by rw [List.length_append]; omega)).1
  rw [List.length_append, read_add] at hread
  exact (List.append_inj hread (by simp)).2

/-! ### One record -/

lemma msgStart_length : msgStart.length = 4 := rfl

lemma isMsgStart_of_read {pos : ℕ} (h : read buf pos 4 = msgStart) :
    isMsgStart buf pos = true ∧ tested buf pos = 4 := by
  change [buf pos, buf (pos + 1), buf (pos + 2), buf (pos + 3)] = [56, 61, 70, 73] at h
  simp only [List.cons.injEq, and_true] at h
  obtain ⟨h0, h1, h2, h3⟩ := h
  have hbegin : ctoi 56 = beginString := by decide
  simp [isMsgStart, tested, h0, h1, h2, h3, hbegin, TagValue.equal]

lemma lt_tested {pos k : ℕ} (hk : k < 4) (h : read buf pos k = msgStart.take k) :
    k < tested buf pos := by
  have hcell : ∀ i, i < k → buf (pos + i) = (msgStart[i]?).getD 0 := by
    intro i hi
    have hget := congrArg (fun l => (l[i]?).getD 0) h
    simpa [Memory.read, List.getElem?_take, hi] using hget
  have hbegin : ctoi 56 = beginString := by decide
  unfold tested
  split_ifs with h0 h1 h2
  · have hne : ¬ 0 < k := fun hi => h0 (by rw [show buf pos = 56 from hcell 0 hi, hbegin])
    omega
  · have hne : ¬ 1 < k := fun hi => h1 (hcell 1 hi)
    omega
  · have hne : ¬ 2 < k := fun hi => h2 (hcell 2 hi)
    omega
  · omega

lemma intAt_of_read {pos : ℕ} (h : read buf pos 4 = bytesOf 4 n) (hn : n < 2 ^ 31) :
    intAt buf pos = n := by
  have hbytes : n < 256 ^ 4 := by omega
  have hnumber : numberOf (Memory.read buf pos 4) = n := by
    rw [h]
    exact numberOf_bytesOf_of_lt hbytes
  have hint : (n : ℤ).bmod (2 ^ (31 + 1)) = n := bmod_of_lt hn
  unfold intAt
  rw [hnumber]
  exact hint

lemma toSize_end {start len : ℕ} (h : start + 4 + len < 2 ^ 64) :
    toSize ((start : ℤ) + 4 + len) = start + 4 + len := by
  unfold toSize
  omega

lemma record_eq (hmsg : msgStart <+: msg) :
    ∃ rest, record msg = bytesOf 4 msg.length ++ (msgStart ++ rest) := by
  obtain ⟨rest, rfl⟩ := hmsg
  exact ⟨rest, rfl⟩

/-- A record that is in the block is one call. -/
lemma result_record (hsize : size < 2 ^ 31) (h : c.Left size (record msg ++ w))
    (hmsg : msgStart <+: msg) (hin : c.start + (record msg).length ≤ c.bufLen) :
    ∃ c' : Config, c'.Left size w ∧ c'.start = c.start + (record msg).length ∧
      c.result size = (c'.result size).map (prepend [msg]) := by
  obtain ⟨rest, hrecord⟩ := record_eq hmsg
  have hlong : 4 ≤ msg.length := hmsg.length_le
  have hle := h.bufLen
  rw [record_length] at hin
  obtain ⟨k, hk⟩ : ∃ k, c.scans = k + 1 := ⟨c.scans - 1, by have := h.scans; omega⟩
  have hbytes : c.Left size (bytesOf 4 msg.length ++ (msg ++ w)) := by
    rwa [← List.append_assoc]
  have hcount := (hbytes.read_of_le (by rw [bytesOf_length]; omega)).1
  have hdata := hbytes.read_at (by rw [bytesOf_length]; omega)
  have hafter := (h.read_of_le (by rw [record_length]; omega)).2
  have hstart : Memory.read c.buf (c.start + 4) 4 = msgStart := by
    obtain ⟨m, rfl⟩ := hmsg
    rw [List.append_assoc] at hbytes
    exact hbytes.read_at (by rw [bytesOf_length, msgStart_length]; omega)
  have hsig := isMsgStart_of_read hstart
  rw [bytesOf_length] at hcount hdata
  have hint := intAt_of_read hcount (by omega)
  have hscan : recoverMsgs c.bufLen c.buf c.scans c.start =
      (recoverMsgs c.bufLen c.buf k (c.start + (4 + msg.length))).map fun s =>
        { s with calls := msg :: s.calls, testedTo := max (c.start + 8) s.testedTo } := by
    rw [hk, recoverMsgs, if_neg (by omega), if_neg (by omega)]
    rw [hsig.1, hsig.2]
    simp only [hint, if_true]
    rw [toSize_end (by omega), if_neg (by omega), if_neg (by omega), Int.toNat_natCast, hdata,
      Nat.add_assoc, Nat.add_assoc]
  refine ⟨{ c with scans := k, start := c.start + (4 + msg.length) }, ⟨?_, hle, ?_, h.full, ?_,
    h.blocks⟩, by rw [record_length], ?_⟩
  · simp only
    omega
  · rw [record_length] at hafter
    exact hafter
  · have := h.scans
    simp only
    omega
  · simp only [Config.result, hscan]
    cases recoverMsgs c.bufLen c.buf k (c.start + (4 + msg.length)) with
    | none => rfl
    | some s =>
      have hmax : max (c.start + 8) s.testedTo ≤ c.bufLen ↔ s.testedTo ≤ c.bufLen := by omega
      simp only [Option.map_some, Option.bind_some, Option.map_map, hmax]
      rfl

/-! ### A record that a block cuts -/

lemma scan_short {bufLen : ℕ} (hle : start ≤ bufLen) (h : bufLen < start + 4) :
    recoverMsgs bufLen buf (n + 1) start = some (keepRest buf bufLen start 0) := by
  rw [recoverMsgs]
  by_cases hend : start ≥ bufLen
  · obtain rfl : start = bufLen := by omega
    rw [if_pos hend, keepRest, Nat.sub_self]
    exact congrArg (fun b => some (Scan.mk [] 0 b 0)) (write_nil buf 0).symm
  · rw [if_neg hend, if_pos (by omega)]

lemma scan_long {bufLen k : ℕ} (hcount : Memory.read buf start 4 = bytesOf 4 k)
    (hsig : Memory.read buf (start + 4) 4 = msgStart) (hk : k < 2 ^ 31) (hlen : bufLen < 2 ^ 31)
    (h8 : start + 8 ≤ bufLen) (hlong : bufLen < start + 4 + k) :
    recoverMsgs bufLen buf (n + 1) start = some (keepRest buf bufLen start (start + 8)) := by
  obtain ⟨hstart, htested⟩ := isMsgStart_of_read hsig
  have hint := intAt_of_read hcount hk
  rw [recoverMsgs, if_neg (by omega), if_neg (by omega), hstart, htested]
  simp only [hint, if_true]
  rw [toSize_end (by omega), if_pos (by omega)]

lemma Config.Left.in_block {l : List Byte} (h : c.Left size (l ++ w))
    (hle : c.start + l.length ≤ size) : c.start + l.length ≤ c.bufLen := by
  have hlen := h.length
  have hstart := h.start
  rw [List.length_append] at hlen
  rcases h.full with hfile | hfull
  · rw [hfile, List.length_nil] at hlen
    omega
  · omega

lemma Config.Left.cut {l : List Byte} (h : c.Left size (l ++ w))
    (hcut : size < c.start + l.length) : c.file ≠ [] ∧ c.bufLen = size := by
  have hfile : c.file ≠ [] := by
    intro hfile
    have hlen := h.length
    have hstart := h.start
    have hle := h.bufLen
    rw [hfile, List.length_nil, List.length_append] at hlen
    omega
  exact ⟨hfile, h.full.resolve_left hfile⟩

/-- A record that is cut at a clear place starts the next block. -/
lemma result_cut (hsize : size < 2 ^ 31) (h : c.Left size (record msg ++ w))
    (hmsg : IsMsg size msg) (hcut : size < c.start + (record msg).length)
    (hclear : Clear size c.start) :
    ∃ c' : Config, c'.Left size (record msg ++ w) ∧ c'.start = 0 ∧
      c.result size = c'.result size := by
  obtain ⟨hfile, hfull⟩ := h.cut hcut
  obtain ⟨hstart, hlen⟩ := hmsg
  have hle := h.start
  obtain ⟨k, hk⟩ : ∃ k, c.scans = k + 1 := ⟨c.scans - 1, by have := h.scans; omega⟩
  have hscan : ∃ t, t ≤ c.bufLen ∧
      recoverMsgs c.bufLen c.buf c.scans c.start = some (keepRest c.buf c.bufLen c.start t) := by
    rw [hk]
    rcases hclear with hclear | hclear
    · exact ⟨0, Nat.zero_le _, scan_short hle (by omega)⟩
    · obtain ⟨rest, hrecord⟩ := record_eq hstart
      rw [hrecord, List.append_assoc, List.append_assoc] at h
      rw [record_length] at hcut hlen
      have hcount := (h.read_of_le (by rw [bytesOf_length]; omega)).1
      have hsig := h.read_at (by rw [bytesOf_length, msgStart_length]; omega)
      rw [bytesOf_length] at hcount hsig
      exact ⟨c.start + 8, by omega, scan_long hcount hsig (by omega) (by omega) (by omega)
        (by omega)⟩
  obtain ⟨t, ht, hscan⟩ := hscan
  obtain ⟨c', hleft, hzero, hresult⟩ := h.keepRest hfile (by omega) hscan
  refine ⟨c', hleft, hzero, ?_⟩
  rw [hresult, decide_eq_true ht]
  simp

lemma result_next (hsize : size < 2 ^ 31) (h : c.Left size (record msg ++ w))
    (hmsg : IsMsg size msg) (hclear : size < c.start + (record msg).length → Clear size c.start) :
    ∃ c' : Config, c'.Left size w ∧ c'.start = next size c.start (record msg).length ∧
      c.result size = (c'.result size).map (prepend [msg]) := by
  unfold next
  by_cases hcut : c.start + (record msg).length ≤ size
  · rw [if_pos hcut]
    exact result_record hsize h hmsg.1 (h.in_block hcut)
  · rw [if_neg hcut]
    obtain ⟨c₁, hleft, hzero, hresult⟩ :=
      result_cut hsize h hmsg (by omega) (hclear (by omega))
    have hin : c₁.start + (record msg).length ≤ size := by
      rw [hzero, Nat.zero_add]
      exact hmsg.2
    obtain ⟨c', hleft', hstart, hresult'⟩ :=
      result_record hsize hleft hmsg.1 (hleft.in_block hin)
    refine ⟨c', hleft', ?_, hresult.trans hresult'⟩
    rw [hstart, hzero, Nat.zero_add]

lemma prepend_prepend (msgs msgs' : List (List Byte)) :
    prepend msgs ∘ prepend msgs' = prepend (msgs ++ msgs') := by
  funext r
  simp [prepend]

lemma prepend_nil : prepend [] = id := by
  funext r
  rfl

lemma result_records (hsize : size < 2 ^ 31) (h : c.Left size (records msgs ++ w))
    (hmsgs : ∀ msg ∈ msgs, IsMsg size msg)
    (hfits : Fits size c.start (msgs.map fun msg => (record msg).length)) :
    ∃ c' : Config, c'.Left size w ∧
      c'.start = place size c.start (msgs.map fun msg => (record msg).length) ∧
      c.result size = (c'.result size).map (prepend msgs) := by
  induction msgs generalizing c with
  | nil => exact ⟨c, h, rfl, by rw [prepend_nil, Option.map_id, id]⟩
  | cons msg msgs ih =>
    rw [records_cons, List.append_assoc] at h
    obtain ⟨hclear, hfits⟩ := hfits
    obtain ⟨c₁, hleft, hstart, hresult⟩ := result_next hsize h (hmsgs msg (by simp)) hclear
    obtain ⟨c', hleft', hstart', hresult'⟩ :=
      ih hleft (fun m hm => hmsgs m (by simp [hm])) (by rwa [hstart])
    refine ⟨c', hleft', by rw [hstart', hstart]; rfl, ?_⟩
    rw [hresult, hresult', Option.map_map, prepend_prepend]
    rfl

lemma result_last {s : Scan} (h : c.Left size w) (hfile : c.file = [])
    (hscan : recoverMsgs c.bufLen c.buf c.scans c.start = some s) :
    c.result size = some ⟨s.calls, decide (s.testedTo ≤ c.bufLen)⟩ := by
  obtain ⟨b, hb⟩ : ∃ b, c.blocks = b + 1 := ⟨c.blocks - 1, by have := h.blocks; omega⟩
  have hblocks : recoverBlocks size c.blocks s.buf s.rest c.file = some ⟨[], true⟩ := by
    rw [hb, hfile, recoverBlocks, List.take_nil, if_pos rfl]
  simp [Config.result, hscan, hblocks]

lemma result_nil (h : c.Left size []) : c.result size = some ⟨[], true⟩ := by
  have hlen := h.length
  rw [List.length_nil] at hlen
  have hle := h.start
  obtain ⟨k, hk⟩ : ∃ k, c.scans = k + 1 := ⟨c.scans - 1, by have := h.scans; omega⟩
  have hscan : recoverMsgs c.bufLen c.buf c.scans c.start =
      some (keepRest c.buf c.bufLen c.start 0) := by
    rw [hk]
    exact scan_short hle (by omega)
  rw [result_last h (List.eq_nil_of_length_eq_zero (by omega)) hscan]
  simp [keepRest]

/-- Where a block ends 4 to 7 bytes behind the start of a record it cuts, the test leaves the
bytes that were read. -/
lemma result_unclear (hsize : size < 2 ^ 31) (h : c.Left size (record msg ++ w))
    (hmsg : IsMsg size msg) (hcut : size < c.start + (record msg).length)
    (hclear : ¬ Clear size c.start) {r : Recovery} (hr : c.result size = some r) :
    r.inside = false := by
  obtain ⟨hfile, hfull⟩ := h.cut hcut
  obtain ⟨hstart, hlen⟩ := hmsg
  have hle := h.start
  obtain ⟨k, hk⟩ : ∃ k, c.scans = k + 1 := ⟨c.scans - 1, by have := h.scans; omega⟩
  obtain ⟨hlow, hhigh⟩ : c.start + 4 ≤ size ∧ size < c.start + 8 := by
    unfold Clear at hclear
    omega
  obtain ⟨rest, hrecord⟩ := record_eq hstart
  have hsplit : msgStart = msgStart.take (size - c.start - 4) ++
      msgStart.drop (size - c.start - 4) := (List.take_append_drop _ _).symm
  have htake : (msgStart.take (size - c.start - 4)).length = size - c.start - 4 := by
    rw [List.length_take, msgStart_length]
    omega
  rw [hrecord, hsplit, List.append_assoc, List.append_assoc, List.append_assoc] at h
  rw [record_length] at hcut hlen
  have hcount := (h.read_of_le (by rw [bytesOf_length]; omega)).1
  have hsig := h.read_at (by rw [bytesOf_length, htake]; omega)
  rw [bytesOf_length] at hcount hsig
  rw [htake] at hsig
  have htested := lt_tested (by omega) hsig
  have hint := intAt_of_read hcount (by omega)
  have hbeyond : ∀ s, recoverMsgs c.bufLen c.buf c.scans c.start = some s →
      c.bufLen < s.testedTo := by
    intro s hs
    rw [hk, recoverMsgs, if_neg (by omega), if_neg (by omega)] at hs
    by_cases hmatch : isMsgStart c.buf (c.start + 4) = true
    · simp only [hmatch, hint, if_true] at hs
      rw [toSize_end (by omega), if_pos (by omega)] at hs
      cases hs
      simp only [keepRest]
      omega
    · simp only [if_neg hmatch] at hs
      obtain ⟨s', -, rfl⟩ := Option.map_eq_some_iff.mp hs
      simp only
      omega
  unfold Config.result at hr
  obtain ⟨s, hs, hr⟩ := Option.bind_eq_some_iff.mp hr
  obtain ⟨r', -, rfl⟩ := Option.map_eq_some_iff.mp hr
  have := hbeyond s hs
  simp [decide_eq_false (Nat.not_le.mpr this)]

lemma inside_of_not_fits (hsize : size < 2 ^ 31) (h : c.Left size (records msgs))
    (hmsgs : ∀ msg ∈ msgs, IsMsg size msg)
    (hfits : ¬ Fits size c.start (msgs.map fun msg => (record msg).length)) {r : Recovery}
    (hr : c.result size = some r) : r.inside = false := by
  induction msgs generalizing c r with
  | nil => exact absurd trivial hfits
  | cons msg msgs ih =>
    rw [records_cons] at h
    have hmsg := hmsgs msg (by simp)
    by_cases hclear : size < c.start + (record msg).length → Clear size c.start
    · obtain ⟨c', hleft, hstart, hresult⟩ := result_next hsize h hmsg hclear
      rw [hresult] at hr
      obtain ⟨r', hr', rfl⟩ := Option.map_eq_some_iff.mp hr
      have hrest : ¬ Fits size c'.start (msgs.map fun msg => (record msg).length) := by
        rw [hstart]
        exact fun hrest => hfits ⟨hclear, hrest⟩
      exact (ih hleft (fun m hm => hmsgs m (by simp [hm])) hrest hr' : r'.inside = false)
    · obtain ⟨hcut, hunclear⟩ := Classical.not_imp.mp hclear
      exact result_unclear hsize h hmsg hcut hunclear hr

/-! ### Whole files -/

lemma records_ne_nil (hne : msgs ≠ []) : records msgs ≠ [] := by
  obtain ⟨msg, rest, rfl⟩ := List.exists_cons_of_ne_nil hne
  rw [records_cons]
  simp [record, bytesOf]

lemma recoverData_records (stale : ℕ → Byte) (hmsgs : ∀ msg ∈ msgs, IsMsg bufSize msg)
    (hfits : Fits bufSize 0 (msgs.map fun msg => (record msg).length)) :
    recoverData stale (records msgs) = some ⟨msgs, true⟩ := by
  by_cases hne : msgs = []
  · rw [hne]
    rfl
  obtain ⟨c, hresult, hleft, hstart⟩ := recoverData_result stale (records_ne_nil hne)
  rw [← List.append_nil (records msgs)] at hleft
  obtain ⟨c', hleft', -, hresult'⟩ :=
    result_records (by decide) hleft hmsgs (by rwa [hstart])
  rw [hresult, hresult', result_nil hleft']
  simp [prepend]

/-- The recovery calls `recover_msg` with every message accepted, in order, tests only bytes it
read, and numbers the messages as they were numbered. -/
def Undoes (stale : ℕ → Byte) (size reserve : ℕ) (w : Writer) : Prop :=
  recoverData stale w.file = some ⟨w.accepted.map Prod.fst, true⟩ ∧
    assigned (SendQueue.blank size reserve) (w.accepted.map Prod.fst) = w.accepted ∧
    (SendQueue.new size reserve (w.accepted.map Prod.fst)).dataSeq = w.queue.dataSeq

/-- **Recovery undoes logging if and only if blocks end well**: in every run of a queue, whatever
was in the memory of the buffer, the messages come back from the file under their numbers and no
byte behind those read is looked at, exactly when no block ends 4 to 7 bytes behind the start of a
record that it cuts. -/
theorem undoes_iff (stale : ℕ → Byte) {size reserve : ℕ} {ops : List Op} {w : Writer}
    (hr : run Writer.step (Writer.new size reserve) ops = some w)
    (hmsgs : ∀ e ∈ w.accepted, IsMsg bufSize e.1) :
    Undoes stale size reserve w ↔
      Fits bufSize 0 (w.accepted.map fun e => (record e.1).length) := by
  have hlogged := Writer.run_logged hr
  have hmsgs' : ∀ msg ∈ w.accepted.map Prod.fst, IsMsg bufSize msg := by
    intro msg hmsg
    obtain ⟨e, he, rfl⟩ := List.mem_map.mp hmsg
    exact hmsgs e he
  have hlengths : (w.accepted.map fun e => (record e.1).length) =
      (w.accepted.map Prod.fst).map fun msg => (record msg).length := by
    rw [List.map_map]
    rfl
  rw [hlengths]
  constructor
  · rintro ⟨hdata, -, -⟩
    by_contra hfits
    have hne : w.accepted.map Prod.fst ≠ [] := by
      intro hnil
      rw [hnil] at hfits
      exact hfits trivial
    obtain ⟨c, hresult, hleft, hstart⟩ := recoverData_result stale (records_ne_nil hne)
    rw [hlogged.file, hresult] at hdata
    have := inside_of_not_fits (by decide) hleft hmsgs' (by rwa [hstart]) hdata
    cases this
  · intro hfits
    refine ⟨?_, ?_, ?_⟩
    · rw [hlogged.file]
      exact recoverData_records stale hmsgs' hfits
    · rw [assigned_eq_zipIdx]
      exact hlogged.accepted.symm
    · rw [SendQueue.new_dataSeq, List.length_map, hlogged.dataSeq]

def longMsg (left : ℕ) : List Byte := msgStart ++ List.replicate (bufSize - 8 - left) 65

lemma longMsg_length {left : ℕ} (h : left ≤ bufSize - 8) :
    (record (longMsg left)).length = bufSize - left := by
  have hsize : 8 ≤ bufSize := by decide
  rw [record_length, longMsg, List.length_append, List.length_replicate, msgStart_length]
  omega

lemma isMsg_longMsg {left : ℕ} (h : left ≤ bufSize - 8) :
    ∀ msg ∈ [longMsg left, msgStart], IsMsg bufSize msg := by
  intro msg hmsg
  rcases List.mem_cons.mp hmsg with rfl | hmsg
  · exact ⟨List.prefix_append _ _, by rw [longMsg_length h]; omega⟩
  · rw [List.mem_singleton.mp hmsg]
    exact ⟨List.prefix_refl _, by decide⟩

lemma accepted_longMsg {left : ℕ} {w : Writer}
    (hr : run Writer.step (Writer.new 4 1) [.addMsg (longMsg left), .addMsg msgStart] = some w) :
    w.accepted.map Prod.fst = [longMsg left, msgStart] := by
  cases hr
  rfl

/-- The next record is cut within its length. -/
theorem undoes_iff_longMsg : ∃ w,
    run Writer.step (Writer.new 4 1) [.addMsg (longMsg 3), .addMsg msgStart] = some w ∧
    Undoes (fun _ => 56) 4 1 w := by
  obtain ⟨w, hr⟩ : ∃ w, run Writer.step (Writer.new 4 1) [.addMsg (longMsg 3), .addMsg msgStart] =
      some w := ⟨_, rfl⟩
  have hmsgs := accepted_longMsg hr
  refine ⟨w, hr, (undoes_iff _ hr fun e he => ?_).mpr ?_⟩
  · have hmem := List.mem_map_of_mem (f := Prod.fst) he
    rw [hmsgs] at hmem
    exact isMsg_longMsg (by decide) e.1 hmem
  · have hlengths : w.accepted.map (fun e => (record e.1).length) =
        (w.accepted.map Prod.fst).map fun msg => (record msg).length := by
      rw [List.map_map]
      rfl
    rw [hlengths, hmsgs, List.map_cons, longMsg_length (by decide)]
    decide

/-- The next record is cut behind its length. -/
theorem not_undoes_longMsg : ∃ w,
    run Writer.step (Writer.new 4 1) [.addMsg (longMsg 4), .addMsg msgStart] = some w ∧
    (∀ e ∈ w.accepted, IsMsg bufSize e.1) ∧ ¬ Undoes (fun _ => 0) 4 1 w := by
  obtain ⟨w, hr⟩ : ∃ w, run Writer.step (Writer.new 4 1) [.addMsg (longMsg 4), .addMsg msgStart] =
      some w := ⟨_, rfl⟩
  have hmsgs := accepted_longMsg hr
  refine ⟨w, hr, fun e he => ?_, ?_⟩
  · have hmem := List.mem_map_of_mem (f := Prod.fst) he
    rw [hmsgs] at hmem
    exact isMsg_longMsg (by decide) e.1 hmem
  · rintro ⟨hdata, -, -⟩
    obtain ⟨c, hresult, hleft, hstart⟩ := recoverData_result (fun _ => 0)
      (@records_ne_nil [longMsg 4, msgStart] (by simp))
    rw [(Writer.run_logged hr).file, hmsgs, hresult] at hdata
    have hfits : ¬ Fits bufSize c.start
        ([longMsg 4, msgStart].map fun msg => (record msg).length) := by
      rw [hstart, List.map_cons, longMsg_length (by decide)]
      decide
    have := inside_of_not_fits (by decide) hleft (isMsg_longMsg (by decide)) hfits hdata
    cases this

end Ufix.FileRecovery
