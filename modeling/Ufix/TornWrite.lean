import Ufix.FileRecovery

/-!
What a write that a crash cut off does to the records written after it.

The next process appends to the torn part. Nothing behind it is lost when all of it is missing or
when exactly the length of the record was written: then the test steps over the four bytes. In
every other case there is a message that the next recovery does not find.
-/

namespace Ufix.TornWrite

open Ufix.LittleEndian Ufix.Memory Ufix.DataFile Ufix.FileRecovery

variable {size t : ℕ} {c : Config} {w msg : List Byte} {before later : List (List Byte)}

def lengths (msgs : List (List Byte)) : List ℕ := msgs.map fun msg => (record msg).length

/-- A crash leaves the first `t` bytes of the record of `msg` behind those of `before`, and no
block ends 4 to 7 bytes behind the start of a record, of the torn part or of what follows it. -/
structure Torn (size : ℕ) (before : List (List Byte)) (msg : List Byte) (t : ℕ) : Prop where
  isMsgs : ∀ m ∈ before, IsMsg size m
  isMsg : IsMsg size msg
  lt : t < (record msg).length
  fits : Fits size 0 (lengths before)
  start : Clear size (place size 0 (lengths before))
  stop : Clear size (next size (place size 0 (lengths before)) t)

/-- The messages that are appended behind the torn part, and where blocks end in them. -/
structure Appended (size : ℕ) (before : List (List Byte)) (t : ℕ) (later : List (List Byte)) :
    Prop where
  isMsgs : ∀ m ∈ later, IsMsg size m
  fits : Fits size (next size (place size 0 (lengths before)) t) (lengths later)

/-- The next process recovers its number from the torn file and appends `later`. The process after
it gives every message the number it was written under. -/
def Survives (stale stale' : ℕ → Byte) (qSize reserve : ℕ) (before : List (List Byte))
    (torn : List Byte) (later : List (List Byte)) : Prop :=
  ∃ first second, recoverData stale (records before ++ torn) = some first ∧
    recoverData stale' (records before ++ torn ++ records later) = some second ∧
    assigned (SendQueue.blank qSize reserve) second.msgs =
      before.zipIdx 1 ++ later.zipIdx (SendQueue.new qSize reserve first.msgs).dataSeq

/-! ### A torn part at the end of the file -/

lemma torn_eq (hmsg : msgStart <+: msg) (h8 : 8 ≤ t) :
    ∃ rest, (record msg).take t = bytesOf 4 msg.length ++ (msgStart ++ rest) := by
  obtain ⟨rest, hrecord⟩ := record_eq hmsg
  have hlen : (bytesOf 4 msg.length ++ msgStart).length ≤ t := by
    rw [List.length_append, bytesOf_length, msgStart_length]
    omega
  refine ⟨rest.take (t - (bytesOf 4 msg.length ++ msgStart).length), ?_⟩
  rw [hrecord, ← List.append_assoc, List.take_append, List.take_of_length_le hlen,
    List.append_assoc]

/-- With the length and the first characters in the block, the scan calls the message of that
length or keeps the rest. -/
lemma scan_torn (hsize : size < 2 ^ 31) (h : c.Left size ((record msg).take t ++ w))
    (hmsg : IsMsg size msg) (h8 : 8 ≤ t) (hin : c.start + 8 ≤ c.bufLen)
    (hlong : c.bufLen < c.start + (record msg).length) :
    recoverMsgs c.bufLen c.buf c.scans c.start =
      some (keepRest c.buf c.bufLen c.start (c.start + 8)) := by
  obtain ⟨k, hk⟩ : ∃ k, c.scans = k + 1 := ⟨c.scans - 1, by have := h.scans; omega⟩
  obtain ⟨rest, htorn⟩ := torn_eq hmsg.1 h8
  have hle := h.bufLen
  have hlen := hmsg.2
  rw [record_length] at hlong hlen
  rw [htorn, List.append_assoc, List.append_assoc] at h
  have hcount := (h.read_of_le (by rw [bytesOf_length]; omega)).1
  have hsig := h.read_at (by rw [bytesOf_length, msgStart_length]; omega)
  rw [bytesOf_length] at hcount hsig
  rw [hk]
  exact scan_long hcount hsig (by omega) (by omega) hin (by omega)

/-- The torn part at the end of the last block calls nothing. -/
lemma result_torn_last (hsize : size < 2 ^ 31) (h : c.Left size ((record msg).take t))
    (hmsg : IsMsg size msg) (ht : t < (record msg).length) (hfile : c.file = []) :
    ∃ b, c.result size = some ⟨[], b⟩ := by
  have hstart := h.start
  have hleft : c.bufLen - c.start = t := by
    have := h.length
    rw [hfile, List.length_nil, List.length_take] at this
    omega
  obtain ⟨k, hk⟩ : ∃ k, c.scans = k + 1 := ⟨c.scans - 1, by have := h.scans; omega⟩
  rcases Nat.lt_or_ge t 4 with h4 | h4
  · have hscan : recoverMsgs c.bufLen c.buf (k + 1) c.start =
        some (keepRest c.buf c.bufLen c.start 0) := scan_short hstart (by omega)
    rw [← hk] at hscan
    exact ⟨_, result_last h hfile hscan⟩
  rcases Nat.lt_or_ge t 8 with h8 | h8
  · -- the test depends on what lies behind the bytes read, but nothing is called either way
    have htake : (record msg).take t =
        bytesOf 4 msg.length ++ ((record msg).drop 4).take (t - 4) := by
      have hcount : (record msg).take 4 = bytesOf 4 msg.length :=
        List.take_left' (bytesOf_length 4 msg.length)
      rw [← hcount, ← List.take_add, show 4 + (t - 4) = t by omega]
    have hle := h.bufLen
    have hlen := hmsg.2
    rw [record_length] at ht hlen
    have hbytes := h
    rw [htake] at hbytes
    have hcount := (hbytes.read_of_le (by rw [bytesOf_length]; omega)).1
    rw [bytesOf_length] at hcount
    have hint := intAt_of_read hcount (by omega)
    obtain ⟨m, rfl⟩ : ∃ m, k = m + 1 := ⟨k - 1, by have := h.scans; omega⟩
    have hnext : recoverMsgs c.bufLen c.buf (m + 1) (c.start + 4) =
        some (keepRest c.buf c.bufLen (c.start + 4) 0) := scan_short (by omega) (by omega)
    by_cases hmatch : isMsgStart c.buf (c.start + 4) = true
    · refine ⟨_, result_last h hfile
        (s := keepRest c.buf c.bufLen c.start (c.start + 4 + tested c.buf (c.start + 4))) ?_⟩
      rw [hk, recoverMsgs, if_neg (by omega), if_neg (by omega)]
      simp only [hmatch, hint, if_true]
      rw [toSize_end (by omega), if_pos (by omega)]
    · refine ⟨_, result_last h hfile (s := { keepRest c.buf c.bufLen (c.start + 4) 0 with
        testedTo := max (c.start + 4 + tested c.buf (c.start + 4)) 0 }) ?_⟩
      rw [hk, recoverMsgs, if_neg (by omega), if_neg (by omega)]
      simp only [if_neg hmatch]
      rw [hnext]
      rfl
  · rw [← List.append_nil ((record msg).take t)] at h
    exact ⟨_, result_last h hfile (scan_torn hsize h hmsg h8 (by omega) (by omega))⟩

/-- A torn part that is the end of the file calls nothing. -/
lemma result_torn (hsize : size < 2 ^ 31) (h : c.Left size ((record msg).take t))
    (hmsg : IsMsg size msg) (ht : t < (record msg).length) (hclear : Clear size c.start) :
    ∃ b, c.result size = some ⟨[], b⟩ := by
  by_cases hfile : c.file = []
  · exact result_torn_last hsize h hmsg ht hfile
  have hfull : c.bufLen = size := h.full.resolve_left hfile
  have hstart := h.start
  have hlen := hmsg.2
  have htotal := h.length
  rw [List.length_take] at htotal
  have hrest := List.length_pos_iff.mpr hfile
  obtain ⟨k, hk⟩ : ∃ k, c.scans = k + 1 := ⟨c.scans - 1, by have := h.scans; omega⟩
  have hscan : ∃ n, recoverMsgs c.bufLen c.buf c.scans c.start =
      some (keepRest c.buf c.bufLen c.start n) := by
    rcases hclear with hclear | hclear
    · rw [hk]
      exact ⟨0, scan_short hstart (by omega)⟩
    · rw [← List.append_nil ((record msg).take t)] at h
      exact ⟨_, scan_torn hsize h hmsg (by omega) (by omega) (by omega)⟩
  obtain ⟨n, hscan⟩ := hscan
  obtain ⟨c', hleft, hzero, hresult⟩ := h.keepRest hfile (by omega) hscan
  have hfile' : c'.file = [] := by
    by_contra hne
    have hfull' := hleft.full.resolve_left hne
    have htotal' := hleft.length
    have hpos := List.length_pos_iff.mpr hne
    rw [List.length_take] at htotal'
    omega
  obtain ⟨b, hb⟩ := result_torn_last hsize hleft hmsg ht hfile'
  rw [hresult, hb]
  exact ⟨_, rfl⟩

/-! ### A length without its message -/

lemma isMsgStart_length {buf : ℕ → Byte} {pos n : ℕ} (h : Memory.read buf pos 4 = bytesOf 4 n)
    (hn : n < 2 ^ 24) : isMsgStart buf pos = false := by
  have hlast : buf (pos + 3) = UInt8.ofNat (n / 256 / 256 / 256) := by
    have hget := congrArg (fun l => (l[3]?).getD 0) h
    exact hget
  have hzero : n / 256 / 256 / 256 = 0 := by omega
  rw [hzero] at hlast
  simp [isMsgStart, hlast]

/-- In a block the test steps over a length that stands in front of another record. -/
lemma result_length {n k : ℕ} (h : c.Left size (bytesOf 4 n ++ (bytesOf 4 k ++ w)))
    (hk : k < 2 ^ 24) (hin : c.start + 8 ≤ size) :
    ∃ c' : Config, c'.Left size (bytesOf 4 k ++ w) ∧ c'.start = c.start + 4 ∧
      (c.result size).map Recovery.msgs = (c'.result size).map Recovery.msgs := by
  have hblock : c.start + 8 ≤ c.bufLen := by
    have h' := h
    rw [← List.append_assoc] at h'
    have := h'.in_block (by rw [List.length_append, bytesOf_length, bytesOf_length]; omega)
    rw [List.length_append, bytesOf_length, bytesOf_length] at this
    omega
  obtain ⟨m, hm⟩ : ∃ m, c.scans = m + 1 := ⟨c.scans - 1, by have := h.scans; omega⟩
  have hafter := (h.read_of_le (by rw [bytesOf_length]; omega)).2
  have hnext := h.read_at (by rw [bytesOf_length, bytesOf_length]; omega)
  rw [bytesOf_length] at hafter hnext
  rw [bytesOf_length] at hnext
  have hscan : recoverMsgs c.bufLen c.buf c.scans c.start =
      (recoverMsgs c.bufLen c.buf m (c.start + 4)).map fun s =>
        { s with testedTo := max (c.start + 4 + tested c.buf (c.start + 4)) s.testedTo } := by
    rw [hm, recoverMsgs, if_neg (by omega), if_neg (by omega)]
    simp only [isMsgStart_length hnext hk]
    rfl
  refine ⟨{ c with scans := m, start := c.start + 4 }, ⟨?_, h.bufLen, hafter, h.full, ?_,
    h.blocks⟩, rfl, ?_⟩
  · simp only
    omega
  · have := h.scans
    simp only
    omega
  · simp only [Config.result, hscan]
    cases recoverMsgs c.bufLen c.buf m (c.start + 4) with
    | none => rfl
    | some s =>
      simp only [Option.map_some, Option.bind_some, Option.map_map]
      rfl

/-- So it does where a block cuts the length. -/
lemma result_length_clear {n k : ℕ} (hsize : 8 ≤ size)
    (h : c.Left size (bytesOf 4 n ++ (bytesOf 4 k ++ w))) (hk : k < 2 ^ 24)
    (hclear : Clear size c.start) :
    ∃ c' : Config, c'.Left size (bytesOf 4 k ++ w) ∧ c'.start = next size c.start 4 ∧
      (c.result size).map Recovery.msgs = (c'.result size).map Recovery.msgs := by
  unfold next
  rcases hclear with hclear | hclear
  · rw [if_neg (by omega)]
    obtain ⟨hfile, hfull⟩ := h.cut (by rw [bytesOf_length]; omega)
    have hstart := h.start
    obtain ⟨m, hm⟩ : ∃ m, c.scans = m + 1 := ⟨c.scans - 1, by have := h.scans; omega⟩
    have hscan : recoverMsgs c.bufLen c.buf (m + 1) c.start =
        some (keepRest c.buf c.bufLen c.start 0) := scan_short hstart (by omega)
    rw [← hm] at hscan
    obtain ⟨c₁, hleft, hzero, hresult⟩ := h.keepRest hfile (by omega) hscan
    obtain ⟨c', hleft', hstart', hresult'⟩ := result_length hleft hk (by omega)
    refine ⟨c', hleft', by rw [hstart', hzero], ?_⟩
    rw [hresult, ← hresult', Option.map_map]
    rfl
  · rw [if_pos (by omega)]
    exact result_length h hk hclear

/-! ### What survives -/

lemma next_le {used n : ℕ} (hn : n ≤ size) : next size used n ≤ size := by
  unfold next
  split_ifs with h
  · exact h
  · exact hn

lemma place_le {used : ℕ} (hmsgs : ∀ m ∈ before, IsMsg size m) (hle : used ≤ size) :
    place size used (lengths before) ≤ size := by
  induction before generalizing used with
  | nil => exact hle
  | cons m before ih =>
    exact ih (fun m' hm => hmsgs m' (by simp [hm])) (next_le (hmsgs m (by simp)).2)

lemma Torn.result (h : Torn bufSize before msg t) (stale : ℕ → Byte) {tail : List Byte}
    (hne : records before ++ tail ≠ []) :
    ∃ c : Config, c.Left bufSize tail ∧ c.start = place bufSize 0 (lengths before) ∧
      recoverData stale (records before ++ tail) = (c.result bufSize).map (prepend before) := by
  obtain ⟨c, hresult, hleft, hstart⟩ := recoverData_result stale hne
  obtain ⟨c', hleft', hstart', hresult'⟩ :=
    result_records (by decide) hleft h.isMsgs (by rw [hstart]; exact h.fits)
  exact ⟨c', hleft', by rw [hstart', hstart]; rfl, hresult.trans hresult'⟩

/-- **Every record before a torn part survives it.** -/
lemma recoverData_torn (h : Torn bufSize before msg t) (stale : ℕ → Byte) :
    ∃ b, recoverData stale (records before ++ (record msg).take t) = some ⟨before, b⟩ := by
  by_cases hne : records before ++ (record msg).take t = []
  · have hbefore : before = [] := by
      by_contra hsome
      exact records_ne_nil hsome (List.append_eq_nil_iff.mp hne).1
    rw [hne, hbefore]
    exact ⟨true, rfl⟩
  obtain ⟨c, hleft, hstart, hresult⟩ := h.result stale hne
  obtain ⟨b, hb⟩ := result_torn (by decide) hleft h.isMsg h.lt (by rw [hstart]; exact h.start)
  refine ⟨b, ?_⟩
  rw [hresult, hb]
  simp [prepend]

lemma result_later (h : c.Left bufSize (records later)) (hmsgs : ∀ m ∈ later, IsMsg bufSize m)
    (hfits : Fits bufSize c.start (lengths later)) : c.result bufSize = some ⟨later, true⟩ := by
  rw [← List.append_nil (records later)] at h
  obtain ⟨c', hleft, -, hresult⟩ := result_records (by decide) h hmsgs hfits
  rw [hresult, result_nil hleft]
  simp [prepend]

lemma recoverData_appended (h : Torn bufSize before msg t) (ha : Appended bufSize before t later)
    (ht : t = 0 ∨ t = 4) (stale : ℕ → Byte) :
    ∃ b, recoverData stale (records before ++ (record msg).take t ++ records later) =
      some ⟨before ++ later, b⟩ := by
  by_cases hlater : later = []
  · obtain ⟨b, hb⟩ := recoverData_torn h stale
    refine ⟨b, ?_⟩
    rw [hlater, records_nil, List.append_nil, List.append_nil, hb]
  have hne : records before ++ ((record msg).take t ++ records later) ≠ [] := by
    intro hnil
    exact records_ne_nil hlater (List.append_eq_nil_iff.mp (List.append_eq_nil_iff.mp hnil).2).2
  obtain ⟨c, hleft, hstart, hresult⟩ := h.result stale hne
  have hfits := ha.fits
  have hplace := place_le h.isMsgs (Nat.zero_le bufSize)
  suffices hmsgs : (c.result bufSize).map Recovery.msgs = some later by
    obtain ⟨r, hr, rfl⟩ := Option.map_eq_some_iff.mp hmsgs
    refine ⟨r.inside, ?_⟩
    rw [List.append_assoc, hresult, hr]
    rfl
  rcases ht with rfl | rfl
  · have hnext : next bufSize (place bufSize 0 (lengths before)) 0 =
        place bufSize 0 (lengths before) := by
      unfold next
      rw [if_pos (by omega), Nat.add_zero]
    rw [List.take_zero, List.nil_append] at hleft
    rw [hnext, ← hstart] at hfits
    rw [result_later hleft ha.isMsgs hfits]
    rfl
  · obtain ⟨m, rest, rfl⟩ := List.exists_cons_of_ne_nil hlater
    have hm := (ha.isMsgs m (by simp)).2
    have hsmall : bufSize = 2 ^ 24 := rfl
    rw [record_length] at hm
    have htorn : (record msg).take 4 = bytesOf 4 msg.length :=
      List.take_left' (bytesOf_length 4 msg.length)
    have hrecords : records (m :: rest) = bytesOf 4 m.length ++ (m ++ records rest) := by
      rw [records_cons, record, List.append_assoc]
    rw [htorn, hrecords] at hleft
    obtain ⟨c', hleft', hstart', hmap⟩ := result_length_clear (by decide) hleft
      (by omega : m.length < 2 ^ 24) (by rw [hstart]; exact h.start)
    rw [← hrecords] at hleft'
    rw [← hstart, ← hstart'] at hfits
    rw [hmap, result_later hleft' ha.isMsgs hfits]
    rfl

/-! ### What is lost -/

/-- The messages called stand in the data in this order, each behind its length, with multiples
of four bytes between them. -/
inductive Scanned : List Byte → List (List Byte) → Prop
  | stop (w : List Byte) : Scanned w []
  | skip {junk w : List Byte} {msgs : List (List Byte)} (hjunk : junk.length = 4)
      (h : Scanned w msgs) : Scanned (junk ++ w) msgs
  | call {count msg w : List Byte} {msgs : List (List Byte)} (hcount : count.length = 4)
      (hlen : numberOf count = msg.length) (h : Scanned w msgs) :
      Scanned (count ++ msg ++ w) (msg :: msgs)

lemma numberOf_lt (l : List Byte) : numberOf l < 256 ^ l.length := by
  induction l with
  | nil => decide
  | cons b l ih =>
    have hb := b.toNat_lt
    rw [numberOf, List.length_cons, pow_succ]
    omega

lemma intAt_bounds (buf : ℕ → Byte) (pos : ℕ) : intAt buf pos < 2 ^ 31 ∧
    (0 ≤ intAt buf pos → numberOf (Memory.read buf pos 4) = (intAt buf pos).toNat) := by
  have hlt := numberOf_lt (Memory.read buf pos 4)
  rw [read_length] at hlt
  unfold intAt
  generalize numberOf (Memory.read buf pos 4) = n at hlt
  rw [Int.bmod_def]
  split_ifs <;> omega

lemma keepRest_scanned {bufLen start t : ℕ} {buf : ℕ → Byte} {tail : List Byte}
    {msgs : List (List Byte)}
    (h : Scanned (Memory.read (keepRest buf bufLen start t).buf 0
      (keepRest buf bufLen start t).rest ++ tail) msgs) :
    Scanned (Memory.read buf start (bufLen - start) ++ tail) msgs := by
  have hread := read_write buf 0 (Memory.read buf start (bufLen - start))
  rw [read_length] at hread
  change Scanned (Memory.read (write buf 0 (Memory.read buf start (bufLen - start))) 0
    (bufLen - start) ++ tail) msgs at h
  rwa [hread] at h

/-- One block: what is called stands in it, and what is kept is its end. -/
lemma recoverMsgs_scanned {bufLen n start : ℕ} {buf : ℕ → Byte} {s : Scan} {tail : List Byte}
    {msgs : List (List Byte)} (hlen : bufLen < 2 ^ 31) (hle : start ≤ bufLen)
    (hs : recoverMsgs bufLen buf n start = some s)
    (htail : Scanned (Memory.read s.buf 0 s.rest ++ tail) msgs) :
    s.rest ≤ bufLen ∧
      Scanned (Memory.read buf start (bufLen - start) ++ tail) (s.calls ++ msgs) := by
  induction n generalizing start s with
  | zero => cases hs
  | succ n ih =>
    rw [recoverMsgs] at hs
    by_cases hend : start ≥ bufLen
    · rw [if_pos hend] at hs
      cases hs
      obtain rfl : start = bufLen := by omega
      rw [Nat.sub_self]
      exact ⟨Nat.zero_le _, htail⟩
    rw [if_neg hend] at hs
    by_cases hshort : start + 4 > bufLen
    · rw [if_pos hshort] at hs
      cases hs
      exact ⟨Nat.sub_le _ _, keepRest_scanned htail⟩
    rw [if_neg hshort] at hs
    obtain ⟨hint, hnumber⟩ := intAt_bounds buf start
    by_cases hmatch : isMsgStart buf (start + 4) = true
    · simp only [if_pos hmatch] at hs
      by_cases hlong : toSize ((start : ℤ) + 4 + intAt buf start) > bufLen
      · rw [if_pos hlong] at hs
        cases hs
        exact ⟨Nat.sub_le _ _, keepRest_scanned htail⟩
      rw [if_neg hlong] at hs
      by_cases hneg : intAt buf start < 0
      · rw [if_pos hneg] at hs
        cases hs
      rw [if_neg hneg] at hs
      obtain ⟨s', hs', rfl⟩ := Option.map_eq_some_iff.mp hs
      have hsum : start + 4 + (intAt buf start).toNat ≤ bufLen := by
        unfold toSize at hlong
        omega
      obtain ⟨hrest, hscanned⟩ := ih hsum hs' htail
      refine ⟨hrest, ?_⟩
      have hsplit : bufLen - start = 4 + ((intAt buf start).toNat +
          (bufLen - (start + 4 + (intAt buf start).toNat))) := by omega
      rw [hsplit, read_add, read_add, ← List.append_assoc, List.append_assoc]
      refine .call (read_length _ _ _) ?_ hscanned
      rw [read_length, hnumber (by omega)]
    · simp only [if_neg hmatch] at hs
      obtain ⟨s', hs', rfl⟩ := Option.map_eq_some_iff.mp hs
      obtain ⟨hrest, hscanned⟩ := ih (by omega) hs' htail
      refine ⟨hrest, ?_⟩
      have hsplit : bufLen - start = 4 + (bufLen - (start + 4)) := by omega
      rw [hsplit, read_add, List.append_assoc]
      exact .skip (read_length _ _ _) hscanned

lemma rest_le {bufLen n start : ℕ} {buf : ℕ → Byte} {s : Scan} (hlen : bufLen < 2 ^ 31)
    (hle : start ≤ bufLen) (hs : recoverMsgs bufLen buf n start = some s) : s.rest ≤ bufLen :=
  (recoverMsgs_scanned hlen hle hs (.stop (Memory.read s.buf 0 s.rest ++ []))).1

/-- All further blocks. -/
lemma recoverBlocks_scanned {n start : ℕ} {buf : ℕ → Byte} {file : List Byte} {r : Recovery}
    (hsize : size < 2 ^ 31) (hle : start ≤ size)
    (hr : recoverBlocks size n buf start file = some r) :
    Scanned (Memory.read buf 0 start ++ file) r.msgs := by
  induction n generalizing start buf file r with
  | zero => cases hr
  | succ n ih =>
    rw [recoverBlocks] at hr
    by_cases hblock : file.take (size - start) = []
    · rw [if_pos hblock] at hr
      cases hr
      exact .stop _
    rw [if_neg hblock] at hr
    obtain ⟨s, hs, hr⟩ := Option.bind_eq_some_iff.mp hr
    obtain ⟨r', hr', rfl⟩ := Option.map_eq_some_iff.mp hr
    have hlen : (file.take (size - start)).length ≤ size - start := List.length_take_le _ _
    have hsplit : file.take (size - start) ++ file.drop (file.take (size - start)).length = file :=
      List.prefix_iff_eq_append.mp (List.take_prefix _ _)
    have hrest : s.rest ≤ start + (file.take (size - start)).length :=
      rest_le (by omega) (Nat.zero_le _) hs
    have hscanned := (recoverMsgs_scanned (by omega) (Nat.zero_le _) hs
      (ih (by omega) hr')).2
    have hkept : Memory.read (write buf start (file.take (size - start))) 0 start =
        Memory.read buf 0 start := read_write_of_apart (Or.inl (by omega))
    rwa [Nat.sub_zero, read_add, hkept, Nat.zero_add, read_write, List.append_assoc, hsplit]
      at hscanned

/-- **What a recovery calls stands in the data**, whatever the data. -/
lemma result_scanned (hsize : size < 2 ^ 31) (h : c.Left size w) {r : Recovery}
    (hr : c.result size = some r) : Scanned w r.msgs := by
  obtain ⟨s, hs, hr⟩ := Option.bind_eq_some_iff.mp hr
  obtain ⟨r', hr', rfl⟩ := Option.map_eq_some_iff.mp hr
  have hle := h.bufLen
  have hrest : s.rest ≤ c.bufLen := rest_le (by omega) h.start hs
  have hscanned := (recoverMsgs_scanned (by omega) h.start hs
    (recoverBlocks_scanned hsize (by omega) hr')).2
  rwa [h.left] at hscanned

lemma Scanned.first {msgs : List (List Byte)} (h : Scanned w (msg :: msgs)) :
    ∃ junk count rest, w = junk ++ (count ++ msg ++ rest) ∧ junk.length % 4 = 0 ∧
      count.length = 4 ∧ numberOf count = msg.length := by
  generalize hcalled : msg :: msgs = called at h
  induction h with
  | stop w => cases hcalled
  | @skip junk w _ hjunk _ ih =>
    obtain ⟨junk', count, rest, rfl, hmod, hcount, hlen⟩ := ih hcalled
    refine ⟨junk ++ junk', count, rest, (List.append_assoc _ _ _).symm, ?_, hcount, hlen⟩
    rw [List.length_append]
    omega
  | @call count msg' w _ hcount hlen _ _ =>
    cases hcalled
    exact ⟨[], count, w, rfl, rfl, hcount, hlen⟩

/-- A short message behind less than eight bytes of another record is not where it is called. -/
lemma not_scanned_torn {m : List Byte} (hmsg : IsMsg bufSize msg) (hm : msgStart <+: m)
    (hshort : m.length < 56) (hne : m.length ≠ msg.length) (ht : t < (record msg).length)
    (h8 : t < 8) (h0 : t ≠ 0) (h4 : t ≠ 4) : ¬ Scanned ((record msg).take t ++ record m) [m] := by
  intro h
  obtain ⟨junk, count, rest, hw, hmod, hcount, hlen⟩ := h.first
  have htotal := congrArg List.length hw
  simp only [List.length_append, List.length_take, record_length] at htotal ht
  have htake : ((record msg).take t).length = t := by
    rw [List.length_take, record_length]
    omega
  have hget : ∀ i : ℕ, ((record msg).take t ++ record m)[i]? =
      (junk ++ (count ++ m ++ rest))[i]? := fun i => by rw [hw]
  obtain ⟨e, rfl⟩ := hm
  obtain ⟨b0, b1, b2, b3, rfl⟩ : ∃ b0 b1 b2 b3, count = [b0, b1, b2, b3] :=
    List.length_eq_four.mp hcount
  rcases Nat.lt_or_ge t 4 with hlow | hhigh
  · -- the first characters would stand in two places less than four bytes apart
    obtain rfl : junk = [] := List.eq_nil_of_length_eq_zero (by omega)
    have h1 := hget (t + 4)
    rw [List.getElem?_append_right (by omega), htake, Nat.add_sub_cancel_left] at h1
    simp only [record, List.nil_append] at h1
    rw [List.getElem?_append_right (by rw [bytesOf_length]), bytesOf_length, Nat.sub_self] at h1
    obtain h | h | h : t = 1 ∨ t = 2 ∨ t = 3 := by omega
    all_goals
      subst h
      simp [msgStart] at h1
  · have hrec : ∀ i, i < t → ((record msg).take t ++ record (msgStart ++ e))[i]? =
        (record msg)[i]? := by
      intro i hi
      rw [List.getElem?_append_left (by omega), List.getElem?_take, if_pos hi]
    obtain hnil | hfour : junk.length = 0 ∨ junk.length = 4 := by omega
    · -- the message called would be as long as the torn one
      obtain rfl : junk = [] := List.eq_nil_of_length_eq_zero hnil
      have hsmall : bufSize = 2 ^ 24 := rfl
      have hmax := hmsg.2
      rw [record_length] at hmax
      have hfirst : bytesOf 4 msg.length = [b0, b1, b2, b3] := by
        have h1 := congrArg (List.take 4) hw
        rw [List.take_append_of_le_length (by omega), List.take_take,
          Nat.min_eq_left (by omega), record, List.take_left' (bytesOf_length _ _)] at h1
        exact h1
      rw [← hfirst, numberOf_bytesOf_of_lt (by omega)] at hlen
      exact hne hlen.symm
    · -- the message called would be longer than the first character is as a number
      have h1 := hget 4
      obtain ⟨e', hrecord⟩ := record_eq hmsg.1
      rw [hrec 4 (by omega), hrecord, List.getElem?_append_right (by rw [bytesOf_length]),
        bytesOf_length, @List.getElem?_append_right _ junk _ 4 (by omega), hfour] at h1
      simp [msgStart] at h1
      rw [← h1, numberOf] at hlen
      have hbyte : (56 : UInt8).toNat = 56 := rfl
      omega

/-- A torn part with the first characters takes what follows it for the rest of its message. -/
lemma called_of_torn (hsize : size < 2 ^ 31) (h : c.Left size ((record msg).take t ++ w))
    (hmsg : IsMsg size msg) (h8 : 8 ≤ t) (hclear : Clear size c.start) {r : Recovery}
    (hr : c.result size = some r) : ∀ m ∈ r.msgs.head?, m.length = msg.length := by
  obtain ⟨rest, htorn⟩ := torn_eq hmsg.1 h8
  have hlen := hmsg.2
  rw [record_length] at hlen
  rw [htorn, List.append_assoc, List.append_assoc] at h
  rcases Nat.lt_or_ge (msgStart ++ (rest ++ w)).length msg.length with hshort | hlong
  · -- the file ends before the message would
    set m := msgStart ++ (rest ++ w) ++
      List.replicate (msg.length - (msgStart ++ (rest ++ w)).length) 0 with hm
    have hmlen : m.length = msg.length := by
      rw [hm, List.length_append, List.length_replicate]
      omega
    have htake : (record m).take (4 + (msgStart ++ (rest ++ w)).length) =
        bytesOf 4 msg.length ++ (msgStart ++ (rest ++ w)) := by
      rw [record, hmlen, hm, ← List.append_assoc (bytesOf 4 msg.length)]
      refine List.take_left' ?_
      rw [List.length_append, bytesOf_length]
    rw [← htake] at h
    have hisMsg : IsMsg size m := by
      refine ⟨?_, by rw [record_length, hmlen]; exact hlen⟩
      rw [hm, List.append_assoc]
      exact List.prefix_append _ _
    obtain ⟨b, hb⟩ := result_torn hsize h hisMsg (by rw [record_length, hmlen]; omega) hclear
    rw [hb] at hr
    cases hr
    simp
  · set m := (msgStart ++ (rest ++ w)).take msg.length with hm
    have hmlen : m.length = msg.length := by
      rw [hm, List.length_take]
      omega
    have hsplit : bytesOf 4 msg.length ++ (msgStart ++ (rest ++ w)) =
        record m ++ (msgStart ++ (rest ++ w)).drop msg.length := by
      rw [record, hmlen, List.append_assoc, hm, List.take_append_drop]
    rw [hsplit] at h
    have hisMsg : IsMsg size m := by
      have h4 := hmsg.1.length_le
      refine ⟨?_, by rw [record_length, hmlen]; exact hlen⟩
      rw [hm, List.take_append, List.take_of_length_le h4]
      exact List.prefix_append _ _
    obtain ⟨c', -, -, hresult⟩ := result_next hsize h hisMsg fun _ => hclear
    rw [hresult] at hr
    obtain ⟨r', -, rfl⟩ := Option.map_eq_some_iff.mp hr
    intro m' hm'
    simp only [prepend, List.singleton_append, List.head?_cons, Option.mem_def,
      Option.some.injEq] at hm'
    rw [← hm', hmlen]

lemma map_fst_assigned (q : SendQueue) (msgs : List (List Byte)) :
    (assigned q msgs).map Prod.fst = msgs := by
  induction msgs generalizing q with
  | nil => rfl
  | cons msg msgs ih => rw [assigned, List.map_cons, ih]

/-- A message that is not as long as the torn one. -/
def otherMsg (msg : List Byte) : List Byte := if msg.length = 4 then msgStart ++ [1] else msgStart

lemma otherMsg_spec (msg : List Byte) : msgStart <+: otherMsg msg ∧ (otherMsg msg).length < 56 ∧
    (otherMsg msg).length ≠ msg.length := by
  unfold otherMsg
  split_ifs with h
  · exact ⟨List.prefix_append _ _, by decide, by rw [h]; decide⟩
  · exact ⟨List.prefix_refl _, by decide, fun he => h he.symm⟩

/-- **A torn write damages what is written after it unless 0 or 4 bytes of the record are there.**
The records before the torn part come back in any case. Whatever the next process appends comes
back too, under the numbers it was written with, if and only if nothing or exactly the length of
the record was written; in blocks that end well, and whatever was in the memory of the buffers. -/
theorem survives_iff (qSize reserve : ℕ) (h : Torn bufSize before msg t) :
    (∀ stale, ∃ b, recoverData stale (records before ++ (record msg).take t) =
        some ⟨before, b⟩) ∧
      ((∀ later, Appended bufSize before t later → ∀ stale stale',
          Survives stale stale' qSize reserve before ((record msg).take t) later) ↔
        t = 0 ∨ t = 4) := by
  refine ⟨recoverData_torn h, ?_, ?_⟩
  · intro hall
    by_contra ht
    obtain ⟨h0, h4⟩ := not_or.mp ht
    obtain ⟨hstart, hshort, hne⟩ := otherMsg_spec msg
    have hlen : (record (otherMsg msg)).length ≤ bufSize := by
      have hsmall : bufSize = 2 ^ 24 := rfl
      rw [record_length]
      omega
    have happended : Appended bufSize before t [otherMsg msg] := by
      refine ⟨fun m hm => ?_, fun _ => h.stop, trivial⟩
      rw [List.mem_singleton.mp hm]
      exact ⟨hstart, hlen⟩
    obtain ⟨first, second, -, hsecond, hassigned⟩ :=
      hall _ happended (fun _ => 0) fun _ => 0
    have hmsgs := congrArg (List.map Prod.fst) hassigned
    rw [map_fst_assigned, List.map_append, List.zipIdx_map_fst, List.zipIdx_map_fst] at hmsgs
    have hone : records [otherMsg msg] = record (otherMsg msg) := by
      rw [records_cons, records_nil, List.append_nil]
    have hfile : records before ++ ((record msg).take t ++ record (otherMsg msg)) ≠ [] := by
      intro hnil
      have := congrArg List.length hnil
      simp only [List.length_append, record_length, List.length_nil] at this
      omega
    obtain ⟨c, hleft, hplace, hresult⟩ := h.result (fun _ => 0) hfile
    rw [hone, List.append_assoc, hresult] at hsecond
    obtain ⟨r, hr, rfl⟩ := Option.map_eq_some_iff.mp hsecond
    have hcalled : r.msgs = [otherMsg msg] := List.append_cancel_left hmsgs
    rcases Nat.lt_or_ge t 8 with h8 | h8
    · refine not_scanned_torn h.isMsg hstart hshort hne h.lt h8 h0 h4 ?_
      rw [← hcalled]
      exact result_scanned (by decide) hleft hr
    · refine hne (called_of_torn (by decide) hleft h.isMsg h8 (by rw [hplace]; exact h.start) hr
        _ ?_)
      rw [hcalled]
      rfl
  · intro ht later hlater stale stale'
    obtain ⟨b, hb⟩ := recoverData_torn h stale
    obtain ⟨b', hb'⟩ := recoverData_appended h hlater ht stale'
    refine ⟨_, _, hb, hb', ?_⟩
    have hone : (SendQueue.blank qSize reserve).recoverDataSeq = 1 := rfl
    rw [assigned_eq_zipIdx, SendQueue.new_dataSeq, List.zipIdx_append, hone, Nat.add_comm 1]

/-- One record is complete, of the next one its length. -/
theorem survives_iff_second :
    (∀ stale, ∃ b, recoverData stale (records [msgStart] ++ (record (msgStart ++ [88])).take 4) =
        some ⟨[msgStart], b⟩) ∧
      ((∀ later, Appended bufSize [msgStart] 4 later → ∀ stale stale',
          Survives stale stale' 4 1 [msgStart] ((record (msgStart ++ [88])).take 4) later) ↔
        4 = 0 ∨ 4 = 4) := by
  refine survives_iff 4 1 ⟨fun m hm => ?_, ⟨List.prefix_append _ _, by decide⟩, by decide,
    by decide, by decide, by decide⟩
  rw [List.mem_singleton.mp hm]
  exact ⟨List.prefix_refl _, by decide⟩

/-- A record torn behind ten bytes takes the length of the next record into its message. -/
theorem not_survives_mixed :
    Torn bufSize [] (msgStart ++ [88, 1, 89, 1]) 10 ∧
      Appended bufSize [] 10 [msgStart ++ [90, 1]] ∧
      ¬ Survives (fun _ => 0) (fun _ => 0) 4 1 []
        ((record (msgStart ++ [88, 1, 89, 1])).take 10) [msgStart ++ [90, 1]] := by
  refine ⟨⟨fun m hm => ?_, ⟨List.prefix_append _ _, by decide⟩, by decide, trivial, by decide,
    by decide⟩, ⟨fun m hm => ?_, by decide⟩, ?_⟩
  · cases hm
  · rw [List.mem_singleton.mp hm]
    exact ⟨List.prefix_append _ _, by decide⟩
  rintro ⟨first, second, hfirst, hsecond, hassigned⟩
  have hcalled : (recoverData (fun _ => 0) (records [] ++
      (record (msgStart ++ [88, 1, 89, 1])).take 10 ++ records [msgStart ++ [90, 1]])).map
        Recovery.msgs = some [msgStart ++ [88, 1, 6, 0]] := by
    decide +kernel
  have hmsgs := congrArg (List.map Prod.fst) hassigned
  rw [map_fst_assigned, List.map_append, List.zipIdx_map_fst, List.zipIdx_map_fst] at hmsgs
  rw [hsecond, Option.map_some, hmsgs] at hcalled
  revert hcalled
  decide

end Ufix.TornWrite
