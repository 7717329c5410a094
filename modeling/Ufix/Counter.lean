import Ufix.SlotBytes

/-!
The message counter as the string of digits it is in the source, against the number it stands for.

The string has `max_msg_seq_size` characters at `msg_seq`, with other data in front of it and behind
it. It is filled with zeros and a one, written over backwards with the first number of the process,
incremented in place, and read.
-/

namespace Ufix.Counter

open Ufix.Decimal

/-- `set_max_msg_seq_size`, on the memory it has at `msgSeq`. -/
def setMaxMsgSeqSize (size msgSeq : ℕ) (mem : List Byte) : Option (List Byte) :=
  patch mem msgSeq (zeros (size - 1) ++ [digit 1])

/-- `convert_ltoa` with `buf_end`, which has the loop of `convert_itoa`. -/
def convertLtoaTo (value : ℤ) (bufEnd : ℕ) (mem : List Byte) : Option (List Byte) :=
  convertItoaTo value bufEnd mem

/-- The last line of `init_p_manager`: `seq` is a `ULONG`. -/
def initMsgSeq (size msgSeq seq : ℕ) (mem : List Byte) : Option (List Byte) :=
  convertLtoaTo ((seq : ℤ).bmod (2 ^ 64)) (msgSeq + size) mem

/-- The loop of `increment_msg_seq_num` from the byte before `pos` down. It goes on below the
string while it finds nines. -/
def incrementFrom : ℕ → List Byte → Option (List Byte)
  | 0, _ => none
  | pos + 1, mem =>
    match mem[pos]? with
    | none => none
    | some b =>
      if b = digit 9 then incrementFrom pos (mem.set pos (digit 0))
      else some (mem.set pos (b + 1))

def incrementMsgSeqNum (size msgSeq : ℕ) (mem : List Byte) : Option (List Byte) :=
  incrementFrom (msgSeq + size) mem

def increments (size msgSeq : ℕ) : ℕ → List Byte → Option (List Byte)
  | 0, mem => some mem
  | m + 1, mem => (incrementMsgSeqNum size msgSeq mem).bind (increments size msgSeq m)

def getMsgSeq (size msgSeq : ℕ) (mem : List Byte) : ℕ :=
  convertAtollLen ((mem.drop msgSeq).take size)

variable {k v n : ℕ} {pre post : List Byte}

/-! ### One step -/

lemma digit_add_one {d : ℕ} (h : d < 9) : digit d + 1 = digit (d + 1) := by
  rw [← UInt8.toNat_inj, UInt8.toNat_add, digit_toNat (by omega), digit_toNat (by omega)]
  change (48 + d + 1) % 2 ^ 8 = _
  omega

lemma digit_eq_nine {d : ℕ} (h : d < 10) : digit d = digit 9 ↔ d = 9 := by
  constructor
  · intro he
    have := congrArg UInt8.toNat he
    rw [digit_toNat h, digit_toNat (by decide)] at this
    omega
  · rintro rfl
    rfl

lemma set_last (pre : List Byte) (l : List Byte) (b c : Byte) (post : List Byte) :
    (pre ++ (l ++ [b]) ++ post).set (pre.length + l.length) c = pre ++ l ++ (c :: post) := by
  have hsplit : pre ++ (l ++ [b]) ++ post = (pre ++ l) ++ (b :: post) := by simp
  rw [hsplit, ← List.length_append, List.set_append_right _ _ le_rfl, Nat.sub_self,
    List.set_cons_zero]

/-- **A call counts one further**: the carry stops within the digits. -/
lemma incrementFrom_padded (h : v + 1 < 10 ^ k) :
    incrementFrom (pre.length + k) (pre ++ padded k v ++ post) =
      some (pre ++ padded k (v + 1) ++ post) := by
  induction k generalizing v post with
  | zero => omega
  | succ k ih =>
    have hlt : v % 10 < 10 := Nat.mod_lt _ (by omega)
    have hlast : (pre ++ padded (k + 1) v ++ post)[pre.length + k]? = some (digit (v % 10)) := by
      have hsplit : pre ++ padded (k + 1) v ++ post =
          (pre ++ padded k (v / 10)) ++ (digit (v % 10) :: post) := by simp [padded]
      rw [hsplit, List.getElem?_append_right (by simp)]
      simp
    have hset : ∀ c, (pre ++ padded (k + 1) v ++ post).set (pre.length + k) c =
        pre ++ padded k (v / 10) ++ (c :: post) := fun c => by
      have := set_last pre (padded k (v / 10)) (digit (v % 10)) c post
      rwa [padded_length] at this
    rw [← Nat.add_assoc, incrementFrom, hlast]
    simp only [digit_eq_nine hlt, hset]
    by_cases h9 : v % 10 = 9
    · have hdiv : (v + 1) / 10 = v / 10 + 1 := by omega
      have hmod : (v + 1) % 10 = 0 := by omega
      rw [if_pos h9, ih (by rw [Nat.pow_succ] at h; omega), padded, hdiv, hmod]
      simp
    · have hdiv : (v + 1) / 10 = v / 10 := by omega
      have hmod : (v + 1) % 10 = v % 10 + 1 := by omega
      rw [if_neg h9, digit_add_one (by omega), padded, hdiv, hmod]
      simp

/-- **So do any number of calls**, as long as the digits suffice. -/
lemma increments_padded {m : ℕ} (h : v + m < 10 ^ k) :
    increments k pre.length m (pre ++ padded k v ++ post) =
      some (pre ++ padded k (v + m) ++ post) := by
  induction m generalizing v with
  | zero => rfl
  | succ m ih =>
    rw [increments, incrementMsgSeqNum, incrementFrom_padded (by omega), Option.bind_some,
      ih (by omega), Nat.add_assoc, Nat.add_comm 1]

/-! ### The start -/

lemma setMaxMsgSeqSize_eq {junk : List Byte} (hk : 1 ≤ k) (hjunk : junk.length = k) :
    setMaxMsgSeqSize k pre.length (pre ++ junk ++ post) =
      some (pre ++ (zeros (k - 1) ++ [digit 1]) ++ post) := by
  refine patch_eq rfl rfl ?_
  rw [List.length_append, zeros_length, List.length_singleton, hjunk]
  omega

/-- The first number replaces the one and as many zeros as it has more digits. -/
lemma initMsgSeq_eq (hk : 1 ≤ k) (hn : n < 10 ^ k) (h63 : n < 2 ^ 63) :
    initMsgSeq k pre.length n (pre ++ (zeros (k - 1) ++ [digit 1]) ++ post) =
      some (pre ++ padded k n ++ post) := by
  have hwidth := width_le hk hn
  have hlen : (pre ++ (zeros (k - 1) ++ [digit 1])).length = pre.length + k := by
    simp only [List.length_append, zeros_length, List.length_singleton]
    omega
  have hone := one_le_width n
  have hle : pre.length + k ≤ (pre ++ (zeros (k - 1) ++ [digit 1]) ++ post).length := by
    rw [List.length_append, hlen]
    exact Nat.le_add_right _ _
  have htake : (pre ++ (zeros (k - 1) ++ [digit 1]) ++ post).take (pre.length + k - width n) =
      pre ++ zeros (k - width n) := by
    rw [List.append_assoc, Nat.add_sub_assoc hwidth, List.take_length_add_append,
      List.append_assoc, List.take_append_of_le_length (by rw [zeros_length]; omega), zeros,
      List.take_replicate, min_eq_left (by omega), zeros]
  rw [initMsgSeq, convertLtoaTo, bmod_of_lt h63, convertItoaTo_natCast hle, if_pos (by omega),
    htake, ← hlen, List.drop_left, padded_eq_decimal hk hn, ← List.append_assoc pre]
  rfl

def start (size msgSeq seq : ℕ) (mem : List Byte) : Option (List Byte) :=
  (setMaxMsgSeqSize size msgSeq mem).bind (initMsgSeq size msgSeq seq)

/-! ### Reading -/

lemma convertAtollLen_padded (h : v < 10 ^ k) (h64 : v < 2 ^ 64) :
    convertAtollLen (padded k v) = v := by
  rw [convertAtollLen, foldl_ulongDigit fun b => isDigit_of_mem_padded, value_padded_of_lt h,
    ulong_of_lt h64]

lemma finalizeNew_seq {m m' : WMessage} {msgSeqPos sendingTimePos : ℕ} {msgSeq utcTime : List Byte}
    (h : m.finalizeNew msgSeqPos msgSeq sendingTimePos utcTime = some m') :
    m'.seq = convertAtollLen msgSeq := by
  unfold WMessage.finalizeNew at h
  split at h
  all_goals
    simp only [Option.bind_eq_bind, Option.bind_eq_some_iff] at h
    obtain ⟨_, _, _, _, _, _, _, _, _, _, _, _, h⟩ := h
    cases h
    rfl

/-- **The counter counts.** From the first number on the `k` characters are the digits of the
number they stand for, whatever the memory held: the number that `get_msg_seq` reads and
`finalize_new` records, and the one that a resend writes with the same bytes. Nothing in front of
them or behind them changes. -/
theorem counter_refines {k n₀ m : ℕ} (pre junk post : List Byte) (h1 : 1 ≤ k) (hk : k ≤ 18)
    (hn : n₀ + m < 10 ^ k) (hjunk : junk.length = k) :
    ∃ digits, (start k pre.length n₀ (pre ++ junk ++ post)).bind (increments k pre.length m) =
        some (pre ++ digits ++ post) ∧
      digits.length = k ∧ (∀ b ∈ digits, IsDigit b) ∧
      getMsgSeq k pre.length (pre ++ digits ++ post) = n₀ + m ∧
      (∀ (msg msg' : WMessage) msgSeqPos sendingTimePos utcTime,
        msg.finalizeNew msgSeqPos digits sendingTimePos utcTime = some msg' → msg'.seq = n₀ + m) ∧
      seqBuf k (n₀ + m) = some digits := by
  have h18 : n₀ + m < 10 ^ 18 := lt_of_lt_of_le hn (Nat.pow_le_pow_right (by omega) hk)
  have hread : convertAtollLen (padded k (n₀ + m)) = n₀ + m :=
    convertAtollLen_padded hn (by omega)
  refine ⟨padded k (n₀ + m), ?_, padded_length _ _, fun b => isDigit_of_mem_padded, ?_, ?_,
    seqBuf_of_lt h1 hk hn⟩
  · rw [start, setMaxMsgSeqSize_eq h1 hjunk, Option.bind_some,
      initMsgSeq_eq h1 (by omega) (by omega), Option.bind_some, increments_padded hn]
  · rw [getMsgSeq, List.append_assoc, List.drop_left, List.take_left' (padded_length _ _), hread]
  · intro msg msg' msgSeqPos sendingTimePos utcTime h
    rw [finalizeNew_seq h, hread]

/-- Three digits between two bytes, from `98` over `100`. -/
theorem counter_refines_carry :
    ∃ digits, (start 3 1 98 [7, 0, 0, 0, 8]).bind (increments 3 1 2) =
        some ([7] ++ digits ++ [8]) ∧
      digits.length = 3 ∧ (∀ b ∈ digits, IsDigit b) ∧
      getMsgSeq 3 1 ([7] ++ digits ++ [8]) = 98 + 2 ∧
      (∀ (msg msg' : WMessage) msgSeqPos sendingTimePos utcTime,
        msg.finalizeNew msgSeqPos digits sendingTimePos utcTime = some msg' → msg'.seq = 98 + 2) ∧
      seqBuf 3 (98 + 2) = some digits :=
  counter_refines [7] [0, 0, 0] [8] (by decide) (by decide) (by decide) rfl

end Ufix.Counter
