import Ufix.Receiver
import Ufix.Seek

/-!
Framing undoes sending: however a sequence of well-formed messages is cut into chunks, and
whatever stands in the buffer beyond what was received, the receiver hands on these messages and
keeps the beginning of the unfinished one.
-/

namespace Ufix.Framing

open Ufix.Decimal

/-- A well-formed message for a session whose version has `n` bytes: `8=`, the version, `9=`,
the length of the body, `35=`, a type without `=`, `fields` up to the first `34=` of the rest,
which is a whole field of digits, anything, and `10=` with three more bytes. -/
structure FixMessage (n : ℕ) where
  version : List Byte
  bodyLen : List Byte
  msgType : List Byte
  fields : List Byte
  seq : List Byte
  after : List Byte
  sum : List Byte
  version_length : version.length = n
  bodyLen_digits : ∀ b ∈ bodyLen, IsDigit b
  bodyLen_length : 1 ≤ bodyLen.length ∧ bodyLen.length ≤ 9
  msgType_equal : (61 : Byte) ∉ msgType
  fields_whole : fields = [] ∨ fields.getLast? = some soh
  fields_noSeq : ¬ seqPattern <:+: fields
  seq_digits : ∀ b ∈ seq, IsDigit b
  sum_length : sum.length = 3
  bodyLen_value : value bodyLen =
    ([51, 53, 61] ++ msgType ++ soh :: fields ++ seqPattern ++ seq ++ soh :: after).length

lemma fields_whole_nil : ([] : List Byte) = [] ∨ ([] : List Byte).getLast? = some soh := Or.inl rfl

lemma fields_noSeq_nil : ¬ seqPattern <:+: [] :=
  fun h => absurd (List.infix_nil.mp h) (List.cons_ne_nil _ _)

namespace FixMessage

variable {n : ℕ} (m : FixMessage n)

def fromType : List Byte :=
  (m.msgType ++ soh :: m.fields) ++ seqPattern ++
    (m.seq ++ soh :: (m.after ++ [49, 48, 61] ++ m.sum ++ [soh]))

def fromLength : List Byte := m.bodyLen ++ soh :: ([51, 53, 61] ++ m.fromType)

def bytes : List Byte := [56, 61] ++ m.version ++ soh :: ([57, 61] ++ m.fromLength)

def msgTypePos : ℕ := n + m.bodyLen.length + 9

/-- What `process_msg` should be given. -/
def received : RMessage := .new m.bytes m.msgTypePos (ulong (value m.seq))

/-! ### Lengths -/

lemma bytes_length :
    m.bytes.length = n + m.bodyLen.length + 6 + value m.bodyLen + checksumSize := by
  rw [m.bodyLen_value]
  simp only [bytes, fromLength, fromType, checksumSize, List.length_append, List.length_cons,
    List.length_nil, m.version_length, m.sum_length]
  omega

lemma fromType_length : m.bytes.length = m.msgTypePos + m.fromType.length := by
  simp only [bytes, fromLength, msgTypePos, List.length_append, List.length_cons, List.length_nil,
    m.version_length]
  omega

lemma soh_not_mem_bodyLen : soh ∉ m.bodyLen := fun h => absurd (m.bodyLen_digits _ h) (by decide)

/-! ### Where the parts stand -/

lemma bytes_drop_version : m.bytes.drop (n + 2) = soh :: ([57, 61] ++ m.fromLength) := by
  have h : ([56, 61] ++ m.version).length = n + 2 := by simp [m.version_length]
  rw [← h, bytes, List.drop_left]

lemma bytes_drop_length : m.bytes.drop (n + 5) =
    m.bodyLen ++ soh :: ([51, 53, 61] ++ m.fromType) := by
  have h : m.bytes.drop (n + 5) = (m.bytes.drop (n + 2)).drop 3 := by rw [List.drop_drop]
  rw [h, bytes_drop_version]
  rfl

lemma bytes_drop_type : m.bytes.drop m.msgTypePos = m.fromType := by
  have h : m.bytes.drop m.msgTypePos = (m.bytes.drop (n + 5)).drop (m.bodyLen.length + 4) := by
    rw [List.drop_drop, msgTypePos]
    congr 1
    omega
  rw [h, bytes_drop_length, List.drop_length_add_append]
  rfl

def seqPos : ℕ := m.msgTypePos + (m.msgType ++ soh :: m.fields).length + seqPatternLength

lemma bytes_drop_seq : m.bytes.drop m.seqPos =
    m.seq ++ soh :: (m.after ++ [49, 48, 61] ++ m.sum ++ [soh]) := by
  have h : (m.msgType ++ soh :: m.fields).length + seqPatternLength =
      (m.msgType ++ soh :: m.fields ++ seqPattern).length := by
    simp only [List.length_append, seqPattern, seqPatternLength, List.length_cons,
      List.length_nil]
  calc m.bytes.drop m.seqPos
      = (m.bytes.drop m.msgTypePos).drop
          ((m.msgType ++ soh :: m.fields).length + seqPatternLength) := by
        rw [seqPos, Nat.add_assoc, List.drop_drop]
    _ = m.seq ++ soh :: (m.after ++ [49, 48, 61] ++ m.sum ++ [soh]) := by
        rw [bytes_drop_type, fromType, h, List.drop_left]

lemma seqPos_le : m.seqPos ≤ m.bytes.length := by
  rw [fromType_length, seqPos, fromType]
  simp only [seqPattern, seqPatternLength, List.length_append, List.length_cons, List.length_nil]
  omega

/-! ### A complete message -/

lemma infix_append_cons {p a b : List Byte} {s : Byte} (hs : s ∉ p) (h : p <:+: a ++ s :: b) :
    p <:+: a ∨ p <:+: b := by
  have hnil : ∀ q : List Byte, q <+: s :: b → s ∉ q → q = [] := by
    intro q hq hsq
    rcases q with - | ⟨c, q⟩
    · rfl
    · rw [List.cons_prefix_cons] at hq
      exact absurd (by simp [hq.1]) hsq
  rcases List.infix_append_iff_ne_nil.mp h with h | h | ⟨l₁, l₂, -, hne, rfl, -, h⟩
  · exact Or.inl h
  · rcases List.infix_cons_iff.mp h with h | h
    · rw [hnil p h hs]
      exact Or.inl List.nil_infix
    · exact Or.inr h
  · exact absurd (hnil l₂ h fun hm => hs (by simp [hm])) hne

/-- The number is found where it stands. -/
lemma seek_seq (rest : List Byte) :
    seek (m.fromType ++ rest) m.fromType.length seqPattern =
      some ((m.msgType ++ soh :: m.fields).length : ℤ) := by
  have hstop : soh ∉ seqPattern := by decide
  have hlast : (m.msgType ++ soh :: m.fields).getLast? = some soh := by
    rcases m.fields_whole with h | h
    · simp [h]
    · simp [List.getLast?_append, List.getLast?_cons, h]
  have hno : ¬ seqPattern <:+: m.msgType ++ soh :: m.fields := by
    intro h
    rcases infix_append_cons hstop h with h | h
    · exact m.msgType_equal (h.subset (by decide))
    · exact m.fields_noSeq h
  obtain ⟨part, hpart⟩ := List.getLast?_eq_some_iff.mp hlast
  have hno' : ¬ seqPattern <:+: part := fun h =>
    hno (h.trans (hpart ▸ (List.prefix_append part [soh]).isInfix))
  have hmet := SkipSearch.met_of_not_infix hstop hno'
    (m.seq ++ soh :: (m.after ++ [49, 48, 61] ++ m.sum ++ [soh]))
  have hfrom : m.fromType = part ++ soh :: (seqPattern ++
      (m.seq ++ soh :: (m.after ++ [49, 48, 61] ++ m.sum ++ [soh]))) := by
    rw [fromType, hpart]
    simp only [List.append_assoc, List.cons_append, List.nil_append]
  rw [← hfrom] at hmet
  rw [Seek.seek_of_met hmet, hpart, List.length_append, List.length_singleton]

variable {m} {pre stale mem : List Byte} {head tail : ℤ} {p : ℕ}

lemma scanSoh_version {buf : List Byte} (hmem : bytesFrom mem (head + n + 2) = some (soh :: buf))
    (htail : head + n + 2 ≤ tail) :
    scanSoh mem tail (head + n + 2) = some (some (head + n + 2)) := by
  rw [scanSoh, hmem, Option.bind_some, scanSohFrom, if_neg (by omega), if_pos rfl]

/-- With the whole length field there, its end is found and the length is that of the message. -/
lemma nextMsg_eq_cutMsg {buf buf' : List Byte} (h12 : 12 ≤ tail - head)
    (hversion : bytesFrom mem (head + n + 2) = some (soh :: buf))
    (hlength : bytesFrom mem (head + n + 2 + 3) = some (m.bodyLen ++ soh :: buf'))
    (htail : head + n + 5 + m.bodyLen.length ≤ tail) (hint : m.bytes.length < 2 ^ 31) :
    nextMsg n mem head tail = cutMsg mem head tail (head + m.msgTypePos) m.bytes.length := by
  have hlen := m.bytes_length
  have hsoh : ¬ IsDigit soh := by decide
  have hscan : scanSoh mem tail (head + n + 2 + 3) =
      some (some (head + n + 2 + 3 + m.bodyLen.length)) := by
    rw [scanSoh, hlength, Option.bind_some]
    exact scanSohFrom_found m.soh_not_mem_bodyLen (by omega)
  have hbody : convertAtoi (m.bodyLen ++ soh :: buf') = some (value m.bodyLen : ℤ) := by
    rw [convertAtoi, scanDigits_append m.bodyLen_digits hsoh, foldl_intDigit m.bodyLen_digits,
      bmod_of_lt (by omega)]
  have hmsgLen : (head + n + 2 + 3 + m.bodyLen.length + 1 - head + value m.bodyLen +
      (checksumSize : ℤ)).bmod (2 ^ 32) = m.bytes.length := by
    rw [← bmod_of_lt hint]
    congr 1
    omega
  have htypePos : head + n + 2 + 3 + m.bodyLen.length + 4 = head + m.msgTypePos := by
    simp only [msgTypePos]
    omega
  rw [nextMsg, if_neg (by omega), scanSoh_version hversion (by omega)]
  simp only [hscan, Option.bind_some, hlength, hbody, Option.bind_eq_bind, hmsgLen, htypePos]

/-- `process_new_data` cuts off a message that is complete. -/
lemma nextMsg_complete {rest : List Byte} (hmem : mem = pre ++ (m.bytes ++ rest))
    (hhead : head = pre.length) (htail : head + m.bytes.length ≤ tail)
    (hint : m.bytes.length < 2 ^ 31) :
    nextMsg n mem head tail = some (.msg m.received m.bytes.length) := by
  have hlen := m.bytes_length
  have hd := m.bodyLen_length
  have hfrom := m.fromType_length
  have hsoh : ¬ IsDigit soh := by decide
  simp only [checksumSize] at hlen
  have hversion : bytesFrom mem (head + n + 2) =
      some (soh :: ([57, 61] ++ m.fromLength) ++ rest) := by
    have h := bytesFrom_inside (n + 2) hmem hhead (by omega)
    rwa [m.bytes_drop_version, Nat.cast_add, ← add_assoc] at h
  have hlength : bytesFrom mem (head + n + 2 + 3) =
      some (m.bodyLen ++ soh :: ([51, 53, 61] ++ m.fromType ++ rest)) := by
    have h := bytesFrom_inside (n + 5) hmem hhead (by omega)
    have hpos : head + ((n + 5 : ℕ) : ℤ) = head + n + 2 + 3 := by omega
    rwa [m.bytes_drop_length, hpos, List.append_assoc, List.cons_append] at h
  have htype : bytesFrom mem (head + m.msgTypePos) = some (m.fromType ++ rest) := by
    have h := bytesFrom_inside m.msgTypePos hmem hhead (by omega)
    rwa [m.bytes_drop_type] at h
  have hseq : bytesFrom mem (head + m.msgTypePos + (m.msgType ++ soh :: m.fields).length +
      seqPatternLength) = some (m.seq ++ soh :: (m.after ++ [49, 48, 61] ++ m.sum ++ [soh] ++
        rest)) := by
    have h := bytesFrom_inside m.seqPos hmem hhead m.seqPos_le
    rwa [m.bytes_drop_seq, seqPos, Nat.cast_add, Nat.cast_add, ← add_assoc, ← add_assoc,
      List.append_assoc, List.cons_append] at h
  have hdata : bytesFrom mem head = some (m.bytes ++ rest) := bytesFrom_append pre hmem hhead
  have hnum : convertAtoll (m.seq ++ soh :: (m.after ++ [49, 48, 61] ++ m.sum ++ [soh] ++
      rest)) = some (ulong (value m.seq)) := by
    rw [convertAtoll, scanDigits_append m.seq_digits hsoh, foldl_ulongDigit m.seq_digits]
  have hdataLen : ((m.bytes.length : ℤ) - (head + m.msgTypePos - head)).bmod (2 ^ 32) =
      m.fromType.length := by
    rw [← bmod_of_lt (show m.fromType.length < 2 ^ 31 by omega)]
    congr 1
    omega
  rw [nextMsg_eq_cutMsg (by omega) hversion hlength (by omega) hint, cutMsg, if_neg (by omega)]
  simp only [Option.bind_eq_bind, Option.bind_some, hdataLen, htype, m.seek_seq rest, hseq, hnum,
    hdata]
  rw [if_neg (by omega)]
  simp [received]

/-! ### The beginning of a message -/

lemma bytesFrom_version (hmem : mem = pre ++ (m.bytes.take p ++ stale)) (hhead : head = pre.length)
    (hp : p < m.bytes.length) (h : n + 2 < p) :
    ∃ buf, bytesFrom mem (head + n + 2) = some (soh :: buf) := by
  have hpart := bytesFrom_inside (n + 2) hmem hhead (by rw [List.length_take]; omega)
  obtain ⟨q, hq⟩ : ∃ q, p - (n + 2) = q + 1 := ⟨p - (n + 3), by omega⟩
  have hpos : head + ((n + 2 : ℕ) : ℤ) = head + n + 2 := by omega
  rw [List.drop_take, m.bytes_drop_version, hq, List.take_succ_cons, List.cons_append, hpos]
    at hpart
  exact ⟨_, hpart⟩

lemma bytesFrom_length (hmem : mem = pre ++ (m.bytes.take p ++ stale)) (hhead : head = pre.length)
    (hp : p < m.bytes.length) (h : n + 5 ≤ p) :
    bytesFrom mem (head + n + 2 + 3) = some
      ((m.bodyLen ++ soh :: ([51, 53, 61] ++ m.fromType)).take (p - (n + 5)) ++ stale) := by
  have hpart := bytesFrom_inside (n + 5) hmem hhead (by rw [List.length_take]; omega)
  have hpos : head + ((n + 5 : ℕ) : ℤ) = head + n + 2 + 3 := by omega
  rwa [List.drop_take, m.bytes_drop_length, hpos] at hpart

/-- Before the end of the version a stale `SOH` leads to a second scan that ends at once. -/
lemma nextMsg_version (hmem : mem = pre ++ (m.bytes.take p ++ stale)) (hstale : stale ≠ [])
    (hhead : head = pre.length) (hp : p < m.bytes.length) (htail : tail = head + p)
    (h : p ≤ n + 2) : nextMsg n mem head tail = some .wait := by
  have hscan₁ : scanSoh mem tail (head + n + 2) = some none ∨
      scanSoh mem tail (head + n + 2) = some (some tail) := by
    by_cases heq : p = n + 2
    · have h1 : bytesFrom mem (head + n + 2) = some ([] ++ stale) :=
        bytesFrom_append (pre ++ m.bytes.take p) (by rw [hmem]; simp)
          (by simp only [hhead, List.length_append, List.length_take]; omega)
      have hnil : head + n + 2 + (([] : List Byte).length : ℤ) = tail := by
        simp only [List.length_nil]
        omega
      rw [scanSoh, h1, Option.bind_some]
      rcases scanSohFrom_stale List.not_mem_nil hnil hstale with h | ⟨h, -⟩
      · exact Or.inl h
      · exact Or.inr h
    · exact Or.inl (scanSoh_of_lt (by omega) (by omega))
  have hscan₂ : scanSoh mem tail (tail + 3) = some none := scanSoh_of_lt (by omega) (by omega)
  unfold nextMsg
  split
  · rfl
  · rcases hscan₁ with h | h
    · simp only [h, Option.bind_some]
    · simp only [h, hscan₂, Option.bind_some]

/-- Before the end of the length a stale `SOH` makes it a smaller number, which is still more than
what was received. -/
lemma nextMsg_length (hmem : mem = pre ++ (m.bytes.take p ++ stale)) (hstale : stale ≠ [])
    (hhead : head = pre.length) (hp : p < m.bytes.length) (htail : tail = head + p)
    (hint : m.bytes.length < 2 ^ 31) (h1 : n + 2 < p) (h2 : p ≤ n + 5 + m.bodyLen.length) :
    nextMsg n mem head tail = some .wait := by
  have hlen := m.bytes_length
  simp only [checksumSize] at hlen
  obtain ⟨buf, hbuf⟩ := bytesFrom_version hmem hhead hp h1
  unfold nextMsg
  split
  · rfl
  rw [scanSoh_version hbuf (by omega)]
  simp only [Option.bind_some]
  by_cases h5 : p < n + 5
  · have hscan : scanSoh mem tail (head + n + 2 + 3) = some none :=
      scanSoh_of_lt (by omega) (by omega)
    simp only [hscan, Option.bind_some]
  have hpart := bytesFrom_length hmem hhead hp (by omega)
  rw [List.take_append_of_le_length (by omega)] at hpart
  set ds := m.bodyLen.take (p - (n + 5)) with hds
  have hdsLen : ds.length = p - (n + 5) := by
    rw [hds, List.length_take]
    omega
  have hdsDigits : ∀ b ∈ ds, IsDigit b := fun b hb => m.bodyLen_digits b (List.mem_of_mem_take hb)
  have hdsSoh : soh ∉ ds := fun hb => m.soh_not_mem_bodyLen (List.mem_of_mem_take hb)
  have hvalue : value ds ≤ value m.bodyLen := by
    have h := value_le_append ds (m.bodyLen.drop (p - (n + 5)))
    rwa [hds, List.take_append_drop] at h
  have hend : head + n + 2 + 3 + (ds.length : ℤ) = tail := by omega
  rw [scanSoh, hpart, Option.bind_some]
  rcases scanSohFrom_stale hdsSoh hend hstale with h | ⟨h, l, rfl⟩
  · simp only [h, Option.bind_some]
  · have hbody : convertAtoi (ds ++ soh :: l) = some (value ds : ℤ) := by
      rw [convertAtoi, scanDigits_append hdsDigits (by decide), foldl_intDigit hdsDigits,
        bmod_of_lt (by omega)]
    have hmsgLen : (tail + 1 - head + value ds + (checksumSize : ℤ)).bmod (2 ^ 32) =
        ((p + 8 + value ds : ℕ) : ℤ) := by
      rw [← bmod_of_lt (show p + 8 + value ds < 2 ^ 31 by omega)]
      congr 1
      simp only [checksumSize]
      omega
    simp only [h, Option.bind_some, Option.bind_eq_bind, hbody, hmsgLen]
    rw [cutMsg, if_pos (by omega)]

/-- `process_new_data` waits for the rest of a message, whatever stands beyond the tail. -/
lemma nextMsg_partial (hmem : mem = pre ++ (m.bytes.take p ++ stale)) (hstale : stale ≠ [])
    (hhead : head = pre.length) (hp : p < m.bytes.length) (htail : tail = head + p)
    (hint : m.bytes.length < 2 ^ 31) : nextMsg n mem head tail = some .wait := by
  by_cases h12 : tail - head < 12
  · rw [nextMsg, if_pos h12]
  by_cases hversion : p ≤ n + 2
  · exact nextMsg_version hmem hstale hhead hp htail hversion
  by_cases hlength : p ≤ n + 5 + m.bodyLen.length
  · exact nextMsg_length hmem hstale hhead hp htail hint (by omega) hlength
  · -- the length is known, and not all of the message is there
    obtain ⟨buf, hbuf⟩ := bytesFrom_version hmem hhead hp (by omega)
    have hpart := bytesFrom_length hmem hhead hp (by omega)
    obtain ⟨q, hq⟩ : ∃ q, p - (n + 5) = m.bodyLen.length + (q + 1) :=
      ⟨p - (n + 6) - m.bodyLen.length, by omega⟩
    rw [hq, List.take_length_add_append, List.take_succ_cons, List.append_assoc,
      List.cons_append] at hpart
    rw [nextMsg_eq_cutMsg (by omega) hbuf hpart (by omega) hint, cutMsg, if_pos (by omega)]

end FixMessage

/-! ### A stream of messages -/

variable {n : ℕ}

def stream (ms : List (FixMessage n)) : List Byte := ms.flatMap FixMessage.bytes

/-- The bytes are a proper beginning of the first message; without messages there are none. -/
def Unfinished (part : List Byte) : List (FixMessage n) → Prop
  | [] => part = []
  | m :: _ => ∃ p < m.bytes.length, part = m.bytes.take p

lemma stream_cons (m : FixMessage n) (ms : List (FixMessage n)) :
    stream (m :: ms) = m.bytes ++ stream ms := rfl

lemma stream_singleton (m : FixMessage n) : stream [m] = m.bytes := List.append_nil _

lemma stream_append (ms ms' : List (FixMessage n)) : stream (ms ++ ms') = stream ms ++ stream ms' :=
  List.flatMap_append

lemma length_le_stream (ms : List (FixMessage n)) : ms.length ≤ (stream ms).length := by
  induction ms with
  | nil => rfl
  | cons m ms ih =>
    have := m.bytes_length
    rw [stream_cons, List.length_append, List.length_cons]
    omega

lemma bytes_length_le_stream {m : FixMessage n} {ms : List (FixMessage n)} (h : m ∈ ms) :
    m.bytes.length ≤ (stream ms).length := by
  obtain ⟨l, l', rfl⟩ := List.append_of_mem h
  rw [stream_append, stream_cons, List.length_append, List.length_append]
  omega

lemma exists_unfinished {ms : List (FixMessage n)} {data : List Byte} (h : data <+: stream ms) :
    ∃ done todo part, ms = done ++ todo ∧ data = stream done ++ part ∧ Unfinished part todo := by
  induction ms generalizing data with
  | nil => exact ⟨[], [], [], rfl, List.prefix_nil.mp h, rfl⟩
  | cons m ms ih =>
    rw [stream_cons] at h
    by_cases hlt : data.length < m.bytes.length
    · refine ⟨[], m :: ms, data, rfl, rfl, data.length, hlt, ?_⟩
      rw [← List.take_append_of_le_length hlt.le, ← List.prefix_iff_eq_take]
      exact h
    · obtain ⟨data', rfl⟩ := List.prefix_of_prefix_length_le (List.prefix_append _ _) h (by omega)
      rw [List.prefix_append_right_inj] at h
      obtain ⟨done, todo, part, rfl, rfl, hpart⟩ := ih h
      exact ⟨m :: done, todo, part, rfl, by rw [stream_cons, List.append_assoc], hpart⟩

lemma Unfinished.eq_nil {part : List Byte} {todo : List (FixMessage n)} (h : Unfinished part todo)
    (he : part = stream todo) : todo = [] := by
  cases todo with
  | nil => rfl
  | cons m todo =>
    obtain ⟨p, hp, rfl⟩ := h
    have hlen := congrArg List.length he
    rw [stream_cons, List.length_take, List.length_append] at hlen
    omega

lemma Unfinished.length_lt {m : FixMessage n} {todo : List (FixMessage n)} {part : List Byte}
    (h : Unfinished part (m :: todo)) : part.length < m.bytes.length := by
  obtain ⟨p, hp, rfl⟩ := h
  rw [List.length_take]
  exact (Nat.min_le_left _ _).trans_lt hp

lemma Unfinished.begins {todo : List (FixMessage n)} {part : List Byte}
    (h : Unfinished part todo) : part <+: stream todo := by
  cases todo with
  | nil =>
    rw [show part = [] from h]
    exact List.nil_prefix
  | cons m todo =>
    obtain ⟨p, -, rfl⟩ := h
    rw [stream_cons]
    exact (List.take_prefix _ _).trans (List.prefix_append _ _)

lemma length_le_of_begins {done done' todo todo' : List (FixMessage n)} {part rest : List Byte}
    (hmsgs : done ++ todo = done' ++ todo') (hpart : Unfinished part todo)
    (hbegin : stream done' ++ rest <+: stream done ++ part) : done'.length ≤ done.length := by
  rcases List.append_eq_append_iff.mp hmsgs with ⟨more, rfl, rfl⟩ | ⟨more, rfl, -⟩
  · cases more with
    | nil => rw [List.append_nil]
    | cons m more =>
      have hlt := hpart.length_lt
      have hle := hbegin.length_le
      rw [stream_append, stream_cons] at hle
      simp only [List.length_append] at hle
      omega
  · rw [List.length_append]
    exact Nat.le_add_right _ _

lemma done_unique {done done' todo todo' : List (FixMessage n)} {part part' : List Byte}
    (hmsgs : done ++ todo = done' ++ todo') (hdata : stream done ++ part = stream done' ++ part')
    (hpart : Unfinished part todo) (hpart' : Unfinished part' todo') : done = done' := by
  have hle : done'.length ≤ done.length :=
    length_le_of_begins hmsgs hpart (by rw [hdata])
  have hge : done.length ≤ done'.length :=
    length_le_of_begins hmsgs.symm hpart' (by rw [hdata])
  exact List.append_inj_left hmsgs (le_antisymm hge hle)

/-- The rounds of one call take the complete messages and wait for the rest. -/
lemma processRounds_stream {ms todo : List (FixMessage n)} {pre part stale mem : List Byte}
    {head tail : ℤ} {k : ℕ} {msgs : List RMessage}
    (hmem : mem = pre ++ (stream ms ++ part ++ stale)) (hstale : stale ≠ [])
    (hhead : head = pre.length) (htail : tail = head + (stream ms ++ part).length)
    (hpart : Unfinished part todo) (hint : (stream (ms ++ todo)).length < 2 ^ 31)
    (hk : ms.length < k) :
    processRounds n mem tail k head msgs =
      some (head + (stream ms).length, msgs ++ ms.map FixMessage.received, true) := by
  induction ms generalizing pre head k msgs with
  | nil =>
    obtain ⟨k, rfl⟩ : ∃ j, k = j + 1 := ⟨k - 1, by simp at hk; omega⟩
    have hwait : nextMsg n mem head tail = some .wait := by
      cases todo with
      | nil =>
        have hnil : part = [] := hpart
        subst hnil
        rw [nextMsg, if_pos (by rw [htail]; simp [stream])]
      | cons m todo =>
        obtain ⟨p, hp, rfl⟩ := hpart
        have hm := bytes_length_le_stream (List.mem_append_right [] (List.mem_cons_self (a := m)
          (l := todo)))
        refine FixMessage.nextMsg_partial hmem hstale hhead hp ?_ (by omega)
        rw [htail]
        simp [stream]
        omega
    rw [processRounds, hwait]
    simp [stream]
  | cons m ms ih =>
    obtain ⟨k, rfl⟩ : ∃ j, k = j + 1 := ⟨k - 1, by simp at hk; omega⟩
    have hlen : (stream (m :: ms ++ todo)).length =
        m.bytes.length + (stream (ms ++ todo)).length := by
      rw [List.cons_append, stream_cons, List.length_append]
    rw [stream_cons] at hmem htail ⊢
    simp only [List.length_append] at htail
    have hmem₁ : mem = pre ++ (m.bytes ++ (stream ms ++ part ++ stale)) := by
      rw [hmem]
      simp
    have hmem₂ : mem = (pre ++ m.bytes) ++ (stream ms ++ part ++ stale) := by
      rw [hmem]
      simp
    have hnext : nextMsg n mem head tail = some (.msg m.received m.bytes.length) :=
      FixMessage.nextMsg_complete hmem₁ hhead (by omega) (by omega)
    have hhead₂ : head + m.bytes.length = ((pre ++ m.bytes).length : ℤ) := by
      rw [hhead, List.length_append]
      push_cast
      rfl
    have htail₂ : tail = head + m.bytes.length + (stream ms ++ part).length := by
      rw [htail, List.length_append]
      push_cast
      omega
    have hk₂ : ms.length < k := by simpa using hk
    rw [processRounds, hnext]
    simp only [ih hmem₂ hhead₂ htail₂ (by omega) hk₂, List.length_append, List.map_cons,
      List.append_assoc, List.singleton_append]
    congr 2
    push_cast
    omega

/-! ### Chunk after chunk -/

/-- Where the receiver is in the stream: the bytes of `part` were received and not handed on, and
the messages of `todo` are to come. -/
structure Framed (r : Receiver) (todo : List (FixMessage n)) (part : List Byte) : Prop where
  buf : ∃ pre, r.recvBuf.take r.recvBufTail.toNat = pre ++ part ∧ r.recvBufHead = pre.length ∧
    r.recvBufTail = r.recvBufHead + part.length
  unfinished : Unfinished part todo
  room : r.recvBufHead + (stream todo).length ≤ r.recvBufSize
  int : r.recvBufSize < 2 ^ 31

lemma Framed.pending {r : Receiver} {todo : List (FixMessage n)} {part : List Byte}
    (h : Framed r todo part) : r.pending = part := by
  obtain ⟨pre, hbuf, hhead, htail⟩ := h.buf
  have hlen : (r.recvBufTail - r.recvBufHead).toNat = r.recvBufTail.toNat - pre.length := by omega
  calc r.pending = (r.recvBuf.take r.recvBufTail.toNat).drop pre.length := by
        rw [Receiver.pending, hlen, hhead, Int.toNat_natCast, List.drop_take]
    _ = part := by rw [hbuf, List.drop_left]

lemma framed_empty {r : Receiver} {msgs : List (FixMessage n)}
    (hempty : r.recvBufHead = r.recvBufTail)
    (hpos : 0 ≤ r.recvBufTail ∧ r.recvBufTail ≤ r.recvBuf.length)
    (hroom : r.recvBufTail + (stream msgs).length ≤ r.recvBufSize)
    (hint : r.recvBufSize < 2 ^ 31) : Framed r msgs [] := by
  refine ⟨⟨r.recvBuf.take r.recvBufTail.toNat, (List.append_nil _).symm, ?_, by simp [hempty]⟩,
    ?_, by rw [hempty]; exact hroom, hint⟩
  · rw [List.length_take, hempty]
    omega
  · cases msgs with
    | nil => rfl
    | cons m msgs =>
      have hm := m.bytes_length
      exact ⟨0, by omega, rfl⟩

/-- One chunk: the messages it completes are handed on. -/
lemma recvMsgs_framed {r : Receiver} {todo : List (FixMessage n)} {part chunk stale : List Byte}
    (h : Framed r todo part) (hcut : part ++ chunk <+: stream todo) (hstale : stale ≠ []) :
    ∃ r' done todo' part', todo = done ++ todo' ∧ part ++ chunk = stream done ++ part' ∧
      r.recvMsgs n chunk stale = some (r', done.map FixMessage.received, true) ∧
      Framed r' todo' part' := by
  obtain ⟨pre, hbuf, hhead, htail⟩ := h.buf
  have hroom := h.room
  have hint := h.int
  obtain ⟨done, todo', part', rfl, hdata, hpart'⟩ := exists_unfinished hcut
  have hlen : part.length + chunk.length = (stream done).length + part'.length := by
    rw [← List.length_append, hdata, List.length_append]
  have hcutLen := hcut.length_le
  rw [hdata, stream_append, List.length_append, List.length_append] at hcutLen
  rw [stream_append, List.length_append] at hroom
  have hmem : r.recvBuf.take r.recvBufTail.toNat ++ chunk ++ stale =
      pre ++ (stream done ++ part' ++ stale) := by
    rw [hbuf, List.append_assoc pre, hdata]
    simp
  have hnew : processNewData n (r.recvBuf.take r.recvBufTail.toNat ++ chunk ++ stale) r.recvBufHead
      (r.recvBufTail + chunk.length) =
      some (r.recvBufHead + (stream done).length, done.map FixMessage.received, true) := by
    have hk := length_le_stream done
    refine processRounds_stream hmem hstale hhead ?_ hpart' ?_ ?_
    · rw [List.length_append]
      omega
    · rw [stream_append, List.length_append]
      omega
    · omega
  have hfull : ¬ r.recvBufTail + chunk.length > r.recvBufSize := by omega
  rw [Receiver.recvMsgs]
  simp only [hnew, Option.map_some, if_true, if_neg hfull]
  refine ⟨_, done, todo', part', rfl, hdata, rfl, ⟨pre ++ stream done, ?_, ?_, ?_⟩, hpart', ?_,
    hint⟩
  · have hpos : (r.recvBufTail + chunk.length).toNat = (pre ++ stream done ++ part').length := by
      simp only [List.length_append]
      omega
    simp only [hpos, hmem]
    rw [← List.append_assoc, ← List.append_assoc, List.take_left]
  · simp only [hhead, List.length_append]
    push_cast
    rfl
  · simp only
    omega
  · simp only
    push_cast at hroom ⊢
    omega

lemma recvAll_framed {r : Receiver} {todo : List (FixMessage n)} {part rest : List Byte}
    {chunks : List (List Byte × List Byte)} (h : Framed r todo part)
    (hcut : part ++ chunks.flatMap Prod.fst ++ rest = stream todo)
    (hstale : ∀ c ∈ chunks, c.2 ≠ []) :
    ∃ r' outs done todo' part', Receiver.recvAll n r chunks = some (r', outs) ∧
      todo = done ++ todo' ∧ part ++ chunks.flatMap Prod.fst = stream done ++ part' ∧
      outs.flatMap Prod.fst = done.map FixMessage.received ∧ (∀ out ∈ outs, out.2 = true) ∧
      Framed r' todo' part' := by
  induction chunks generalizing r todo part with
  | nil => exact ⟨r, [], [], todo, part, rfl, rfl, by simp [stream], rfl, by simp, h⟩
  | cons c chunks ih =>
    obtain ⟨chunk, stale⟩ := c
    rw [List.flatMap_cons] at hcut
    have hcut₀ : part ++ chunk <+: stream todo :=
      ⟨chunks.flatMap Prod.fst ++ rest, by rw [← hcut]; simp⟩
    have hne : stale ≠ [] := hstale (chunk, stale) (by simp)
    obtain ⟨r₁, done₁, todo₁, part₁, rfl, hdata₁, hrecv, h₁⟩ := recvMsgs_framed h hcut₀ hne
    have hcut₁ : part₁ ++ chunks.flatMap Prod.fst ++ rest = stream todo₁ := by
      rw [stream_append, ← List.append_assoc part, hdata₁] at hcut
      simpa using hcut
    obtain ⟨r₂, outs, done₂, todo₂, part₂, hall, rfl, hdata₂, houts, hok, h₂⟩ :=
      ih h₁ hcut₁ fun c hc => hstale c (by simp [hc])
    refine ⟨r₂, (done₁.map FixMessage.received, true) :: outs, done₁ ++ done₂, todo₂, part₂, ?_,
      by simp, ?_, ?_, ?_, h₂⟩
    · rw [Receiver.recvAll, hrecv, Option.bind_some]
      simp only [hall, Option.map_some]
    · rw [List.flatMap_cons, ← List.append_assoc, hdata₁, List.append_assoc, hdata₂, stream_append,
        List.append_assoc]
    · rw [List.flatMap_cons, houts, List.map_append]
    · intro out hout
      rcases List.mem_cons.mp hout with rfl | hout
      · rfl
      · exact hok out hout

/-- **Framing undoes sending**: whatever the cuts, the whole messages among the bytes received
are handed on, in order and each once, no call fails, and what is pending is the beginning of the
next message. -/
theorem recvAll_stream {r : Receiver} {msgs : List (FixMessage n)} {rest : List Byte}
    {chunks : List (List Byte × List Byte)} (hempty : r.recvBufHead = r.recvBufTail)
    (hpos : 0 ≤ r.recvBufTail ∧ r.recvBufTail ≤ r.recvBuf.length)
    (hroom : r.recvBufTail + (stream msgs).length ≤ r.recvBufSize) (hint : r.recvBufSize < 2 ^ 31)
    (hcut : chunks.flatMap Prod.fst ++ rest = stream msgs) (hstale : ∀ c ∈ chunks, c.2 ≠ []) :
    ∃ r' outs done todo, Receiver.recvAll n r chunks = some (r', outs) ∧ msgs = done ++ todo ∧
      outs.flatMap Prod.fst = done.map FixMessage.received ∧ (∀ out ∈ outs, out.2 = true) ∧
      chunks.flatMap Prod.fst = stream done ++ r'.pending ∧ Unfinished r'.pending todo ∧
      (rest = [] → todo = []) := by
  have h := framed_empty hempty hpos hroom hint
  obtain ⟨r', outs, done, todo, part, hall, rfl, hdata, houts, hok, h'⟩ :=
    recvAll_framed h (by simpa using hcut) hstale
  rw [List.nil_append] at hdata
  refine ⟨r', outs, done, todo, hall, rfl, houts, hok, by rw [hdata, h'.pending], ?_, ?_⟩
  · rw [h'.pending]
    exact h'.unfinished
  · rintro rfl
    rw [List.append_nil, hdata, stream_append, List.append_cancel_left_eq] at hcut
    exact h'.unfinished.eq_nil hcut

/-- `8=FIX.4.4|9=16|35=0|34=12|49=A|10=000|`. -/
def heartbeat : FixMessage 7 where
  version := [70, 73, 88, 46, 52, 46, 52]
  bodyLen := [49, 54]
  msgType := [48]
  fields := []
  seq := [49, 50]
  after := [52, 57, 61, 65, 1]
  sum := [48, 48, 48]
  version_length := rfl
  bodyLen_digits := by simp [IsDigit]
  bodyLen_length := by decide
  msgType_equal := by decide
  fields_whole := fields_whole_nil
  fields_noSeq := fields_noSeq_nil
  seq_digits := by simp [IsDigit]
  sum_length := rfl
  bodyLen_value := by decide

/-- Two messages, cut inside the length of the first, with an `SOH` beyond the tail. -/
theorem recvAll_stream_heartbeats :
    ∃ r' outs done todo, Receiver.recvAll 7 ⟨[], 100, 0, 0⟩
        [((stream [heartbeat, heartbeat]).take 13, [1]),
          ((stream [heartbeat, heartbeat]).drop 13, [1])] = some (r', outs) ∧
      [heartbeat, heartbeat] = done ++ todo ∧
      outs.flatMap Prod.fst = done.map FixMessage.received ∧ (∀ out ∈ outs, out.2 = true) ∧
      [((stream [heartbeat, heartbeat]).take 13, ([1] : List Byte)),
          ((stream [heartbeat, heartbeat]).drop 13, [1])].flatMap Prod.fst =
        stream done ++ r'.pending ∧ Unfinished r'.pending todo ∧
      (([] : List Byte) = [] → todo = []) :=
  recvAll_stream rfl (by decide) (by decide) (by decide) (by decide) (by decide)

end Ufix.Framing
