import Ufix.AcceptorFraming
import Ufix.FieldTable

/-!
The lookups in a header: `seek` in `process_new_data` and `validate_comp_id`, against the tags that
`parse` reads.

The patterns have no end of field in front, so a tag that ends in one of them, or a value with one
in it, is taken for the field looked for.
-/

namespace Ufix.HeaderLookup

open Ufix.Decimal Ufix.SkipSearch Ufix.FieldsParser Ufix.FieldGrammar Ufix.FieldTable
open Ufix.TagValue (equal)

/-- `49=`. -/
def senderCompIdPattern : List Byte := [52, 57, 61]

/-- `56=`. -/
def targetCompIdPattern : List Byte := [53, 54, 61]

/-- `validate_comp_id`: the result, and what it leaves in `s_pos` and `t_pos`. Without a sender
`t_pos` stays. -/
def validateCompId (msg : List Byte) (len tPos : ℤ) : Option (Bool × ℤ × ℤ) := do
  let senderCompIdPos ← seek msg len senderCompIdPattern
  if senderCompIdPos < 0 then some (false, senderCompIdPos, tPos)
  else do
    let sPos := senderCompIdPos + 3
    let targetCompIdPos ← seek msg len targetCompIdPattern
    if targetCompIdPos < 0 then some (false, sPos, targetCompIdPos)
    else some (true, sPos, targetCompIdPos + 3)

/-! ### Messages -/

def part (f : RawField) : List Byte := f.tag ++ equal :: f.val

def encode (fs : List RawField) : List Byte := ended soh (fs.map part)

/-- A tag and a value that can be written, the tag one that the table has. -/
def Known (f : RawField) : Prop := f.Ok ∧ value f.tag < maxFixTag

/-- A message that starts with fields `8`, `9` and `35`, has a right body length and ends with
field `10` of three bytes. Fields `34`, `49` and `56` stand in it once, among any others. -/
structure FieldMessage where
  version : List Byte
  bodyLen : List Byte
  msgType : List Byte
  fields : List RawField
  sum : List Byte
  version_soh : soh ∉ version
  bodyLen_digits : ∀ b ∈ bodyLen, IsDigit b
  msgType_soh : soh ∉ msgType
  sum_soh : soh ∉ sum
  sum_length : sum.length = 3
  fields_known : ∀ f ∈ fields, Known f
  once : ∀ t ∈ [34, 49, 56], ∃ f, fields.filter (fun f => value f.tag = t) = [f]
  seq_digits : ∀ f ∈ fields, value f.tag = 34 → ∀ b ∈ f.val, IsDigit b
  bodyLen_value : value bodyLen = ([51, 53, 61] ++ msgType ++ soh :: encode fields).length

namespace FieldMessage

variable (m : FieldMessage)

def rest : List RawField := m.fields ++ [⟨[49, 48], m.sum⟩]

def all : List RawField :=
  ⟨[56], m.version⟩ :: ⟨[57], m.bodyLen⟩ :: ⟨[51, 53], m.msgType⟩ :: m.rest

def bytes : List Byte := encode m.all

/-- The type and the fields behind it, where `process_new_data` looks for the number. -/
def searched : List (List Byte) := m.msgType :: m.rest.map part

def msgTypePos : ℕ := m.version.length + m.bodyLen.length + 9

end FieldMessage

/-- The fields in front of the one with the tag. -/
def inFrontOf (t : ℕ) (fs : List RawField) : List RawField := fs.takeWhile fun f => value f.tag ≠ t

def digitsOf (buf : List Byte) : List Byte := buf.takeWhile fun b => IsDigit b

/-- The message that `process_new_data` cuts off has the number that `parse` and `get_field` give,
and `validate_comp_id` finds both names where `get_field` does. -/
def Agree (m : FieldMessage) (p : FieldsParser) (round : Option Round)
    (ids : Option (Bool × ℤ × ℤ)) : Prop :=
  ∃ msg len seq sender target, round = some (.msg msg len) ∧
    ids = some (true, (sender.val : ℤ), (target.val : ℤ)) ∧
    p.getField 34 = some seq ∧ convertAtoll (m.bytes.drop seq.val) = some msg.seq ∧
    p.getField 49 = some sender ∧ p.getField 56 = some target

/-- The lookups meet no other field: of `34=` the first that is met, if it is another, has digits of
the same number behind it, and in front of fields `49` and `56` theirs are not met. -/
structure Clear (m : FieldMessage) : Prop where
  seq : ∀ before q k, FirstMet seqPattern m.searched before q k →
    ∀ f ∈ m.fields, value f.tag = 34 →
      ulong (value (digitsOf (q.drop (k + 3)))) = ulong (value f.val)
  sender : ∀ f ∈ inFrontOf 49 m.all, ∀ k, ¬ Met senderCompIdPattern (part f) k
  target : ∀ f ∈ inFrontOf 56 m.all, ∀ k, ¬ Met targetCompIdPattern (part f) k

variable {fs before behind : List RawField} {f : RawField} {t : ℕ}

lemma encode_cons (f : RawField) (fs : List RawField) :
    encode (f :: fs) = f.tag ++ equal :: (f.val ++ soh :: encode fs) := by
  rw [encode, List.map_cons, ended_cons, part, List.append_assoc, List.cons_append, encode]

lemma encode_append (fs gs : List RawField) : encode (fs ++ gs) = encode fs ++ encode gs := by
  rw [encode, List.map_append, ended_append, encode, encode]

/-! ### The fields that are parsed -/

def visitsOf : List RawField → List Visit
  | [] => []
  | f :: fs => ⟨value f.tag, f.val ++ soh :: encode fs, some f.val.length⟩ :: visitsOf fs

lemma visitsFrom_encode {p : FieldsParser} (hnone : p.rgDictionary = none)
    (hfs : ∀ f ∈ fs, Known f) {n : ℕ} (hn : (encode fs).length < n) :
    visitsFrom p.readFieldValue n (encode fs) = visitsOf fs := by
  induction fs generalizing n with
  | nil =>
    obtain ⟨n, rfl⟩ := Nat.exists_eq_add_of_lt hn
    rfl
  | cons f fs ih =>
    obtain ⟨n, rfl⟩ : ∃ k, n = k + 1 := ⟨n - 1, by omega⟩
    obtain ⟨⟨hds, h0, hval⟩, hlt⟩ := hfs f (by simp)
    rw [encode_cons] at hn ⊢
    obtain ⟨b, data, hdata⟩ := exists_cons h0 (equal :: (f.val ++ soh :: encode fs))
    have hlen : (encode fs).length < n := by
      simp only [List.length_append, List.length_cons] at hn
      omega
    rw [hdata, visitsFrom, ← hdata, readTag_digits hds, foldl_intDigit_of_lt hds hlt]
    simp only [List.tail_cons]
    rw [if_neg (by omega), readFieldValue_of_none hnone, readValue_append hval]
    simp only [List.tail_cons, ih (fun g hg => hfs g (by simp [hg])) hlen, visitsOf,
      List.length_append, List.length_cons]
    congr 3
    omega

lemma visitsOf_append (before : List RawField) (f : RawField) (behind : List RawField) :
    ∃ vs, visitsOf (before ++ f :: behind) =
      vs ++ ⟨value f.tag, f.val ++ soh :: encode behind, some f.val.length⟩ :: visitsOf behind := by
  induction before with
  | nil => exact ⟨[], rfl⟩
  | cons g before ih =>
    obtain ⟨vs, hvs⟩ := ih
    exact ⟨_ :: vs, by rw [List.cons_append, visitsOf, hvs, List.cons_append]⟩

lemma visitsOf_tags (fs : List RawField) :
    (visitsOf fs).map Visit.tag = fs.map fun f => (value f.tag : ℤ) := by
  induction fs with
  | nil => rfl
  | cons f fs ih => rw [visitsOf, List.map_cons, List.map_cons, ih]

/-- `get_field` finds the last field of a tag, and its value where it stands. -/
lemma getField_encode {p : FieldsParser} (hpast : Past p) (hnone : p.rgDictionary = none)
    (hfs : ∀ g ∈ before ++ f :: behind, Known g)
    (hbehind : ∀ g ∈ behind, value g.tag ≠ value f.tag) :
    ∃ info, (p.parse (encode (before ++ f :: behind))).1.getField (value f.tag) = some info ∧
      info.val = (encode before).length + f.tag.length + 1 := by
  have hlt : value f.tag < maxFixTag := (hfs f (by simp)).2
  have hindex : ((value f.tag : ℕ) : ℤ).tmod p.fieldsSize = value f.tag :=
    tmod_fieldsSize hpast.size hlt
  have hnew : ((FieldsParser.new maxFixTag).setRgDictionary p.rgDictionary).rgDictionary = none :=
    hnone
  obtain ⟨vs, hvs⟩ := visitsOf_append before f behind
  have hnil : storedAt p.fieldsSize (visitsOf behind) (value f.tag) = [] := by
    refine List.filter_eq_nil_iff.mpr fun v hv => ?_
    have hmem : v.tag ∈ behind.map fun g => (value g.tag : ℤ) := by
      rw [← visitsOf_tags]
      exact List.mem_map_of_mem hv
    obtain ⟨g, hg, htag⟩ := List.mem_map.mp hmem
    have hglt : value g.tag < maxFixTag := (hfs g (by simp [hg])).2
    rw [← htag, tmod_fieldsSize hpast.size hglt]
    simpa using hbehind g hg
  have hlast : (storedAt p.fieldsSize (visits p.rgDictionary (encode (before ++ f :: behind)))
      (value f.tag)).getLast? =
        some ⟨value f.tag, f.val ++ soh :: encode behind, some f.val.length⟩ := by
    rw [visits, visitsFrom_encode hnew hfs (Nat.lt_succ_self _), hvs, storedAt_append]
    rw [storedAt, storedAt, List.filter_cons_of_pos (by simpa using hindex)]
    rw [storedAt] at hnil
    rw [hnil, List.getLast?_concat]
  have hlen : (encode (before ++ f :: behind)).length =
      (encode before).length + f.tag.length + 1 + (f.val ++ soh :: encode behind).length := by
    rw [encode_append, encode_cons]
    simp only [List.length_append, List.length_cons]
    omega
  rw [getField_parse hpast.counter, hindex, hlast]
  refine ⟨_, by rw [Option.filter_some_pos (by simp), Option.map_some], ?_⟩
  simp only [hlen]
  omega

/-! ### The fields that are met -/

/-- A tag and its `=` are met in the field itself, behind leading zeros. -/
lemma met_part (h0 : t ≠ 0) (hf : f.Ok) (ht : value f.tag = t) :
    ∃ z, z + (decimal t ++ [equal]).length = f.tag.length + 1 ∧
      Met (decimal t ++ [equal]) (part f) z := by
  have hlt : t < 10 ^ f.tag.length := ht ▸ value_lt hf.1
  have hlen : 1 ≤ f.tag.length := by
    by_contra h
    rw [Nat.lt_one_iff.mp (not_le.mp h)] at hlt
    omega
  have htag : f.tag = List.replicate (f.tag.length - width t) (digit 0) ++ decimal t := by
    rw [← padded_eq_decimal hlen hlt, ← ht, padded_value hf.1]
  have hwidth := width_le hlen hlt
  refine ⟨f.tag.length - width t, ?_, List.replicate (f.tag.length - width t) (digit 0), f.val, ?_,
    by simp, ?_⟩
  · simp only [List.length_append, decimal_length, List.length_singleton]
    omega
  · rw [part]
    conv_lhs => rw [htag]
    simp
  · obtain ⟨d, l, hdec, h1, h10⟩ := decimal_eq_cons h0
    have hskip : IsSkip (decimal t ++ [equal]) [] (digit 0) := by
      refine ⟨List.nil_prefix, by simp, fun h => ?_⟩
      rw [hdec, List.nil_append, List.cons_append, List.cons_prefix_cons] at h
      have := congrArg UInt8.toNat h.1
      rw [digit_toNat (by omega), digit_toNat h10] at this
      omega
    generalize f.tag.length - width t = z
    induction z with
    | zero => exact .nil
    | succ z ih => exact .cons hskip ih

/-- **A search meets the field with the tag** if and only if it meets none of the fields in
front. -/
lemma met_encode (h0 : t ≠ 0) (hf : f.Ok) (ht : value f.tag = t) (before behind : List RawField) :
    ∃ i, Met (decimal t ++ [equal]) (encode (before ++ f :: behind)) i ∧
      (i + (decimal t ++ [equal]).length = (encode before).length + f.tag.length + 1 ↔
        ∀ g ∈ before, ∀ k, ¬ Met (decimal t ++ [equal]) (part g) k) := by
  obtain ⟨z, hz, hmet⟩ := met_part h0 hf ht
  have hsoh : soh ∉ decimal t ++ [equal] := by
    intro h
    rcases List.mem_append.mp h with h | h
    · exact absurd (isDigit_of_mem_decimal h) (by decide)
    · exact absurd (List.mem_singleton.mp h) (by decide)
  have hne : decimal t ++ [equal] ≠ [] := by simp
  generalize decimal t ++ [equal] = p at hz hmet hsoh hne ⊢
  by_cases hclear : ∀ g ∈ before, ∀ k, ¬ Met p (part g) k
  · refine ⟨(encode before).length + z, ?_, iff_of_true (by omega) hclear⟩
    refine (met_ended_iff hsoh hne _).mpr
      ⟨before.map part, part f, z, ⟨⟨behind.map part, ?_⟩, ?_, hmet⟩, rfl⟩
    · rw [List.map_append, List.map_cons]
    · intro q hq
      obtain ⟨g, hg, rfl⟩ := List.mem_map.mp hq
      exact hclear g hg
  · have hex : ∃ g ∈ before, ∃ k, Met p (part g) k := by
      by_contra h
      exact hclear fun g hg k hk => h ⟨g, hg, k, hk⟩
    obtain ⟨g, hg, k, hk⟩ := hex
    obtain ⟨b, q, j, hfirst⟩ := exists_firstMet (List.mem_map_of_mem (f := part) hg) hk
    have hmet' : Met p (encode before) ((ended soh b).length + j) :=
      (met_ended_iff hsoh hne _).mpr ⟨b, q, j, hfirst, rfl⟩
    have hle := hmet'.length_le
    refine ⟨(ended soh b).length + j, ?_, iff_of_false (by omega) hclear⟩
    rw [encode_append]
    exact hmet'.append _

/-! ### The fields of a message -/

lemma digitsOf_append_soh (buf more : List Byte) :
    digitsOf (buf ++ soh :: more) = digitsOf buf := by
  induction buf with
  | nil => exact List.takeWhile_cons_of_neg (by decide)
  | cons b buf ih =>
    unfold digitsOf at ih ⊢
    rw [List.cons_append, List.takeWhile_cons, List.takeWhile_cons, ih]

lemma digitsOf_of_digits {buf : List Byte} (h : ∀ b ∈ buf, IsDigit b) : digitsOf buf = buf :=
  List.takeWhile_eq_self_iff.mpr (by simpa using h)

lemma mem_of_once (h : fs.filter (fun g => value g.tag = t) = [f]) : f ∈ fs ∧ value f.tag = t := by
  have hmem : f ∈ fs.filter fun g => value g.tag = t := by
    rw [h]
    simp
  simpa using List.mem_filter.mp hmem

lemma eq_of_once (h : fs.filter (fun g => value g.tag = t) = [f]) {g : RawField} (hg : g ∈ fs)
    (ht : value g.tag = t) : g = f := by
  have hmem : g ∈ fs.filter fun g => value g.tag = t := List.mem_filter.mpr ⟨hg, by simpa using ht⟩
  rw [h] at hmem
  exact List.mem_singleton.mp hmem

lemma inFrontOf_append (hbefore : ∀ g ∈ before, value g.tag ≠ t) (ht : value f.tag = t) :
    inFrontOf t (before ++ f :: behind) = before := by
  rw [inFrontOf, List.takeWhile_append_of_pos (by simpa using hbefore),
    List.takeWhile_cons_of_neg (by simpa using ht), List.append_nil]

lemma known_of {tag val : List Byte} (hds : ∀ b ∈ tag, IsDigit b) (h0 : value tag ≠ 0)
    (hlt : value tag < maxFixTag) (hval : soh ∉ val) : Known ⟨tag, val⟩ := ⟨⟨hds, h0, hval⟩, hlt⟩

namespace FieldMessage

variable (m : FieldMessage)

lemma all_known : ∀ f ∈ m.all, Known f := by
  have hdigits : soh ∉ m.bodyLen := fun h => absurd (m.bodyLen_digits soh h) (by decide)
  intro f hf
  simp only [all, rest, List.mem_cons, List.mem_append, List.not_mem_nil, or_false] at hf
  rcases hf with rfl | rfl | rfl | hf | rfl
  · exact known_of (by decide +kernel) (by decide) (by decide) m.version_soh
  · exact known_of (by decide +kernel) (by decide) (by decide) hdigits
  · exact known_of (by decide +kernel) (by decide) (by decide) m.msgType_soh
  · exact m.fields_known f hf
  · exact known_of (by decide +kernel) (by decide) (by decide) m.sum_soh

/-- A field that stands once splits the message. -/
lemma split (ht : t ∈ [34, 49, 56]) : ∃ before f behind, m.all = before ++ f :: behind ∧
    inFrontOf t m.all = before ∧ value f.tag = t ∧
    m.fields.filter (fun g => value g.tag = t) = [f] ∧ ∀ g ∈ behind, value g.tag ≠ t := by
  obtain ⟨f, hf⟩ := m.once t ht
  have hall : m.all.filter (fun g => value g.tag = t) = [f] := by
    have h8 : value [56] ≠ t := by rintro rfl; revert ht; decide
    have h9 : value [57] ≠ t := by rintro rfl; revert ht; decide
    have h35 : value [51, 53] ≠ t := by rintro rfl; revert ht; decide
    have h10 : value [49, 48] ≠ t := by rintro rfl; revert ht; decide
    simp [all, rest, List.filter_append, hf, h8, h9, h35, h10]
  obtain ⟨before, behind, hsplit, hbefore, htag, hafter⟩ := List.filter_eq_cons_iff.mp hall
  have htag : value f.tag = t := by simpa using htag
  refine ⟨before, f, behind, hsplit, ?_, htag, hf, ?_⟩
  · rw [hsplit]
    exact inFrontOf_append (by simpa using hbefore) htag
  · simpa using List.filter_eq_nil_iff.mp hafter

/-! ### Where the parts stand -/

def fromType : List Byte := ended soh m.searched

def fromLength : List Byte := m.bodyLen ++ soh :: ([51, 53, 61] ++ m.fromType)

lemma bytes_eq : m.bytes = AcceptorFraming.front m.version ++ m.fromLength := by
  have htype : m.fromType = m.msgType ++ soh :: encode m.rest := by
    rw [fromType, searched, ended_cons, encode]
  simp only [bytes, all, encode_cons, fromLength, htype, AcceptorFraming.front,
    AcceptorFraming.bodyLengthPattern]
  simp [equal]

lemma fromType_length : m.bytes.length = m.msgTypePos + m.fromType.length := by
  rw [bytes_eq, fromLength, msgTypePos]
  simp only [List.length_append, List.length_cons, List.length_nil, AcceptorFraming.front_length]
  omega

lemma bytes_length :
    m.bytes.length =
      m.version.length + 5 + m.bodyLen.length + 1 + value m.bodyLen + checksumSize := by
  have htrailer : (encode [⟨[49, 48], m.sum⟩]).length = checksumSize := by
    simp [encode, part, ended, m.sum_length, checksumSize]
  have htype : m.fromType =
      m.msgType ++ soh :: (encode m.fields ++ encode [⟨[49, 48], m.sum⟩]) := by
    rw [fromType, searched, ended_cons, ← encode_append, rest, encode]
  rw [m.bodyLen_value, bytes_eq, fromLength, htype]
  simp only [List.length_append, List.length_cons, List.length_nil, AcceptorFraming.front_length,
    htrailer]
  omega

lemma bytes_drop_type : m.bytes.drop m.msgTypePos = m.fromType := by
  have hsplit : m.bytes =
      (AcceptorFraming.front m.version ++ m.bodyLen ++ [soh, 51, 53, 61]) ++ m.fromType := by
    rw [bytes_eq, fromLength]
    simp
  have hlen : (AcceptorFraming.front m.version ++ m.bodyLen ++ [soh, 51, 53, 61]).length =
      m.msgTypePos := by
    simp only [List.length_append, List.length_cons, List.length_nil, AcceptorFraming.front_length,
      msgTypePos]
    omega
  rw [hsplit, ← hlen, List.drop_left]

lemma fromType_drop {b : List (List Byte)} {q : List Byte} {k : ℕ}
    (h : FirstMet seqPattern m.searched b q k) :
    ∃ more, m.fromType.drop ((ended soh b).length + k + 3) = q.drop (k + 3) ++ soh :: more := by
  obtain ⟨⟨behind, hsplit⟩, -, hmet⟩ := h
  have hle := hmet.length_le
  have hk : k + 3 ≤ q.length := hle
  refine ⟨ended soh behind, ?_⟩
  rw [fromType, hsplit, ended_append, ended_cons, Nat.add_assoc, List.drop_length_add_append,
    List.drop_append_of_le_length hk]

variable {m} {pre more : List Byte} {tail : ℤ}

/-- `process_new_data` comes to the type of a message that is complete. -/
lemma nextMsg_eq_cutMsg (hint : m.bytes.length < 2 ^ 31)
    (htail : (pre.length : ℤ) + m.bytes.length ≤ tail) :
    nextMsg m.version.length (pre ++ (m.bytes ++ more)) pre.length tail =
      cutMsg (pre ++ (m.bytes ++ more)) pre.length tail (pre.length + m.msgTypePos)
        m.bytes.length := by
  have hlen := m.bytes_length
  have hdigits : soh ∉ m.bodyLen := fun h => absurd (m.bodyLen_digits soh h) (by decide)
  have hmem : m.bytes ++ more = AcceptorFraming.front m.version ++
      (m.bodyLen ++ soh :: ([51, 53, 61] ++ m.fromType ++ more)) := by
    rw [bytes_eq, fromLength]
    simp
  have hbody : 3 ≤ value m.bodyLen := by
    rw [m.bodyLen_value]
    simp only [List.length_append, List.length_cons]
    omega
  have hc : checksumSize = 7 := rfl
  have h12 : 12 ≤ tail - pre.length := by omega
  have hhead := AcceptorFraming.header_front m.version pre h12 (by omega)
    (m.bodyLen ++ soh :: ([51, 53, 61] ++ m.fromType ++ more))
  rw [scanSohFrom_found hdigits (by omega), ReceiverBounds.takeWhile_digits m.bodyLen_digits,
    ← hmem] at hhead
  have hwrapped : ReceiverBounds.wrappedLen pre.length
      (pre.length + m.version.length + 5 + m.bodyLen.length) (value m.bodyLen) =
        m.bytes.length := by
    rw [ReceiverBounds.wrappedLen, ← bmod_of_lt hint]
    congr 1
    omega
  have hpos : (pre.length : ℤ) + m.version.length + 5 + m.bodyLen.length + 4 =
      pre.length + m.msgTypePos := by
    rw [msgTypePos]
    omega
  rw [ReceiverBounds.nextMsg_eq, hhead]
  simp only [Option.map_some, Option.bind_some, hpos, hwrapped]

/-- **The number is that behind the place that is met.** -/
lemma nextMsg_number (hint : m.bytes.length < 2 ^ 31)
    (htail : (pre.length : ℤ) + m.bytes.length ≤ tail) {b : List (List Byte)} {q : List Byte}
    {k : ℕ} (hfirst : FirstMet seqPattern m.searched b q k) :
    nextMsg m.version.length (pre ++ (m.bytes ++ more)) pre.length tail =
      some (.msg (.new m.bytes m.msgTypePos (ulong (value (digitsOf (q.drop (k + 3))))))
        m.bytes.length) := by
  have hmet : Met seqPattern m.fromType ((ended soh b).length + k) :=
    (met_ended_iff (by decide) (by decide) _).mpr ⟨b, q, k, hfirst, rfl⟩
  have hle : (ended soh b).length + k + 3 ≤ m.fromType.length := hmet.length_le
  have htype := m.fromType_length
  obtain ⟨behind, hdrop⟩ := m.fromType_drop hfirst
  generalize (ended soh b).length + k = i at hmet hle hdrop
  have hdata : bytesFrom (pre ++ (m.bytes ++ more)) pre.length = some (m.bytes ++ more) :=
    bytesFrom_append pre rfl rfl
  have hfrom : bytesFrom (pre ++ (m.bytes ++ more)) (pre.length + m.msgTypePos) =
      some (m.fromType ++ more) := by
    rw [bytesFrom_inside m.msgTypePos rfl rfl (by omega), m.bytes_drop_type]
  have hseq : bytesFrom (pre ++ (m.bytes ++ more))
      (pre.length + m.msgTypePos + i + seqPatternLength) =
        some (q.drop (k + 3) ++ soh :: behind ++ more) := by
    have hpos : (pre.length : ℤ) + m.msgTypePos + i + seqPatternLength =
        pre.length + (m.msgTypePos + (i + 3) : ℕ) := by
      simp only [seqPatternLength]
      omega
    rw [hpos, bytesFrom_inside (m.msgTypePos + (i + 3)) rfl rfl (by omega), ← List.drop_drop,
      m.bytes_drop_type, hdrop]
  have hnum : convertAtoll (q.drop (k + 3) ++ soh :: behind ++ more) =
      some (ulong (value (digitsOf (q.drop (k + 3))))) := by
    rw [ReceiverBounds.convertAtoll_of_soh (by simp), List.append_assoc, List.cons_append]
    exact congrArg (fun l => some (ulong (value l))) (digitsOf_append_soh _ _)
  have hdataLen : ((m.bytes.length : ℤ) - (pre.length + m.msgTypePos - pre.length)).bmod (2 ^ 32) =
      m.fromType.length := by
    rw [← bmod_of_lt (show m.fromType.length < 2 ^ 31 by omega)]
    congr 1
    omega
  rw [nextMsg_eq_cutMsg hint htail, cutMsg, if_neg (by omega)]
  simp only [Option.bind_eq_bind, Option.bind_some, hdataLen, hfrom, Seek.seek_of_met hmet more,
    hseq, hnum, hdata]
  rw [if_neg (by omega)]
  simp

end FieldMessage

/-! ### The lookups -/

/-- `seek` and `get_field` agree on a field that stands once, exactly where it is the first that is
met. -/
lemma seek_field (m : FieldMessage) {p : FieldsParser} (hpast : Past p)
    (hnone : p.rgDictionary = none) {t : ℕ} (ht : t ∈ [34, 49, 56]) (more : List Byte) :
    ∃ (i : ℕ) (info : FieldInfo),
      seek (m.bytes ++ more) m.bytes.length (decimal t ++ [equal]) = some (i : ℤ) ∧
      (p.parse m.bytes).1.getField t = some info ∧
      (i + (decimal t ++ [equal]).length = info.val ↔
        ∀ f ∈ inFrontOf t m.all, ∀ k, ¬ Met (decimal t ++ [equal]) (part f) k) := by
  obtain ⟨before, f, behind, hsplit, hfront, htag, -, hafter⟩ := m.split ht
  have h0 : t ≠ 0 := by rintro rfl; revert ht; decide
  have hknown : ∀ g ∈ before ++ f :: behind, Known g := hsplit ▸ m.all_known
  obtain ⟨i, hmet, hi⟩ := met_encode h0 (hknown f (by simp)).1 htag before behind
  obtain ⟨info, hinfo, hval⟩ := getField_encode hpast hnone hknown (htag ▸ hafter)
  rw [htag] at hinfo
  rw [← hval, ← hfront] at hi
  rw [← hsplit] at hmet hinfo
  exact ⟨i, info, Seek.seek_of_met hmet more, hinfo, hi⟩

/-- `get_field` finds the number, and it is read from there. -/
lemma getField_seq (m : FieldMessage) {p : FieldsParser} (hpast : Past p)
    (hnone : p.rgDictionary = none) :
    ∃ f info, m.fields.filter (fun g => value g.tag = 34) = [f] ∧
      (p.parse m.bytes).1.getField 34 = some info ∧
      convertAtoll (m.bytes.drop info.val) = some (ulong (value f.val)) := by
  obtain ⟨before, f, behind, hsplit, -, htag, hfilter, hbehind⟩ := m.split (t := 34) (by decide)
  have hknown : ∀ g ∈ before ++ f :: behind, Known g := hsplit ▸ m.all_known
  obtain ⟨info, hinfo, hval⟩ := getField_encode hpast hnone hknown (htag ▸ hbehind)
  have hbytes : m.bytes =
      (encode before ++ f.tag ++ [equal]) ++ (f.val ++ soh :: encode behind) := by
    rw [FieldMessage.bytes, hsplit, encode_append, encode_cons]
    simp
  have hlen : (encode before ++ f.tag ++ [equal]).length = info.val := by
    rw [hval]
    simp only [List.length_append, List.length_singleton]
  have hdigits := m.seq_digits f (mem_of_once hfilter).1 htag
  rw [htag, ← hsplit] at hinfo
  refine ⟨f, info, hfilter, hinfo, ?_⟩
  rw [hbytes, ← hlen, List.drop_left, convertAtoll, scanDigits_append hdigits (by decide),
    foldl_ulongDigit hdigits]

lemma exists_seq (m : FieldMessage) : ∃ before q k, FirstMet seqPattern m.searched before q k := by
  obtain ⟨f, hf⟩ := m.once 34 (by decide)
  obtain ⟨hfield, htag⟩ := mem_of_once hf
  obtain ⟨z, -, hmet⟩ := met_part (t := 34) (by decide) (m.fields_known f hfield).1 htag
  have hsearched : part f ∈ m.searched := by
    refine List.mem_cons_of_mem _ (List.mem_map_of_mem ?_)
    exact List.mem_append_left _ hfield
  exact exists_firstMet hsearched hmet

/-- A pattern that is in no field in front meets none of them. -/
lemma clear_of_not_infix (m : FieldMessage) (htype : ¬ seqPattern <:+: m.msgType)
    (hseq : ∀ f ∈ inFrontOf 34 m.fields, ¬ seqPattern <:+: part f)
    (hsender : ∀ f ∈ inFrontOf 49 m.all, ¬ senderCompIdPattern <:+: part f)
    (htarget : ∀ f ∈ inFrontOf 56 m.all, ¬ targetCompIdPattern <:+: part f) : Clear m := by
  refine ⟨?_, fun f hf k hk => hsender f hf hk.infix, fun f hf k hk => htarget f hf hk.infix⟩
  obtain ⟨f, hf⟩ := m.once 34 (by decide)
  obtain ⟨hfield, htag⟩ := mem_of_once hf
  obtain ⟨before, behind, hsplit, hbefore, -⟩ := List.filter_eq_cons_iff.mp hf
  have hfront : inFrontOf 34 m.fields = before := by
    rw [hsplit]
    exact inFrontOf_append (by simpa using hbefore) htag
  obtain ⟨z, hz, hmet⟩ := met_part (by decide) (m.fields_known f hfield).1 htag
  have hpattern : decimal 34 ++ [equal] = seqPattern := by decide
  rw [hpattern] at hz hmet
  have hreal : FirstMet seqPattern m.searched (m.msgType :: before.map part) (part f) z := by
    refine ⟨⟨(behind ++ [(⟨[49, 48], m.sum⟩ : RawField)]).map part, ?_⟩, ?_, hmet⟩
    · simp [FieldMessage.searched, FieldMessage.rest, hsplit]
    · intro q hq k hk
      rcases List.mem_cons.mp hq with rfl | hq
      · exact htype hk.infix
      · obtain ⟨g, hg, rfl⟩ := List.mem_map.mp hq
        exact hseq g (hfront ▸ hg) hk.infix
  intro before' q k hfirst g hg hgtag
  obtain ⟨-, rfl, rfl⟩ := hreal.unique hfirst
  obtain rfl := eq_of_once hf hg hgtag
  have hpart : part g = (g.tag ++ [equal]) ++ g.val := by simp [part]
  have hlen : (g.tag ++ [equal]).length = z + 3 := by
    rw [List.length_append, List.length_singleton, ← hz]
    rfl
  rw [hpart, ← hlen, List.drop_left, digitsOf_of_digits (m.seq_digits g hg hgtag)]

/-- **The lookups agree with `parse`** if and only if they meet no other field. -/
theorem agree_iff_clear (m : FieldMessage) (earlier : List (Option RGroupsDictionary × List Byte))
    (pre more : List Byte) {tail : ℤ} (tPos : ℤ) (hint : m.bytes.length < 2 ^ 31)
    (htail : (pre.length : ℤ) + m.bytes.length ≤ tail) :
    Agree m (((after earlier).setRgDictionary none).parse m.bytes).1
        (nextMsg m.version.length (pre ++ (m.bytes ++ more)) pre.length tail)
        (validateCompId (m.bytes ++ more) m.bytes.length tPos) ↔ Clear m := by
  have hpast := (after_past earlier).setRgDictionary none
  have hnone : ((after earlier).setRgDictionary none).rgDictionary = none := rfl
  generalize (after earlier).setRgDictionary none = p at hpast hnone ⊢
  obtain ⟨f, seq, hfilter, hseq, hread⟩ := getField_seq m hpast hnone
  obtain ⟨i, sender, hseekS, hsender, hi⟩ := seek_field m hpast hnone (t := 49) (by decide) more
  obtain ⟨j, target, hseekT, htarget, hj⟩ := seek_field m hpast hnone (t := 56) (by decide) more
  obtain ⟨before, q, k, hfirst⟩ := exists_seq m
  have hsenderPattern : decimal 49 ++ [equal] = senderCompIdPattern := by decide
  have htargetPattern : decimal 56 ++ [equal] = targetCompIdPattern := by decide
  rw [hsenderPattern] at hseekS hi
  rw [htargetPattern] at hseekT hj
  rw [Nat.cast_ofNat] at hsender htarget
  have hids : validateCompId (m.bytes ++ more) m.bytes.length tPos =
      some (true, (i : ℤ) + 3, (j : ℤ) + 3) := by
    simp only [validateCompId, hseekS, hseekT, Option.bind_eq_bind, Option.bind_some]
    rw [if_neg (by omega), if_neg (by omega)]
  obtain ⟨hf, htag⟩ := mem_of_once hfilter
  rw [FieldMessage.nextMsg_number hint htail hfirst, hids]
  constructor
  · rintro ⟨msg, len, seq', sender', target', hround, hpos, hseq', hread', hsender', htarget'⟩
    obtain ⟨rfl, -⟩ := Round.msg.inj (Option.some.inj hround)
    rw [hseq, Option.some.injEq] at hseq'
    rw [hsender, Option.some.injEq] at hsender'
    rw [htarget, Option.some.injEq] at htarget'
    subst hseq' hsender' htarget'
    obtain ⟨hposS, hposT⟩ := Prod.mk.inj (Prod.mk.inj (Option.some.inj hpos)).2
    refine ⟨?_, hi.mp ?_, hj.mp ?_⟩
    · intro before' q' k' hfirst' g hg htag
      obtain ⟨-, rfl, rfl⟩ := hfirst.unique hfirst'
      rw [eq_of_once hfilter hg htag]
      exact Option.some.inj (hread'.symm.trans hread)
    · exact_mod_cast hposS
    · exact_mod_cast hposT
  · rintro ⟨hs, hclearS, hclearT⟩
    refine ⟨_, _, seq, sender, target, rfl, ?_, hseq, ?_, hsender, htarget⟩
    · rw [← hi.mpr hclearS, ← hj.mpr hclearT]
      rfl
    · rw [hread, ← hs before q k hfirst f hf htag]
      rfl

/-- `1156=1`, `34=1`, `49=A`, `56=B`. -/
def applExtFields : List RawField :=
  [⟨[49, 49, 53, 54], [49]⟩, ⟨[51, 52], [49]⟩, ⟨[52, 57], [65]⟩, ⟨[53, 54], [66]⟩]

lemma applExtFields_known : ∀ f ∈ applExtFields, Known f := by
  unfold Known RawField.Ok
  decide +kernel

lemma applExtFields_once :
    ∀ t ∈ [34, 49, 56], ∃ f, applExtFields.filter (fun f => value f.tag = t) = [f] := by
  intro t ht
  simp only [List.mem_cons, List.not_mem_nil, or_false] at ht
  rcases ht with rfl | rfl | rfl
  · exact ⟨⟨[51, 52], [49]⟩, by decide⟩
  · exact ⟨⟨[52, 57], [65]⟩, by decide⟩
  · exact ⟨⟨[53, 54], [66]⟩, by decide⟩

lemma applExtFields_seq : ∀ f ∈ applExtFields, value f.tag = 34 → ∀ b ∈ f.val, IsDigit b := by
  decide +kernel

lemma applExtFields_length : value [50, 55] =
    ([51, 53, 61] ++ [48] ++ soh :: encode applExtFields).length := by decide

lemma sum_length_zeros : ([48, 48, 48] : List Byte).length = 3 := rfl

lemma noSoh : soh ∉ ([70] : List Byte) ∧ soh ∉ ([48] : List Byte) ∧
    soh ∉ ([48, 48, 48] : List Byte) := by decide

lemma isDigit_twentySeven : ∀ b ∈ ([50, 55] : List Byte), IsDigit b := by decide +kernel

/-- `8=F`, `9=27`, `35=0`, these fields and the trailer. -/
def withApplExtId : FieldMessage where
  version := [70]
  bodyLen := [50, 55]
  msgType := [48]
  fields := applExtFields
  sum := [48, 48, 48]
  version_soh := noSoh.1
  bodyLen_digits := isDigit_twentySeven
  msgType_soh := noSoh.2.1
  sum_soh := noSoh.2.2
  sum_length := sum_length_zeros
  fields_known := applExtFields_known
  once := applExtFields_once
  seq_digits := applExtFields_seq
  bodyLen_value := applExtFields_length

theorem agree_iff_clear_withApplExtId :
    Agree withApplExtId (((after []).setRgDictionary none).parse withApplExtId.bytes).1
        (nextMsg withApplExtId.version.length ([] ++ (withApplExtId.bytes ++ []))
          ([] : List Byte).length 47)
        (validateCompId (withApplExtId.bytes ++ []) withApplExtId.bytes.length 0) ↔
      Clear withApplExtId :=
  agree_iff_clear withApplExtId [] [] [] 0 (by decide) (by decide)

/-- The name of the other side is taken from the value of field `1156`. -/
theorem not_agree_withApplExtId :
    ¬ Agree withApplExtId (((after []).setRgDictionary none).parse withApplExtId.bytes).1
        (nextMsg withApplExtId.version.length withApplExtId.bytes 0 withApplExtId.bytes.length)
        (validateCompId withApplExtId.bytes withApplExtId.bytes.length 0) := by
  rintro ⟨msg, len, seq, sender, target, -, hpos, -, -, -, htarget⟩
  have hids : validateCompId withApplExtId.bytes withApplExtId.bytes.length 0 =
      some (true, 29, 19) := by decide
  have hfield : ((((after []).setRgDictionary none).parse withApplExtId.bytes).1.getField 56).map
      FieldInfo.val = some 34 := by decide +kernel
  rw [htarget, Option.map_some, Option.some.injEq] at hfield
  rw [hids, hfield] at hpos
  exact absurd (Prod.mk.inj (Prod.mk.inj (Option.some.inj hpos)).2).2 (by decide)

end Ufix.HeaderLookup
