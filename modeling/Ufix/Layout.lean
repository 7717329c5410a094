import Mathlib.Algebra.BigOperators.Ring.List
import Ufix.WMessage

/-!
The trailer and the bytes filled in late, for any message that has places for its body length,
its number and its two times.
-/

namespace Ufix

open Ufix.Decimal Ufix.TagValue

/-- The bytes of a message around its four late places. -/
structure Layout where
  head : List Byte
  afterLength : List Byte
  afterSeq : List Byte
  afterTime : List Byte
  rest : List Byte

namespace Layout

def bytes (l : Layout) (len seq time origTime : List Byte) : List Byte :=
  l.head ++ len ++ (l.afterLength ++ seq ++ l.afterSeq ++ time ++ l.afterTime ++ origTime ++ l.rest)

def seqPos (l : Layout) (len : List Byte) : ℕ := l.head.length + len.length + l.afterLength.length

def timePos (l : Layout) (len seq : List Byte) : ℕ := l.seqPos len + seq.length + l.afterSeq.length

variable (l : Layout) (len tail : List Byte) {seq seq' time time' origTime origTime' : List Byte}

variable (time origTime) in
lemma patch_seq (h : seq'.length = seq.length) :
    patch (l.bytes len seq time origTime ++ tail) (l.seqPos len) seq' =
      some (l.bytes len seq' time origTime ++ tail) := by
  rw [patch_eq (a := l.head ++ len ++ l.afterLength) (b := seq)
    (c := l.afterSeq ++ time ++ l.afterTime ++ origTime ++ l.rest ++ tail) ?_ ?_ h]
  · simp [bytes]
  · simp [bytes]
  · simp [seqPos, Nat.add_assoc]

variable (seq origTime) in
lemma patch_time (h : time'.length = time.length) :
    patch (l.bytes len seq time origTime ++ tail) (l.timePos len seq) time' =
      some (l.bytes len seq time' origTime ++ tail) := by
  rw [patch_eq (a := l.head ++ len ++ l.afterLength ++ seq ++ l.afterSeq) (b := time)
    (c := l.afterTime ++ origTime ++ l.rest ++ tail) ?_ ?_ h]
  · simp [bytes]
  · simp [bytes]
  · simp [timePos, seqPos, Nat.add_assoc]

variable (seq time) in
lemma patch_origTime (h : origTime'.length = origTime.length) :
    patch (l.bytes len seq time origTime ++ tail)
        (l.timePos len seq + (time.length + l.afterTime.length)) origTime' =
      some (l.bytes len seq time origTime' ++ tail) := by
  rw [patch_eq (a := l.head ++ len ++ l.afterLength ++ seq ++ l.afterSeq ++ time ++ l.afterTime)
    (b := origTime) (c := l.rest ++ tail) ?_ ?_ h]
  · simp [bytes]
  · simp [bytes]
  · simp [timePos, seqPos, Nat.add_assoc]

end Layout

def zeros (n : ℕ) : List Byte := List.replicate n (digit 0)

@[simp] lemma zeros_length (n : ℕ) : (zeros n).length = n := List.length_replicate

def trailer (data : List Byte) : List Byte := encode (checksum, padded 3 (byteSum data % 256))

lemma trailer_eq (data : List Byte) :
    trailer data = decimal checksum ++ [equal] ++ padded 3 (byteSum data % 256) ++ [soh] := by
  simp [trailer, encode, soh, endOfField]

@[simp] lemma trailer_length (data : List Byte) : (trailer data).length = checksumSize := by
  have h10 : (decimal checksum ++ [equal]).length = checksumTagPartSize := by decide
  rw [trailer_eq, List.length_append, List.length_append, h10, padded_length]
  rfl

lemma patch_checksum (d : List Byte) {sum sum' : List Byte} (hsum : sum.length = 3)
    (hsum' : sum'.length = 3) :
    patch (d ++ (decimal checksum ++ [equal] ++ sum ++ [soh]))
        ((d ++ (decimal checksum ++ [equal] ++ sum ++ [soh])).length - checksumValuePartSize) sum' =
      some (d ++ (decimal checksum ++ [equal] ++ sum' ++ [soh])) := by
  rw [patch_eq (a := d ++ (decimal checksum ++ [equal])) (b := sum) (c := [soh]) ?_ ?_ ?_]
  · simp
  · simp
  · simp only [checksumValuePartSize, List.length_append, List.length_cons, List.length_nil, hsum]
    omega
  · rw [hsum, hsum']

lemma drop_checksumValue (d data : List Byte) :
    (d ++ trailer data).drop ((d ++ trailer data).length - checksumValuePartSize) =
      padded 3 (byteSum data % 256) ++ [soh] := by
  have hlen : (padded 3 (byteSum data % 256) ++ [soh]).length = checksumValuePartSize := by
    simp [checksumValuePartSize]
  rw [trailer_eq, List.append_assoc _ (padded _ _), ← List.append_assoc, List.length_append, hlen,
    Nat.add_sub_cancel, List.drop_left]

lemma convertAtoi_checksum (d data : List Byte) :
    convertAtoi ((d ++ trailer data).drop ((d ++ trailer data).length - checksumValuePartSize)) =
      some ((byteSum data % 256 : ℕ) : ℤ) := by
  have hlt : byteSum data % 256 < 10 ^ 3 := by omega
  have hsoh : ¬ IsDigit soh := by decide
  rw [drop_checksumValue, convertAtoi, scanDigits_append (fun b => isDigit_of_mem_padded) hsoh,
    foldl_intDigit fun b => isDigit_of_mem_padded, value_padded_of_lt hlt, bmod_of_lt (by omega)]

lemma preFinalize_of_convert {m : WMessage} {d : List Byte}
    (h : convertItoaTo ((m.data.length : ℤ) - m.bodyLengthPos - m.maxBodyLengthSize - 1)
      m.bodyEndPos m.data = some d) :
    m.preFinalize = some { m with data := d ++ trailer d, status := .preFin } := by
  have htag : ({ m with data := d } : WMessage).setTag checksum =
      some { m with data := d ++ decimal checksum ++ [equal] } :=
    WMessage.setTag_natCast { m with data := d } (by decide)
  have htake : (d ++ decimal checksum ++ [equal]).take
      ((d ++ decimal checksum ++ [equal]).length - checksumTagPartSize) = d := by
    have h3 : (decimal checksum ++ [equal]).length = checksumTagPartSize := by decide
    rw [List.append_assoc, List.length_append, h3, Nat.add_sub_cancel, List.take_left]
  simp only [WMessage.preFinalize, h, htag, htake, Option.bind_eq_bind, Option.bind_some]
  rw [setChecksum_congr (foldl_charVal_modEq d), trailer_eq]
  simp only [List.append_assoc]

lemma preFinalize_eq_some {m m' : WMessage} (h : m.preFinalize = some m') :
    ∃ d, convertItoaTo ((m.data.length : ℤ) - m.bodyLengthPos - m.maxBodyLengthSize - 1)
        m.bodyEndPos m.data = some d ∧
      m' = { m with data := d ++ trailer d, status := .preFin } := by
  cases hd : convertItoaTo ((m.data.length : ℤ) - m.bodyLengthPos - m.maxBodyLengthSize - 1)
      m.bodyEndPos m.data with
  | none =>
    simp only [WMessage.preFinalize, hd, Option.bind_eq_bind, Option.bind_none] at h
    cases h
  | some d =>
    rw [preFinalize_of_convert hd] at h
    exact ⟨d, rfl, (Option.some.inj h).symm⟩

lemma preFinalize_length {m m' : WMessage} (h : m.preFinalize = some m') :
    m'.data.length = m.data.length + checksumSize := by
  obtain ⟨d, hd, rfl⟩ := preFinalize_eq_some h
  rw [List.length_append, trailer_length, convertItoaTo_length hd]

lemma preFinalize_eq {m : WMessage} (pre body : List Byte) {w : ℕ} (hw : 1 ≤ w)
    (hpos : m.bodyLengthPos = pre.length) (hend : m.bodyEndPos = pre.length + w)
    (hmax : m.maxBodyLengthSize = w) (hdata : m.data = pre ++ zeros w ++ soh :: body)
    (hlen : body.length < 10 ^ w) :
    m.preFinalize = some { m with
      data := pre ++ padded w body.length ++ soh :: body ++
        trailer (pre ++ padded w body.length ++ soh :: body)
      status := .preFin } := by
  have hvalue : (m.data.length : ℤ) - m.bodyLengthPos - m.maxBodyLengthSize - 1 =
      body.length := by
    rw [hdata, hpos, hmax]
    simp only [List.length_append, zeros_length, List.length_cons]
    push_cast
    omega
  have hput : convertItoaTo body.length m.bodyEndPos m.data =
      some (pre ++ padded w body.length ++ soh :: body) := by
    rw [hdata, hend, zeros, convertItoaTo_zeros pre _ hw hlen]
  rw [preFinalize_of_convert (by rw [hvalue, hput])]

lemma finalizeNew_new {m m' : WMessage} {p₁ p₂ : ℕ} {seq time : List Byte} (hm : m.status = .new)
    (hp : m.preFinalize = some m') (hm' : m'.status = .preFin) :
    m.finalizeNew p₁ seq p₂ time = m'.finalizeNew p₁ seq p₂ time := by
  simp only [WMessage.finalizeNew, hm, hm', hp, if_true, reduceCtorEq, if_false,
    Option.bind_eq_bind, Option.bind_some]

/-- The sum over zeros and the differences make the sum over the bytes put in their place. -/
lemma finalizeNew_sum (l : Layout) (len seq time : List Byte) :
    setChecksum (time.foldl (fun cks b => uint (cks + uint (charVal b - 48) * 2))
      (seq.foldl (fun cks b => uint (cks + uint (charVal b - 48)))
        (uint ((byteSum (l.bytes len (zeros seq.length) (zeros time.length)
          (zeros time.length)) % 256 : ℕ) : ℤ)))) =
    padded 3 (byteSum (l.bytes len seq time time) % 256) := by
  have hdigit : ∀ b : Byte, (uint (charVal b - 48) : ℤ) ≡ (b.toNat : ℤ) - 48 [ZMOD 256] :=
    fun b => (uint_modEq _).trans ((charVal_modEq b).sub_right 48)
  have hseq := byteSum_replicate seq
  have htime := byteSum_replicate time
  have htwice : (time.map fun b => ((b.toNat : ℤ) - 48) * 2).sum =
      (time.map fun b => (b.toNat : ℤ) - 48).sum * 2 := List.sum_map_mul_right ..
  have hall : (byteSum (l.bytes len seq time time) : ℤ) =
      byteSum (l.bytes len (zeros seq.length) (zeros time.length) (zeros time.length)) +
        (seq.map fun b => (b.toNat : ℤ) - 48).sum +
        (time.map fun b => ((b.toNat : ℤ) - 48) * 2).sum := by
    simp only [Layout.bytes, byteSum_append, zeros, htwice]
    push_cast
    omega
  generalize byteSum (l.bytes len (zeros seq.length) (zeros time.length) (zeros time.length)) = old
    at hall ⊢
  apply setChecksum_congr
  calc ((time.foldl (fun cks b => uint (cks + uint (charVal b - 48) * 2))
        (seq.foldl (fun cks b => uint (cks + uint (charVal b - 48)))
          (uint ((old % 256 : ℕ) : ℤ))) : ℕ) : ℤ)
      ≡ (seq.foldl (fun cks b => uint (cks + uint (charVal b - 48)))
          (uint ((old % 256 : ℕ) : ℤ)) : ℕ) +
          (time.map fun b => ((b.toNat : ℤ) - 48) * 2).sum [ZMOD 256] :=
        foldl_uint_modEq (fun b => (hdigit b).mul_right 2) _ time
    _ ≡ (uint ((old % 256 : ℕ) : ℤ) : ℤ) + (seq.map fun b => (b.toNat : ℤ) - 48).sum +
          (time.map fun b => ((b.toNat : ℤ) - 48) * 2).sum [ZMOD 256] :=
        (foldl_uint_modEq hdigit _ seq).add_right _
    _ ≡ ((old % 256 : ℕ) : ℤ) + (seq.map fun b => (b.toNat : ℤ) - 48).sum +
          (time.map fun b => ((b.toNat : ℤ) - 48) * 2).sum [ZMOD 256] :=
        ((uint_modEq _).add_right _).add_right _
    _ ≡ (old : ℤ) + (seq.map fun b => (b.toNat : ℤ) - 48).sum +
          (time.map fun b => ((b.toNat : ℤ) - 48) * 2).sum [ZMOD 256] := by
        rw [Int.natCast_mod]
        exact ((Int.mod_modEq _ 256).add_right _).add_right _
    _ = byteSum (l.bytes len seq time time) := hall.symm

/-- The number and the time get to their places and the checksum stays right. -/
lemma finalizeNew_eq (l : Layout) {m : WMessage} {len seq time old : List Byte} {p₁ p₂ : ℕ}
    (hm : m.status = .preFin)
    (hold : old = l.bytes len (zeros seq.length) (zeros time.length) (zeros time.length))
    (hdata : m.data = old ++ trailer old) (hp₁ : p₁ = l.seqPos len) (hp₂ : p₂ = l.timePos len seq)
    (hafter : time.length + l.afterTime.length = distanceSendingOrigSending) :
    m.finalizeNew p₁ seq p₂ time = some { m with
      data := l.bytes len seq time time ++ trailer (l.bytes len seq time time)
      seq := convertAtollLen seq } := by
  have hsum : convertAtoi (m.data.drop (m.data.length - checksumValuePartSize)) =
      some ((byteSum old % 256 : ℕ) : ℤ) := by
    rw [hdata, convertAtoi_checksum]
  have h1 := l.patch_seq len (trailer old) (zeros time.length) (zeros time.length)
    (zeros_length seq.length).symm
  have h2 := l.patch_time len (trailer old) seq (zeros time.length) (zeros_length time.length).symm
  have h3 := l.patch_origTime len (trailer old) seq time (zeros_length time.length).symm
  have h4 : patch (l.bytes len seq time time ++ trailer old)
      ((l.bytes len seq time time ++ trailer old).length - checksumValuePartSize)
      (padded 3 (byteSum (l.bytes len seq time time) % 256)) =
      some (l.bytes len seq time time ++ trailer (l.bytes len seq time time)) := by
    rw [trailer_eq, trailer_eq]
    exact patch_checksum _ (padded_length _ _) (padded_length _ _)
  have hcks := finalizeNew_sum l len seq time
  subst hp₁ hp₂
  rw [hafter] at h3
  rw [← hold] at h1 hcks
  simp only [WMessage.finalizeNew, hm, reduceCtorEq, if_false, Option.bind_eq_bind,
    Option.bind_some, hsum]
  rw [hdata, h1]
  simp only [Option.bind_some, h2, h3, hcks, h4]

end Ufix
