import Mathlib.Data.Int.ModEq
import Ufix.TagValue
import Ufix.Utils

/-!
A message being written, as `WMessage.cpp` lays it out: fields are appended, the trailer is
added by `pre_finalize`, and the number and the time are put in place just before sending.

The buffer is large enough, so it is given by the `data_len` bytes written so far; lengths stay
below `2^31`. A write outside them is `none`.
-/

namespace Ufix

open Ufix.Decimal Ufix.TagValue

def msgSeqNum : ℕ := 34
def checksum : ℕ := 10
def checksumTagPartSize : ℕ := 3
def checksumValuePartSize : ℕ := 4
def sendingTimeSize : ℕ := 21
def distanceSendingOrigSending : ℕ := sendingTimeSize + 5

inductive WStatus
  | new
  | preFin
  deriving DecidableEq, Repr

/-- `WMessage`, without what its queue needs; `seq` and the positions have no value at first. -/
structure WMessage where
  status : WStatus
  maxBodyLengthSize : ℕ
  data : List Byte
  seq : ℕ
  bodyLengthPos : ℕ
  bodyEndPos : ℕ
  deriving DecidableEq, Repr

/-- Arithmetic in `unsigned int`. -/
def uint (x : ℤ) : ℕ := (x % 2 ^ 32).toNat

/-- `memcpy` into the bytes written so far. -/
def patch (data : List Byte) (pos : ℕ) (bytes : List Byte) : Option (List Byte) :=
  if pos + bytes.length ≤ data.length then
    some (data.take pos ++ bytes ++ data.drop (pos + bytes.length))
  else none

/-- The three digits `set_checksum` writes. -/
def setChecksum (cks : ℕ) : List Byte :=
  let cks := cks % 256
  let digit₁ := cks / 100
  let cks := cks - digit₁ * 100
  let digit₂ := cks / 10
  let cks := cks - digit₂ * 10
  [itoc digit₁, itoc digit₂, itoc cks]

namespace WMessage

def new : WMessage := ⟨.new, 0, [], 0, 0, 0⟩

def setTag (m : WMessage) (tag : ℤ) : Option WMessage :=
  (convertItoa tag).map fun ds => { m with data := m.data ++ ds ++ [equal] }

def reserveField (m : WMessage) (tag : ℤ) (len : ℕ) : Option WMessage :=
  (m.setTag tag).map fun m => { m with data := m.data ++ List.replicate len (digit 0) ++ [soh] }

/-- `set_field(tag, value, len)`, with the `len` bytes at `value`. -/
def setField (m : WMessage) (tag : ℤ) (value : List Byte) : Option WMessage :=
  (m.setTag tag).map fun m => { m with data := m.data ++ value ++ [soh] }

def setFieldInt (m : WMessage) (tag value : ℤ) : Option WMessage :=
  (m.setTag tag).bind fun m =>
    (convertItoa value).map fun ds => { m with data := m.data ++ ds ++ [soh] }

def setFieldLong (m : WMessage) (tag value : ℤ) : Option WMessage :=
  (m.setTag tag).bind fun m =>
    (convertLtoa value).map fun ds => { m with data := m.data ++ ds ++ [soh] }

/-- A `ULONG` is passed on as a `long long`. -/
def setFieldUlong (m : WMessage) (tag : ℤ) (value : ℕ) : Option WMessage :=
  m.setFieldLong tag ((value : ℤ).bmod (2 ^ 64))

def setFieldChar (m : WMessage) (tag : ℤ) (value : Byte) : Option WMessage :=
  (m.setTag tag).map fun m => { m with data := m.data ++ [value] ++ [soh] }

/-- Calls of `set_field(tag, value, len)`, one after the other. -/
def setFields (m : WMessage) (fs : List (ℤ × List Byte)) : Option WMessage :=
  fs.foldlM (fun m f => m.setField f.1 f.2) m

/-- The body length goes to its place, then `10=` and the sum over all bytes before it. -/
def preFinalize (m : WMessage) : Option WMessage := do
  let bodyLength := (m.data.length : ℤ) - m.bodyLengthPos - m.maxBodyLengthSize - 1
  let data ← convertItoaTo bodyLength m.bodyEndPos m.data
  let m ← setTag { m with data := data } checksum
  let cks := (m.data.take (m.data.length - checksumTagPartSize)).foldl
    (fun cks b => uint (cks + charVal b)) 0
  some { m with data := m.data ++ setChecksum cks ++ [soh], status := .preFin }

/-- The number and the time, of `SENDING_TIME_SIZE` bytes, replace zeros: the checksum grows by
the difference, for the time twice. -/
def finalizeNew (m : WMessage) (msgSeqPos : ℕ) (msgSeq : List Byte) (sendingTimePos : ℕ)
    (utcTime : List Byte) : Option WMessage := do
  let m ← if m.status = .new then m.preFinalize else some m
  let cks ← convertAtoi (m.data.drop (m.data.length - checksumValuePartSize))
  let data ← patch m.data msgSeqPos msgSeq
  let cks := msgSeq.foldl (fun cks b => uint (cks + uint (charVal b - 48))) (uint cks)
  let data ← patch data sendingTimePos utcTime
  let data ← patch data (sendingTimePos + distanceSendingOrigSending) utcTime
  let cks := utcTime.foldl (fun cks b => uint (cks + uint (charVal b - 48) * 2)) cks
  let data ← patch data (data.length - checksumValuePartSize) (setChecksum cks)
  some { m with data := data, seq := convertAtollLen msgSeq }

/-! ### Appending fields -/

def append (m : WMessage) (fs : List Field) : WMessage :=
  { m with data := m.data ++ encodeAll fs }

lemma append_append (m : WMessage) (fs gs : List Field) :
    (m.append fs).append gs = m.append (fs ++ gs) := by
  simp [append, encodeAll_append]

end WMessage

def IsTag (tag : ℤ) : Prop := 0 < tag ∧ tag < 2 ^ 15

instance : DecidablePred IsTag := fun _ => inferInstanceAs (Decidable (_ ∧ _))

def toField (f : ℤ × List Byte) : Field := (f.1.toNat, f.2)

namespace WMessage

lemma setTag_natCast (m : WMessage) {tag : ℕ} (h : tag < 2 ^ 15) :
    m.setTag tag = some { m with data := m.data ++ decimal tag ++ [equal] } := by
  rw [setTag, convertItoa_of_lt (by omega)]
  rfl

lemma setField_natCast (m : WMessage) {tag : ℕ} (value : List Byte) (h : tag < 2 ^ 15) :
    m.setField tag value = some (m.append [(tag, value)]) := by
  rw [setField, setTag_natCast m h]
  simp [append, encodeAll, encode, soh, endOfField]

lemma reserveField_natCast (m : WMessage) {tag : ℕ} (len : ℕ) (h : tag < 2 ^ 15) :
    m.reserveField tag len = some (m.append [(tag, List.replicate len (digit 0))]) := by
  rw [reserveField, setTag_natCast m h]
  simp [append, encodeAll, encode, soh, endOfField]

lemma setFieldInt_natCast (m : WMessage) {tag value : ℕ} (h : tag < 2 ^ 15)
    (hv : value < 10 ^ 9) : m.setFieldInt tag value = some (m.append [(tag, decimal value)]) := by
  rw [setFieldInt, setTag_natCast m h, convertItoa_of_lt hv]
  simp [append, encodeAll, encode, soh, endOfField]

lemma setFieldChar_natCast (m : WMessage) {tag : ℕ} (value : Byte) (h : tag < 2 ^ 15) :
    m.setFieldChar tag value = some (m.append [(tag, [value])]) := by
  rw [setFieldChar, setTag_natCast m h]
  simp [append, encodeAll, encode, soh, endOfField]

lemma setFields_eq (m : WMessage) {fs : List (ℤ × List Byte)} (h : ∀ f ∈ fs, IsTag f.1) :
    m.setFields fs = some (m.append (fs.map toField)) := by
  induction fs generalizing m with
  | nil => simp [setFields, append]
  | cons f fs ih =>
    obtain ⟨h0, h15⟩ := h f (by simp)
    have hcast : f.1 = (f.1.toNat : ℤ) := by omega
    have hset : m.setField f.1 f.2 = some (m.append [toField f]) := by
      rw [hcast, setField_natCast m f.2 (by omega)]
      rfl
    have ih := ih (m.append [toField f]) fun g hg => h g (by simp [hg])
    rw [setFields] at ih ⊢
    rw [List.foldlM_cons, hset, Option.bind_eq_bind, Option.bind_some, ih, append_append]
    rfl

end WMessage

/-! ### Replacing bytes -/

lemma patch_eq {data a b c bytes : List Byte} {pos : ℕ} (hdata : data = a ++ b ++ c)
    (hpos : pos = a.length) (h : bytes.length = b.length) :
    patch data pos bytes = some (a ++ bytes ++ c) := by
  subst hdata hpos
  rw [patch, if_pos (by simp [h])]
  congr 1
  rw [List.append_assoc a b c, List.take_left, h, ← List.length_append, ← List.append_assoc,
    List.drop_left]

lemma patch_length {data data' bytes : List Byte} {pos : ℕ}
    (h : patch data pos bytes = some data') : data'.length = data.length := by
  unfold patch at h
  split at h
  · next hle =>
    cases h
    simp only [List.length_append, List.length_take, List.length_drop]
    omega
  · cases h

/-! ### The checksum -/

def byteSum (l : List Byte) : ℕ := (l.map UInt8.toNat).sum

@[simp] lemma byteSum_append (l l' : List Byte) : byteSum (l ++ l') = byteSum l + byteSum l' := by
  simp [byteSum]

lemma byteSum_cast (l : List Byte) : (byteSum l : ℤ) = (l.map fun b => (b.toNat : ℤ)).sum := by
  induction l with
  | nil => rfl
  | cons b l ih =>
    rw [List.map_cons, List.sum_cons, ← ih]
    simp [byteSum]

lemma setChecksum_eq (cks : ℕ) : setChecksum cks = padded 3 (cks % 256) := by
  have h1 : cks % 256 / 100 = cks % 256 / 10 / 10 % 10 := by omega
  have h2 : (cks % 256 - cks % 256 / 100 * 100) / 10 = cks % 256 / 10 % 10 := by omega
  have h3 : cks % 256 - cks % 256 / 100 * 100 -
      (cks % 256 - cks % 256 / 100 * 100) / 10 * 10 = cks % 256 % 10 := by omega
  simp only [setChecksum, itoc_natCast, padded, List.nil_append, List.cons_append]
  rw [← h1, ← h2, ← h3]

lemma setChecksum_congr {x y : ℕ} (h : (x : ℤ) ≡ y [ZMOD 256]) :
    setChecksum x = padded 3 (y % 256) := by
  have hxy : x % 256 = y % 256 := by
    have := h.eq
    omega
  rw [setChecksum_eq, hxy]

lemma uint_modEq (x : ℤ) : (uint x : ℤ) ≡ x [ZMOD 256] := by
  unfold uint Int.ModEq
  omega

lemma charVal_modEq (b : Byte) : charVal b ≡ b.toNat [ZMOD 256] := by
  unfold charVal Int.ModEq
  exact Int.bmod_emod

lemma foldl_uint_modEq {f : Byte → ℤ} {g : Byte → ℤ} (h : ∀ b, f b ≡ g b [ZMOD 256]) (c : ℕ)
    (l : List Byte) :
    ((l.foldl (fun cks b => uint (cks + f b)) c : ℕ) : ℤ) ≡ c + (l.map g).sum [ZMOD 256] := by
  induction l generalizing c with
  | nil => simp [Int.ModEq.refl]
  | cons b l ih =>
    calc (((b :: l).foldl (fun cks b => uint (cks + f b)) c : ℕ) : ℤ)
        ≡ (uint (c + f b) : ℤ) + (l.map g).sum [ZMOD 256] := ih _
      _ ≡ (c + f b) + (l.map g).sum [ZMOD 256] := (uint_modEq _).add_right _
      _ ≡ (c + g b) + (l.map g).sum [ZMOD 256] := ((h b).add_left _).add_right _
      _ = c + ((b :: l).map g).sum := by rw [List.map_cons, List.sum_cons, add_assoc]

lemma foldl_charVal_modEq (l : List Byte) :
    ((l.foldl (fun cks b => uint (cks + charVal b)) 0 : ℕ) : ℤ) ≡ byteSum l [ZMOD 256] := by
  have h := foldl_uint_modEq charVal_modEq 0 l
  rw [byteSum_cast]
  simpa using h

lemma byteSum_replicate (l : List Byte) :
    (byteSum l : ℤ) = byteSum (List.replicate l.length (digit 0)) +
      (l.map fun b => (b.toNat : ℤ) - 48).sum := by
  induction l with
  | nil => rfl
  | cons b l ih =>
    have h0 : (digit 0).toNat = 48 := rfl
    simp only [byteSum, List.map_cons, List.sum_cons, List.length_cons, List.replicate_succ, h0,
      Nat.cast_add] at ih ⊢
    omega

end Ufix
