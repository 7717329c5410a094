import Ufix.Decimal

/-!
Messages of `tag=value` fields: how a list of fields is written, and how it is read back.

A tag is a positive decimal number without leading zeros, a value ends at the first start of
header. Whatever was written from fields without that byte in a value is read back.
-/

namespace Ufix.TagValue

open Ufix.Decimal

def equal : UInt8 := 61

def endOfField : UInt8 := 1

abbrev Field := ℕ × List UInt8

def encode (f : Field) : List UInt8 := decimal f.1 ++ equal :: (f.2 ++ [endOfField])

def encodeAll (fs : List Field) : List UInt8 := fs.flatMap encode

/-- The tag is positive, and the value does not hold the byte that ends it. -/
def Readable (f : Field) : Prop := f.1 ≠ 0 ∧ endOfField ∉ f.2

/-- What the reader is in: in front of a field, in its tag, or in its value. -/
inductive Place
  | start
  | tag (n : ℕ)
  | value (n : ℕ) (v : List UInt8)

/-- The fields from a place on, `none` when the text is not a list of fields. -/
def parseFrom : Place → List UInt8 → Option (List Field)
  | .start, [] => some []
  | _, [] => none
  | .start, b :: l =>
    if IsDigit b ∧ b ≠ digit 0 then parseFrom (.tag (b.toNat - 48)) l else none
  | .tag n, b :: l =>
    if IsDigit b then parseFrom (.tag (n * 10 + (b.toNat - 48))) l
    else if b = equal then parseFrom (.value n []) l
    else none
  | .value n v, b :: l =>
    if b = endOfField then (parseFrom .start l).map ((n, v) :: ·)
    else parseFrom (.value n (v ++ [b])) l

def parse (l : List UInt8) : Option (List Field) := parseFrom .start l

@[simp] lemma encodeAll_nil : encodeAll [] = [] := rfl

lemma encodeAll_cons (f : Field) (fs : List Field) :
    encodeAll (f :: fs) = encode f ++ encodeAll fs := rfl

lemma encodeAll_append (fs gs : List Field) :
    encodeAll (fs ++ gs) = encodeAll fs ++ encodeAll gs := List.flatMap_append

/-! ### Reading what was written -/

lemma parseFrom_digits {n : ℕ} {ds l : List UInt8} (h : ∀ b ∈ ds, IsDigit b) :
    parseFrom (.tag n) (ds ++ l) =
      parseFrom (.tag (ds.foldl (fun v b => v * 10 + (b.toNat - 48)) n)) l := by
  induction ds generalizing n with
  | nil => rfl
  | cons b ds ih =>
    rw [List.cons_append, parseFrom, if_pos (h b (by simp)),
      ih fun c hc => h c (by simp [hc]), List.foldl_cons]

lemma parseFrom_value {n : ℕ} {v w l : List UInt8} (h : endOfField ∉ w) :
    parseFrom (.value n v) (w ++ endOfField :: l) =
      (parseFrom .start l).map ((n, v ++ w) :: ·) := by
  induction w generalizing v with
  | nil => simp [parseFrom]
  | cons b w ih =>
    have hb : b ≠ endOfField := fun he => h (by simp [he])
    rw [List.cons_append, parseFrom, if_neg hb, ih fun hm => h (by simp [hm])]
    simp

lemma parseFrom_encode {f : Field} {l : List UInt8} (hf : Readable f) :
    parseFrom .start (encode f ++ l) = (parseFrom .start l).map (f :: ·) := by
  obtain ⟨htag, hval⟩ := hf
  obtain ⟨d, ds, hd, h1, h10⟩ := decimal_eq_cons htag
  have hne : digit d ≠ digit 0 := by
    intro he
    have := congrArg UInt8.toNat he
    rw [digit_toNat h10, digit_toNat (by omega)] at this
    omega
  have hds : ∀ b ∈ ds, IsDigit b := fun b hb => isDigit_of_mem_decimal (by rw [hd]; simp [hb])
  have hnum : ds.foldl (fun v b => v * 10 + (b.toNat - 48)) ((digit d).toNat - 48) = f.1 := by
    have h := value_decimal f.1
    rw [hd] at h
    simpa [value] using h
  have htext : encode f ++ l = digit d :: (ds ++ equal :: (f.2 ++ endOfField :: l)) := by
    simp [encode, hd]
  have hdigit : ¬ IsDigit equal := by decide
  rw [htext, parseFrom, if_pos ⟨isDigit_digit h10, hne⟩, parseFrom_digits hds, hnum, parseFrom,
    if_neg hdigit, if_pos rfl, parseFrom_value hval]
  rfl

/-- **What was written is read back**, when every field is readable. -/
theorem parse_encodeAll {fs : List Field} (h : ∀ f ∈ fs, Readable f) :
    parse (encodeAll fs) = some fs := by
  unfold parse
  induction fs with
  | nil => rfl
  | cons f fs ih =>
    rw [encodeAll_cons, parseFrom_encode (h f (by simp)), ih fun g hg => h g (by simp [hg])]
    rfl

end Ufix.TagValue
