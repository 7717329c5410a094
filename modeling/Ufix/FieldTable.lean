import Ufix.FieldTags

/-!
The table of fields after `parse`, read off the data.

`parse` writes into its table field by field. An entry keeps the tag and the place of the last
field stored in it, and the length of the last one there that was read to its end.
-/

namespace Ufix.FieldTable

open Ufix.Decimal Ufix.FieldsParser Ufix.FieldTags Ufix.FieldGrammar
open Ufix.TagValue (equal)

/-- A field that `parse` comes to: its tag, the data from its value on, and the length of what is
stored, unless the data ends inside the group it opens. -/
structure Visit where
  tag : ℤ
  start : List Byte
  len : Option ℤ

/-- The fields of the data, `n` at most, with values read by `read`. -/
def visitsFrom (read : ℤ → List Byte → Option (List Byte)) : ℕ → List Byte → List Visit
  | 0, _ => []
  | _ + 1, [] => []
  | n + 1, b :: data =>
    let (tag, rest) := readTag 0 (b :: data)
    if tag = 0 then []
    else
      let start := rest.tail
      match read tag start with
      | none => [⟨tag, start, none⟩]
      | some rest => ⟨tag, start, some (start.length - rest.length)⟩ :: visitsFrom read n rest.tail

/-- The fields outside groups that `parse` comes to with a dictionary, up to where it stops. -/
def visits (dict : Option RGroupsDictionary) (data : List Byte) : List Visit :=
  visitsFrom ((FieldsParser.new maxFixTag).setRgDictionary dict).readFieldValue (data.length + 1)
    data

def storedAt (size : ℕ) (vs : List Visit) (index : ℤ) : List Visit :=
  vs.filter fun v => v.tag.tmod size = index

def record (dataLen : ℕ) (p : FieldsParser) (v : Visit) : FieldsParser :=
  let index := v.tag.tmod p.fieldsSize
  p.setField index
    ⟨p.counter, v.tag, dataLen - v.start.length, v.len.getD (p.fields index).valLen⟩

variable {p q : FieldsParser} {dict : Option RGroupsDictionary} {data : List Byte} {dataLen n : ℕ}

lemma readFieldValue_congr (h : p.rgDictionary = q.rgDictionary) :
    p.readFieldValue = q.readFieldValue := by
  funext tag data
  unfold readFieldValue
  rw [h]

lemma setField_readFieldValue (p : FieldsParser) (index : ℤ) (info : FieldInfo) :
    (p.setField index info).readFieldValue = p.readFieldValue := readFieldValue_congr rfl

/-- **The table is the record of the fields.** -/
lemma parseFields_eq_foldl (p : FieldsParser) (data : List Byte) :
    (parseFields dataLen n p data).1 =
      (visitsFrom p.readFieldValue n data).foldl (record dataLen) p := by
  induction n generalizing p data with
  | zero => rfl
  | succ n ih =>
    cases data with
    | nil => rfl
    | cons b data =>
      rw [parseFields, visitsFrom]
      by_cases h0 : (readTag 0 (b :: data)).1 = 0
      · simp [h0]
      · simp only [h0, if_false]
        cases p.readFieldValue (readTag 0 (b :: data)).1 (readTag 0 (b :: data)).2.tail with
        | none => rfl
        | some rest =>
          simp only [ih, setField_readFieldValue]
          rfl

lemma parse_eq_foldl (p : FieldsParser) (data : List Byte) :
    (p.parse data).1 = (visits p.rgDictionary data).foldl (record data.length)
      { p with counter := p.counter + 1 } := by
  rw [parse, parseFields_eq_foldl, visits]
  exact congrArg _ (congrArg (visitsFrom · _ _) (readFieldValue_congr rfl))

/-! ### The record -/

@[simp] lemma foldl_record_counter (vs : List Visit) (p : FieldsParser) :
    (vs.foldl (record dataLen) p).counter = p.counter := by
  induction vs generalizing p with
  | nil => rfl
  | cons v vs ih => exact ih _

@[simp] lemma foldl_record_fieldsSize (vs : List Visit) (p : FieldsParser) :
    (vs.foldl (record dataLen) p).fieldsSize = p.fieldsSize := by
  induction vs generalizing p with
  | nil => rfl
  | cons v vs ih => exact ih _

@[simp] lemma foldl_record_rgDictionary (vs : List Visit) (p : FieldsParser) :
    (vs.foldl (record dataLen) p).rgDictionary = p.rgDictionary := by
  induction vs generalizing p with
  | nil => rfl
  | cons v vs ih => exact ih _

lemma storedAt_concat (size : ℕ) (vs : List Visit) (v : Visit) (index : ℤ) :
    storedAt size (vs ++ [v]) index =
      if v.tag.tmod size = index then storedAt size vs index ++ [v]
      else storedAt size vs index := by
  by_cases h : v.tag.tmod size = index <;> simp [storedAt, List.filter_append, h]

lemma storedAt_append (size : ℕ) (vs ws : List Visit) (index : ℤ) :
    storedAt size (vs ++ ws) index = storedAt size vs index ++ storedAt size ws index :=
  List.filter_append _ _

lemma mem_of_mem_storedAt {size : ℕ} {vs : List Visit} {index : ℤ} {v : Visit}
    (h : v ∈ storedAt size vs index) : v ∈ vs := (List.mem_filter.mp h).1

/-- The length that an entry keeps from the fields stored in it, or else from before. -/
def lastLen (old : ℤ) (vs : List Visit) : ℤ := (vs.filterMap Visit.len).getLast?.getD old

lemma lastLen_concat (old : ℤ) (vs : List Visit) (v : Visit) :
    lastLen old (vs ++ [v]) = v.len.getD (lastLen old vs) := by
  unfold lastLen
  rw [List.filterMap_append]
  cases h : v.len <;> simp [h]

lemma lastLen_append (old : ℤ) (vs ws : List Visit) :
    lastLen old (vs ++ ws) = lastLen (lastLen old vs) ws := by
  induction ws using List.reverseRecOn with
  | nil => rw [List.append_nil]; rfl
  | append_singleton ws w ih => rw [← List.append_assoc, lastLen_concat, ih, lastLen_concat]

/-- **An entry of the record.** -/
lemma foldl_record_fields (vs : List Visit) (p : FieldsParser) (index : ℤ) :
    (vs.foldl (record dataLen) p).fields index =
      match (storedAt p.fieldsSize vs index).getLast? with
      | none => p.fields index
      | some v => ⟨p.counter, v.tag, dataLen - v.start.length,
          lastLen (p.fields index).valLen (storedAt p.fieldsSize vs index)⟩ := by
  induction vs using List.reverseRecOn with
  | nil => rfl
  | append_singleton vs v ih =>
    rw [List.foldl_append, List.foldl_cons, List.foldl_nil, storedAt_concat]
    by_cases h : v.tag.tmod p.fieldsSize = index
    · subst h
      have hlen : ((vs.foldl (record dataLen) p).fields (v.tag.tmod p.fieldsSize)).valLen =
          lastLen (p.fields (v.tag.tmod p.fieldsSize)).valLen
            (storedAt p.fieldsSize vs (v.tag.tmod p.fieldsSize)) := by
        rw [ih]
        cases hlast : (storedAt p.fieldsSize vs (v.tag.tmod p.fieldsSize)).getLast? with
        | none => rw [List.getLast?_eq_none_iff.mp hlast]; rfl
        | some w => rfl
      rw [if_pos rfl, List.getLast?_concat, lastLen_concat, ← hlen]
      simp [record, setField]
    · rw [if_neg h, ← ih]
      simp [record, setField, Ne.symm h]

lemma foldl_record_valLen (vs : List Visit) (p : FieldsParser) (index : ℤ) :
    ((vs.foldl (record dataLen) p).fields index).valLen =
      lastLen (p.fields index).valLen (storedAt p.fieldsSize vs index) := by
  rw [foldl_record_fields]
  cases hlast : (storedAt p.fieldsSize vs index).getLast? with
  | none => rw [List.getLast?_eq_none_iff.mp hlast]; rfl
  | some w => rfl

lemma parse_counter (hpast : ∀ i, (p.fields i).counter ≤ p.counter) (data : List Byte) (i : ℤ) :
    ((p.parse data).1.fields i).counter ≤ (p.parse data).1.counter := by
  rw [parse_eq_foldl, foldl_record_fields, foldl_record_counter]
  split
  · exact (hpast i).trans (Nat.le_succ _)
  · exact le_rfl

/-- `get_field` finds the field stored last, if it has that tag. -/
lemma getField_parse (hpast : ∀ i, (p.fields i).counter ≤ p.counter) (data : List Byte) (t : ℤ) :
    (p.parse data).1.getField t =
      ((storedAt p.fieldsSize (visits p.rgDictionary data) (t.tmod p.fieldsSize)).getLast?.filter
        (·.tag = t)).map fun v =>
          ⟨p.counter + 1, t, data.length - v.start.length,
            lastLen (p.fields (t.tmod p.fieldsSize)).valLen
              (storedAt p.fieldsSize (visits p.rgDictionary data) (t.tmod p.fieldsSize))⟩ := by
  rw [parse_eq_foldl, getField]
  simp only [foldl_record_fields, foldl_record_counter, foldl_record_fieldsSize]
  cases (storedAt p.fieldsSize (visits p.rgDictionary data) (t.tmod p.fieldsSize)).getLast? with
  | none =>
    have hold := hpast (t.tmod p.fieldsSize)
    rw [if_pos (by simp only; omega)]
    rfl
  | some v =>
    by_cases h : v.tag = t
    · simp [h]
    · simp [h]

/-! ### What is visited -/

/-- The tags of the fields are those that the data shows. -/
lemma visitsFrom_tags (p : FieldsParser) {data : List Byte} (hn : data.length < n) :
    (visitsFrom p.readFieldValue n data).map Visit.tag =
      topTags p.rgDictionary none (fieldTags data) := by
  induction n generalizing data with
  | zero => omega
  | succ n ih =>
    cases data with
    | nil => rfl
    | cons b data =>
      rw [visitsFrom]
      by_cases h0 : tagAt (b :: data) = 0
      · have h0' : (readTag 0 (b :: data)).1 = 0 := h0
        simp only [h0', if_true, List.map_nil]
        rw [fieldTags, topTags_out (inGroup_none _), if_pos h0]
      · have hread : (readTag 0 (b :: data)).1 = tagAt (b :: data) := rfl
        simp only [hread, h0, if_false]
        rcases topTags_field (p := p) h0 with ⟨hnone, htags⟩ | ⟨rest, hsome, hlt, htags⟩
        · rw [hnone, htags]
          rfl
        · rw [hsome, htags, ← ih (by omega)]
          rfl

/-- A field that stands in the data, with the data from its value on. -/
def Stands (data : List Byte) (tag : ℤ) (start : List Byte) : Prop :=
  ∃ before ds, data = before ++ ds ++ equal :: start ∧
    (before = [] ∨ ∃ b, before = b ++ [soh]) ∧ (∀ b ∈ ds, IsDigit b) ∧ ds.foldl intDigit 0 = tag

lemma Stands.start_length {tag : ℤ} {start : List Byte} (h : Stands data tag start) :
    start.length ≤ data.length ∧ data.drop (data.length - start.length) = start := by
  obtain ⟨before, ds, rfl, -⟩ := h
  have hsplit : before ++ ds ++ equal :: start = (before ++ ds ++ [equal]) ++ start := by simp
  rw [hsplit, List.length_append]
  refine ⟨by omega, ?_⟩
  rw [Nat.add_sub_cancel, List.drop_left]

/-- What is visited stands in the data, and is read as `read` does. -/
lemma mem_visitsFrom {read : ℤ → List Byte → Option (List Byte)}
    (hread : ∀ tag start rest, read tag start = some rest → AtEnd rest ∧ rest <:+ start)
    {v : Visit} {before : List Byte} (hbefore : before = [] ∨ ∃ b, before = b ++ [soh])
    (hv : v ∈ visitsFrom read n data) :
    Stands (before ++ data) v.tag v.start ∧
      v.len = (read v.tag v.start).map fun rest => (v.start.length : ℤ) - rest.length := by
  induction n generalizing data before with
  | zero => cases hv
  | succ n ih =>
    rcases data with - | ⟨b, data⟩
    · cases hv
    rw [visitsFrom] at hv
    by_cases h0 : (readTag 0 (b :: data)).1 = 0
    · simp [h0] at hv
    obtain ⟨ds, start, hdata, hds, heq⟩ := readTag_ne_zero h0
    have hstands : Stands (before ++ b :: data) (ds.foldl intDigit 0) start :=
      ⟨before, ds, by rw [hdata, List.append_assoc], hbefore, hds, rfl⟩
    rw [heq] at h0
    simp only [heq, h0, if_false, List.tail_cons] at hv
    cases hr : read (ds.foldl intDigit 0) start with
    | none =>
      rw [hr] at hv
      rw [List.mem_singleton.mp hv]
      exact ⟨hstands, by simp [hr]⟩
    | some rest =>
      rw [hr] at hv
      rcases List.mem_cons.mp hv with rfl | hv
      · exact ⟨hstands, by simp [hr]⟩
      · obtain ⟨hend, val, hstart⟩ := hread _ _ _ hr
        rcases hend with rfl | ⟨more, rfl⟩
        · cases n <;> cases hv
        · have hwhole : before ++ b :: data =
              (before ++ ds ++ equal :: (val ++ [soh])) ++ more := by
            rw [hdata, ← hstart]
            simp
          rw [hwhole]
          exact ih (Or.inr ⟨before ++ ds ++ equal :: val, by simp⟩) hv

/-- The field in which the data ends is the last one. -/
lemma getLast_visitsFrom {read : ℤ → List Byte → Option (List Byte)} {v : Visit}
    (hv : v ∈ visitsFrom read n data) (hlen : v.len = none) :
    ∃ vs, visitsFrom read n data = vs ++ [v] := by
  induction n generalizing data with
  | zero => cases hv
  | succ n ih =>
    rcases data with - | ⟨b, data⟩
    · cases hv
    rw [visitsFrom] at hv ⊢
    by_cases h0 : (readTag 0 (b :: data)).1 = 0
    · simp [h0] at hv
    simp only [h0, if_false] at hv ⊢
    cases hr : read (readTag 0 (b :: data)).1 (readTag 0 (b :: data)).2.tail with
    | none =>
      rw [hr] at hv
      exact ⟨[], by rw [List.mem_singleton.mp hv]; rfl⟩
    | some rest =>
      rw [hr] at hv
      rcases List.mem_cons.mp hv with rfl | hv
      · cases hlen
      · obtain ⟨vs, hvs⟩ := ih hv
        exact ⟨_ :: vs, congrArg (List.cons _) hvs⟩

lemma readRgFields_suffix {inRg : ℤ → Bool} {last rest : List Byte}
    (h : readRgFields inRg n last = some rest) : rest <:+ last := by
  induction n generalizing last with
  | zero => cases h
  | succ n ih =>
    rcases last with - | ⟨b, - | ⟨c, data⟩⟩
    · cases h
    · cases h
    rw [readRgFields] at h
    simp only [List.tail_cons] at h
    split at h
    · obtain ⟨before, hdata, -⟩ := readTag_suffix 0 (c :: data)
      have hvalue : readValue (readTag 0 (c :: data)).2 <:+ (readTag 0 (c :: data)).2 :=
        List.dropWhile_suffix _
      have htag : (readTag 0 (c :: data)).2 <:+ c :: data := ⟨before, hdata.symm⟩
      exact (ih h).trans (hvalue.trans (htag.trans (List.suffix_cons b _)))
    · cases h
      exact List.suffix_rfl

lemma readFieldValue_suffix {tag : ℤ} {start rest : List Byte}
    (h : p.readFieldValue tag start = some rest) : rest <:+ start := by
  have hvalue : readValue start <:+ start := List.dropWhile_suffix _
  unfold readFieldValue at h
  split at h
  · cases h
    exact hvalue
  · split at h
    · cases h
      exact hvalue
    · exact (readRgFields_suffix h).trans hvalue

lemma readFieldValue_some {tag : ℤ} {start rest : List Byte}
    (h : p.readFieldValue tag start = some rest) :
    AtEnd rest ∧ rest <:+ start ∧ tagsAfter rest = (tagsAfter start).dropWhile
      (inGroup p.rgDictionary (opens p.rgDictionary tag)) := by
  rcases readFieldValue_tags p tag start with ⟨hnone, -⟩ | ⟨rest', hsome, hend, -, hdrop⟩
  · rw [hnone] at h
    cases h
  · rw [hsome] at h
    cases h
    exact ⟨hend, readFieldValue_suffix hsome, hdrop⟩

lemma readFieldValue_none {tag : ℤ} {start : List Byte}
    (h : p.readFieldValue tag start = none) : (tagsAfter start).dropWhile
      (inGroup p.rgDictionary (opens p.rgDictionary tag)) = [] := by
  rcases readFieldValue_tags p tag start with ⟨-, hdrop⟩ | ⟨rest, hsome, -⟩
  · exact hdrop
  · rw [hsome] at h
    cases h

lemma visits_tags (dict : Option RGroupsDictionary) (data : List Byte) :
    (visits dict data).map Visit.tag = topTags dict none (fieldTags data) :=
  visitsFrom_tags ((FieldsParser.new maxFixTag).setRgDictionary dict) (Nat.lt_succ_self _)

end Ufix.FieldTable
