import Ufix.FieldTags

/-!
Which entries of its tables and arrays the parser touches.

The functions of the parser once more, with every index checked: `none` when it is outside. They
agree with the parser as long as they have a result, and for which data they have one is told by
the tags in the data.
-/

namespace Ufix.ParserBounds

open Ufix.Decimal Ufix.FieldTags Ufix.FieldGrammar
open Ufix.FieldsParser (readTag readValue)
open Ufix.TagValue (equal)

/-- An index into a table of `size` entries. -/
def Inside (size : ℕ) (index : ℤ) : Prop := 0 ≤ index ∧ index < size

instance (size : ℕ) (index : ℤ) : Decidable (Inside size index) :=
  inferInstanceAs (Decidable (_ ∧ _))

/-! ### The tables of `parse` -/

/-- `is_tag_in_rg` takes `rg_def[rg_tag][tag]`. -/
def readRgFields (d : RGroupsDictionary) (rgTag : ℤ) :
    ℕ → List Byte → Option (Option (List Byte))
  | 0, _ => some none
  | n + 1, last =>
    match last.tail with
    | [] => some none
    | data =>
      let (tag, rest) := readTag 0 data
      if Inside maxFixTag rgTag ∧ Inside maxFixTag tag then
        if d.isTagInRg rgTag tag then readRgFields d rgTag n (readValue rest) else some (some last)
      else none

/-- `is_normal` takes `rg_def[tag]`. -/
def readFieldValue (p : FieldsParser) (tag : ℤ) (data : List Byte) :
    Option (Option (List Byte)) :=
  match p.rgDictionary with
  | none => some (some (readValue data))
  | some d =>
    if Inside maxFixTag tag then
      if d.isNormal tag then some (some (readValue data))
      else readRgFields d tag (data.length + 1) (readValue data)
    else none

/-- `parse` takes `fields[tag % fields_size]`. -/
def parseFields (dataLen : ℕ) : ℕ → FieldsParser → List Byte → Option (FieldsParser × Bool)
  | 0, p, _ => some (p, false)
  | _ + 1, p, [] => some (p, true)
  | n + 1, p, b :: data =>
    let (tag, rest) := readTag 0 (b :: data)
    if tag = 0 then some (p, false)
    else
      let start := rest.tail
      let index := tag.tmod p.fieldsSize
      if Inside p.fieldsSize index then
        let info : FieldInfo :=
          { p.fields index with counter := p.counter, tag := tag, val := dataLen - start.length }
        match readFieldValue p tag start with
        | none => none
        | some none => some (p.setField index info, false)
        | some (some rest) =>
          parseFields dataLen n
            (p.setField index { info with valLen := start.length - rest.length }) rest.tail
      else none

def parse (p : FieldsParser) (data : List Byte) : Option (FieldsParser × Bool) :=
  parseFields data.length (data.length + 1) { p with counter := p.counter + 1 } data

/-- A tag whose indices are inside: as it is for the dictionary, its remainder for the fields. -/
def FitsTables (p : FieldsParser) (tag : ℤ) : Prop :=
  match p.rgDictionary with
  | none => 0 ≤ tag.tmod p.fieldsSize
  | some _ => Inside maxFixTag tag

instance (p : FieldsParser) : DecidablePred (FitsTables p) := fun tag => by
  unfold FitsTables
  cases p.rgDictionary <;> infer_instance

variable {p : FieldsParser} {d : RGroupsDictionary} {n dataLen : ℕ} {data start : List Byte}

/-! ### They agree with the parser -/

lemma eq_some_iff_isSome {α : Type*} {x : Option α} {a : α} (h : ∀ r, x = some r → a = r) :
    x = some a ↔ x.isSome = true := by
  cases x with
  | none => simp
  | some r => simp [h r rfl]

lemma readRgFields_eq {rgTag : ℤ} {last : List Byte} {r : Option (List Byte)}
    (h : readRgFields d rgTag n last = some r) :
    FieldsParser.readRgFields (d.isTagInRg rgTag) n last = r := by
  induction n generalizing last with
  | zero => exact Option.some.inj h
  | succ n ih =>
    rw [readRgFields] at h
    rw [FieldsParser.readRgFields]
    rcases hlast : last.tail with - | ⟨b, data⟩
    · rw [hlast] at h
      exact Option.some.inj h
    · simp only [hlast] at h ⊢
      split at h
      · split at h
        · next hin =>
          rw [if_pos hin]
          exact ih h
        · next hin =>
          rw [if_neg hin]
          exact Option.some.inj h
      · cases h

lemma readFieldValue_eq {tag : ℤ} {r : Option (List Byte)}
    (h : readFieldValue p tag data = some r) : p.readFieldValue tag data = r := by
  unfold readFieldValue at h
  unfold FieldsParser.readFieldValue
  cases hd : p.rgDictionary with
  | none =>
    rw [hd] at h
    exact Option.some.inj h
  | some d =>
    simp only [hd] at h ⊢
    split at h
    · split at h
      · next hnormal =>
        rw [if_pos hnormal]
        exact Option.some.inj h
      · next hnormal =>
        rw [if_neg hnormal]
        exact readRgFields_eq h
    · cases h

lemma parseFields_eq {r : FieldsParser × Bool} (h : parseFields dataLen n p data = some r) :
    FieldsParser.parseFields dataLen n p data = r := by
  induction n generalizing p data with
  | zero => exact Option.some.inj h
  | succ n ih =>
    cases data with
    | nil => exact Option.some.inj h
    | cons b data =>
      rw [parseFields] at h
      rw [FieldsParser.parseFields]
      simp only at h ⊢
      split at h
      · next h0 =>
        rw [if_pos h0]
        exact Option.some.inj h
      · next h0 =>
        rw [if_neg h0]
        split at h
        · split at h
          · cases h
          · next hval =>
            rw [readFieldValue_eq hval]
            exact Option.some.inj h
          · next rest hval =>
            rw [readFieldValue_eq hval]
            exact ih h
        · cases h

/-! ### The tags they take -/

/-- The scan of a group looks up the tags of the group and the first one outside. -/
lemma readRgFields_isSome {rgTag : ℤ} {last : List Byte} (hrg : Inside maxFixTag rgTag)
    (hn : last.length < n) (hl : AtEnd last) :
    (readRgFields d rgTag n last).isSome = true ↔
      (∀ t ∈ (tagsAfter last).takeWhile (d.isTagInRg rgTag), Inside maxFixTag t) ∧
        ∀ t ∈ ((tagsAfter last).dropWhile (d.isTagInRg rgTag)).head?, Inside maxFixTag t := by
  induction n generalizing last with
  | zero => omega
  | succ n ih =>
    rw [hl.tagsAfter]
    rcases hl with rfl | ⟨data, rfl⟩
    · simp [readRgFields, fieldTags]
    rcases data with - | ⟨b, data⟩
    · simp [readRgFields, fieldTags]
    have hround : readRgFields d rgTag (n + 1) (soh :: b :: data) =
        if Inside maxFixTag rgTag ∧ Inside maxFixTag (tagAt (b :: data)) then
          if d.isTagInRg rgTag (tagAt (b :: data)) = true then
            readRgFields d rgTag n (readValue (readTag 0 (b :: data)).2)
          else some (some (soh :: b :: data))
        else none := rfl
    rw [hround, List.tail_cons, fieldTags]
    rw [List.length_cons] at hn
    by_cases ht : Inside maxFixTag (tagAt (b :: data))
    · rw [if_pos ⟨hrg, ht⟩]
      cases hin : d.isTagInRg rgTag (tagAt (b :: data)) with
      | true =>
        have hshort := (readValue_length (readTag 0 (b :: data)).2).trans
          (readTag_length (b :: data))
        have ih := ih (by omega) (readValue_atEnd (readTag 0 (b :: data)).2)
        rw [tagsAfter_readValue, tagsAfter_readTag] at ih
        rw [if_pos rfl, ih, List.takeWhile_cons_of_pos hin, List.dropWhile_cons_of_pos hin,
          List.forall_mem_cons]
        simp only [ht, true_and]
      | false =>
        rw [if_neg Bool.false_ne_true, List.takeWhile_cons_of_neg (by simp [hin]),
          List.dropWhile_cons_of_neg (by simp [hin])]
        simp [ht]
    · rw [if_neg fun h => ht h.2]
      cases hin : d.isTagInRg rgTag (tagAt (b :: data)) with
      | true => simp [hin, ht]
      | false => simp [hin, ht]

lemma head_inside {tags : List ℤ} (h : ∀ t ∈ tagsRead (some d) none tags, Inside maxFixTag t) :
    ∀ t ∈ tags.head?, Inside maxFixTag t := by
  cases tags with
  | nil => simp
  | cons tag tags =>
    rw [tagsRead_out (inGroup_none tag)] at h
    intro t ht
    obtain rfl : tag = t := by simpa using ht
    by_cases h0 : tag = 0
    · rw [h0]
      decide
    · rw [if_neg h0] at h
      exact h tag (by simp)

/-- One field: its tag, the tags of the group it may open, and those that follow. -/
lemma readFieldValue_isSome (hsize : 0 < p.fieldsSize) (tag : ℤ) (start : List Byte) :
    (Inside p.fieldsSize (tag.tmod p.fieldsSize) ∧ (readFieldValue p tag start).isSome = true ∧
        ∀ t ∈ tagsRead p.rgDictionary none ((tagsAfter start).dropWhile
          (inGroup p.rgDictionary (opens p.rgDictionary tag))), FitsTables p t) ↔
      FitsTables p tag ∧
        ∀ t ∈ tagsRead p.rgDictionary (opens p.rgDictionary tag) (tagsAfter start),
          FitsTables p t := by
  have hlt : tag.tmod p.fieldsSize < p.fieldsSize := Int.tmod_lt_of_pos _ (by omega)
  have hplain : (tagsAfter start).takeWhile (inGroup p.rgDictionary none) = [] := by
    cases tagsAfter start with
    | nil => rfl
    | cons t tags => rw [List.takeWhile_cons_of_neg (by simp [inGroup_none])]
  rw [tagsRead_append (opens p.rgDictionary tag), List.forall_mem_append]
  cases hd : p.rgDictionary with
  | none =>
    rw [hd] at hplain
    simp only [readFieldValue, FitsTables, hd, opens, hplain, Inside, hlt, Option.isSome_some,
      List.not_mem_nil, false_implies, implies_true, and_true, true_and]
  | some d =>
    have hmod : Inside maxFixTag tag → Inside p.fieldsSize (tag.tmod p.fieldsSize) :=
      fun h => ⟨Int.tmod_nonneg _ h.1, hlt⟩
    rw [hd] at hplain
    simp only [readFieldValue, FitsTables, hd, opens]
    by_cases ht : Inside maxFixTag tag
    · cases hnormal : d.isNormal tag with
      | true =>
        simp only [ht, hmod ht, hplain, if_true, Option.isSome_some, List.not_mem_nil,
          false_implies, implies_true, true_and]
      | false =>
        have hgroup : inGroup (some d) (some tag) = d.isTagInRg tag := rfl
        simp only [ht, hmod ht, if_true, Bool.false_eq_true, if_false, true_and, hgroup]
        rw [readRgFields_isSome ht (Nat.lt_succ_of_le (readValue_length start))
          (readValue_atEnd start), tagsAfter_readValue]
        constructor
        · rintro ⟨⟨hin, -⟩, hrest⟩
          exact ⟨hin, hrest⟩
        · rintro ⟨hin, hrest⟩
          exact ⟨⟨hin, head_inside hrest⟩, hrest⟩
    · simp [ht]

variable (dataLen) in
lemma parseFields_isSome (hsize : 0 < p.fieldsSize) (hn : data.length < n) :
    (parseFields dataLen n p data).isSome = true ↔
      ∀ t ∈ tagsRead p.rgDictionary none (fieldTags data), FitsTables p t := by
  induction n generalizing p data with
  | zero => omega
  | succ n ih =>
    cases data with
    | nil => simp [parseFields, fieldTags, tagsRead]
    | cons b data =>
      have htag : (readTag 0 (b :: data)).1 = tagAt (b :: data) := rfl
      rw [parseFields, fieldTags, tagsRead_out (inGroup_none _)]
      simp only [htag]
      by_cases h0 : tagAt (b :: data) = 0
      · simp [h0]
      · obtain ⟨hafter, hlen⟩ := tagsAfter_start h0
        have hfield := readFieldValue_isSome hsize (tagAt (b :: data))
          (readTag 0 (b :: data)).2.tail
        have htags := readFieldValue_tags p (tagAt (b :: data)) (readTag 0 (b :: data)).2.tail
        rw [if_neg h0, if_neg h0, List.forall_mem_cons, ← hafter, ← hfield]
        by_cases hindex : Inside p.fieldsSize ((tagAt (b :: data)).tmod p.fieldsSize)
        · rw [if_pos hindex]
          cases hval : readFieldValue p (tagAt (b :: data)) (readTag 0 (b :: data)).2.tail with
          | none => simp
          | some r =>
            rw [readFieldValue_eq hval] at htags
            rcases htags with ⟨rfl, hdrop⟩ | ⟨rest, rfl, hend, hle, hdrop⟩
            · rw [hdrop]
              simp [hindex, tagsRead]
            · rw [← hdrop, hend.tagsAfter]
              simp only [hindex, Option.isSome_some, true_and]
              exact ih hsize (by rw [List.length_tail]; omega)
        · simp [hindex]

lemma parse_isSome (hsize : 0 < p.fieldsSize) (data : List Byte) :
    (parse p data).isSome = true ↔
      ∀ t ∈ tagsRead p.rgDictionary none (fieldTags data), FitsTables p t :=
  parseFields_isSome data.length (p := { p with counter := p.counter + 1 }) hsize
    (Nat.lt_succ_self data.length)

lemma parse_eq_some : parse p data = some (p.parse data) ↔ (parse p data).isSome = true :=
  eq_some_iff_isSome fun _ => parseFields_eq

/-- **The table indices of `parse`** are all inside, for any data and with or without a
dictionary, if and only if every tag that is read fits. -/
theorem parse_inside_iff (hsize : 0 < p.fieldsSize) (data : List Byte) :
    parse p data = some (p.parse data) ↔
      ∀ t ∈ tagsRead p.rgDictionary none (fieldTags data), FitsTables p t :=
  parse_eq_some.trans (parse_isSome hsize data)

/-- A message type. -/
theorem parse_inside_iff_msgType :
    parse (.new maxFixTag) [51, 53, 61, 65, 1] =
        some ((FieldsParser.new maxFixTag).parse [51, 53, 61, 65, 1]) ↔
      ∀ t ∈ tagsRead none none (fieldTags [51, 53, 61, 65, 1]), FitsTables (.new maxFixTag) t :=
  parse_inside_iff (by decide) [51, 53, 61, 65, 1]

/-- The tag `3000000000` becomes negative in an `int`, and so does its remainder; with a
dictionary the tag `40000` is enough. -/
theorem parse_outside :
    parse (.new maxFixTag) [51, 48, 48, 48, 48, 48, 48, 48, 48, 48, 61, 49] = none ∧
      parse ((FieldsParser.new maxFixTag).setRgDictionary (some .new))
        [52, 48, 48, 48, 48, 61, 49] = none := by
  decide +kernel

/-- **With no group that lists `0`** these are the tags up to the first that cannot be read. -/
theorem parse_inside_iff_takeWhile (hsize : 0 < p.fieldsSize)
    (h0 : ∀ rgTag, inGroup p.rgDictionary (some rgTag) 0 = false) (data : List Byte) :
    parse p data = some (p.parse data) ↔
      ∀ t ∈ (fieldTags data).takeWhile (· ≠ 0), FitsTables p t := by
  rw [parse_eq_some, parse_isSome hsize, tagsRead_eq_takeWhile h0]

lemma tagAt_inside (hsmall : SmallTags data) : Inside maxFixTag (tagAt data) := by
  by_cases h0 : tagAt data = 0
  · rw [h0]
    decide
  · obtain ⟨ds, rest, rfl, hds, htag⟩ := readTag_ne_zero h0
    have hlt := hsmall [] ds rest rfl hds
    rw [tagAt, htag, foldl_intDigit_of_lt hds hlt]
    exact ⟨by omega, by omega⟩

lemma fieldTags_inside (hsmall : SmallTags data) : ∀ t ∈ fieldTags data, Inside maxFixTag t := by
  intro t ht
  obtain ⟨l, ⟨before, rfl⟩, rfl⟩ := mem_fieldTags ht
  exact tagAt_inside (hsmall.of_append before)

/-- **Tags below `MAX_FIX_TAG` do no harm**, whatever else the data holds. -/
theorem parse_inside_of_smallTags (hsize : 0 < p.fieldsSize) (hsmall : SmallTags data) :
    parse p data = some (p.parse data) := by
  refine parse_eq_some.mpr ((parse_isSome hsize data).mpr fun t ht => ?_)
  have hin := fieldTags_inside hsmall t (tagsRead_subset _ _ ht)
  unfold FitsTables
  split
  · exact Int.tmod_nonneg _ hin.1
  · exact hin

end Ufix.ParserBounds
