import Ufix.FieldGrammar

/-!
The tags that the parser meets in a message, read off the message alone.

A field starts after each `SOH`. The parser stops at a tag it cannot read, and passes over the
fields of a repeating group: on the list of tags that is `dropWhile`.
-/

namespace Ufix.FieldTags

open Ufix.Decimal Ufix.FieldsParser Ufix.FieldGrammar
open Ufix.TagValue (equal)

/-- Where fields start behind the end of one: after each `SOH`, unless the data ends there. -/
def startsAfter : List Byte → List (List Byte)
  | [] => []
  | b :: data => if b = soh ∧ data ≠ [] then data :: startsAfter data else startsAfter data

/-- The tag at the start of a field, `0` if there is none. -/
def tagAt (data : List Byte) : ℤ := (readTag 0 data).1

def tagsAfter (data : List Byte) : List ℤ := (startsAfter data).map tagAt

def fieldTags : List Byte → List ℤ
  | [] => []
  | b :: data => tagAt (b :: data) :: tagsAfter (b :: data)

variable (dict : Option RGroupsDictionary)

def opens (tag : ℤ) : Option ℤ :=
  match dict with
  | none => none
  | some d => if d.isNormal tag then none else some tag

def inGroup (rg : Option ℤ) (tag : ℤ) : Bool :=
  match dict, rg with
  | some d, some rgTag => d.isTagInRg rgTag tag
  | _, _ => false

/-- The tags up to the one that cannot be read, without those inside groups. -/
def topTags : Option ℤ → List ℤ → List ℤ
  | _, [] => []
  | rg, tag :: tags =>
    if inGroup dict rg tag then topTags rg tags
    else if tag = 0 then [] else tag :: topTags (opens dict tag) tags

def tagsRead : Option ℤ → List ℤ → List ℤ
  | _, [] => []
  | rg, tag :: tags =>
    if inGroup dict rg tag then tag :: tagsRead rg tags
    else if tag = 0 then [] else tag :: tagsRead (opens dict tag) tags

variable {dict}

lemma inGroup_none (tag : ℤ) : inGroup dict none tag = false := by
  cases dict <;> rfl

/-! ### The tags of a group -/

lemma topTags_out {rg : Option ℤ} {tag : ℤ} (h : inGroup dict rg tag = false) (tags : List ℤ) :
    topTags dict rg (tag :: tags) =
      if tag = 0 then [] else tag :: topTags dict (opens dict tag) tags := by
  rw [topTags, h, if_neg Bool.false_ne_true]

lemma tagsRead_out {rg : Option ℤ} {tag : ℤ} (h : inGroup dict rg tag = false) (tags : List ℤ) :
    tagsRead dict rg (tag :: tags) =
      if tag = 0 then [] else tag :: tagsRead dict (opens dict tag) tags := by
  rw [tagsRead, h, if_neg Bool.false_ne_true]

lemma topTags_dropWhile (rg : Option ℤ) (tags : List ℤ) :
    topTags dict rg tags = topTags dict none (tags.dropWhile (inGroup dict rg)) := by
  induction tags with
  | nil => rfl
  | cons tag tags ih =>
    cases h : inGroup dict rg tag with
    | true => rw [topTags, if_pos h, List.dropWhile_cons_of_pos h, ih]
    | false =>
      rw [List.dropWhile_cons_of_neg (by simp [h]), topTags_out h, topTags_out (inGroup_none tag)]

lemma tagsRead_append (rg : Option ℤ) (tags : List ℤ) :
    tagsRead dict rg tags = tags.takeWhile (inGroup dict rg) ++
      tagsRead dict none (tags.dropWhile (inGroup dict rg)) := by
  induction tags with
  | nil => rfl
  | cons tag tags ih =>
    cases h : inGroup dict rg tag with
    | true =>
      rw [tagsRead, if_pos h, List.takeWhile_cons_of_pos h, List.dropWhile_cons_of_pos h, ih]
      rfl
    | false =>
      rw [List.takeWhile_cons_of_neg (by simp [h]), List.dropWhile_cons_of_neg (by simp [h]),
        tagsRead_out h, tagsRead_out (inGroup_none tag), List.nil_append]

lemma tagsRead_subset (rg : Option ℤ) (tags : List ℤ) : tagsRead dict rg tags ⊆ tags := by
  induction tags generalizing rg with
  | nil => exact List.Subset.refl []
  | cons tag tags ih =>
    rw [tagsRead]
    split
    · exact List.cons_subset_cons tag (ih rg)
    · split
      · exact List.nil_subset _
      · exact List.cons_subset_cons tag (ih _)

lemma tagsRead_eq_takeWhile (h0 : ∀ rgTag, inGroup dict (some rgTag) 0 = false) (rg : Option ℤ)
    (tags : List ℤ) : tagsRead dict rg tags = tags.takeWhile (· ≠ 0) := by
  induction tags generalizing rg with
  | nil => rfl
  | cons tag tags ih =>
    by_cases htag : tag = 0
    · have hout : inGroup dict rg tag = false := by
        rw [htag]
        cases rg with
        | none => exact inGroup_none 0
        | some rgTag => exact h0 rgTag
      rw [tagsRead_out hout, if_pos htag, List.takeWhile_cons_of_neg (by simpa using htag)]
    · rw [tagsRead, ih, ih, if_neg htag, ite_self, List.takeWhile_cons_of_pos (by simpa using htag)]

/-! ### Positions and tags -/

def AtEnd (last : List Byte) : Prop := last = [] ∨ ∃ data, last = soh :: data

lemma readValue_atEnd (data : List Byte) : AtEnd (readValue data) := by
  rcases readValue_cases data with ⟨-, h⟩ | ⟨val, rest, -, -, h⟩
  · exact Or.inl h
  · exact Or.inr ⟨rest, h⟩

lemma tagsAfter_cons {b : Byte} (h : b ≠ soh) (data : List Byte) :
    tagsAfter (b :: data) = tagsAfter data := by
  rw [tagsAfter, startsAfter, if_neg fun hb => h hb.1, tagsAfter]

lemma tagsAfter_append {before : List Byte} (h : soh ∉ before) (data : List Byte) :
    tagsAfter (before ++ data) = tagsAfter data := by
  induction before with
  | nil => rfl
  | cons b before ih =>
    have hb : b ≠ soh := fun he => h (by simp [he])
    rw [List.cons_append, tagsAfter_cons hb, ih fun hm => h (List.mem_cons_of_mem _ hm)]

lemma AtEnd.tagsAfter {last : List Byte} (h : AtEnd last) :
    tagsAfter last = fieldTags last.tail := by
  rcases h with rfl | ⟨data, rfl⟩
  · rfl
  · cases data with
    | nil => rfl
    | cons b data => simp [FieldTags.tagsAfter, startsAfter, fieldTags]

lemma tagsAfter_readValue (data : List Byte) : tagsAfter (readValue data) = tagsAfter data := by
  rcases readValue_cases data with ⟨hno, h⟩ | ⟨val, rest, rfl, hval, h⟩
  · have hall := tagsAfter_append hno []
    rw [List.append_nil] at hall
    rw [h, hall]
  · rw [h, tagsAfter_append hval]

lemma readValue_length (data : List Byte) : (readValue data).length ≤ data.length :=
  (List.dropWhile_suffix _).length_le

lemma readTag_suffix (tag : ℤ) (data : List Byte) :
    ∃ before, data = before ++ (readTag tag data).2 ∧ soh ∉ before := by
  induction data generalizing tag with
  | nil => exact ⟨[], rfl, by simp⟩
  | cons b data ih =>
    rw [readTag]
    split
    · exact ⟨[], rfl, by simp⟩
    · split
      · exact ⟨[], rfl, by simp⟩
      · next hb =>
        obtain ⟨before, hdata, hno⟩ := ih (intDigit tag b)
        refine ⟨b :: before, by rw [List.cons_append, ← hdata], fun hm => ?_⟩
        rcases List.mem_cons.mp hm with rfl | hm
        · exact hb (by decide)
        · exact hno hm

lemma tagsAfter_readTag (data : List Byte) : tagsAfter (readTag 0 data).2 = tagsAfter data := by
  obtain ⟨before, hdata, hno⟩ := readTag_suffix 0 data
  conv_rhs => rw [hdata, tagsAfter_append hno]

lemma readTag_length (data : List Byte) : (readTag 0 data).2.length ≤ data.length := by
  obtain ⟨before, hdata, -⟩ := readTag_suffix 0 data
  conv_rhs => rw [hdata, List.length_append]
  omega

lemma tagsAfter_start {data : List Byte} (h : tagAt data ≠ 0) :
    tagsAfter (readTag 0 data).2.tail = tagsAfter data ∧
      (readTag 0 data).2.tail.length < data.length := by
  have hafter := tagsAfter_readTag data
  have hlen := readTag_length data
  obtain ⟨ds, rest, -, -, heq⟩ := readTag_ne_zero h
  rw [heq] at hafter hlen ⊢
  rw [tagsAfter_cons (by decide)] at hafter
  rw [List.length_cons] at hlen
  exact ⟨hafter, by simp only [List.tail_cons]; omega⟩

lemma startsAfter_suffix {data l : List Byte} (h : l ∈ startsAfter data) : l <:+ data := by
  induction data with
  | nil => cases h
  | cons b data ih =>
    rw [startsAfter] at h
    split at h
    · rcases List.mem_cons.mp h with rfl | h
      · exact List.suffix_cons b l
      · exact (ih h).trans (List.suffix_cons b data)
    · exact (ih h).trans (List.suffix_cons b data)

lemma mem_fieldTags {data : List Byte} {t : ℤ} (h : t ∈ fieldTags data) :
    ∃ l, l <:+ data ∧ tagAt l = t := by
  cases data with
  | nil => cases h
  | cons b data =>
    rcases List.mem_cons.mp h with rfl | h
    · exact ⟨b :: data, List.suffix_rfl, rfl⟩
    · obtain ⟨l, hl, rfl⟩ := List.mem_map.mp h
      exact ⟨l, startsAfter_suffix hl, rfl⟩

/-! ### Values and tags -/

/-- The scan of a group stops at the first tag outside; at the end of the data it fails. -/
lemma readRgFields_tags (inRg : ℤ → Bool) {n : ℕ} {last : List Byte} (hn : last.length < n)
    (hl : AtEnd last) :
    (readRgFields inRg n last = none ∧ (tagsAfter last).dropWhile inRg = []) ∨
      ∃ last', readRgFields inRg n last = some last' ∧ AtEnd last' ∧
        last'.length ≤ last.length ∧ tagsAfter last' = (tagsAfter last).dropWhile inRg := by
  induction n generalizing last with
  | zero => omega
  | succ n ih =>
    rw [hl.tagsAfter]
    rcases hl with rfl | ⟨data, rfl⟩
    · exact Or.inl ⟨rfl, rfl⟩
    rcases data with - | ⟨b, data⟩
    · exact Or.inl ⟨rfl, rfl⟩
    have hround : readRgFields inRg (n + 1) (soh :: b :: data) =
        if inRg (tagAt (b :: data)) = true then
          readRgFields inRg n (readValue (readTag 0 (b :: data)).2)
        else some (soh :: b :: data) := rfl
    rw [hround, List.tail_cons, fieldTags]
    rw [List.length_cons] at hn
    cases hin : inRg (tagAt (b :: data)) with
    | true =>
      have hshort := (readValue_length (readTag 0 (b :: data)).2).trans
        (readTag_length (b :: data))
      have ih := ih (by omega) (readValue_atEnd (readTag 0 (b :: data)).2)
      rw [tagsAfter_readValue, tagsAfter_readTag] at ih
      rw [if_pos rfl, List.dropWhile_cons_of_pos hin]
      rcases ih with h | ⟨last', h1, h2, h3, h4⟩
      · exact Or.inl h
      · exact Or.inr ⟨last', h1, h2, by rw [List.length_cons]; omega, h4⟩
    | false =>
      rw [if_neg Bool.false_ne_true, List.dropWhile_cons_of_neg (by simp [hin])]
      refine Or.inr ⟨_, rfl, Or.inr ⟨_, rfl⟩, le_rfl, ?_⟩
      rw [AtEnd.tagsAfter (Or.inr ⟨_, rfl⟩)]
      rfl

variable {p : FieldsParser}

/-- After a value come the tags outside the group it opens. -/
lemma readFieldValue_tags (p : FieldsParser) (tag : ℤ) (start : List Byte) :
    (p.readFieldValue tag start = none ∧ (tagsAfter start).dropWhile
        (inGroup p.rgDictionary (opens p.rgDictionary tag)) = []) ∨
      ∃ rest, p.readFieldValue tag start = some rest ∧ AtEnd rest ∧ rest.length ≤ start.length ∧
        tagsAfter rest = (tagsAfter start).dropWhile
          (inGroup p.rgDictionary (opens p.rgDictionary tag)) := by
  have hplain : ∀ l : List ℤ, l.dropWhile (inGroup p.rgDictionary none) = l := fun l => by
    cases l with
    | nil => rfl
    | cons t l => rw [List.dropWhile_cons_of_neg (by simp [inGroup_none])]
  have hvalue : ∃ rest, some (readValue start) = some rest ∧ AtEnd rest ∧
      rest.length ≤ start.length ∧ tagsAfter rest = tagsAfter start :=
    ⟨_, rfl, readValue_atEnd start, readValue_length start, tagsAfter_readValue start⟩
  cases hd : p.rgDictionary with
  | none =>
    rw [hd] at hplain
    simp only [readFieldValue, hd, opens, hplain]
    exact Or.inr hvalue
  | some d =>
    rw [hd] at hplain
    cases hnormal : d.isNormal tag with
    | true =>
      simp only [readFieldValue, hd, opens, hnormal, if_true, hplain]
      exact Or.inr hvalue
    | false =>
      have hrg := readRgFields_tags (d.isTagInRg tag)
        (Nat.lt_succ_of_le (readValue_length start)) (readValue_atEnd start)
      rw [tagsAfter_readValue] at hrg
      simp only [readFieldValue, hd, opens, hnormal, Bool.false_eq_true, if_false, readRgValue]
      rcases hrg with h | ⟨rest, h1, h2, h3, h4⟩
      · exact Or.inl h
      · exact Or.inr ⟨rest, h1, h2, h3.trans (readValue_length start), h4⟩

/-- A field with its value: the next one outside is the next of the list. -/
lemma topTags_field {data : List Byte} (h : tagAt data ≠ 0) :
    (p.readFieldValue (tagAt data) (readTag 0 data).2.tail = none ∧
        topTags p.rgDictionary none (fieldTags data) = [tagAt data]) ∨
      ∃ rest, p.readFieldValue (tagAt data) (readTag 0 data).2.tail = some rest ∧
        rest.tail.length < data.length ∧
        topTags p.rgDictionary none (fieldTags data) =
          tagAt data :: topTags p.rgDictionary none (fieldTags rest.tail) := by
  obtain ⟨hafter, hlen⟩ := tagsAfter_start h
  have htags : topTags p.rgDictionary none (fieldTags data) = tagAt data ::
      topTags p.rgDictionary none ((tagsAfter data).dropWhile
        (inGroup p.rgDictionary (opens p.rgDictionary (tagAt data)))) := by
    cases data with
    | nil => exact absurd rfl h
    | cons b data => rw [fieldTags, topTags_out (inGroup_none _), if_neg h, topTags_dropWhile]
  rw [htags, ← hafter]
  rcases readFieldValue_tags p (tagAt data) (readTag 0 data).2.tail with
    ⟨hnone, hdrop⟩ | ⟨rest, hsome, hend, hle, hdrop⟩
  · exact Or.inl ⟨hnone, by rw [hdrop]; rfl⟩
  · refine Or.inr ⟨rest, hsome, ?_, by rw [← hdrop, hend.tagsAfter]⟩
    rw [List.length_tail]
    omega

end Ufix.FieldTags
