import Ufix.FieldsParser

/-!
Which byte strings `parse` accepts without a dictionary, and what it finds in them.

A message is a sequence of fields with the end of the last one optional. `parse` accepts exactly
these and keeps the last field of each tag; the table may hold anything from before, the counter
tells it apart.
-/

namespace Ufix.FieldGrammar

open Ufix.Decimal Ufix.FieldsParser
open Ufix.TagValue (equal)

structure RawField where
  tag : List Byte
  val : List Byte
  deriving DecidableEq, Repr

/-- The tag is a string of digits with a value other than `0`, so not empty; leading zeros are
allowed. -/
def RawField.Ok (f : RawField) : Prop := (∀ b ∈ f.tag, IsDigit b) ∧ value f.tag ≠ 0 ∧ soh ∉ f.val

/-- The grammar. -/
inductive IsFields : List RawField → List Byte → Prop
  | nil : IsFields [] []
  | last {f : RawField} (hf : f.Ok) : IsFields [f] (f.tag ++ equal :: f.val)
  | cons {f : RawField} {fs : List RawField} {data : List Byte} (hf : f.Ok)
      (h : IsFields fs data) : IsFields (f :: fs) (f.tag ++ equal :: (f.val ++ soh :: data))

/-- Digits in front of `=` stand for numbers below the size of the table. -/
def SmallTags (data : List Byte) : Prop :=
  ∀ before ds after, data = before ++ ds ++ equal :: after → (∀ b ∈ ds, IsDigit b) →
    value ds < maxFixTag

def lastValue (fs : List RawField) (t : ℕ) : Option (List Byte) :=
  ((fs.filter fun f => value f.tag = t).getLast?).map RawField.val

def valueIn (data : List Byte) (info : FieldInfo) : List Byte :=
  (data.drop info.val).take info.valLen.toNat

/-! ### Tags and values -/

lemma not_isDigit_equal : ¬ IsDigit equal := by decide

lemma ctoi_of_isDigit {b : Byte} (h : IsDigit b) : ¬ (ctoi b > 9 ∨ ctoi b < 0) := by
  have h1 := h.1
  have h2 := h.2
  rw [ctoi, charVal_of_isDigit h]
  omega

lemma isDigit_of_ctoi {b : Byte} (h : ¬ (ctoi b > 9 ∨ ctoi b < 0)) : IsDigit b := by
  have hn := not_isDigit (b := b)
  unfold ctoi at h
  by_contra hd
  have := hn.mpr hd
  omega

lemma readTag_digits {ds rest : List Byte} (hds : ∀ b ∈ ds, IsDigit b) (tag : ℤ) :
    readTag tag (ds ++ equal :: rest) = (ds.foldl intDigit tag, equal :: rest) := by
  induction ds generalizing tag with
  | nil => rw [List.nil_append, readTag, if_pos rfl, List.foldl_nil]
  | cons b ds ih =>
    have hb := hds b (by simp)
    have hne : b ≠ equal := by
      rintro rfl
      exact not_isDigit_equal hb
    rw [List.cons_append, readTag, if_neg hne, if_neg (ctoi_of_isDigit hb),
      ih fun c hc => hds c (by simp [hc]), List.foldl_cons]

/-- A tag that is not an error was read from digits up to `=`. -/
lemma readTag_ne_zero {data : List Byte} {tag : ℤ} (h : (readTag tag data).1 ≠ 0) :
    ∃ ds rest, data = ds ++ equal :: rest ∧ (∀ b ∈ ds, IsDigit b) ∧
      readTag tag data = (ds.foldl intDigit tag, equal :: rest) := by
  induction data generalizing tag with
  | nil => exact absurd rfl h
  | cons b data ih =>
    rw [readTag] at h ⊢
    split
    · next hb => exact ⟨[], data, by rw [hb]; rfl, by simp, by rw [hb]; rfl⟩
    · next hb =>
      rw [if_neg hb] at h
      split
      · next hc =>
        rw [if_pos hc] at h
        exact absurd rfl h
      · next hc =>
        rw [if_neg hc] at h
        obtain ⟨ds, rest, rfl, hds, heq⟩ := ih h
        refine ⟨b :: ds, rest, rfl, ?_, heq⟩
        intro c hc'
        rcases List.mem_cons.mp hc' with rfl | hc'
        · exact isDigit_of_ctoi hc
        · exact hds c hc'

lemma readValue_append {val rest : List Byte} (h : soh ∉ val) :
    readValue (val ++ soh :: rest) = soh :: rest := by
  unfold readValue
  induction val with
  | nil => simp
  | cons b val ih =>
    have hb : b ≠ soh := fun he => h (by simp [he])
    rw [List.cons_append, List.dropWhile_cons, if_pos (by simpa using hb)]
    exact ih fun hm => h (List.mem_cons_of_mem _ hm)

lemma readValue_all {val : List Byte} (h : soh ∉ val) : readValue val = [] := by
  unfold readValue
  induction val with
  | nil => rfl
  | cons b val ih =>
    have hb : b ≠ soh := fun he => h (by simp [he])
    rw [List.dropWhile_cons, if_pos (by simpa using hb)]
    exact ih fun hm => h (List.mem_cons_of_mem _ hm)

lemma readValue_cases (data : List Byte) :
    (soh ∉ data ∧ readValue data = []) ∨
      ∃ val rest, data = val ++ soh :: rest ∧ soh ∉ val ∧ readValue data = soh :: rest := by
  by_cases h : soh ∈ data
  · obtain ⟨val, rest, rfl, hval⟩ := List.eq_append_cons_of_mem h
    exact Or.inr ⟨val, rest, rfl, hval, readValue_append hval⟩
  · exact Or.inl ⟨h, readValue_all h⟩

/-! ### One field -/

lemma foldl_intDigit_of_lt {ds : List Byte} (hds : ∀ b ∈ ds, IsDigit b)
    (hlt : value ds < maxFixTag) : ds.foldl intDigit 0 = (value ds : ℤ) := by
  have hsize : maxFixTag < 2 ^ 31 := by decide
  rw [foldl_intDigit hds, bmod_of_lt (by omega)]

lemma exists_cons {tag : List Byte} (h0 : value tag ≠ 0) (rest : List Byte) :
    ∃ b data, tag ++ rest = b :: data := by
  cases tag with
  | nil => exact absurd rfl h0
  | cons b tag => exact ⟨b, tag ++ rest, rfl⟩

lemma parseFields_field {p : FieldsParser} {tag start rest : List Byte} {dataLen n : ℕ}
    (hsize : p.fieldsSize = maxFixTag) (hds : ∀ b ∈ tag, IsDigit b) (h0 : value tag ≠ 0)
    (hlt : value tag < maxFixTag) (hread : p.readFieldValue (value tag) start = some rest) :
    parseFields dataLen (n + 1) p (tag ++ equal :: start) =
      parseFields dataLen n
        (p.setField (value tag) ⟨p.counter, value tag, dataLen - start.length,
          start.length - rest.length⟩) rest.tail := by
  obtain ⟨b, data, hdata⟩ := exists_cons h0 (equal :: start)
  have hindex : ((value tag : ℕ) : ℤ).tmod p.fieldsSize = value tag := by
    rw [hsize, ← Int.ofNat_tmod, Nat.mod_eq_of_lt hlt]
  rw [hdata, parseFields, ← hdata, readTag_digits hds, foldl_intDigit_of_lt hds hlt]
  simp only [List.tail_cons]
  rw [if_neg (by omega), hread, hindex]

lemma readFieldValue_of_none {p : FieldsParser} (h : p.rgDictionary = none) (tag : ℤ)
    (data : List Byte) : p.readFieldValue tag data = some (readValue data) := by
  unfold readFieldValue
  rw [h]

def Slice (data : List Byte) (info : FieldInfo) (v : List Byte) : Prop :=
  info.valLen = v.length ∧ ∃ rest, data.drop info.val = v ++ rest

lemma Slice.valueIn {data v : List Byte} {info : FieldInfo} (h : Slice data info v) :
    valueIn data info = v := by
  obtain ⟨hlen, rest, hdrop⟩ := h
  rw [FieldGrammar.valueIn, hlen, hdrop, Int.toNat_natCast, List.take_left]

lemma slice_from_end (before val rest : List Byte) (counter : ℕ) (tag : ℤ) :
    Slice (before ++ (val ++ rest))
      ⟨counter, tag, (before ++ (val ++ rest)).length - (val ++ rest).length,
        ((val ++ rest).length : ℤ) - rest.length⟩ val := by
  refine ⟨?_, rest, ?_⟩
  · simp only [List.length_append]
    omega
  · have hpos : (before ++ (val ++ rest)).length - (val ++ rest).length = before.length := by
      rw [List.length_append, Nat.add_sub_cancel]
    simp only [hpos, List.drop_left]

def lastOf (fs : List TagValue.Field) (t : ℕ) : Option (List Byte) :=
  ((fs.filter fun f => f.1 = t).getLast?).map Prod.snd

def Recorded (p : FieldsParser) (data : List Byte) (fs : List TagValue.Field) : Prop :=
  ∀ t : ℕ, 0 < t → t < maxFixTag → (lastOf fs t = none → p.getField t = none) ∧
    ∀ v, lastOf fs t = some v → ∃ info, p.getField t = some info ∧ Slice data info v

lemma lastOf_concat (fs : List TagValue.Field) (f : TagValue.Field) (t : ℕ) :
    lastOf (fs ++ [f]) t = if f.1 = t then some f.2 else lastOf fs t := by
  by_cases h : f.1 = t <;> simp [lastOf, List.filter_append, h]

lemma tmod_fieldsSize {p : FieldsParser} (hsize : p.fieldsSize = maxFixTag) {t : ℕ}
    (ht : t < maxFixTag) : (t : ℤ).tmod p.fieldsSize = t := by
  rw [hsize, ← Int.ofNat_tmod, Nat.mod_eq_of_lt ht]

lemma Recorded.field {p : FieldsParser} {data val : List Byte} {fs : List TagValue.Field}
    {tag : ℕ} {info : FieldInfo} (h : Recorded p data fs) (hsize : p.fieldsSize = maxFixTag)
    (hlt : tag < maxFixTag) (hcounter : info.counter = p.counter) (htag : info.tag = tag)
    (hval : Slice data info val) :
    Recorded (p.setField tag info) data (fs ++ [(tag, val)]) := by
  intro t h0 ht
  rw [lastOf_concat]
  by_cases he : tag = t
  · subst he
    rw [if_pos rfl]
    refine ⟨fun hn => (by cases hn), fun v hv => ⟨info, ?_, ?_⟩⟩
    · simp [getField, setField, tmod_fieldsSize hsize hlt, hcounter, htag]
    · cases hv
      exact hval
  · have hne : (t : ℤ) ≠ (tag : ℤ) := by omega
    have hget : (p.setField tag info).getField t = p.getField t := by
      simp [getField, setField, tmod_fieldsSize hsize ht, hne]
    rw [if_neg he, hget]
    exact h t h0 ht

/-- No entry of the table is from a later message than the last one. -/
structure Past (p : FieldsParser) : Prop where
  size : p.fieldsSize = maxFixTag
  counter : ∀ i, (p.fields i).counter ≤ p.counter

lemma Past.recorded {p : FieldsParser} (h : Past p) (data : List Byte) :
    Recorded { p with counter := p.counter + 1 } data [] := by
  intro t _ ht
  refine ⟨fun _ => ?_, fun v hv => (by cases hv)⟩
  have hold := h.counter t
  unfold getField
  simp only [tmod_fieldsSize h.size ht]
  rw [if_pos (by omega)]

/-! ### All fields -/

def RawField.toField (f : RawField) : TagValue.Field := (value f.tag, f.val)

lemma lastOf_map_toField (fs : List RawField) (t : ℕ) :
    lastOf (fs.map RawField.toField) t = lastValue fs t := by
  induction fs using List.reverseRecOn with
  | nil => rfl
  | append_singleton fs f ih =>
    rw [List.map_append, List.map_singleton, lastOf_concat, ih]
    by_cases h : value f.tag = t <;> simp [lastValue, List.filter_append, RawField.toField, h]

lemma SmallTags.of_append (before : List Byte) {data : List Byte}
    (h : SmallTags (before ++ data)) : SmallTags data := by
  rintro pre ds after rfl hds
  exact h (before ++ pre) ds after (by simp) hds

lemma IsFields.small {fs : List RawField} {data : List Byte} (h : IsFields fs data)
    (hsmall : SmallTags data) : ∀ f ∈ fs, value f.tag < maxFixTag := by
  induction h with
  | nil => simp
  | @last f hf =>
    intro g hg
    rw [List.mem_singleton.mp hg]
    exact hsmall [] f.tag f.val rfl hf.1
  | @cons f fs data hf h ih =>
    intro g hg
    rcases List.mem_cons.mp hg with rfl | hg
    · exact hsmall [] g.tag _ rfl hf.1
    · refine ih (SmallTags.of_append (f.tag ++ equal :: (f.val ++ [soh])) ?_) g hg
      simpa using hsmall

/-- A sequence of fields is accepted, and recorded field by field. -/
lemma parseFields_isFields {fs : List RawField} {data : List Byte} (h : IsFields fs data)
    {p : FieldsParser} {before : List Byte} {done : List TagValue.Field} {n : ℕ}
    (hrec : Recorded p (before ++ data) done) (hnone : p.rgDictionary = none)
    (hsize : p.fieldsSize = maxFixTag) (hsmall : ∀ f ∈ fs, value f.tag < maxFixTag)
    (hn : data.length < n) :
    ∃ q, parseFields (before ++ data).length n p data = (q, true) ∧
      Recorded q (before ++ data) (done ++ fs.map RawField.toField) := by
  induction h generalizing p before done n with
  | nil =>
    obtain ⟨n, rfl⟩ := Nat.exists_eq_add_of_lt hn
    exact ⟨p, rfl, by simpa using hrec⟩
  | @last f hf =>
    obtain ⟨n, rfl⟩ : ∃ m, n = m + 1 + 1 := ⟨n - 2, by simp at hn; omega⟩
    obtain ⟨hds, h0, hval⟩ := hf
    have hlt := hsmall f (by simp)
    have hslice := slice_from_end (before ++ f.tag ++ [equal]) f.val [] p.counter (value f.tag)
    simp only [List.append_nil, List.append_assoc, List.singleton_append] at hslice
    rw [parseFields_field hsize hds h0 hlt (readFieldValue_of_none hnone _ _), readValue_all hval]
    exact ⟨_, rfl, hrec.field hsize hlt rfl rfl hslice⟩
  | @cons f fs data hf h ih =>
    obtain ⟨n, rfl⟩ : ∃ m, n = m + 1 := ⟨n - 1, by simp at hn; omega⟩
    obtain ⟨hds, h0, hval⟩ := hf
    have hlt := hsmall f (by simp)
    have hslice := slice_from_end (before ++ f.tag ++ [equal]) f.val (soh :: data) p.counter
      (value f.tag)
    have hwhole : before ++ (f.tag ++ equal :: (f.val ++ soh :: data)) =
        before ++ f.tag ++ equal :: f.val ++ [soh] ++ data := by simp
    simp only [List.append_assoc, List.singleton_append] at hslice
    rw [parseFields_field hsize hds h0 hlt (readFieldValue_of_none hnone _ _),
      readValue_append hval, List.tail_cons]
    have hrec' := hrec.field hsize hlt rfl rfl hslice
    rw [hwhole] at hrec' ⊢
    obtain ⟨q, hq, hqrec⟩ := ih (n := n) hrec' hnone hsize
      (fun g hg => hsmall g (by simp [hg])) (by simp at hn; omega)
    exact ⟨q, hq, by simpa [RawField.toField] using hqrec⟩

/-- What is accepted is a sequence of fields. -/
lemma isFields_of_parseFields {dataLen n : ℕ} {p : FieldsParser} {data : List Byte}
    (hnone : p.rgDictionary = none) (hsize : p.fieldsSize = maxFixTag) (hsmall : SmallTags data)
    (h : (parseFields dataLen n p data).2 = true) : ∃ fs, IsFields fs data := by
  induction n generalizing p data with
  | zero => cases h
  | succ n ih =>
    rcases data with - | ⟨b, data⟩
    · exact ⟨[], .nil⟩
    by_cases h0 : (readTag 0 (b :: data)).1 = 0
    · simp only [parseFields] at h
      rw [if_pos h0] at h
      cases h
    obtain ⟨tag, start, hdata, hds, hread⟩ := readTag_ne_zero h0
    rw [hdata] at h hsmall ⊢
    have hlt := hsmall [] tag start rfl hds
    have hvalue : value tag ≠ 0 := by
      rw [hread, foldl_intDigit_of_lt hds hlt] at h0
      simpa using h0
    rw [parseFields_field hsize hds hvalue hlt (readFieldValue_of_none hnone _ _)] at h
    rcases readValue_cases start with ⟨hval, -⟩ | ⟨val, rest, rfl, hval, hend⟩
    · exact ⟨[⟨tag, start⟩], .last (f := ⟨tag, start⟩) ⟨hds, hvalue, hval⟩⟩
    · rw [hend] at h
      obtain ⟨fs, hfs⟩ := ih (p := p.setField (value tag) _) hnone hsize
        (SmallTags.of_append (tag ++ equal :: (val ++ [soh])) (by simpa using hsmall)) h
      exact ⟨⟨tag, val⟩ :: fs, .cons (f := ⟨tag, val⟩) ⟨hds, hvalue, hval⟩ hfs⟩

/-! ### What was parsed before -/

lemma Past.setField {p : FieldsParser} (h : Past p) {info : FieldInfo}
    (hinfo : info.counter = p.counter) (index : ℤ) : Past (p.setField index info) := by
  refine ⟨h.size, fun i => ?_⟩
  by_cases hi : i = index
  · subst hi
    simp [FieldsParser.setField, hinfo]
  · simpa [FieldsParser.setField, hi] using h.counter i

lemma Past.parseFields {p : FieldsParser} (h : Past p) (dataLen n : ℕ) (data : List Byte) :
    Past (parseFields dataLen n p data).1 := by
  induction n generalizing p data with
  | zero => exact h
  | succ n ih =>
    rcases data with - | ⟨b, data⟩
    · exact h
    rw [FieldsParser.parseFields]
    simp only
    split
    · exact h
    · split
      · exact h.setField rfl _
      · exact ih (h.setField rfl _) _

lemma Past.parse {p : FieldsParser} (h : Past p) (data : List Byte) : Past (p.parse data).1 :=
  Past.parseFields (p := { p with counter := p.counter + 1 })
    ⟨h.size, fun i => (h.counter i).trans (Nat.le_succ _)⟩ _ _ _

lemma Past.setRgDictionary {p : FieldsParser} (h : Past p) (d : Option RGroupsDictionary) :
    Past (p.setRgDictionary d) := ⟨h.size, h.counter⟩

/-- The parser after some messages, each parsed with the dictionary set at that time. -/
def after (earlier : List (Option RGroupsDictionary × List Byte)) : FieldsParser :=
  earlier.foldl (fun p e => ((p.setRgDictionary e.1).parse e.2).1) (FieldsParser.new maxFixTag)

lemma after_past (earlier : List (Option RGroupsDictionary × List Byte)) :
    Past (after earlier) := by
  unfold after
  induction earlier using List.reverseRecOn with
  | nil => exact ⟨rfl, fun _ => le_rfl⟩
  | append_singleton earlier e ih =>
    rw [List.foldl_append, List.foldl_cons, List.foldl_nil]
    exact (ih.setRgDictionary e.1).parse e.2

/-- **The grammar of messages.** Whatever was parsed before, `parse` without a dictionary accepts
exactly the sequences of fields, and then `get_field` finds for each tag the value of its last
field, and nothing when it has none. -/
theorem parse_isFields (earlier : List (Option RGroupsDictionary × List Byte)) {data : List Byte}
    (hsmall : SmallTags data) :
    ((((after earlier).setRgDictionary none).parse data).2 = true ↔ ∃ fs, IsFields fs data) ∧
      ∀ fs, IsFields fs data → ∀ t : ℕ, 0 < t → t < maxFixTag →
        ((((after earlier).setRgDictionary none).parse data).1.getField t).map (valueIn data) =
          lastValue fs t := by
  have hpast := (after_past earlier).setRgDictionary none
  have hnone : ((after earlier).setRgDictionary none).rgDictionary = none := rfl
  generalize (after earlier).setRgDictionary none = p at hpast hnone ⊢
  have hparse : ∀ fs, IsFields fs data →
      ∃ q, p.parse data = (q, true) ∧ Recorded q data (fs.map RawField.toField) := by
    intro fs hfs
    obtain ⟨q, hq, hqrec⟩ := parseFields_isFields hfs (n := data.length + 1)
      (hpast.recorded ([] ++ data)) hnone hpast.size (hfs.small hsmall) (Nat.lt_succ_self _)
    exact ⟨q, hq, hqrec⟩
  refine ⟨⟨fun h => ?_, fun ⟨fs, hfs⟩ => ?_⟩, fun fs hfs => ?_⟩
  · exact isFields_of_parseFields (p := { p with counter := p.counter + 1 }) hnone hpast.size
      hsmall h
  · obtain ⟨q, hq, -⟩ := hparse fs hfs
    rw [hq]
  · obtain ⟨q, hq, hqrec⟩ := hparse fs hfs
    intro t h0 ht
    obtain ⟨habsent, hfound⟩ := hqrec t h0 ht
    rw [lastOf_map_toField] at habsent hfound
    rw [hq]
    cases hlast : lastValue fs t with
    | none => rw [habsent hlast, Option.map_none]
    | some v =>
      obtain ⟨info, hinfo, hslice⟩ := hfound v hlast
      rw [hinfo, Option.map_some, hslice.valueIn]

lemma smallTags_of_length {front rest : List Byte} (h : front.length ≤ 5) (hrest : equal ∉ rest) :
    SmallTags (front ++ rest) := by
  intro before ds after hdata hds
  have hat : (front ++ rest)[(before ++ ds).length]? = some equal := by
    rw [hdata, List.getElem?_append_right le_rfl, Nat.sub_self]
    rfl
  have hlt : (before ++ ds).length < front.length := by
    by_contra hge
    rw [List.getElem?_append_right (by omega)] at hat
    exact hrest (List.mem_of_getElem? hat)
  have hlen : ds.length ≤ 4 := by
    rw [List.length_append] at hlt
    omega
  calc value ds < 10 ^ ds.length := value_lt hds
    _ ≤ 10 ^ 4 := Nat.pow_le_pow_right (by decide) hlen
    _ ≤ maxFixTag := by decide

/-- Field `1` comes twice, and the table holds field `2` of the message before. -/
theorem parse_isFields_twice :
    let parsed := ((after [(none, [50, 61, 98, 1])]).setRgDictionary none).parse
      [49, 61, 1, 49, 61, 99]
    parsed.2 = true ∧ (parsed.1.getField 1).map (valueIn [49, 61, 1, 49, 61, 99]) = some [99] ∧
      (parsed.1.getField 2).map (valueIn [49, 61, 1, 49, 61, 99]) = none := by
  have hdigit : ∀ b ∈ ([49] : List Byte), IsDigit b := List.forall_mem_singleton.mpr (by decide)
  have hfs : IsFields [⟨[49], []⟩, ⟨[49], [99]⟩] [49, 61, 1, 49, 61, 99] :=
    .cons ⟨hdigit, by decide, by decide⟩ (.last ⟨hdigit, by decide, by decide⟩)
  obtain ⟨hparsed, hfound⟩ := parse_isFields [(none, [50, 61, 98, 1])]
    (smallTags_of_length (show [49, 61, 1, 49, 61].length ≤ 5 by decide)
      (show equal ∉ [99] by decide))
  have hmax : 2 < maxFixTag := by
    unfold maxFixTag
    omega
  exact ⟨hparsed.mpr ⟨_, hfs⟩, hfound _ hfs 1 (by decide) (by omega),
    hfound _ hfs 2 (by decide) hmax⟩

end Ufix.FieldGrammar
