import Mathlib.Data.List.TakeWhile
import Ufix.FieldTable

/-!
What `get_field` gives after the last of many calls of `parse`, whatever these returned.

The counter tells entries of the last message from older ones. But an entry gets its counter, tag
and place before its value is read, and its length only afterwards: when the data ends inside a
group, the length in the entry of the group is one that was left there before.
-/

namespace Ufix.StaleFields

open Ufix.FieldsParser Ufix.FieldTags Ufix.FieldTable

/-- The parser after some messages, each parsed with the dictionary set at that time. -/
def parseAll (size : ℕ) (earlier : List (Option RGroupsDictionary × List Byte)) : FieldsParser :=
  earlier.foldl (fun p e => ((p.setRgDictionary e.1).parse e.2).1) (FieldsParser.new size)

def allVisits (earlier : List (Option RGroupsDictionary × List Byte)) : List Visit :=
  earlier.flatMap fun e => visits e.1 e.2

/-- The field is one of the data with tag `t`, and its bytes are bytes of it: a field that starts
among them belongs to the group it opens. -/
structure Designates (dict : Option RGroupsDictionary) (data : List Byte) (t : ℤ)
    (info : FieldInfo) : Prop where
  stands : Stands data t (data.drop info.val)
  nonneg : 0 ≤ info.valLen
  inside : info.val + info.valLen ≤ data.length
  own : ∀ l ∈ startsAfter (data.drop info.val),
    ((data.drop info.val).length : ℤ) - l.length < info.valLen →
      inGroup dict (opens dict t) (tagAt l) = true

/-- When the data ends inside a group, at most as many bytes are left of it as the last field says
that was stored in the same entry and read to its end. -/
def LeftFits (size : ℕ) (earlier : List (Option RGroupsDictionary × List Byte))
    (dict : Option RGroupsDictionary) (data : List Byte) : Prop :=
  ∀ v ∈ visits dict data, v.len = none →
    lastLen 0 (storedAt size (allVisits earlier ++ visits dict data) (v.tag.tmod size)) ≤
      v.start.length

variable {size : ℕ} {earlier : List (Option RGroupsDictionary × List Byte)}
  {dict : Option RGroupsDictionary} {data : List Byte}

/-! ### What is left in the table -/

/-- The table before a call: its counters are old, its lengths are those of the fields read. -/
structure Left (size : ℕ) (vs : List Visit) (p : FieldsParser) : Prop where
  fieldsSize : p.fieldsSize = size
  counter : ∀ i, (p.fields i).counter ≤ p.counter
  valLen : ∀ i, (p.fields i).valLen = lastLen 0 (storedAt size vs i)

lemma Left.parse {vs : List Visit} {p : FieldsParser} (h : Left size vs p) (data : List Byte) :
    Left size (vs ++ visits p.rgDictionary data) (p.parse data).1 := by
  refine ⟨?_, parse_counter h.counter data, fun i => ?_⟩
  · rw [parse_eq_foldl, foldl_record_fieldsSize]
    exact h.fieldsSize
  · rw [parse_eq_foldl, foldl_record_valLen, storedAt_append, lastLen_append, ← h.valLen,
      h.fieldsSize]

lemma parseAll_left (size : ℕ) (earlier : List (Option RGroupsDictionary × List Byte)) :
    Left size (allVisits earlier) (parseAll size earlier) := by
  induction earlier using List.reverseRecOn with
  | nil => exact ⟨rfl, fun _ => le_rfl, fun _ => rfl⟩
  | append_singleton earlier e ih =>
    have hset : Left size (allVisits earlier) ((parseAll size earlier).setRgDictionary e.1) :=
      ⟨ih.fieldsSize, ih.counter, ih.valLen⟩
    have hnext := hset.parse e.2
    have hall : allVisits (earlier ++ [e]) = allVisits earlier ++ visits e.1 e.2 := by
      simp [allVisits]
    rw [hall, parseAll, List.foldl_append]
    exact hnext

/-! ### What a field holds -/

lemma startsAfter_of_suffix {rest start : List Byte} (h : rest <:+ start) :
    startsAfter rest <:+ startsAfter start := by
  induction start with
  | nil =>
    obtain rfl := List.suffix_nil.mp h
    exact List.suffix_rfl
  | cons b start ih =>
    rcases List.suffix_cons_iff.mp h with rfl | h
    · exact List.suffix_rfl
    · rw [startsAfter]
      split
      · exact (ih h).trans (List.suffix_cons _ _)
      · exact ih h

lemma passed_of_dropWhile {rest start : List Byte} {inRg : ℤ → Bool} (h : rest <:+ start)
    (htags : tagsAfter rest = (tagsAfter start).dropWhile inRg) {l : List Byte}
    (hl : l ∈ startsAfter start) (hlt : rest.length < l.length) : inRg (tagAt l) = true := by
  obtain ⟨passed, hpassed⟩ := startsAfter_of_suffix h
  rw [← hpassed] at hl
  rcases List.mem_append.mp hl with hl | hl
  · have hsplit : passed.map tagAt ++ tagsAfter rest = tagsAfter start := by
      rw [tagsAfter, tagsAfter, ← List.map_append, hpassed]
    have htake := List.takeWhile_append_dropWhile (p := inRg) (l := tagsAfter start)
    rw [← htags, ← hsplit] at htake
    have heq := List.append_cancel_right htake
    have hmem : tagAt l ∈ (passed.map tagAt ++ tagsAfter rest).takeWhile inRg := by
      rw [heq]
      exact List.mem_map_of_mem hl
    exact List.mem_takeWhile_imp hmem
  · have := (startsAfter_suffix hl).length_le
    omega

lemma mem_visits {v : Visit} (hv : v ∈ visits dict data) : Stands data v.tag v.start ∧
    v.len = (((FieldsParser.new maxFixTag).setRgDictionary dict).readFieldValue v.tag v.start).map
      fun rest => (v.start.length : ℤ) - rest.length := by
  have hnothing : ([] : List Byte) = [] ∨ ∃ b, [] = b ++ [soh] := Or.inl rfl
  have hread : ∀ tag start rest,
      ((FieldsParser.new maxFixTag).setRgDictionary dict).readFieldValue tag start = some rest →
        AtEnd rest ∧ rest <:+ start :=
    fun _ _ _ h => ⟨(readFieldValue_some h).1, (readFieldValue_some h).2.1⟩
  exact mem_visitsFrom hread hnothing hv

lemma stands_of_mem {v : Visit} (hv : v ∈ visits dict data) : Stands data v.tag v.start :=
  (mem_visits hv).1

lemma len_of_mem {v : Visit} (hv : v ∈ visits dict data) :
    v.len = (((FieldsParser.new maxFixTag).setRgDictionary dict).readFieldValue v.tag v.start).map
      fun rest => (v.start.length : ℤ) - rest.length :=
  (mem_visits hv).2

lemma own_of_len {v : Visit} (hv : v ∈ visits dict data) {n : ℤ} (hn : v.len = some n) :
    0 ≤ n ∧ n ≤ v.start.length ∧ ∀ l ∈ startsAfter v.start,
      (v.start.length : ℤ) - l.length < n → inGroup dict (opens dict v.tag) (tagAt l) = true := by
  have hlen := len_of_mem hv
  rw [hn] at hlen
  obtain ⟨rest, hread, rfl⟩ := Option.map_eq_some_iff.mp hlen.symm
  obtain ⟨-, hsuffix, htags⟩ := readFieldValue_some hread
  have hle := hsuffix.length_le
  exact ⟨by omega, by omega, fun l hl hlt => passed_of_dropWhile hsuffix htags hl (by omega)⟩

lemma own_of_cut {v : Visit} (hv : v ∈ visits dict data) (hn : v.len = none) :
    ∀ l ∈ startsAfter v.start, inGroup dict (opens dict v.tag) (tagAt l) = true := by
  have hlen := len_of_mem hv
  rw [hn] at hlen
  have hdrop := readFieldValue_none (Option.map_eq_none_iff.mp hlen.symm)
  intro l hl
  exact List.dropWhile_eq_nil_iff.mp hdrop _ (List.mem_map_of_mem hl)

lemma lastLen_nonneg {old : ℤ} {vs : List Visit} (h0 : 0 ≤ old)
    (h : ∀ v ∈ vs, ∀ n, v.len = some n → 0 ≤ n) : 0 ≤ lastLen old vs := by
  induction vs using List.reverseRecOn with
  | nil => exact h0
  | append_singleton vs v ih =>
    rw [lastLen_concat]
    cases hv : v.len with
    | none => exact ih fun w hw => h w (by simp [hw])
    | some n => exact h v (by simp) n hv

lemma left_nonneg (size : ℕ) (earlier : List (Option RGroupsDictionary × List Byte))
    (dict : Option RGroupsDictionary) (data : List Byte) (index : ℤ) :
    0 ≤ lastLen 0 (storedAt size (allVisits earlier ++ visits dict data) index) := by
  refine lastLen_nonneg le_rfl fun v hv n hn => ?_
  rcases List.mem_append.mp (mem_of_mem_storedAt hv) with hv | hv
  · obtain ⟨e, -, hv⟩ := List.mem_flatMap.mp hv
    exact (own_of_len hv hn).1
  · exact (own_of_len hv hn).1

/-! ### What the table gives -/

variable (size earlier dict data) in
def entry (v : Visit) : FieldInfo :=
  ⟨(parseAll size earlier).counter + 1, v.tag, data.length - v.start.length,
    lastLen 0 (storedAt size (allVisits earlier ++ visits dict data) (v.tag.tmod size))⟩

/-- `get_field` gives the entry of the last field stored there. -/
lemma getField_eq_some_iff {t : ℤ} {info : FieldInfo} :
    (((parseAll size earlier).setRgDictionary dict).parse data).1.getField t = some info ↔
      ∃ v, (storedAt size (visits dict data) (t.tmod size)).getLast? = some v ∧ v.tag = t ∧
        info = entry size earlier dict data v := by
  have hleft := parseAll_left size earlier
  have hvalLen : ∀ i, lastLen ((parseAll size earlier).fields i).valLen
      (storedAt size (visits dict data) i) =
        lastLen 0 (storedAt size (allVisits earlier ++ visits dict data) i) := fun i => by
    rw [storedAt_append, lastLen_append, hleft.valLen]
  have hget :=
    getField_parse (p := (parseAll size earlier).setRgDictionary dict) hleft.counter data t
  have hsize : ((parseAll size earlier).setRgDictionary dict).fieldsSize = size := hleft.fieldsSize
  have hdict : ((parseAll size earlier).setRgDictionary dict).rgDictionary = dict := rfl
  have hfields : ((parseAll size earlier).setRgDictionary dict).fields =
      (parseAll size earlier).fields := rfl
  rw [hsize, hdict, hfields, hvalLen] at hget
  rw [hget]
  simp only [Option.map_eq_some_iff, Option.filter_eq_some_iff, decide_eq_true_eq]
  constructor
  · rintro ⟨v, ⟨hv, rfl⟩, rfl⟩
    exact ⟨v, hv, rfl, rfl⟩
  · rintro ⟨v, hv, rfl, rfl⟩
    exact ⟨v, ⟨hv, rfl⟩, rfl⟩

/-- The entry is right unless its length is one that is too long for what is left. -/
lemma designates_entry_iff {v : Visit} (hv : v ∈ visits dict data)
    (hlast : (storedAt size (visits dict data) (v.tag.tmod size)).getLast? = some v) :
    Designates dict data v.tag (entry size earlier dict data v) ↔
      (v.len = none →
        lastLen 0 (storedAt size (allVisits earlier ++ visits dict data) (v.tag.tmod size)) ≤
          v.start.length) := by
  have hstands := stands_of_mem hv
  obtain ⟨hlen, hdrop⟩ := hstands.start_length
  have hnonneg := left_nonneg size earlier dict data (v.tag.tmod size)
  constructor
  · intro h _
    have hinside := h.inside
    simp only [entry] at hinside
    omega
  · intro hfits
    have hlast' : ∀ n, v.len = some n →
        lastLen 0 (storedAt size (allVisits earlier ++ visits dict data) (v.tag.tmod size)) =
          n := by
      intro n hn
      obtain ⟨vs, hvs⟩ := List.getLast?_eq_some_iff.mp hlast
      rw [storedAt_append, hvs, ← List.append_assoc, lastLen_concat, hn, Option.getD_some]
    refine ⟨by rw [entry, hdrop]; exact hstands, hnonneg, ?_, ?_⟩
    · cases hn : v.len with
      | none =>
        have := hfits hn
        simp only [entry]
        omega
      | some n =>
        have hown := (own_of_len hv hn).2.1
        simp only [entry, hlast' n hn]
        omega
    · simp only [entry, hdrop]
      intro l hl hlt
      cases hn : v.len with
      | none => exact own_of_cut hv hn l hl
      | some n =>
        rw [hlast' n hn] at hlt
        exact (own_of_len hv hn).2.2 l hl hlt

/-- **No stale field survives**, after any calls of `parse` with any dictionaries on any data, if
and only if the length that was left in the entry of a group, where the data ends inside it, is
not longer than what is left of the data. -/
theorem getField_designates_iff (size : ℕ)
    (earlier : List (Option RGroupsDictionary × List Byte)) (dict : Option RGroupsDictionary)
    (data : List Byte) :
    (∀ t info,
        (((parseAll size earlier).setRgDictionary dict).parse data).1.getField t = some info →
          Designates dict data t info) ↔
      LeftFits size earlier dict data := by
  constructor
  · intro h v hv hn
    obtain ⟨vs, hvs⟩ := getLast_visitsFrom hv hn
    have hlast : (storedAt size (visits dict data) (v.tag.tmod size)).getLast? = some v := by
      rw [visits, hvs, storedAt_concat, if_pos rfl, List.getLast?_concat]
    exact (designates_entry_iff hv hlast).mp
      (h v.tag _ (getField_eq_some_iff.mpr ⟨v, hlast, rfl, rfl⟩)) hn
  · intro h t info hget
    obtain ⟨v, hlast, rfl, rfl⟩ := getField_eq_some_iff.mp hget
    have hv := mem_of_mem_storedAt (List.mem_of_getLast? hlast)
    exact (designates_entry_iff hv hlast).mpr (h v hv)

/-- Group `5` with members `6`: the first message leaves the length of `1|6=aaaa` in its entry, the
second one ends after `5=1|`. -/
theorem stale_length_outside :
    ¬ ∀ t info, (((parseAll maxFixTag
        [(some (RGroupsDictionary.new.addRg 5 [6]),
          [53, 61, 49, 1, 54, 61, 97, 97, 97, 97, 1, 55, 61, 120, 1])]).setRgDictionary
            (some (RGroupsDictionary.new.addRg 5 [6]))).parse [53, 61, 49, 1]).1.getField t =
              some info →
      Designates (some (RGroupsDictionary.new.addRg 5 [6])) [53, 61, 49, 1] t info := by
  intro h
  have hfield := h 5 ⟨2, 5, 2, 8⟩ (by decide +kernel)
  exact absurd hfield.inside (by decide)

end Ufix.StaleFields
