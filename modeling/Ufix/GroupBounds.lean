import Ufix.ParserBounds

/-!
Which entries of `infos` are touched by `parse_groups` and `parse_group`.

As for `parse`, with every index into `infos` checked against the capacity. `parse_groups` takes an
entry for each instance it meets, whatever the count says, and at the end the entry of the last
one; `parse_group` takes one for each field.
-/

namespace Ufix.GroupBounds

open Ufix.FieldTags Ufix.ParserBounds
open Ufix.FieldsParser (GroupsState readTag readValue)

variable (capacity : ℕ)

def closeGroup (s : GroupsState) : Option (ℤ → FieldInfo) :=
  if Inside capacity ((s.numGroupsRead : ℤ) - 1) then some (FieldsParser.closeGroup s) else none

/-- The new instance gets its start and the one before it its length. -/
def openGroup (s : GroupsState) (data tagPos : ℕ) : Option GroupsState :=
  if Inside capacity s.numGroupsRead ∧
      (s.numGroupsRead > 0 → Inside capacity ((s.numGroupsRead : ℤ) - 1)) then
    some (FieldsParser.openGroup s data tagPos)
  else none

def startField (s : GroupsState) (data tagPos : ℕ) (tag : ℤ) : Option GroupsState :=
  let s := if s.tagStart = 0 then { s with tagStart := tag } else s
  if tag = s.tagStart then openGroup capacity s data tagPos else some s

def parseGroupsFields (p : FieldsParser) (data dataLen : ℕ) (numGroups : ℤ) :
    ℕ → GroupsState → List Byte → Option ((ℤ → FieldInfo) × ℤ)
  | 0, s, _ => some (s.infos, 0)
  | _ + 1, s, [] =>
    if s.numGroupsRead = numGroups then
      (closeGroup capacity s).map fun infos => (infos, numGroups)
    else some (s.infos, 0)
  | n + 1, s, b :: slice =>
    let tagPos := dataLen - (b :: slice).length
    let (tag, rest) := readTag 0 (b :: slice)
    if tag = 0 then some (s.infos, 0)
    else
      (startField capacity s data tagPos tag).bind fun s =>
        match p.readFieldValue tag rest.tail with
        | none => some (s.infos, 0)
        | some rest =>
          parseGroupsFields p data dataLen numGroups n
            { s with endValPos := dataLen - rest.length } rest.tail

/-- The inner `none` is a count that runs out of the memory. -/
def parseGroups (p : FieldsParser) (mem : List Byte) (data dataLen : ℕ) (infos : ℤ → FieldInfo) :
    Option (Option ((ℤ → FieldInfo) × ℤ)) :=
  match convertAtoi (mem.drop data) with
  | none => some none
  | some numGroups =>
    let slice := (mem.drop data).take dataLen
    (parseGroupsFields capacity p data dataLen numGroups (dataLen + 1) ⟨infos, 0, 0, 0⟩
      (readValue slice).tail).map some

def parseGroupFields (p : FieldsParser) (data dataLen : ℕ) :
    ℕ → (ℤ → FieldInfo) → ℕ → List Byte → Option ((ℤ → FieldInfo) × ℤ)
  | 0, infos, _, _ => some (infos, 0)
  | _ + 1, infos, index, [] => some (infos, index)
  | n + 1, infos, index, b :: slice =>
    let (tag, rest) := readTag 0 (b :: slice)
    if tag = 0 then some (infos, 0)
    else
      let start := rest.tail
      if Inside capacity index then
        let info : FieldInfo :=
          { infos index with tag := tag, val := data + (dataLen - start.length) }
        match p.readFieldValue tag start with
        | none => some (Function.update infos index info, 0)
        | some rest =>
          parseGroupFields p data dataLen n
            (Function.update infos index { info with valLen := start.length - rest.length })
            (index + 1) rest.tail
      else none

def parseGroup (p : FieldsParser) (mem : List Byte) (data dataLen : ℕ) (infos : ℤ → FieldInfo) :
    Option ((ℤ → FieldInfo) × ℤ) :=
  parseGroupFields capacity p data dataLen (dataLen + 1) infos 0 ((mem.drop data).take dataLen)

/-- How many of the tags start an instance: those that are the first one. -/
def instances (tags : List ℤ) : ℕ := tags.count (tags.headD 0)

variable {capacity} {p : FieldsParser} {data dataLen n : ℕ} {numGroups : ℤ} {slice : List Byte}

/-! ### They agree with the parser -/

lemma startField_eq {s t : GroupsState} {tagPos : ℕ} {tag : ℤ}
    (h : startField capacity s data tagPos tag = some t) :
    FieldsParser.startField s data tagPos tag = t := by
  simp only [startField, openGroup] at h
  simp only [FieldsParser.startField]
  generalize (if s.tagStart = 0 then { s with tagStart := tag } else s) = s at h ⊢
  split at h
  · next htag =>
    rw [if_pos htag]
    split at h
    · exact Option.some.inj h
    · cases h
  · next htag =>
    rw [if_neg htag]
    exact Option.some.inj h

lemma parseGroupsFields_eq {s : GroupsState} {r : (ℤ → FieldInfo) × ℤ}
    (h : parseGroupsFields capacity p data dataLen numGroups n s slice = some r) :
    FieldsParser.parseGroupsFields p data dataLen numGroups n s slice = r := by
  induction n generalizing s slice with
  | zero => exact Option.some.inj h
  | succ n ih =>
    cases slice with
    | nil =>
      rw [parseGroupsFields] at h
      rw [FieldsParser.parseGroupsFields]
      split at h
      · next hread =>
        rw [if_pos hread]
        unfold closeGroup at h
        split at h
        · exact Option.some.inj h
        · cases h
      · next hread =>
        rw [if_neg hread]
        exact Option.some.inj h
    | cons b slice =>
      rw [parseGroupsFields] at h
      rw [FieldsParser.parseGroupsFields]
      simp only at h ⊢
      split at h
      · next h0 =>
        rw [if_pos h0]
        exact Option.some.inj h
      · next h0 =>
        obtain ⟨t, hstart, h⟩ := Option.bind_eq_some_iff.mp h
        rw [if_neg h0, startField_eq hstart]
        cases hval : p.readFieldValue (readTag 0 (b :: slice)).1
            (readTag 0 (b :: slice)).2.tail with
        | none =>
          rw [hval] at h
          exact Option.some.inj h
        | some rest =>
          rw [hval] at h
          exact ih h

lemma parseGroupFields_eq {infos : ℤ → FieldInfo} {index : ℕ} {r : (ℤ → FieldInfo) × ℤ}
    (h : parseGroupFields capacity p data dataLen n infos index slice = some r) :
    FieldsParser.parseGroupFields p data dataLen n infos index slice = r := by
  induction n generalizing infos index slice with
  | zero => exact Option.some.inj h
  | succ n ih =>
    cases slice with
    | nil => exact Option.some.inj h
    | cons b slice =>
      rw [parseGroupFields] at h
      rw [FieldsParser.parseGroupFields]
      simp only at h ⊢
      split at h
      · next h0 =>
        rw [if_pos h0]
        exact Option.some.inj h
      · next h0 =>
        rw [if_neg h0]
        split at h
        · cases hval : p.readFieldValue (readTag 0 (b :: slice)).1
              (readTag 0 (b :: slice)).2.tail with
          | none =>
            rw [hval] at h
            exact Option.some.inj h
          | some rest =>
            rw [hval] at h
            exact ih h
        · cases h

/-! ### The entries they take -/

lemma startField_isSome {s : GroupsState} (hs : s.tagStart ≠ 0) (data tagPos : ℕ) (tag : ℤ) :
    startField capacity s data tagPos tag =
      if tag = s.tagStart then
        if s.numGroupsRead < capacity then some (FieldsParser.openGroup s data tagPos) else none
      else some s := by
  have hopen : (Inside capacity s.numGroupsRead ∧
      (s.numGroupsRead > 0 → Inside capacity ((s.numGroupsRead : ℤ) - 1))) ↔
      s.numGroupsRead < capacity := by
    unfold Inside
    omega
  simp only [startField, openGroup, if_neg hs, hopen]

/-- Each instance takes one entry. -/
lemma parseGroupsFields_isSome {s : GroupsState} (hs : s.tagStart ≠ 0)
    (hk : s.numGroupsRead ≤ capacity)
    (hfirst : 1 ≤ s.numGroupsRead ∨ tagAt slice = s.tagStart) (hn : slice.length < n) :
    (parseGroupsFields capacity p data dataLen numGroups n s slice).isSome = true ↔
      s.numGroupsRead + (topTags p.rgDictionary none (fieldTags slice)).count s.tagStart ≤
        capacity := by
  induction n generalizing s slice with
  | zero => omega
  | succ n ih =>
    cases slice with
    | nil =>
      have hpos : 1 ≤ s.numGroupsRead := by
        rcases hfirst with h | h
        · exact h
        · exact absurd h.symm hs
      have hlast : Inside capacity ((s.numGroupsRead : ℤ) - 1) := by
        unfold Inside
        omega
      rw [parseGroupsFields, closeGroup, if_pos hlast]
      split <;> simp [fieldTags, topTags, hk]
    | cons b slice =>
      have htag : (readTag 0 (b :: slice)).1 = tagAt (b :: slice) := rfl
      rw [parseGroupsFields]
      simp only [htag]
      by_cases h0 : tagAt (b :: slice) = 0
      · rw [if_pos h0, fieldTags, topTags_out (inGroup_none _), if_pos h0]
        simpa using hk
      · rw [if_neg h0, startField_isSome hs]
        -- what is left after the start of the field
        obtain ⟨tags, htags, hrest⟩ : ∃ tags,
            topTags p.rgDictionary none (fieldTags (b :: slice)) = tagAt (b :: slice) :: tags ∧
            ∀ t : GroupsState, t.tagStart = s.tagStart → 1 ≤ t.numGroupsRead →
              t.numGroupsRead ≤ capacity →
              (((match p.readFieldValue (tagAt (b :: slice)) (readTag 0 (b :: slice)).2.tail with
                | none => some (t.infos, 0)
                | some rest =>
                  parseGroupsFields capacity p data dataLen numGroups n
                    { t with endValPos := dataLen - rest.length } rest.tail).isSome = true) ↔
                t.numGroupsRead + tags.count s.tagStart ≤ capacity) := by
          rcases topTags_field (p := p) h0 with ⟨hval, htags⟩ | ⟨rest, hval, hlen, htags⟩
          · refine ⟨[], htags, fun t _ _ ht => ?_⟩
            rw [hval]
            simpa using ht
          · refine ⟨_, htags, fun t hstart hpos ht => ?_⟩
            rw [hval, ← hstart]
            exact ih (by rw [hstart]; exact hs) ht (Or.inl hpos) (by omega)
        rw [htags]
        by_cases hstart : tagAt (b :: slice) = s.tagStart
        · rw [if_pos hstart, hstart, List.count_cons_self]
          by_cases hroom : s.numGroupsRead < capacity
          · have hopen := hrest (FieldsParser.openGroup s data (dataLen - (b :: slice).length)) rfl
              (Nat.succ_pos _) hroom
            rw [if_pos hroom, Option.bind_some, ← hstart, hopen, hstart]
            simp only [FieldsParser.openGroup]
            omega
          · rw [if_neg hroom, Option.bind_none]
            simp only [Option.isSome_none, Bool.false_eq_true, false_iff]
            omega
        · rw [if_neg hstart, Option.bind_some, List.count_cons_of_ne hstart]
          refine hrest s rfl ?_ hk
          rcases hfirst with h | h
          · exact h
          · exact absurd h hstart

/-- With no field at all and a count of `0`, the length is written in front of the array. -/
lemma parseGroupsFields_new (infos : ℤ → FieldInfo) (hn : slice.length < n) :
    (parseGroupsFields capacity p data dataLen numGroups n ⟨infos, 0, 0, 0⟩ slice).isSome = true ↔
      instances (topTags p.rgDictionary none (fieldTags slice)) ≤ capacity ∧
        ¬ (numGroups = 0 ∧ slice = []) := by
  obtain ⟨n, rfl⟩ : ∃ m, n = m + 1 := ⟨n - 1, by omega⟩
  cases slice with
  | nil =>
    have hbefore : ¬ Inside capacity (((0 : ℕ) : ℤ) - 1) := fun h => absurd h.1 (by decide)
    rw [parseGroupsFields, closeGroup, if_neg hbefore]
    by_cases h0 : numGroups = 0
    · simp [h0]
    · have h0' : ¬ ((0 : ℕ) : ℤ) = numGroups := fun h => h0 h.symm
      rw [if_neg h0']
      simp [h0, instances, fieldTags, topTags]
  | cons b slice =>
    have htag : (readTag 0 (b :: slice)).1 = tagAt (b :: slice) := rfl
    by_cases h0 : tagAt (b :: slice) = 0
    · rw [parseGroupsFields, fieldTags, topTags_out (inGroup_none _), if_pos h0]
      simp [htag, h0, instances]
    · -- the first tag is the one that starts an instance
      have hfirst : parseGroupsFields capacity p data dataLen numGroups (n + 1) ⟨infos, 0, 0, 0⟩
          (b :: slice) = parseGroupsFields capacity p data dataLen numGroups (n + 1)
            ⟨infos, tagAt (b :: slice), 0, 0⟩ (b :: slice) := by
        rw [parseGroupsFields, parseGroupsFields]
        simp only [htag, startField, if_neg h0, if_true]
      have hinst : instances (topTags p.rgDictionary none (fieldTags (b :: slice))) =
          (topTags p.rgDictionary none (fieldTags (b :: slice))).count (tagAt (b :: slice)) := by
        rw [instances, fieldTags, topTags_out (inGroup_none _), if_neg h0, List.headD_cons]
      rw [hfirst, parseGroupsFields_isSome h0 (Nat.zero_le _) (Or.inr rfl) hn, hinst, Nat.zero_add]
      simp

/-- Each field takes one entry. -/
lemma parseGroupFields_isSome {infos : ℤ → FieldInfo} {index : ℕ} (hindex : index ≤ capacity)
    (hn : slice.length < n) :
    (parseGroupFields capacity p data dataLen n infos index slice).isSome = true ↔
      index + (topTags p.rgDictionary none (fieldTags slice)).length ≤ capacity := by
  induction n generalizing infos index slice with
  | zero => omega
  | succ n ih =>
    cases slice with
    | nil => simpa [parseGroupFields, fieldTags, topTags] using hindex
    | cons b slice =>
      have htag : (readTag 0 (b :: slice)).1 = tagAt (b :: slice) := rfl
      rw [parseGroupFields]
      simp only [htag]
      by_cases h0 : tagAt (b :: slice) = 0
      · rw [if_pos h0, fieldTags, topTags_out (inGroup_none _), if_pos h0]
        simpa using hindex
      · rw [if_neg h0]
        by_cases hroom : index < capacity
        · rw [if_pos ⟨by omega, by omega⟩]
          rcases topTags_field (p := p) h0 with ⟨hval, htags⟩ | ⟨rest, hval, hlen, htags⟩
          · rw [hval, htags]
            simpa using Nat.succ_le_of_lt hroom
          · simp only [hval, htags, List.length_cons]
            rw [ih hroom (by omega)]
            omega
        · have hout : ¬ Inside capacity index := fun h => hroom (by unfold Inside at h; omega)
          have hlen : 1 ≤ (topTags p.rgDictionary none (fieldTags (b :: slice))).length := by
            rw [fieldTags, topTags_out (inGroup_none _), if_neg h0, List.length_cons]
            omega
          rw [if_neg hout]
          simp only [Option.isSome_none, Bool.false_eq_true, false_iff]
          omega

variable {mem : List Byte} {infos : ℤ → FieldInfo}

lemma parseGroups_eq {r : Option ((ℤ → FieldInfo) × ℤ)}
    (h : parseGroups capacity p mem data dataLen infos = some r) :
    p.parseGroups mem data dataLen infos = r := by
  unfold parseGroups at h
  unfold FieldsParser.parseGroups
  cases hcount : convertAtoi (mem.drop data) with
  | none =>
    rw [hcount] at h
    exact Option.some.inj h
  | some numGroups =>
    simp only [hcount] at h
    obtain ⟨r', hr', rfl⟩ := Option.map_eq_some_iff.mp h
    rw [Option.map_some, parseGroupsFields_eq hr']

lemma parseGroups_isSome :
    (parseGroups capacity p mem data dataLen infos).isSome = true ↔
      ∀ numGroups, convertAtoi (mem.drop data) = some numGroups →
        instances (topTags p.rgDictionary none
          (fieldTags (readValue ((mem.drop data).take dataLen)).tail)) ≤ capacity ∧
          ¬ (numGroups = 0 ∧ (readValue ((mem.drop data).take dataLen)).tail = []) := by
  have hrest : (readValue ((mem.drop data).take dataLen)).tail.length < dataLen + 1 := by
    have hvalue := readValue_length ((mem.drop data).take dataLen)
    have hslice := List.length_take_le dataLen (mem.drop data)
    rw [List.length_tail]
    omega
  unfold parseGroups
  cases convertAtoi (mem.drop data) with
  | none => simp
  | some numGroups =>
    simp only [Option.isSome_map, Option.some.injEq, forall_eq']
    exact parseGroupsFields_new infos hrest

lemma parseGroup_isSome :
    (parseGroup capacity p mem data dataLen infos).isSome = true ↔
      (topTags p.rgDictionary none (fieldTags ((mem.drop data).take dataLen))).length ≤
        capacity := by
  have hslice := List.length_take_le dataLen (mem.drop data)
  rw [parseGroup, parseGroupFields_isSome (Nat.zero_le capacity) (Nat.lt_succ_of_le hslice),
    Nat.zero_add]

/-- **The entries of `infos`**: `parse_groups` stays inside the array, whatever the slice holds and
the count says, if and only if no more instances start than it has entries and there is not an
empty group with the count `0`; `parse_group`, if and only if no more fields start. -/
theorem parse_infos_inside_iff (capacity : ℕ) (p : FieldsParser) (mem : List Byte)
    (data dataLen : ℕ) (infos : ℤ → FieldInfo) :
    let slice := (mem.drop data).take dataLen
    let rest := (readValue slice).tail
    (parseGroups capacity p mem data dataLen infos = some (p.parseGroups mem data dataLen infos) ↔
      ∀ numGroups, convertAtoi (mem.drop data) = some numGroups →
        instances (topTags p.rgDictionary none (fieldTags rest)) ≤ capacity ∧
          ¬ (numGroups = 0 ∧ rest = [])) ∧
    (parseGroup capacity p mem data dataLen infos = some (p.parseGroup mem data dataLen infos) ↔
      (topTags p.rgDictionary none (fieldTags slice)).length ≤ capacity) :=
  ⟨(eq_some_iff_isSome fun _ => parseGroups_eq).trans parseGroups_isSome,
    (eq_some_iff_isSome fun _ => parseGroupFields_eq).trans parseGroup_isSome⟩

/-- A count of `0` without instances, two instances for one entry, and two fields for one entry. -/
theorem parse_infos_outside :
    let infos : ℤ → FieldInfo := fun _ => ⟨0, 0, 0, 0⟩
    parseGroups 5 (.new maxFixTag) [48, 1] 0 1 infos = none ∧
      parseGroups 1 (.new maxFixTag) [50, 1, 49, 61, 65, 1, 49, 61, 66, 1] 0 9 infos = none ∧
      parseGroup 1 (.new maxFixTag) [49, 61, 65, 1, 50, 61, 66, 1] 0 7 infos = none := by
  decide +kernel

end Ufix.GroupBounds
