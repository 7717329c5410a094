import Ufix.Compose

/-!
Where `pre_finalize` writes, for a message of any length.

The digits of the body length go backwards from the end of their place and stop when the number is
used up. The byte before the place is the `=` of the field, so a number with more digits than were
reserved shows.
-/

namespace Ufix.BodyLength

open Ufix.Decimal Ufix.TagValue Ufix.Compose

/-- Behind the message stands its trailer, and in the message nothing has changed outside the place
of the body length. -/
def Framed (m m' : WMessage) : Prop :=
  ∃ d, m'.data = d ++ trailer d ∧ d.length = m.data.length ∧
    ∀ i, i < m.bodyLengthPos ∨ m.bodyEndPos ≤ i → d[i]? = m.data[i]?

/-- Bytes have been appended to `m`. -/
def Extends (m m' : WMessage) : Prop := ∃ t, m' = { m with data := m.data ++ t }

/-- The place of the body length: after an `=`, filled with zeros and closed by `SOH`. -/
structure HasPlace (m : WMessage) (pre body : List Byte) : Prop where
  data : m.data = pre ++ [equal] ++ zeros m.maxBodyLengthSize ++ soh :: body
  pos : m.bodyLengthPos = (pre ++ [equal]).length
  endPos : m.bodyEndPos = m.bodyLengthPos + m.maxBodyLengthSize

variable {m m' m₀ : WMessage} {pre body : List Byte}

/-! ### The number and its place -/

lemma HasPlace.value (h : HasPlace m pre body) :
    (m.data.length : ℤ) - m.bodyLengthPos - m.maxBodyLengthSize - 1 = body.length := by
  rw [h.pos, h.data]
  simp only [List.length_append, zeros_length, List.length_cons]
  push_cast
  omega

lemma HasPlace.body_length (h : HasPlace m pre body) :
    body.length = m.data.length - (m.bodyEndPos + 1) := by
  have hvalue := h.value
  have hend := h.endPos
  omega

/-- A number that fits changes nothing else. -/
lemma HasPlace.framed (h : HasPlace m pre body) (hw : 1 ≤ m.maxBodyLengthSize)
    (hfits : body.length < 10 ^ m.maxBodyLengthSize) :
    ∃ m', m.preFinalize = some m' ∧ Framed m m' := by
  have hend : m.bodyEndPos = (pre ++ [equal]).length + m.maxBodyLengthSize := by
    rw [h.endPos, h.pos]
  refine ⟨_, preFinalize_eq (pre ++ [equal]) body hw h.pos hend rfl h.data hfits, _, rfl, ?_, ?_⟩
  · rw [h.data]
    simp
  · intro i hi
    rw [h.data]
    rcases hi with hi | hi
    · rw [h.pos] at hi
      rw [List.append_assoc, List.append_assoc _ (zeros _), List.getElem?_append_left hi,
        List.getElem?_append_left hi]
    · rw [hend] at hi
      rw [List.getElem?_append_right (by rw [List.length_append, padded_length]; exact hi),
        List.getElem?_append_right (by rw [List.length_append, zeros_length]; exact hi)]
      simp

/-- A number that does not fit takes the place of the `=`. -/
lemma HasPlace.spills (h : HasPlace m pre body)
    (hlong : 10 ^ m.maxBodyLengthSize ≤ body.length) (hp : m.preFinalize = some m') :
    ¬ Framed m m' := by
  obtain ⟨d, hd, rfl⟩ := preFinalize_eq_some hp
  have hwidth := lt_width hlong
  have hpos := h.pos
  have hend := h.endPos
  simp only [List.length_append, List.length_singleton] at hpos
  have hlen : m.bodyEndPos ≤ m.data.length := by
    rw [h.data]
    simp only [List.length_append, List.length_singleton, zeros_length]
    omega
  rw [h.value, convertItoaTo_natCast hlen] at hd
  split at hd
  · next hroom =>
    cases hd
    rintro ⟨d', hdata, hlen', hframe⟩
    have hd' := (List.append_inj hdata (by
      simp only [List.length_append, List.length_take, List.length_drop, decimal_length]
      omega)).1
    -- the byte before the place is a digit now
    have hat := hframe pre.length (Or.inl (by omega))
    have hequal : m.data[pre.length]? = some equal := by
      rw [h.data]
      simp
    rw [← hd', hequal, List.getElem?_append_left (by
      simp only [List.length_append, List.length_take, decimal_length]
      omega), List.getElem?_append_right (by
      simp only [List.length_take]
      omega)] at hat
    exact absurd (isDigit_of_mem_decimal (List.mem_of_getElem? hat)) (by decide)
  · cases hd

/-! ### What `get_msg` leaves -/

lemma Extends.refl (m : WMessage) : Extends m m := ⟨[], by rw [List.append_nil]⟩

lemma Extends.trans {m₁ m₂ m₃ : WMessage} (h : Extends m₁ m₂) (h' : Extends m₂ m₃) :
    Extends m₁ m₃ := by
  obtain ⟨t, rfl⟩ := h
  obtain ⟨t', rfl⟩ := h'
  exact ⟨t ++ t', by rw [List.append_assoc]⟩

lemma HasPlace.append (h : HasPlace m pre body) (t : List Byte) :
    HasPlace { m with data := m.data ++ t } pre (body ++ t) := by
  refine ⟨?_, h.pos, h.endPos⟩
  simp only [h.data, List.append_assoc, List.cons_append]

lemma setTag_extends {tag : ℤ} (h : m.setTag tag = some m') : Extends m m' := by
  obtain ⟨ds, -, rfl⟩ := Option.map_eq_some_iff.mp h
  exact ⟨ds ++ [equal], by rw [List.append_assoc]⟩

lemma setField_extends {tag : ℤ} {value : List Byte} (h : m.setField tag value = some m') :
    Extends m m' := by
  obtain ⟨m₁, h₁, rfl⟩ := Option.map_eq_some_iff.mp h
  exact (setTag_extends h₁).trans ⟨value ++ [soh], by rw [List.append_assoc]⟩

lemma setFieldInt_extends {tag value : ℤ} (h : m.setFieldInt tag value = some m') :
    Extends m m' := by
  obtain ⟨m₁, h₁, h₂⟩ := Option.bind_eq_some_iff.mp h
  obtain ⟨ds, -, rfl⟩ := Option.map_eq_some_iff.mp h₂
  exact (setTag_extends h₁).trans ⟨ds ++ [soh], by rw [List.append_assoc]⟩

lemma setFields_extends {fs : List (ℤ × List Byte)} {m m' : WMessage}
    (h : m.setFields fs = some m') : Extends m m' := by
  induction fs generalizing m with
  | nil =>
    cases h
    exact .refl m'
  | cons f fs ih =>
    simp only [WMessage.setFields, List.foldlM_cons] at h
    obtain ⟨m₁, h₁, h₂⟩ := Option.bind_eq_some_iff.mp h
    exact (setField_extends h₁).trans (ih h₂)

lemma setTypeFields_extends {o : SessionOption} {msgSeq msgType : List Byte}
    (h : setTypeFields o msgSeq msgType m = some m') : Extends m m' := by
  unfold setTypeFields at h
  split at h
  · split at h
    · obtain ⟨m₁, h₁, h⟩ := Option.bind_eq_some_iff.mp h
      obtain ⟨m₂, h₂, h⟩ := Option.bind_eq_some_iff.mp h
      refine (setFieldInt_extends h₁).trans ((setFieldInt_extends h₂).trans ?_)
      simp only at h
      split at h
      · obtain ⟨m₃, h₃, h⟩ := Option.bind_eq_some_iff.mp h
        exact (setFieldInt_extends h₃).trans (setFields_extends h)
      · exact setFields_extends h
    · split at h
      · exact setField_extends h
      · cases h
        exact .refl m
  · cases h
    exact .refl m

lemma append_place {version : List Byte} (fs : List Field) (hdata : m.data = [])
    (hpos : m.bodyLengthPos = 5 + version.length)
    (hend : m.bodyEndPos = m.bodyLengthPos + m.maxBodyLengthSize) :
    HasPlace (m.append ((beginString, version) :: (bodyLength, zeros m.maxBodyLengthSize) :: fs))
      (56 :: equal :: version ++ [soh, 57]) (encodeAll fs) := by
  have h8 : decimal beginString = [56] := by decide
  have h9 : decimal bodyLength = [57] := by decide
  refine ⟨?_, ?_, hend⟩
  · simp only [WMessage.append, hdata, List.nil_append, List.cons_append, encodeAll_cons, encode,
      h8, h9, soh, endOfField, List.append_assoc]
  · simp only [WMessage.append, hpos, List.length_append, List.length_cons, List.length_nil]
    omega

lemma getMsg_place {o : SessionOption} {msgSeq msgType : List Byte}
    (h : getMsg o msgSeq .new msgType = some m₀) :
    m₀.maxBodyLengthSize = o.maxBodyLengthSize ∧ ∃ pre body, HasPlace m₀ pre body := by
  have hpos : (calculateMsgsPositions o).bodyLengthPos =
      5 + (o.fixVersion.take (calculateMsgsPositions o).fixVersionLen).length := by
    rw [calculateMsgsPositions, List.length_take_of_le]
    exact (List.takeWhile_prefix _).length_le
  simp (disch := decide) only [getMsg, WMessage.setField_natCast, WMessage.reserveField_natCast,
    WMessage.setFieldChar_natCast, Option.bind_eq_bind, Option.bind_some,
    WMessage.append_append] at h
  obtain ⟨m₁, h₁, h₂⟩ := Option.bind_eq_some_iff.mp h
  have hrest := (setFields_extends h₁).trans (setTypeFields_extends h₂)
  obtain ⟨t, rfl⟩ := hrest
  exact ⟨rfl, _, _, (append_place _ rfl hpos rfl).append t⟩

/-- A field with a value of that many bytes is too long for any message. -/
lemma setField_spills {o : SessionOption} {msgSeq msgType value : List Byte} {tag : ℕ}
    (h : getMsg o msgSeq .new msgType = some m₀) (htag : tag < 2 ^ 15)
    (hlong : 10 ^ o.maxBodyLengthSize ≤ value.length) :
    ∃ m, m₀.setField tag value = some m ∧
      m.data.length = m₀.data.length + width tag + value.length + 2 ∧
      ¬ ∃ m', m.preFinalize = some m' ∧ Framed m m' := by
  obtain ⟨hsize, pre, body, hplace₀⟩ := getMsg_place h
  refine ⟨_, m₀.setField_natCast value htag, ?_, ?_⟩
  · simp only [WMessage.append, encodeAll_cons, encodeAll_nil, encode, List.length_append,
      List.length_cons, List.length_nil, decimal_length]
    omega
  · rintro ⟨m', hp, hframed⟩
    refine (hplace₀.append (encodeAll [(tag, value)])).spills ?_ hp hframed
    simp only [hsize, encodeAll_cons, encode, List.length_append, List.length_cons]
    omega

/-- **The body length stays in its place** exactly where it has no more digits than were reserved:
for every message that `get_msg` began and to which fields were appended, `pre_finalize` changes
nothing outside the place and appends the trailer if and only if fewer than `10 ^ w` bytes follow
the `SOH` of the field. -/
theorem preFinalize_framed_iff {o : SessionOption} (hw : 1 ≤ o.maxBodyLengthSize)
    {msgSeq msgType : List Byte} (h : getMsg o msgSeq .new msgType = some m₀)
    (hm : Extends m₀ m) :
    (∃ m', m.preFinalize = some m' ∧ Framed m m') ↔
      m.data.length - (m.bodyEndPos + 1) < 10 ^ o.maxBodyLengthSize := by
  obtain ⟨hsize, pre, body₀, hplace₀⟩ := getMsg_place h
  obtain ⟨t, rfl⟩ := hm
  have hplace := hplace₀.append t
  rw [← hplace.body_length, ← hsize]
  constructor
  · rintro ⟨m', hp, hframed⟩
    by_contra hlong
    exact hplace.spills (not_lt.mp hlong) hp hframed
  · intro hfits
    exact hplace.framed (by rw [← hsize] at hw; exact hw) hfits

/-- A Heartbeat with a test request id. -/
theorem preFinalize_framed_iff_heartbeat :
    let m₀ := (getMsg optionsAB (padded 10 1) .new [48]).get (by decide)
    let m := m₀.append [(112, [72, 105])]
    (∃ m', m.preFinalize = some m' ∧ Framed m m') ↔
      m.data.length - (m.bodyEndPos + 1) < 10 ^ 4 :=
  preFinalize_framed_iff (o := optionsAB) (by decide) (Option.some_get _).symm ⟨_, rfl⟩

/-- A text of ten thousand bytes, far below `fix_msg_max_length`: the fifth digit of the length
takes the place of the `=`. -/
theorem preFinalize_spills :
    let m₀ := (getMsg optionsAB (padded 10 1) .new [48]).get (by decide)
    ∃ m, m₀.setField 58 (List.replicate 10000 65) = some m ∧ m.data.length + checksumSize ≤ 2 ^ 20 ∧
      ¬ ∃ m', m.preFinalize = some m' ∧ Framed m m' := by
  intro m₀
  have hget : getMsg optionsAB (padded 10 1) .new [48] = some m₀ := (Option.some_get _).symm
  have hlen : m₀.data.length = 108 := by decide +kernel
  have hlong : 10 ^ 4 ≤ (List.replicate 10000 (65 : Byte)).length := by
    rw [List.length_replicate]
    omega
  obtain ⟨m, hm, hmlen, hspills⟩ := setField_spills hget (show 58 < 2 ^ 15 by decide) hlong
  have h58 : width 58 = 2 := by decide
  refine ⟨m, hm, ?_, hspills⟩
  rw [hmlen, hlen, h58, List.length_replicate]
  decide

end Ufix.BodyLength
