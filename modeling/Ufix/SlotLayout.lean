import Ufix.SlotBytes

/-!
The bytes of a slot, from `add_msg` on: the fields stand where the positions say, and neither
`finalize_new` nor `finalize_resend` moves them.

A message that was only queued is sent as it should be; one that was sent before is sent again
with its flag set and its sum right.
-/

namespace Ufix.SlotLayout

open Ufix.Decimal Ufix.TagValue Ufix.Compose

variable {o : SessionOption}

/-! ### The flag -/

variable (o) in
/-- The layout of a message with `PossDupFlag`. -/
def flagged (flag : Byte) (msgType : List Byte) (more : List Field) : Layout :=
  { layout o msgType more with
    afterSeq := soh :: encodeAll [(senderCompId, o.senderCompId), (targetCompId, o.targetCompId)] ++
      decimal posDupFlag ++ [equal] ++ [flag] ++ (soh :: decimal sendingTime ++ [equal]) }

lemma flagged_posDupNo (msgType : List Byte) (more : List Field) :
    flagged o posDupNo msgType more = layout o msgType more := by
  simp [flagged, layout, encodeAll, encode, soh, endOfField]

lemma flagged_timePos (flag : Byte) (msgType : List Byte) (more : List Field)
    (len seq : List Byte) :
    (flagged o flag msgType more).timePos len seq = (layout o msgType more).timePos len seq := by
  rw [← flagged_posDupNo]
  simp [flagged, Layout.timePos, Layout.seqPos]

/-- The flag is five bytes before the time. -/
lemma patch_flag (flag flag' : Byte) (msgType : List Byte) (more : List Field)
    (len seq time origTime tail : List Byte) :
    patch ((flagged o flag msgType more).bytes len seq time origTime ++ tail)
        ((flagged o flag msgType more).timePos len seq - 5) [flag'] =
      some ((flagged o flag' msgType more).bytes len seq time origTime ++ tail) := by
  have h52 : (decimal sendingTime).length = 2 := by decide
  rw [patch_eq (b := [flag])
    (a := (layout o msgType more).head ++ len ++ (layout o msgType more).afterLength ++ seq ++
      (soh :: encodeAll [(senderCompId, o.senderCompId), (targetCompId, o.targetCompId)] ++
        decimal posDupFlag ++ [equal]))
    (c := (soh :: decimal sendingTime ++ [equal]) ++ time ++ (layout o msgType more).afterTime ++
      origTime ++ (layout o msgType more).rest ++ tail) ?_ ?_ ?_]
  · simp [flagged, Layout.bytes]
  · simp [flagged, Layout.bytes]
  · simp only [flagged, Layout.timePos, Layout.seqPos, List.length_append, List.length_cons,
      List.length_nil, h52]
    omega
  · rfl

/-! ### A slot -/

def sumField (sum : List Byte) : List Byte := decimal checksum ++ [equal] ++ sum ++ [soh]

lemma finalizeMsg_length {msgSeq utcTime data : List Byte} {m : WMessage}
    (h : finalizeMsg o msgSeq utcTime (.ofSlot data) = some m) : m.data.length = data.length := by
  simp only [finalizeMsg, WMessage.finalizeNew, WMessage.ofSlot, reduceCtorEq, if_false,
    Option.bind_eq_bind, Option.bind_some] at h
  split at h
  · obtain ⟨cks, -, h⟩ := Option.bind_eq_some_iff.mp h
    obtain ⟨d₁, hd₁, h⟩ := Option.bind_eq_some_iff.mp h
    obtain ⟨d₂, hd₂, h⟩ := Option.bind_eq_some_iff.mp h
    obtain ⟨d₃, hd₃, h⟩ := Option.bind_eq_some_iff.mp h
    obtain ⟨d₄, hd₄, h⟩ := Option.bind_eq_some_iff.mp h
    cases h
    rw [patch_length hd₄, patch_length hd₃, patch_length hd₂, patch_length hd₁]
  · cases h
    rfl

/-- A message that is sent again keeps its length. -/
lemma finalizeMsgResend_length {n : ℕ} {utcTime data : List Byte} {m : WMessage}
    (h : finalizeMsgResend o n utcTime (.ofSlot data) = some m) :
    m.data.length = data.length := by
  simp only [finalizeMsgResend, Option.bind_eq_some_iff] at h
  obtain ⟨msgSeq, -, h⟩ := h
  simp only [WMessage.finalizeResend, WMessage.ofSlot, Option.bind_eq_bind] at h
  obtain ⟨d₁, hd₁, h⟩ := Option.bind_eq_some_iff.mp h
  obtain ⟨d₂, hd₂, h⟩ := Option.bind_eq_some_iff.mp h
  obtain ⟨d₃, hd₃, h⟩ := Option.bind_eq_some_iff.mp h
  obtain ⟨b, -, h⟩ := Option.bind_eq_some_iff.mp h
  have hlen : d₃.length = data.length := by
    rw [patch_length hd₃, patch_length hd₂, patch_length hd₁]
  split at h
  · obtain ⟨d₄, hd₄, h⟩ := Option.bind_eq_some_iff.mp h
    obtain ⟨d₅, hd₅, h⟩ := Option.bind_eq_some_iff.mp h
    cases h
    rw [patch_length hd₅, patch_length hd₄, hlen]
  · rw [Option.bind_some] at h
    obtain ⟨d₅, hd₅, h⟩ := Option.bind_eq_some_iff.mp h
    cases h
    rw [patch_length hd₅, hlen]

variable (o) in
/-- The bytes of a message whose late places are where the positions of the session say. -/
structure Laid (data : List Byte) (flag : Byte) (msgType : List Byte) (more : List Field)
    (len seq time origTime sum : List Byte) : Prop where
  msgType_ne : msgType ≠ []
  clean : Clean msgType
  len_size : len.length = o.maxBodyLengthSize
  seq_size : seq.length = o.maxMsgSeqSize
  time_size : time.length = sendingTimeSize
  origTime_size : origTime.length = sendingTimeSize
  sum_size : sum.length = 3
  bytes : data = (flagged o flag msgType more).bytes len seq time origTime ++ sumField sum

variable (o) in
def IsLaid (data : List Byte) : Prop :=
  ∃ flag msgType more len seq time origTime sum,
    Laid o data flag msgType more len seq time origTime sum

variable {data : List Byte} {flag : Byte} {msgType : List Byte} {more : List Field}
  {len seq time origTime sum seq' time' : List Byte}

lemma Laid.positions (ho : WellFormed o)
    (h : Laid o data flag msgType more len seq time origTime sum) {m : WMessage}
    (hm : m.data = data) (hseq : seq'.length = o.maxMsgSeqSize) :
    0 ≤ getMsgTypeSize o m - 1 ∧
      ((calculateMsgsPositions o).msgSeqPos + (getMsgTypeSize o m - 1)).toNat =
        (flagged o flag msgType more).seqPos len ∧
      ((calculateMsgsPositions o).sendingTimePos + (getMsgTypeSize o m - 1)).toNat =
        (flagged o flag msgType more).timePos len seq' := by
  have hpos : 0 < msgType.length := List.length_pos_iff.mpr h.msgType_ne
  have hsize : getMsgTypeSize o m = msgType.length :=
    getMsgTypeSize_of_layout ho h.clean
      (show (flagged o flag msgType more).head = (layout o msgType more).head from rfl) rfl
      h.len_size (by rw [hm, h.bytes])
  obtain ⟨hp₁, hp₂⟩ := layout_positions ho h.msgType_ne more h.len_size hseq
  have hseqPos : (flagged o flag msgType more).seqPos len =
      (layout o msgType more).seqPos len := rfl
  rw [hsize, hseqPos, flagged_timePos, ← hp₁, ← hp₂]
  refine ⟨by omega, by omega, by omega⟩

lemma flagged_distance (flag : Byte) (msgType : List Byte) (more : List Field) :
    sendingTimeSize + (flagged o flag msgType more).afterTime.length =
      distanceSendingOrigSending := layout_distance (o := o) msgType more

lemma getElem?_origTime (l : Layout) (len seq time origTime tail : List Byte) {b : Byte}
    (hfirst : origTime[0]? = some b) :
    (l.bytes len seq time origTime ++ tail)[l.timePos len seq + (time.length +
      l.afterTime.length)]? = some b := by
  have hbytes : l.bytes len seq time origTime ++ tail =
      (l.head ++ len ++ l.afterLength ++ seq ++ l.afterSeq ++ time ++ l.afterTime) ++
        (origTime ++ (l.rest ++ tail)) := by
    simp [Layout.bytes]
  have hpos : l.timePos len seq + (time.length + l.afterTime.length) =
      (l.head ++ len ++ l.afterLength ++ seq ++ l.afterSeq ++ time ++ l.afterTime).length := by
    simp [Layout.timePos, Layout.seqPos, Nat.add_assoc]
  have hlen : 0 < origTime.length := by
    by_contra h0
    rw [List.getElem?_eq_none (by omega)] at hfirst
    cases hfirst
  rw [hbytes, hpos, List.getElem?_append_right le_rfl, Nat.sub_self,
    List.getElem?_append_left hlen, hfirst]

lemma seqBuf_length {w n : ℕ} (h : seqBuf w n = some seq') : seq'.length = w := by
  obtain ⟨buf, -, h⟩ := Option.bind_eq_some_iff.mp h
  split at h
  · cases h
    rw [List.length_append, zeros_length]
    omega
  · cases h

lemma sumField_length (h : sum.length = 3) : (sumField sum).length = checksumSize := by
  have h10 : (decimal checksum).length = 2 := by decide
  simp only [sumField, List.length_append, List.length_cons, List.length_nil, h10, h]
  rfl

lemma trailer_eq_sumField (d : List Byte) :
    trailer d = sumField (padded 3 (byteSum d % 256)) := trailer_eq d

lemma resum (d : List Byte) (h : sum.length = 3) :
    setChecksum (((d ++ sumField sum).take ((d ++ sumField sum).length - checksumSize)).foldl
      (fun cks b => uint (cks + charVal b)) 0) = padded 3 (byteSum d % 256) := by
  rw [List.length_append, sumField_length h, Nat.add_sub_cancel, List.take_left]
  exact setChecksum_congr (foldl_charVal_modEq d)

/-- **What a resend makes of a message**: the flag is set, the number and the time are new, and
the sum is right again; the second time is that of the first sending, if there was one. -/
lemma finalizeMsgResend_data (ho : WellFormed o) {m : WMessage}
    (h : Laid o m.data flag msgType more len seq time origTime sum) {n : ℕ} {utcTime : List Byte}
    (hn : seqBuf o.maxMsgSeqSize n = some seq') (htime : utcTime.length = sendingTimeSize)
    {origTime' d : List Byte}
    (horig : origTime' = if origTime[0]? = some (digit 0) then utcTime else origTime)
    (hd : d = (flagged o posDupYes msgType more).bytes len seq' utcTime origTime') :
    finalizeMsgResend o n utcTime m =
      some { m with data := d ++ trailer d, seq := convertAtollLen seq' } := by
  have hseq := seqBuf_length hn
  obtain ⟨-, hp₁, hp₂⟩ := h.positions ho rfl hseq
  obtain ⟨-, -, -, hsize, htsize, hosize, hsum, hdata⟩ := h
  have hdist := flagged_distance (o := o) posDupYes msgType more
  have htimePos : (flagged o posDupYes msgType more).timePos len seq' =
      (flagged o flag msgType more).timePos len seq' := by rw [flagged_timePos, flagged_timePos]
  obtain ⟨b, hb⟩ : ∃ b, origTime[0]? = some b := by
    exact ⟨_, List.getElem?_eq_getElem (by rw [hosize]; decide)⟩
  have h1 := (flagged o flag msgType more).patch_seq len (sumField sum) time origTime
    (hseq.trans hsize.symm)
  have h2 := patch_flag (o := o) flag posDupYes msgType more len seq' time origTime (sumField sum)
  have h3 := (flagged o posDupYes msgType more).patch_time len (sumField sum) seq' origTime
    (htime.trans htsize.symm)
  have h4 := getElem?_origTime (flagged o posDupYes msgType more) len seq' utcTime origTime
    (sumField sum) hb
  have h5 := (flagged o posDupYes msgType more).patch_origTime len (sumField sum) seq' utcTime
    (htime.trans hosize.symm)
  rw [htime, hdist] at h4 h5
  rw [htimePos] at h3 h4 h5
  -- how it ends, whatever the second time is then
  have hend : ∀ t : List Byte, patch
      ((flagged o posDupYes msgType more).bytes len seq' utcTime t ++ sumField sum)
      (((flagged o posDupYes msgType more).bytes len seq' utcTime t ++ sumField sum).length -
        checksumValuePartSize)
      (setChecksum ((((flagged o posDupYes msgType more).bytes len seq' utcTime t ++
        sumField sum).take (((flagged o posDupYes msgType more).bytes len seq' utcTime t ++
          sumField sum).length - checksumSize)).foldl (fun cks b => uint (cks + charVal b)) 0)) =
      some ((flagged o posDupYes msgType more).bytes len seq' utcTime t ++
        trailer ((flagged o posDupYes msgType more).bytes len seq' utcTime t)) := by
    intro t
    rw [resum _ hsum, trailer_eq_sumField]
    exact patch_checksum _ hsum (padded_length _ _)
  simp only [finalizeMsgResend, hn, Option.bind_some, hp₁, hp₂]
  simp only [WMessage.finalizeResend, hdata, h1, h2, h3, h4, h5, Option.bind_eq_bind,
    Option.bind_some]
  simp only [hb, Option.some.injEq] at horig
  by_cases hzero : b = digit 0
  · rw [if_pos hzero] at horig ⊢
    subst hd horig
    simp only [Option.bind_some, hend]
  · rw [if_neg hzero] at horig ⊢
    subst hd horig
    simp only [Option.bind_some, hend]

/-- **What a resend makes of a slot.** -/
lemma finalizeMsgResend_eq (ho : WellFormed o)
    (h : Laid o data flag msgType more len seq time origTime sum) {n : ℕ} {utcTime : List Byte}
    (hn : seqBuf o.maxMsgSeqSize n = some seq') (htime : utcTime.length = sendingTimeSize) :
    ∃ origTime' m, finalizeMsgResend o n utcTime (.ofSlot data) = some m ∧
      m.data = (flagged o posDupYes msgType more).bytes len seq' utcTime origTime' ++
        trailer ((flagged o posDupYes msgType more).bytes len seq' utcTime origTime') ∧
      origTime'.length = sendingTimeSize := by
  refine ⟨_, _, finalizeMsgResend_data ho (m := .ofSlot data) h hn htime rfl rfl, rfl, ?_⟩
  split
  · exact htime
  · exact h.origTime_size

lemma finalizeMsgResend_laid (ho : WellFormed o)
    (h : Laid o data flag msgType more len seq time origTime sum) {n : ℕ} {utcTime : List Byte}
    (hn : (seqBuf o.maxMsgSeqSize n).isSome) (htime : utcTime.length = sendingTimeSize) :
    ∃ m, finalizeMsgResend o n utcTime (.ofSlot data) = some m ∧ IsLaid o m.data := by
  obtain ⟨seq', hseq⟩ := Option.isSome_iff_exists.mp hn
  obtain ⟨origTime', m, hm, hdata, horig⟩ := finalizeMsgResend_eq ho h hseq htime
  rw [trailer_eq_sumField] at hdata
  exact ⟨m, hm, posDupYes, msgType, more, len, seq', utcTime, origTime', _, h.msgType_ne, h.clean,
    h.len_size, seqBuf_length hseq, htime, horig, padded_length _ _, hdata⟩

lemma IsLaid.resent (ho : WellFormed o) (h : IsLaid o data) {n : ℕ} {utcTime : List Byte}
    (htime : utcTime.length = sendingTimeSize) {m : WMessage}
    (hm : finalizeMsgResend o n utcTime (.ofSlot data) = some m) : IsLaid o m.data := by
  obtain ⟨flag, msgType, more, len, seq, time, origTime, sum, h⟩ := h
  have hroom : (seqBuf o.maxMsgSeqSize n).isSome := by
    cases hseq : seqBuf o.maxMsgSeqSize n with
    | none => simp [finalizeMsgResend, hseq] at hm
    | some msgSeq => rfl
  obtain ⟨m', hm', hlaid⟩ := finalizeMsgResend_laid ho h hroom htime
  rw [hm] at hm'
  cases hm'
  exact hlaid

/-- A message sent for the first time stays laid out, whatever it was. -/
lemma IsLaid.sent (ho : WellFormed o) (h : IsLaid o data) {utcTime : List Byte}
    (hseq : seq'.length = o.maxMsgSeqSize) (htime : utcTime.length = sendingTimeSize) {m : WMessage}
    (hm : finalizeMsg o seq' utcTime (.ofSlot data) = some m) : IsLaid o m.data := by
  obtain ⟨flag, msgType, more, len, seq, time, origTime, sum, h⟩ := h
  obtain ⟨h0, hp₁, hp₂⟩ := h.positions ho (m := .ofSlot data) rfl hseq
  have hlaid := h
  obtain ⟨-, -, -, hsize, htsize, hosize, hsum, hdata⟩ := h
  have h1 := (flagged o flag msgType more).patch_seq len (sumField sum) time origTime
    (hseq.trans hsize.symm)
  have h2 := (flagged o flag msgType more).patch_time len (sumField sum) seq' origTime
    (htime.trans htsize.symm)
  have h3 := (flagged o flag msgType more).patch_origTime len (sumField sum) seq' utcTime
    (htime.trans hosize.symm)
  rw [htime, flagged_distance] at h3
  have hpos₁ : (calculateMsgsPositions o).msgSeqPos + (getMsgTypeSize o (.ofSlot data) - 1).toNat =
      (flagged o flag msgType more).seqPos len := by rw [← hp₁]; omega
  have hpos₂ : (calculateMsgsPositions o).sendingTimePos +
      (getMsgTypeSize o (.ofSlot data) - 1).toNat =
      (flagged o flag msgType more).timePos len seq' := by rw [← hp₂]; omega
  rw [finalizeMsg, if_pos h0, hpos₁, hpos₂, WMessage.finalizeNew] at hm
  simp only [WMessage.ofSlot, reduceCtorEq, if_false, Option.bind_eq_bind, Option.bind_some] at hm
  obtain ⟨cks, -, hm⟩ := Option.bind_eq_some_iff.mp hm
  rw [hdata, h1, Option.bind_some, h2, Option.bind_some, h3, Option.bind_some] at hm
  obtain ⟨data', hdata', hm⟩ := Option.bind_eq_some_iff.mp hm
  cases hm
  rw [setChecksum_eq] at hdata'
  have h4 := hdata'.symm.trans (patch_checksum _ hsum (padded_length _ _))
  refine ⟨flag, msgType, more, len, seq', utcTime, utcTime, _, hlaid.msgType_ne, hlaid.clean,
    hlaid.len_size, hseq, htime, htime, padded_length _ _, Option.some.inj h4⟩

/-! ### A message that waits -/

variable (o) in
/-- A message as the application leaves it to `add_msg`, which adds its trailer. -/
def draft (msgSeq₀ msgType : List Byte) (app : List (ℤ × List Byte)) : Option WMessage := do
  let m ← getMsg o msgSeq₀ .new msgType
  let m ← m.setFields app
  m.preFinalize

variable (o) in
/-- The bytes of a message composed by `get_msg` and `set_field`, whose body length has no more
digits than were reserved. -/
def Composed (data : List Byte) : Prop :=
  ∃ msgSeq₀ msgType app m, msgType ≠ [] ∧ Clean msgType ∧ (∀ f ∈ app, IsTag f.1 ∧ soh ∉ f.2) ∧
    (∀ b ∈ msgSeq₀, IsDigit b) ∧
    (encodeAll (bodyFields o msgType (zeros o.maxMsgSeqSize) (zeros sendingTimeSize)
      (moreFields o msgSeq₀ msgType app))).length < 10 ^ o.maxBodyLengthSize ∧
    draft o msgSeq₀ msgType app = some m ∧ m.data = data

variable (o) in
/-- Whatever number and time it is sent with, `finalize_new` makes it a FIX message with these,
with `43=N` and with the right length and sum. -/
def GoesOut (data : List Byte) : Prop :=
  ∃ msgType more, ∀ msgSeq utcTime : List Byte, (∀ b ∈ msgSeq, IsDigit b) →
    msgSeq.length = o.maxMsgSeqSize → soh ∉ utcTime → utcTime.length = sendingTimeSize →
    ∃ m, finalizeMsg o msgSeq utcTime (.ofSlot data) = some m ∧
      IsMessage o.maxBodyLengthSize o.fixVersion (bodyFields o msgType msgSeq utcTime more) m.data

lemma draft_eq (ho : WellFormed o) {msgSeq₀ : List Byte} {app : List (ℤ × List Byte)}
    (hty : Clean msgType) (happ : ∀ f ∈ app, IsTag f.1)
    (hfits : (encodeAll (bodyFields o msgType (zeros o.maxMsgSeqSize) (zeros sendingTimeSize)
      (moreFields o msgSeq₀ msgType app))).length < 10 ^ o.maxBodyLengthSize) :
    draft o msgSeq₀ msgType app = some (queued o msgType (moreFields o msgSeq₀ msgType app)) := by
  obtain ⟨m, hget, hset⟩ := getMsg_setFields ho msgSeq₀ hty happ
  simp only [draft, hget, hset, Option.bind_eq_bind, Option.bind_some]
  exact drafted_preFinalize hfits

lemma Composed.isLaid (ho : WellFormed o) (h : Composed o data) : IsLaid o data := by
  obtain ⟨msgSeq₀, msgType, app, m, hne, hty, happ, -, hfits, hm, rfl⟩ := h
  rw [draft_eq ho hty (fun f hf => (happ f hf).1) hfits] at hm
  cases hm
  obtain ⟨len, hlen, hdata⟩ := queued_data (o := o) msgType (moreFields o msgSeq₀ msgType app)
  rw [trailer_eq_sumField, ← flagged_posDupNo] at hdata
  exact ⟨posDupNo, msgType, moreFields o msgSeq₀ msgType app, len, _, _, _, _, hne, hty,
    by rw [hlen, padded_length], zeros_length _, zeros_length _, zeros_length _,
    padded_length _ _, hdata⟩

lemma finalizeMsg_ofSlot {m : WMessage} (hm : m.status = .preFin) (msgSeq utcTime : List Byte) :
    (finalizeMsg o msgSeq utcTime (.ofSlot m.data)).map WMessage.data =
      (finalizeMsg o msgSeq utcTime m).map WMessage.data := by
  have hsize : getMsgTypeSize o (.ofSlot m.data) = getMsgTypeSize o m := rfl
  simp only [finalizeMsg, hsize]
  split
  · simp only [WMessage.finalizeNew, WMessage.ofSlot, hm, reduceCtorEq, if_false,
      Option.bind_eq_bind, Option.bind_some, Option.map_bind, Function.comp_def, Option.map_some]
  · rfl

/-- **A message that was only queued goes out as it should.** -/
lemma Composed.goesOut (ho : WellFormed o) (h : Composed o data) : GoesOut o data := by
  obtain ⟨msgSeq₀, msgType, app, m, hne, hty, happ, h₀, hfits, hm, rfl⟩ := h
  refine ⟨msgType, moreFields o msgSeq₀ msgType app, fun msgSeq utcTime hseq hsize hsoh htime => ?_⟩
  have hlen : (encodeAll (bodyFields o msgType msgSeq utcTime
      (moreFields o msgSeq₀ msgType app))).length =
      (encodeAll (bodyFields o msgType (zeros o.maxMsgSeqSize) (zeros sendingTimeSize)
        (moreFields o msgSeq₀ msgType app))).length :=
    bodyFields_length (by rw [zeros_length, hsize]) (by rw [zeros_length, htime])
  rw [← hlen] at hfits
  obtain ⟨m', hm', hdata', -⟩ := compose_eq ho hne hty (fun f hf => (happ f hf).1) hsize htime
    rfl hfits true rfl
  have hmsg := isMessage_of_readable ho
    (bodyFields_readable ho hty happ (soh_of_isDigit h₀) (soh_of_isDigit hseq) hsoh) hfits rfl
  rw [← hdata'] at hmsg
  have hcompose : compose o msgSeq₀ msgType app true msgSeq utcTime =
      (draft o msgSeq₀ msgType app).bind fun m => finalizeMsg o msgSeq utcTime m := by
    simp only [compose, draft, if_true, Option.bind_eq_bind, Option.bind_assoc]
  rw [hcompose, hm, Option.bind_some] at hm'
  have hstatus : m.status = .preFin := by
    rw [hlen] at hfits
    rw [draft_eq ho hty (fun f hf => (happ f hf).1) hfits] at hm
    cases hm
    rfl
  have hdata := finalizeMsg_ofSlot (o := o) hstatus msgSeq utcTime
  rw [hm', Option.map_some] at hdata
  obtain ⟨m'', hm'', hd⟩ := Option.map_eq_some_iff.mp hdata
  exact ⟨m'', hm'', by rw [hd]; exact hmsg⟩

end Ufix.SlotLayout
