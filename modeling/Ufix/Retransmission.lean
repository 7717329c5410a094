import Ufix.SlotLayout

/-!
One message sent again and again: what its first transmission and its last have in common, byte
for byte.
-/

namespace Ufix.Retransmission

open Ufix.Decimal Ufix.TagValue Ufix.Compose Ufix.SlotLayout

variable {o : SessionOption}

variable (o) in
/-- `Session::finalize_msg(msg, seq, 1)`, once for each of the times. -/
def resend (seq : ℕ) (times : List (List Byte)) (m : WMessage) : Option WMessage :=
  times.foldlM (fun m utcTime => finalizeMsgResend o seq utcTime m) m

variable (o) in
def sentFields (flag : Byte) (msgType msgSeq time origTime : List Byte) (more : List Field) :
    List Field :=
  [(msgTypeTag, msgType), (msgSeqNum, msgSeq), (senderCompId, o.senderCompId),
    (targetCompId, o.targetCompId), (posDupFlag, [flag]), (sendingTime, time),
    (origSendingTime, origTime)] ++ more

/-- Where the time stands in a message of type `msgType`. -/
def timePos (o : SessionOption) (msgType : List Byte) : ℕ :=
  (calculateMsgsPositions o).sendingTimePos + (msgType.length - 1)

/-- The places a resend may write to: the flag, the time and the value of the trailer. -/
def Rewritten (o : SessionOption) (msgType : List Byte) (length i : ℕ) : Prop :=
  i = timePos o msgType - 5 ∨
    (timePos o msgType ≤ i ∧ i < timePos o msgType + sendingTimeSize) ∨
    (length - checksumValuePartSize ≤ i ∧ i + 1 < length)

/-! ### Bytes outside a patch -/

lemma patch_getElem? {data data' bytes : List Byte} {pos i : ℕ}
    (h : patch data pos bytes = some data') (hi : i < pos ∨ pos + bytes.length ≤ i) :
    data'[i]? = data[i]? := by
  unfold patch at h
  split at h
  · next hle =>
    cases h
    have htake : (data.take pos).length = pos := by
      rw [List.length_take]
      omega
    rcases hi with hi | hi
    · rw [List.append_assoc, List.getElem?_append_left (by omega), List.getElem?_take, if_pos hi]
    · rw [List.getElem?_append_right (by rw [List.length_append]; omega), List.length_append, htake,
        List.getElem?_drop]
      congr 1
      omega
  · cases h

/-! ### The fields of a message that was sent again -/

lemma flagged_bytes (flag : Byte) (msgType : List Byte) (more : List Field)
    (len seq time origTime : List Byte) :
    (flagged o flag msgType more).bytes len seq time origTime =
      encodeAll ((beginString, o.fixVersion) :: (bodyLength, len) ::
        sentFields o flag msgType seq time origTime more) := by
  simp [flagged, layout, Layout.bytes, sentFields, encodeAll, encode, soh, endOfField]

lemma sentFields_length {flag flag' : Byte} {msgType seq time time' origTime : List Byte}
    {more : List Field} (htime : time'.length = time.length) :
    (encodeAll (sentFields o flag' msgType seq time' origTime more)).length =
      (encodeAll (sentFields o flag msgType seq time origTime more)).length := by
  simp [sentFields, encodeAll_cons, encode, htime]

lemma sentFields_readable (ho : WellFormed o) {msgType msgSeq₀ msgSeq time origTime : List Byte}
    {app : List (ℤ × List Byte)} (hty : Clean msgType) (happ : ∀ f ∈ app, IsTag f.1 ∧ soh ∉ f.2)
    (h₀ : soh ∉ msgSeq₀) (hseq : soh ∉ msgSeq) (htime : soh ∉ time) (horig : soh ∉ origTime) :
    ∀ f ∈ sentFields o posDupYes msgType msgSeq time origTime (moreFields o msgSeq₀ msgType app),
      Readable f := by
  have hold := bodyFields_readable ho hty happ h₀ hseq horig
  intro f hf
  rcases List.mem_append.mp hf with hf | hf
  · simp only [List.mem_cons, List.not_mem_nil, or_false] at hf
    rcases hf with rfl | rfl | rfl | rfl | rfl | rfl | rfl
    · exact hold _ (by simp [bodyFields])
    · exact hold _ (by simp [bodyFields])
    · exact hold _ (by simp [bodyFields])
    · exact hold _ (by simp [bodyFields])
    · exact ⟨by simp [posDupFlag], by simp [endOfField, posDupYes]⟩
    · exact ⟨by simp [sendingTime], htime⟩
    · exact hold _ (by simp [bodyFields])
  · exact hold f (List.mem_append_right _ hf)

/-! ### One resend after the other -/

variable {msgType msgSeq t₀ t len : List Byte} {more : List Field}

/-- The first time does not start with a zero, so no resend takes it for one still to be set. -/
lemma resend_eq (ho : WellFormed o) (hw : 1 ≤ o.maxMsgSeqSize ∧ o.maxMsgSeqSize ≤ 18)
    (hseq : ∀ b ∈ msgSeq, IsDigit b) (hzero : t₀[0]? ≠ some (digit 0))
    {times : List (List Byte)} (htimes : ∀ u ∈ times ++ [t], u.length = sendingTimeSize)
    {d : List Byte} (hd : d = (flagged o posDupYes msgType more).bytes len msgSeq t t₀)
    {m : WMessage} {flag : Byte} {time sum : List Byte}
    (h : Laid o m.data flag msgType more len msgSeq time t₀ sum) :
    ∃ m', resend o (value msgSeq) (times ++ [t]) m = some m' ∧ m'.data = d ++ trailer d ∧
      m'.seq = convertAtollLen msgSeq := by
  have hbuf : seqBuf o.maxMsgSeqSize (value msgSeq) = some msgSeq := by
    have hlt := value_lt hseq
    rw [h.seq_size] at hlt
    rw [seqBuf_of_lt hw.1 hw.2 hlt, ← h.seq_size, padded_value hseq]
  have hone := fun {m : WMessage} {flag : Byte} {time sum : List Byte}
      (h : Laid o m.data flag msgType more len msgSeq time t₀ sum) (u : List Byte)
      (hu : u.length = sendingTimeSize) =>
    finalizeMsgResend_data ho h hbuf hu (if_neg hzero).symm rfl
  -- the induction is on the resends before the last one
  induction times generalizing m flag time sum with
  | nil =>
    refine ⟨{ m with data := d ++ trailer d, seq := convertAtollLen msgSeq }, ?_, rfl, rfl⟩
    rw [List.nil_append, resend, List.foldlM_cons, hone h t (htimes t (by simp)), ← hd]
    rfl
  | cons u times ih =>
    have hu := htimes u (by simp)
    have hlaid : Laid o ((flagged o posDupYes msgType more).bytes len msgSeq u t₀ ++
        trailer ((flagged o posDupYes msgType more).bytes len msgSeq u t₀)) posDupYes msgType more
        len msgSeq u t₀ (padded 3 (byteSum ((flagged o posDupYes msgType more).bytes len msgSeq
          u t₀) % 256)) :=
      ⟨h.msgType_ne, h.clean, h.len_size, h.seq_size, hu, h.origTime_size, padded_length _ _,
        by rw [trailer_eq_sumField]⟩
    obtain ⟨m', hm', hdata⟩ := ih (fun v hv => htimes v (List.mem_cons_of_mem _ hv))
      (m := { m with
        data := (flagged o posDupYes msgType more).bytes len msgSeq u t₀ ++
          trailer ((flagged o posDupYes msgType more).bytes len msgSeq u t₀)
        seq := convertAtollLen msgSeq }) hlaid
    refine ⟨m', ?_, hdata⟩
    rw [List.cons_append, resend, List.foldlM_cons, hone h u hu]
    exact hm'

/-- The two transmissions differ where the flag, the time and the sum are. -/
lemma bytes_getElem? (ho : WellFormed o) (hne : msgType ≠ [])
    (hlen : len.length = o.maxBodyLengthSize) (hseq : msgSeq.length = o.maxMsgSeqSize)
    (ht₀ : t₀.length = sendingTimeSize) (ht : t.length = sendingTimeSize)
    {sum sum' data data' : List Byte} (hsum : sum.length = 3) (hsum' : sum'.length = 3)
    (hdata : data = (flagged o posDupNo msgType more).bytes len msgSeq t₀ t₀ ++ sumField sum)
    (hdata' : data' = (flagged o posDupYes msgType more).bytes len msgSeq t t₀ ++ sumField sum') :
    data'.length = data.length ∧
      ∀ i, ¬ Rewritten o msgType data.length i → data'[i]? = data[i]? := by
  have hpos : (flagged o posDupNo msgType more).timePos len msgSeq = timePos o msgType := by
    rw [flagged_timePos, timePos]
    exact (layout_positions ho hne more hlen hseq).2.symm
  have hpos' : (flagged o posDupYes msgType more).timePos len msgSeq = timePos o msgType := by
    rw [flagged_timePos, ← hpos, flagged_timePos]
  have h1 := patch_flag (o := o) posDupNo posDupYes msgType more len msgSeq t₀ t₀ (sumField sum)
  have h2 := (flagged o posDupYes msgType more).patch_time len (sumField sum) msgSeq t₀
    (ht.trans ht₀.symm)
  have h3 := patch_checksum ((flagged o posDupYes msgType more).bytes len msgSeq t t₀) hsum hsum'
  rw [← sumField, ← sumField] at h3
  rw [← hdata, hpos] at h1
  rw [hpos'] at h2
  rw [← hdata'] at h3
  have hl1 := patch_length h1
  have hl2 := patch_length h2
  refine ⟨(patch_length h3).trans (hl2.trans hl1), fun i hi => ?_⟩
  unfold Rewritten at hi
  push Not at hi
  obtain ⟨hflag, htime, hvalue⟩ := hi
  calc data'[i]? = ((flagged o posDupYes msgType more).bytes len msgSeq t t₀ ++ sumField sum)[i]? :=
        patch_getElem? h3 (by
          rw [hl2, hl1, hsum']
          have hge : checksumSize ≤ data.length := by
            rw [hdata, List.length_append, sumField_length hsum]
            omega
          simp only [checksumSize, checksumValuePartSize] at hge hvalue ⊢
          omega)
    _ = ((flagged o posDupYes msgType more).bytes len msgSeq t₀ t₀ ++ sumField sum)[i]? :=
        patch_getElem? h2 (by rw [ht]; omega)
    _ = data[i]? := patch_getElem? h1 (by rw [List.length_singleton]; omega)

/-- **A resend changes only what it must**: a message sent with number `msgSeq` at `t₀` and then
resent, at last at `t`, is a FIX message as before, with `43=Y` and the time `t`; outside the flag,
the time and the sum it has the bytes of the first transmission. -/
theorem resend_rewrites (ho : WellFormed o)
    (hw : 1 ≤ o.maxMsgSeqSize ∧ o.maxMsgSeqSize ≤ 18) {msgSeq₀ : List Byte}
    {app : List (ℤ × List Byte)} {times : List (List Byte)} (hne : msgType ≠ [])
    (hty : Clean msgType) (happ : ∀ f ∈ app, IsTag f.1 ∧ soh ∉ f.2) (h₀ : ∀ b ∈ msgSeq₀, IsDigit b)
    (hseq : ∀ b ∈ msgSeq, IsDigit b) (hsize : msgSeq.length = o.maxMsgSeqSize)
    (ht₀ : soh ∉ t₀) (hsize₀ : t₀.length = sendingTimeSize) (hzero : t₀[0]? ≠ some (digit 0))
    (ht : soh ∉ t) (htimes : ∀ u ∈ times ++ [t], u.length = sendingTimeSize)
    (hfits : (encodeAll (bodyFields o msgType msgSeq t₀
      (moreFields o msgSeq₀ msgType app))).length < 10 ^ o.maxBodyLengthSize) (early : Bool) :
    ∃ m m', compose o msgSeq₀ msgType app early msgSeq t₀ = some m ∧
      resend o (value msgSeq) (times ++ [t]) m = some m' ∧
      IsMessage o.maxBodyLengthSize o.fixVersion
        (sentFields o posDupNo msgType msgSeq t₀ t₀ (moreFields o msgSeq₀ msgType app)) m.data ∧
      IsMessage o.maxBodyLengthSize o.fixVersion
        (sentFields o posDupYes msgType msgSeq t t₀ (moreFields o msgSeq₀ msgType app)) m'.data ∧
      m'.seq = m.seq ∧ m'.data.length = m.data.length ∧
      ∀ i, ¬ Rewritten o msgType m.data.length i → m'.data[i]? = m.data[i]? := by
  have htsize := htimes t (by simp)
  have hlen : (encodeAll (sentFields o posDupYes msgType msgSeq t t₀
      (moreFields o msgSeq₀ msgType app))).length =
      (encodeAll (bodyFields o msgType msgSeq t₀ (moreFields o msgSeq₀ msgType app))).length :=
    sentFields_length (htsize.trans hsize₀.symm)
  obtain ⟨m, hm, hdata, hnum⟩ :=
    compose_eq ho hne hty (fun f hf => (happ f hf).1) hsize hsize₀ rfl hfits early rfl
  have hfirst := isMessage_of_readable ho
    (bodyFields_readable ho hty happ (soh_of_isDigit h₀) (soh_of_isDigit hseq) ht₀) hfits rfl
  rw [← hdata] at hfirst
  rw [← layout_bytes, ← flagged_posDupNo, trailer_eq_sumField] at hdata
  have hlaid : Laid o m.data posDupNo msgType (moreFields o msgSeq₀ msgType app) _ msgSeq t₀ t₀ _ :=
    ⟨hne, hty, padded_length _ _, hsize, hsize₀, hsize₀, padded_length _ _, hdata⟩
  obtain ⟨m', hm', hdata', hnum'⟩ := resend_eq ho hw hseq hzero htimes rfl hlaid
  have hlast := isMessage_of_readable ho
    (sentFields_readable ho hty happ (soh_of_isDigit h₀) (soh_of_isDigit hseq) ht ht₀)
    (by rw [hlen]; exact hfits) (flagged_bytes posDupYes msgType _ _ msgSeq t t₀)
  rw [hlen, ← hdata'] at hlast
  rw [trailer_eq_sumField] at hdata'
  obtain ⟨hsame, hbytes⟩ := bytes_getElem? ho hne (padded_length _ _) hsize hsize₀ htsize
    (padded_length _ _) (padded_length _ _) hdata hdata'
  exact ⟨m, m', hm, hm', hfirst, hlast, hnum'.trans hnum.symm, hsame, hbytes⟩

/-- A Logon of `20240101-00:00:00.000`, sent again at 1 and at 2 o'clock. -/
theorem resend_rewrites_logon :
    ∃ m m', compose optionsAB (padded 10 11) [65] [(58, [72, 105])] true (padded 10 12)
        [50, 48, 50, 52, 48, 49, 48, 49, 45, 48, 48, 58, 48, 48, 58, 48, 48, 46, 48, 48, 48] =
        some m ∧
      resend optionsAB (value (padded 10 12))
        ([[50, 48, 50, 52, 48, 49, 48, 49, 45, 48, 49, 58, 48, 48, 58, 48, 48, 46, 48, 48, 48]] ++
          [[50, 48, 50, 52, 48, 49, 48, 49, 45, 48, 50, 58, 48, 48, 58, 48, 48, 46, 48, 48, 48]])
        m = some m' ∧
      IsMessage 4 [70, 73, 88, 46, 52, 46, 52]
        (sentFields optionsAB posDupNo [65] (padded 10 12)
          [50, 48, 50, 52, 48, 49, 48, 49, 45, 48, 48, 58, 48, 48, 58, 48, 48, 46, 48, 48, 48]
          [50, 48, 50, 52, 48, 49, 48, 49, 45, 48, 48, 58, 48, 48, 58, 48, 48, 46, 48, 48, 48]
          (moreFields optionsAB (padded 10 11) [65] [(58, [72, 105])])) m.data ∧
      IsMessage 4 [70, 73, 88, 46, 52, 46, 52]
        (sentFields optionsAB posDupYes [65] (padded 10 12)
          [50, 48, 50, 52, 48, 49, 48, 49, 45, 48, 50, 58, 48, 48, 58, 48, 48, 46, 48, 48, 48]
          [50, 48, 50, 52, 48, 49, 48, 49, 45, 48, 48, 58, 48, 48, 58, 48, 48, 46, 48, 48, 48]
          (moreFields optionsAB (padded 10 11) [65] [(58, [72, 105])])) m'.data ∧
      m'.seq = m.seq ∧ m'.data.length = m.data.length ∧
      ∀ i, ¬ Rewritten optionsAB [65] m.data.length i → m'.data[i]? = m.data[i]? :=
  resend_rewrites optionsAB_wellFormed (by decide) (by decide) (by decide) (by decide)
    (fun b => isDigit_of_mem_padded) (fun b => isDigit_of_mem_padded) (padded_length _ _)
    (by decide) (by decide) (by decide) (by decide) (by decide) (by decide) true

end Ufix.Retransmission
