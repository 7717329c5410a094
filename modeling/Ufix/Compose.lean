import Ufix.Layout

/-!
From `Session::get_msg` to the bytes that are sent: the header with its reserved places, the
fields of the application, the trailer, and the number and the time at the end.

The positions of the reserved places are computed apart from the bytes, by
`calculate_msgs_positions`; a message that went this way is a FIX message with the fields it was
given.
-/

namespace Ufix.Compose

open Ufix.Decimal Ufix.TagValue

def beginString : ℕ := 8
def bodyLength : ℕ := 9
def msgTypeTag : ℕ := 35
def senderCompId : ℕ := 49
def targetCompId : ℕ := 56
def sendingTime : ℕ := 52
def origSendingTime : ℕ := 122
def posDupFlag : ℕ := 43
def encryptMethod : ℕ := 98
def encryptMethodNone : ℕ := 0
def heartBtIn : ℕ := 108
def defaultApplVerId : ℕ := 1137
def testRequestId : ℕ := 112

/-- `'A'`, `'1'` and `'N'`. -/
def msgTypeLogon : Byte := 65
def msgTypeTestRequest : Byte := 49
def posDupNo : Byte := 78

/-- The positions a session computes once. -/
structure MsgsPositions where
  fixVersionLen : ℕ
  bodyLengthPos : ℕ
  msgTypePos : ℕ
  msgSeqPos : ℕ
  sendingTimePos : ℕ

def calculateMsgsPositions (o : SessionOption) : MsgsPositions :=
  let fixVersionLen := strSize o.fixVersion
  let bodyLengthPos := 5 + fixVersionLen
  let msgTypePos := bodyLengthPos + o.maxBodyLengthSize + 4
  let msgSeqPos := msgTypePos + 5
  { fixVersionLen := fixVersionLen
    bodyLengthPos := bodyLengthPos
    msgTypePos := msgTypePos
    msgSeqPos := msgSeqPos
    sendingTimePos := msgSeqPos + o.maxMsgSeqSize + 4 + strSize o.senderCompId + 4 +
      strSize o.targetCompId + 5 + 4 }

/-- The fields `get_msg` adds for the type, with the number the session has then. -/
def setTypeFields (o : SessionOption) (msgSeq : List Byte) (msgType : List Byte)
    (m : WMessage) : Option WMessage :=
  if strSize msgType = 1 then
    if msgType.head? = some msgTypeLogon then do
      let m ← m.setFieldInt encryptMethod encryptMethodNone
      let m ← m.setFieldInt heartBtIn o.heartBtIn
      let m ← if o.defaultApplVerId ≥ 0 then m.setFieldInt defaultApplVerId o.defaultApplVerId
        else some m
      m.setFields o.logonOptions
    else if msgType.head? = some msgTypeTestRequest then m.setField testRequestId msgSeq
    else some m
  else some m

/-- `Session::get_msg`. -/
def getMsg (o : SessionOption) (msgSeq : List Byte) (m : WMessage) (msgType : List Byte) :
    Option WMessage := do
  let p := calculateMsgsPositions o
  let m := { m with
    maxBodyLengthSize := o.maxBodyLengthSize
    bodyLengthPos := p.bodyLengthPos
    bodyEndPos := p.bodyLengthPos + o.maxBodyLengthSize }
  let m ← m.setField beginString (o.fixVersion.take p.fixVersionLen)
  let m ← m.reserveField bodyLength o.maxBodyLengthSize
  let m ← m.setField msgTypeTag (msgType.take (strSize msgType))
  let m ← m.reserveField msgSeqNum o.maxMsgSeqSize
  let m ← m.setField senderCompId (o.senderCompId.take (strSize o.senderCompId))
  let m ← m.setField targetCompId (o.targetCompId.take (strSize o.targetCompId))
  let m ← m.setFieldChar posDupFlag posDupNo
  let m ← m.reserveField sendingTime sendingTimeSize
  let m ← m.reserveField origSendingTime sendingTimeSize
  let m ← m.setFields o.headerOptions
  setTypeFields o msgSeq msgType m

def getMsgTypeSize (o : SessionOption) (m : WMessage) : ℤ :=
  if m.data.length > 0 then strSize (m.data.drop (calculateMsgsPositions o).msgTypePos) else -1

/-- `Session::finalize_msg(msg)`: without a message type it only logs. -/
def finalizeMsg (o : SessionOption) (msgSeq utcTime : List Byte) (m : WMessage) :
    Option WMessage :=
  let p := calculateMsgsPositions o
  let add := getMsgTypeSize o m - 1
  if add ≥ 0 then
    m.finalizeNew (p.msgSeqPos + add.toNat) msgSeq (p.sendingTimePos + add.toNat) utcTime
  else some m

/-- A message from its type to its last byte: the trailer is added when the message is queued,
with `early`, or else by `finalize_new`. The number may have moved since `get_msg`. -/
def compose (o : SessionOption) (msgSeq₀ msgType : List Byte) (app : List (ℤ × List Byte))
    (early : Bool) (msgSeq utcTime : List Byte) : Option WMessage := do
  let m ← getMsg o msgSeq₀ .new msgType
  let m ← m.setFields app
  let m ← if early then m.preFinalize else some m
  finalizeMsg o msgSeq utcTime m

/-! ### What a message should be -/

/-- A text without `SOH` and `NUL`. -/
def Clean (l : List Byte) : Prop := ∀ b ∈ l, b ≠ 0 ∧ b ≠ soh

instance : DecidablePred Clean := fun l => List.decidableBAll _ l

structure WellFormed (o : SessionOption) : Prop where
  fixVersion : Clean o.fixVersion
  senderCompId : Clean o.senderCompId
  targetCompId : Clean o.targetCompId
  headerOptions : ∀ f ∈ o.headerOptions, IsTag f.1 ∧ Clean f.2
  logonOptions : ∀ f ∈ o.logonOptions, IsTag f.1 ∧ Clean f.2
  heartBtIn : 0 ≤ o.heartBtIn ∧ o.heartBtIn < 10 ^ 9
  defaultApplVerId : o.defaultApplVerId < 10 ^ 9

def typeFields (o : SessionOption) (msgSeq msgType : List Byte) : List Field :=
  if msgType = [msgTypeLogon] then
    (encryptMethod, decimal 0) :: (heartBtIn, decimal o.heartBtIn.toNat) ::
      ((if 0 ≤ o.defaultApplVerId then [(defaultApplVerId, decimal o.defaultApplVerId.toNat)]
        else []) ++ o.logonOptions.map toField)
  else if msgType = [msgTypeTestRequest] then [(testRequestId, msgSeq)]
  else []

def moreFields (o : SessionOption) (msgSeq₀ msgType : List Byte) (app : List (ℤ × List Byte)) :
    List Field :=
  o.headerOptions.map toField ++ typeFields o msgSeq₀ msgType ++ app.map toField

/-- The fields of the body, with number `msgSeq` and time `utcTime`, before those of `more`. -/
def bodyFields (o : SessionOption) (msgType msgSeq utcTime : List Byte) (more : List Field) :
    List Field :=
  [(msgTypeTag, msgType), (msgSeqNum, msgSeq), (senderCompId, o.senderCompId),
    (targetCompId, o.targetCompId), (posDupFlag, [posDupNo]), (sendingTime, utcTime),
    (origSendingTime, utcTime)] ++ more

/-- A FIX message: the version, the length of the body in `w` digits, the body, and the sum of
all bytes before `10=` in three digits. -/
def IsMessage (w : ℕ) (version : List Byte) (body : List Field) (data : List Byte) : Prop :=
  ∃ len sum,
    parse data = some ((beginString, version) :: (bodyLength, len) :: body ++ [(checksum, sum)]) ∧
    data = encodeAll ((beginString, version) :: (bodyLength, len) :: body) ++
      encode (checksum, sum) ∧
    len.length = w ∧ (∀ b ∈ len, IsDigit b) ∧ value len = (encodeAll body).length ∧
    sum = padded 3
      (byteSum (encodeAll ((beginString, version) :: (bodyLength, len) :: body)) % 256)

/-! ### The message of a session -/

lemma Clean.take {l : List Byte} (h : Clean l) : l.take (strSize l) = l := by
  rw [strSize_eq h, List.take_length]

lemma Clean.soh {l : List Byte} (h : Clean l) : soh ∉ l := fun hm => (h _ hm).2 rfl

lemma strSize_append_soh {l : List Byte} (h : Clean l) (rest : List Byte) :
    strSize (l ++ Ufix.soh :: rest) = l.length := by
  have hend : isCharEnd Ufix.soh = true := by decide
  have hall : ∀ b ∈ l, (!isCharEnd b) = true := fun b hb => by simp [isCharEnd, h b hb]
  rw [strSize, List.takeWhile_append_of_pos hall, List.takeWhile_cons_of_neg (by simp [hend]),
    List.append_nil]

section

variable {o : SessionOption}

lemma setTypeFields_eq (ho : WellFormed o) (msgSeq : List Byte) {msgType : List Byte}
    (hty : Clean msgType) (m : WMessage) :
    setTypeFields o msgSeq msgType m = some (m.append (typeFields o msgSeq msgType)) := by
  have hnone : m.append [] = m := by simp [WMessage.append]
  unfold setTypeFields typeFields
  rw [strSize_eq hty]
  rcases msgType with - | ⟨b, - | ⟨c, msgType⟩⟩
  · simp [hnone]
  · simp only [List.length_singleton, if_true, List.head?_cons, Option.some.injEq,
      List.cons.injEq, and_true]
    by_cases hA : b = msgTypeLogon
    · obtain ⟨h0, h9⟩ := ho.heartBtIn
      have h9' := ho.defaultApplVerId
      have hlogon := fun m : WMessage => m.setFields_eq fun f hf => (ho.logonOptions f hf).1
      have hheart : o.heartBtIn = (o.heartBtIn.toNat : ℤ) := by omega
      have hint : ∀ m : WMessage, m.setFieldInt heartBtIn o.heartBtIn =
          some (m.append [(heartBtIn, decimal o.heartBtIn.toNat)]) := fun m => by
        rw [hheart, m.setFieldInt_natCast (by decide) (by omega)]
        rfl
      rw [if_pos hA, if_pos hA, m.setFieldInt_natCast (by decide) (by decide)]
      by_cases hd : 0 ≤ o.defaultApplVerId
      · have hcast : o.defaultApplVerId = (o.defaultApplVerId.toNat : ℤ) := by omega
        have hver : ∀ m : WMessage, m.setFieldInt defaultApplVerId o.defaultApplVerId =
            some (m.append [(defaultApplVerId, decimal o.defaultApplVerId.toNat)]) := fun m => by
          rw [hcast, m.setFieldInt_natCast (by decide) (by omega)]
          rfl
        simp only [Option.bind_eq_bind, Option.bind_some, hint, ge_iff_le, if_pos hd, hver, hlogon,
          WMessage.append_append]
        rfl
      · simp only [Option.bind_eq_bind, Option.bind_some, hint, ge_iff_le, if_neg hd, hlogon,
          WMessage.append_append]
        rfl
    · rw [if_neg hA, if_neg hA]
      by_cases h1 : b = msgTypeTestRequest
      · rw [if_pos h1, if_pos h1, m.setField_natCast _ (by decide)]
      · rw [if_neg h1, if_neg h1, hnone]
  · simp [hnone]

variable (o) in
def drafted (msgType : List Byte) (more : List Field) : WMessage where
  status := .new
  maxBodyLengthSize := o.maxBodyLengthSize
  data := encodeAll ((beginString, o.fixVersion) :: (bodyLength, zeros o.maxBodyLengthSize) ::
    bodyFields o msgType (zeros o.maxMsgSeqSize) (zeros sendingTimeSize) more)
  seq := 0
  bodyLengthPos := 5 + o.fixVersion.length
  bodyEndPos := 5 + o.fixVersion.length + o.maxBodyLengthSize

lemma getMsg_setFields (ho : WellFormed o) (msgSeq₀ : List Byte) {msgType : List Byte}
    (hty : Clean msgType) {app : List (ℤ × List Byte)} (happ : ∀ f ∈ app, IsTag f.1) :
    ∃ m, getMsg o msgSeq₀ .new msgType = some m ∧
      m.setFields app = some (drafted o msgType (moreFields o msgSeq₀ msgType app)) := by
  simp (disch := decide) only [getMsg, WMessage.setField_natCast, WMessage.reserveField_natCast,
    WMessage.setFieldChar_natCast, Option.bind_eq_bind, Option.bind_some,
    WMessage.append_append, WMessage.setFields_eq _ fun f hf => (ho.headerOptions f hf).1,
    setTypeFields_eq ho msgSeq₀ hty]
  refine ⟨_, rfl, ?_⟩
  rw [WMessage.setFields_eq _ happ, WMessage.append_append]
  simp [drafted, WMessage.append, WMessage.new, bodyFields, moreFields, calculateMsgsPositions,
    zeros, ho.senderCompId.take, ho.targetCompId.take, hty.take,
    strSize_eq ho.fixVersion]

variable (o) in
def layout (msgType : List Byte) (more : List Field) : Layout where
  head := encode (beginString, o.fixVersion) ++ decimal bodyLength ++ [equal]
  afterLength := soh :: encode (msgTypeTag, msgType) ++ decimal msgSeqNum ++ [equal]
  afterSeq := soh :: encodeAll [(senderCompId, o.senderCompId), (targetCompId, o.targetCompId),
    (posDupFlag, [posDupNo])] ++ decimal sendingTime ++ [equal]
  afterTime := soh :: decimal origSendingTime ++ [equal]
  rest := soh :: encodeAll more

lemma layout_bytes (msgType : List Byte) (more : List Field) (len seq time : List Byte) :
    (layout o msgType more).bytes len seq time time =
      encodeAll ((beginString, o.fixVersion) :: (bodyLength, len) ::
        bodyFields o msgType seq time more) := by
  simp [layout, Layout.bytes, bodyFields, encodeAll, encode, soh, endOfField]

lemma layout_body (msgType : List Byte) (more : List Field) (len seq time : List Byte) :
    (layout o msgType more).bytes len seq time time =
      (layout o msgType more).head ++ len ++
        soh :: encodeAll (bodyFields o msgType seq time more) := by
  simp [layout, Layout.bytes, bodyFields, encodeAll, encode, soh, endOfField]

lemma layout_head_length (msgType : List Byte) (more : List Field) :
    (layout o msgType more).head.length = 5 + o.fixVersion.length := by
  have h8 : (decimal beginString).length = 1 := by decide
  have h9 : (decimal bodyLength).length = 1 := by decide
  simp only [layout, encode, List.length_append, List.length_cons, List.length_nil, h8, h9]
  omega

/-- `calculate_msgs_positions`, moved by the length of the type, gives the true places. -/
lemma layout_positions (ho : WellFormed o) {msgType : List Byte} (hty : msgType ≠ [])
    (more : List Field) {len seq : List Byte} (hlen : len.length = o.maxBodyLengthSize)
    (hseq : seq.length = o.maxMsgSeqSize) :
    (calculateMsgsPositions o).msgSeqPos + (msgType.length - 1) =
        (layout o msgType more).seqPos len ∧
      (calculateMsgsPositions o).sendingTimePos + (msgType.length - 1) =
        (layout o msgType more).timePos len seq := by
  have hpos : 0 < msgType.length := List.length_pos_iff.mpr hty
  have h35 : (decimal msgTypeTag).length = 2 := by decide
  have h34 : (decimal msgSeqNum).length = 2 := by decide
  have h49 : (decimal senderCompId).length = 2 := by decide
  have h56 : (decimal targetCompId).length = 2 := by decide
  have h43 : (decimal posDupFlag).length = 2 := by decide
  have h52 : (decimal sendingTime).length = 2 := by decide
  have hseqPos : (layout o msgType more).seqPos len =
      5 + o.fixVersion.length + len.length + 8 + msgType.length := by
    rw [Layout.seqPos, layout_head_length]
    simp only [layout, encode, List.length_append, List.length_cons, List.length_nil, h35, h34]
    omega
  refine ⟨?_, ?_⟩
  · rw [hseqPos]
    simp only [calculateMsgsPositions, strSize_eq ho.fixVersion]
    omega
  · rw [Layout.timePos, hseqPos]
    simp only [layout, encodeAll_cons, encodeAll_nil, encode, List.length_append,
      List.length_cons, List.length_nil, h49, h56, h43, h52, calculateMsgsPositions,
      strSize_eq ho.fixVersion, strSize_eq ho.senderCompId, strSize_eq ho.targetCompId]
    omega

/-- The type is found again in the finished bytes, whatever stands behind the number. -/
lemma getMsgTypeSize_of_layout (ho : WellFormed o) {msgType : List Byte} (hty : Clean msgType)
    {more : List Field} {l : Layout} (hhead : l.head = (layout o msgType more).head)
    (hafter : l.afterLength = (layout o msgType more).afterLength) {m : WMessage}
    {len seq time origTime tail : List Byte} (hlen : len.length = o.maxBodyLengthSize)
    (hdata : m.data = l.bytes len seq time origTime ++ tail) :
    getMsgTypeSize o m = msgType.length := by
  have h35 : (decimal msgTypeTag).length = 2 := by decide
  have hat : m.data =
      ((layout o msgType more).head ++ len ++ soh :: decimal msgTypeTag ++ [equal]) ++
        (msgType ++ soh :: (decimal msgSeqNum ++ equal :: (seq ++
          (l.afterSeq ++ time ++ l.afterTime ++ origTime ++ l.rest ++ tail)))) := by
    rw [hdata, Layout.bytes, hhead, hafter]
    simp [layout, encode, soh, endOfField]
  have hpos : (calculateMsgsPositions o).msgTypePos =
      ((layout o msgType more).head ++ len ++ soh :: decimal msgTypeTag ++ [equal]).length := by
    simp only [List.length_append, List.length_cons, List.length_nil, layout_head_length, hlen, h35,
      calculateMsgsPositions, strSize_eq ho.fixVersion]
  have h0 : m.data.length > 0 := by
    rw [hat]
    simp only [List.length_append, List.length_cons]
    omega
  rw [getMsgTypeSize, if_pos h0, hpos, hat, List.drop_left, strSize_append_soh hty]

lemma getMsgTypeSize_eq (ho : WellFormed o) {msgType : List Byte} (hty : Clean msgType)
    {more : List Field} {m : WMessage} {len seq time tail : List Byte}
    (hlen : len.length = o.maxBodyLengthSize)
    (hdata : m.data = (layout o msgType more).bytes len seq time time ++ tail) :
    getMsgTypeSize o m = msgType.length := getMsgTypeSize_of_layout ho hty rfl rfl hlen hdata

lemma finalizeMsg_eq (ho : WellFormed o) {msgType : List Byte} (hne : msgType ≠ [])
    (hty : Clean msgType) {more : List Field} {m : WMessage} {len tail seq time : List Byte}
    {seq' time' : List Byte} (hlen : len.length = o.maxBodyLengthSize)
    (hseq : seq.length = o.maxMsgSeqSize)
    (hdata : m.data = (layout o msgType more).bytes len seq' time' time' ++ tail) :
    finalizeMsg o seq time m = m.finalizeNew ((layout o msgType more).seqPos len) seq
      ((layout o msgType more).timePos len seq) time := by
  have hpos : 0 < msgType.length := List.length_pos_iff.mpr hne
  obtain ⟨hp₁, hp₂⟩ := layout_positions ho hne more hlen hseq
  have hadd : ((msgType.length : ℤ) - 1).toNat = msgType.length - 1 := by omega
  simp only [finalizeMsg, getMsgTypeSize_eq ho hty hlen hdata]
  rw [if_pos (by omega), hadd, hp₁, hp₂]

lemma bodyFields_length {msgType seq time seq' time' : List Byte} {more : List Field}
    (hseq : seq'.length = seq.length) (htime : time'.length = time.length) :
    (encodeAll (bodyFields o msgType seq' time' more)).length =
      (encodeAll (bodyFields o msgType seq time more)).length := by
  simp [bodyFields, encodeAll_cons, encode, hseq, htime]

lemma readable_toField {fs : List (ℤ × List Byte)} (h : ∀ f ∈ fs, IsTag f.1 ∧ soh ∉ f.2) :
    ∀ f ∈ fs.map toField, Readable f := by
  intro f hf
  obtain ⟨g, hg, rfl⟩ := List.mem_map.mp hf
  obtain ⟨⟨h0, -⟩, hsoh⟩ := h g hg
  exact ⟨by simp only [toField]; omega, hsoh⟩

lemma readable_decimal {tag : ℕ} (h : tag ≠ 0) (v : ℕ) : Readable (tag, decimal v) := by
  refine ⟨h, fun hm => ?_⟩
  exact absurd (isDigit_of_mem_decimal hm) (by decide)

lemma typeFields_readable (ho : WellFormed o) {msgSeq : List Byte} (hseq : soh ∉ msgSeq)
    (msgType : List Byte) : ∀ f ∈ typeFields o msgSeq msgType, Readable f := by
  intro f hf
  unfold typeFields at hf
  split at hf
  · rcases List.mem_cons.mp hf with rfl | hf
    · exact readable_decimal (by simp [encryptMethod]) _
    rcases List.mem_cons.mp hf with rfl | hf
    · exact readable_decimal (by simp [heartBtIn]) _
    rcases List.mem_append.mp hf with hf | hf
    · split at hf
      · rw [List.mem_singleton.mp hf]
        exact readable_decimal (by simp [defaultApplVerId]) _
      · cases hf
    · exact readable_toField (fun g hg => ⟨(ho.logonOptions g hg).1, (ho.logonOptions g hg).2.soh⟩)
        f hf
  · split at hf
    · rw [List.mem_singleton.mp hf]
      exact ⟨by simp [testRequestId], hseq⟩
    · cases hf

lemma bodyFields_readable (ho : WellFormed o) {msgType msgSeq₀ msgSeq utcTime : List Byte}
    {app : List (ℤ × List Byte)} (hty : Clean msgType) (happ : ∀ f ∈ app, IsTag f.1 ∧ soh ∉ f.2)
    (h₀ : soh ∉ msgSeq₀) (hseq : soh ∉ msgSeq) (htime : soh ∉ utcTime) :
    ∀ f ∈ bodyFields o msgType msgSeq utcTime (moreFields o msgSeq₀ msgType app), Readable f := by
  intro f hf
  rcases List.mem_append.mp hf with hf | hf
  · simp only [List.mem_cons, List.not_mem_nil, or_false] at hf
    rcases hf with rfl | rfl | rfl | rfl | rfl | rfl | rfl
    · exact ⟨by simp [msgTypeTag], hty.soh⟩
    · exact ⟨by simp [msgSeqNum], hseq⟩
    · exact ⟨by simp [senderCompId], ho.senderCompId.soh⟩
    · exact ⟨by simp [targetCompId], ho.targetCompId.soh⟩
    · exact ⟨by simp [posDupFlag], by simp [endOfField, posDupNo]⟩
    · exact ⟨by simp [sendingTime], htime⟩
    · exact ⟨by simp [origSendingTime], htime⟩
  · rcases List.mem_append.mp hf with hf | hf
    · rcases List.mem_append.mp hf with hf | hf
      · exact readable_toField
          (fun g hg => ⟨(ho.headerOptions g hg).1, (ho.headerOptions g hg).2.soh⟩) f hf
      · exact typeFields_readable ho h₀ msgType f hf
    · exact readable_toField happ f hf

lemma bodyFields_length_pos (msgType seq time : List Byte) (more : List Field) :
    0 < (encodeAll (bodyFields o msgType seq time more)).length := by
  simp only [bodyFields, List.cons_append, encodeAll_cons, encode, List.length_append,
    List.length_cons]
  omega

lemma one_le_of_fits {msgType seq time : List Byte} {more : List Field} {w : ℕ}
    (h : (encodeAll (bodyFields o msgType seq time more)).length < 10 ^ w) : 1 ≤ w := by
  have hpos := bodyFields_length_pos (o := o) msgType seq time more
  rcases Nat.eq_zero_or_pos w with rfl | hw
  · omega
  · exact hw

variable (o) in
/-- The message with its trailer, the number and the times still zeros. -/
def queued (msgType : List Byte) (more : List Field) : WMessage :=
  let body := bodyFields o msgType (zeros o.maxMsgSeqSize) (zeros sendingTimeSize) more
  let data := encodeAll ((beginString, o.fixVersion) ::
    (bodyLength, padded o.maxBodyLengthSize (encodeAll body).length) :: body)
  { drafted o msgType more with data := data ++ trailer data, status := .preFin }

lemma drafted_preFinalize {msgType : List Byte} {more : List Field}
    (hfits : (encodeAll (bodyFields o msgType (zeros o.maxMsgSeqSize) (zeros sendingTimeSize)
      more)).length < 10 ^ o.maxBodyLengthSize) :
    (drafted o msgType more).preFinalize = some (queued o msgType more) := by
  have hhead := layout_head_length (o := o) msgType more
  have hdata : (drafted o msgType more).data = (layout o msgType more).head ++
      zeros o.maxBodyLengthSize ++ soh :: encodeAll (bodyFields o msgType (zeros o.maxMsgSeqSize)
        (zeros sendingTimeSize) more) := by
    rw [← layout_body, layout_bytes]
    rfl
  rw [preFinalize_eq _ _ (one_le_of_fits hfits) hhead.symm (by rw [hhead]; rfl) rfl hdata hfits,
    ← layout_body, layout_bytes]
  rfl

lemma drafted_data (msgType : List Byte) (more : List Field) :
    (drafted o msgType more).data = (layout o msgType more).bytes (zeros o.maxBodyLengthSize)
      (zeros o.maxMsgSeqSize) (zeros sendingTimeSize) (zeros sendingTimeSize) ++ [] := by
  rw [layout_bytes, List.append_nil]
  rfl

lemma queued_data (msgType : List Byte) (more : List Field) :
    ∃ len, len = padded o.maxBodyLengthSize (encodeAll (bodyFields o msgType
        (zeros o.maxMsgSeqSize) (zeros sendingTimeSize) more)).length ∧
      (queued o msgType more).data = (layout o msgType more).bytes len (zeros o.maxMsgSeqSize)
          (zeros sendingTimeSize) (zeros sendingTimeSize) ++
        trailer ((layout o msgType more).bytes len (zeros o.maxMsgSeqSize)
          (zeros sendingTimeSize) (zeros sendingTimeSize)) := by
  refine ⟨_, rfl, ?_⟩
  rw [layout_bytes]
  rfl

lemma layout_distance (msgType : List Byte) (more : List Field) :
    sendingTimeSize + (layout o msgType more).afterTime.length = distanceSendingOrigSending := by
  have h122 : (decimal origSendingTime).length = 3 := by decide
  simp only [layout, List.length_append, List.length_cons, List.length_nil, h122]
  rfl

/-- The trailer is there before `finalize_new` does its work, with or without `early`. -/
lemma compose_queued (ho : WellFormed o) {msgType msgSeq₀ msgSeq utcTime : List Byte}
    {app : List (ℤ × List Byte)} {more : List Field} (hne : msgType ≠ []) (hty : Clean msgType)
    (happ : ∀ f ∈ app, IsTag f.1) (hmore : more = moreFields o msgSeq₀ msgType app)
    (hsize : msgSeq.length = o.maxMsgSeqSize)
    (hfits : (encodeAll (bodyFields o msgType (zeros o.maxMsgSeqSize) (zeros sendingTimeSize)
      more)).length < 10 ^ o.maxBodyLengthSize) (early : Bool) :
    compose o msgSeq₀ msgType app early msgSeq utcTime =
      (queued o msgType more).finalizeNew
        ((layout o msgType more).seqPos (zeros o.maxBodyLengthSize)) msgSeq
        ((layout o msgType more).timePos (zeros o.maxBodyLengthSize) msgSeq) utcTime := by
  obtain ⟨m, hget, hset⟩ := getMsg_setFields ho msgSeq₀ hty happ
  have hpre := drafted_preFinalize hfits
  rw [← hmore] at hset
  simp only [compose, hget, hset, Option.bind_eq_bind, Option.bind_some]
  cases early with
  | true =>
    obtain ⟨len, hlen, hdata⟩ := queued_data (o := o) msgType more
    have hlen' : len.length = o.maxBodyLengthSize := by rw [hlen, padded_length]
    simp only [if_true, hpre, Option.bind_some]
    rw [finalizeMsg_eq ho hne hty hlen' hsize hdata]
    simp only [Layout.timePos, Layout.seqPos, hlen', zeros_length]
  | false =>
    simp only [Bool.false_eq_true, if_false]
    rw [finalizeMsg_eq ho hne hty (zeros_length _) hsize (drafted_data msgType more)]
    exact finalizeNew_new rfl hpre rfl

/-- The bytes of a message: the header with its places filled in, and the trailer. -/
lemma compose_eq (ho : WellFormed o) {msgType msgSeq₀ msgSeq utcTime : List Byte}
    {app : List (ℤ × List Byte)} (hne : msgType ≠ []) (hty : Clean msgType)
    (happ : ∀ f ∈ app, IsTag f.1) (hsize : msgSeq.length = o.maxMsgSeqSize)
    (htimeSize : utcTime.length = sendingTimeSize) {body : List Field}
    (hbody : body = bodyFields o msgType msgSeq utcTime (moreFields o msgSeq₀ msgType app))
    (hfits : (encodeAll body).length < 10 ^ o.maxBodyLengthSize) (early : Bool) {data : List Byte}
    (hd : data = encodeAll ((beginString, o.fixVersion) ::
      (bodyLength, padded o.maxBodyLengthSize (encodeAll body).length) :: body)) :
    ∃ m, compose o msgSeq₀ msgType app early msgSeq utcTime = some m ∧
      m.data = data ++ trailer data ∧ m.seq = convertAtollLen msgSeq := by
  set more := moreFields o msgSeq₀ msgType app
  have hlen₀ : (encodeAll (bodyFields o msgType (zeros o.maxMsgSeqSize) (zeros sendingTimeSize)
      more)).length = (encodeAll body).length := by
    rw [hbody]
    exact bodyFields_length (by rw [zeros_length, hsize]) (by rw [zeros_length, htimeSize])
  obtain ⟨len, hlen, hdata⟩ := queued_data (o := o) msgType more
  have hlen' : len.length = o.maxBodyLengthSize := by rw [hlen, padded_length]
  have hbytes : (layout o msgType more).bytes len msgSeq utcTime utcTime = data := by
    rw [layout_bytes, hd, hlen, hlen₀, hbody]
  rw [← hsize, ← htimeSize] at hdata
  have hfin := finalizeNew_eq (layout o msgType more) rfl rfl hdata
    (show (layout o msgType more).seqPos (zeros o.maxBodyLengthSize) = _ by
      simp only [Layout.seqPos, hlen', zeros_length])
    (show (layout o msgType more).timePos (zeros o.maxBodyLengthSize) msgSeq = _ by
      simp only [Layout.timePos, Layout.seqPos, hlen', zeros_length])
    (by rw [htimeSize, layout_distance])
  rw [hbytes] at hfin
  rw [compose_queued ho hne hty happ rfl hsize (by rw [hlen₀]; exact hfits) early, hfin]
  exact ⟨_, rfl, rfl, rfl⟩

lemma soh_of_isDigit {l : List Byte} (h : ∀ b ∈ l, IsDigit b) : soh ∉ l :=
  fun hm => absurd (h _ hm) (by decide)

/-- Fields that read back, behind their length and before their sum. -/
lemma isMessage_of_readable (ho : WellFormed o) {body : List Field}
    (hbody : ∀ f ∈ body, Readable f)
    (hfits : (encodeAll body).length < 10 ^ o.maxBodyLengthSize) {data : List Byte}
    (hd : data = encodeAll ((beginString, o.fixVersion) ::
      (bodyLength, padded o.maxBodyLengthSize (encodeAll body).length) :: body)) :
    IsMessage o.maxBodyLengthSize o.fixVersion body (data ++ trailer data) := by
  subst hd
  refine ⟨_, _, ?_, rfl, padded_length _ _, fun b => isDigit_of_mem_padded,
    value_padded_of_lt hfits, rfl⟩
  have htrailer : ∀ data : List Byte, trailer data =
      encodeAll [(checksum, padded 3 (byteSum data % 256))] := fun data => by
    simp [trailer, encodeAll]
  rw [htrailer, ← encodeAll_append]
  refine parse_encodeAll fun f hf => ?_
  rcases List.mem_append.mp hf with hf | hf
  · rcases List.mem_cons.mp hf with rfl | hf
    · exact ⟨by simp [beginString], ho.fixVersion.soh⟩
    rcases List.mem_cons.mp hf with rfl | hf
    · exact ⟨by simp [bodyLength], soh_of_isDigit fun b => isDigit_of_mem_padded⟩
    · exact hbody f hf
  · rw [List.mem_singleton.mp hf]
    exact ⟨by simp [checksum], soh_of_isDigit fun b => isDigit_of_mem_padded⟩

/-- **A message is a FIX message**: with the fields it was given, in their order, with the number
and the time of its sending, whatever its type, the options and the values, as long as the body
length has no more digits than were reserved. -/
theorem compose_isMessage (ho : WellFormed o) {msgType msgSeq₀ msgSeq utcTime : List Byte}
    {app : List (ℤ × List Byte)} (hne : msgType ≠ []) (hty : Clean msgType)
    (happ : ∀ f ∈ app, IsTag f.1 ∧ soh ∉ f.2) (h₀ : ∀ b ∈ msgSeq₀, IsDigit b)
    (hseq : ∀ b ∈ msgSeq, IsDigit b) (hsize : msgSeq.length = o.maxMsgSeqSize)
    (htime : soh ∉ utcTime) (htimeSize : utcTime.length = sendingTimeSize)
    (hfits : (encodeAll (bodyFields o msgType msgSeq utcTime
      (moreFields o msgSeq₀ msgType app))).length < 10 ^ o.maxBodyLengthSize) (early : Bool) :
    ∃ m, compose o msgSeq₀ msgType app early msgSeq utcTime = some m ∧
      IsMessage o.maxBodyLengthSize o.fixVersion
        (bodyFields o msgType msgSeq utcTime (moreFields o msgSeq₀ msgType app)) m.data ∧
      m.seq = ulong (value msgSeq) := by
  obtain ⟨m, hm, hdata, hnum⟩ := compose_eq ho hne hty (fun f hf => (happ f hf).1) hsize htimeSize
    rfl hfits early rfl
  have hbody := bodyFields_readable ho hty happ (soh_of_isDigit h₀) (soh_of_isDigit hseq) htime
  refine ⟨m, hm, ?_, ?_⟩
  · rw [hdata]
    exact isMessage_of_readable ho hbody hfits rfl
  · rw [hnum, convertAtollLen, foldl_ulongDigit hseq]

end

/-- `FIX.4.4` from `A` to `B`, with a header option `115=X`. -/
def optionsAB : SessionOption where
  fixVersion := [70, 73, 88, 46, 52, 46, 52]
  senderCompId := [65]
  targetCompId := [66]
  headerOptions := [(115, [88])]

lemma optionsAB_wellFormed : WellFormed optionsAB :=
  ⟨by decide, by decide, by decide, by decide, by decide, by decide, by decide⟩

/-- A Logon with number `12` at `20240101-00:00:00.000`. -/
theorem compose_isMessage_logon :
    ∃ m, compose optionsAB (padded 10 11) [65] [(58, [72, 105])] false (padded 10 12)
        [50, 48, 50, 52, 48, 49, 48, 49, 45, 48, 48, 58, 48, 48, 58, 48, 48, 46, 48, 48, 48] =
        some m ∧
      IsMessage 4 [70, 73, 88, 46, 52, 46, 52]
        (bodyFields optionsAB [65] (padded 10 12)
          [50, 48, 50, 52, 48, 49, 48, 49, 45, 48, 48, 58, 48, 48, 58, 48, 48, 46, 48, 48, 48]
          (moreFields optionsAB (padded 10 11) [65] [(58, [72, 105])])) m.data ∧
      m.seq = 12 :=
  compose_isMessage optionsAB_wellFormed (by decide) (by decide) (by decide)
    (fun b => isDigit_of_mem_padded) (fun b => isDigit_of_mem_padded) (padded_length _ _)
    (by decide) (by decide) (by decide) false

end Ufix.Compose
