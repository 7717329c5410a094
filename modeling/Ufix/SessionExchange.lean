import Ufix.SendCmd

/-!
A session message from one side to the other: what the sender composes is cut off by the receiver
of the peer, parsed, and has the effect it was sent for.

The numbers of a resend request go from the command of one side to the loop of the other: as eight
bytes in a block, as digits in two fields, and as eight bytes in a block again.
-/

namespace Ufix.SessionExchange

open Ufix.Compose Ufix.Heartbeat Ufix.ReceiverSession Ufix.LittleEndian Ufix.TagValue Ufix.Decimal
open Ufix.SendCmd Ufix.Transfer Ufix.Framing Ufix.HeaderLookup Ufix.FieldGrammar Ufix.Runs

/-! ### The receiver of the peer -/

/-- `MSG_TYPE_LOGOUT` and `MSG_TYPE_XML_NON_FIX`. -/
def msgTypeLogout : Byte := 53
def msgTypeXmlNonFix : Byte := 110

/-- `is_session_msg` on the memory from the type on. -/
def isSessionMsg : List Byte → Option Bool
  | msgType :: stop :: _ =>
    some (stop = soh && ((msgTypeHeartbeat ≤ msgType && msgType ≤ msgTypeLogout) ||
      msgType = msgTypeLogon || msgType = msgTypeXmlNonFix))
  | _ => none

/-- `put_msg_to_app_queue`; `none` while the slot is occupied, when the receiver waits. -/
def putMsgToAppQueue (s : ReceiverSession) (m : RMessage) : Option ReceiverSession :=
  (s.recvQueue.put m).map fun q => { s with recvQueue := q }

/-- `process_msg`, on a message with `beyond` behind it in the memory. -/
def processMsg (s : ReceiverSession) (junk : CmdBlock) (m : RMessage) (beyond : List Byte) :
    Except Fault (Option ReceiverSession) :=
  match (bytesFrom (m.data ++ beyond) m.msgTypePos).bind isSessionMsg with
  | none => .error .outside
  | some true => (s.processSessionMsg junk m beyond).map fun s => putMsgToAppQueue s m
  | some false => .ok (putMsgToAppQueue s m)

/-! ### What is sent -/

/-- A session message when it is sent: the number and the time the session has, and that there is
room for it. -/
structure Sending (o : SessionOption) where
  msg : SessionMsg
  msgSeq : List Byte
  utcTime : List Byte
  msgSeq_digits : ∀ b ∈ msgSeq, IsDigit b
  msgSeq_length : msgSeq.length = o.maxMsgSeqSize
  utcTime_soh : soh ∉ utcTime
  utcTime_length : utcTime.length = sendingTimeSize
  numbers : msg.Numbers o
  fits : (encodeAll (bodyFields o [msg.msgType] (msg.number o msgSeq) utcTime
    (moreFields o msgSeq [msg.msgType] msg.app))).length < 10 ^ o.maxBodyLengthSize
  room : (encodeAll ((beginString, o.fixVersion) :: (bodyLength, zeros o.maxBodyLengthSize) ::
    bodyFields o [msg.msgType] (msg.number o msgSeq) utcTime
      (moreFields o msgSeq [msg.msgType] msg.app))).length + checksumSize ≤ bufSize

namespace Sending

variable {o : SessionOption} (m : Sending o)

def send : Option WMessage := m.msg.send o m.msgSeq m.utcTime

lemma msgType_clean (m : SessionMsg) : Clean [m.msgType] ∧ equal ∉ [m.msgType] := by
  cases m <;> simp only [SessionMsg.msgType] <;> decide

def outgoing : Outgoing o where
  msgType := [m.msg.msgType]
  app := m.msg.app
  msgSeq₀ := m.msgSeq
  msgSeq := m.msg.number o m.msgSeq
  utcTime := m.utcTime
  early := false
  msgType_ne := List.cons_ne_nil _ _
  msgType_clean := (msgType_clean m.msg).1
  msgType_equal := (msgType_clean m.msg).2
  app_tag := m.msg.app_tag
  msgSeq_digits := m.msg.number_digits m.msgSeq_digits
  msgSeq_length := m.msg.number_length m.msgSeq_length
  utcTime_length := m.utcTime_length
  fits := m.fits

variable (hw : o.maxBodyLengthSize ≤ 9)

def frame : FixMessage o.fixVersion.length := m.outgoing.frame hw

lemma frame_length : (m.frame hw).bytes.length ≤ bufSize := by
  have hroom := m.room
  have hhead : m.outgoing.head.length =
      (encodeAll ((beginString, o.fixVersion) :: (bodyLength, zeros o.maxBodyLengthSize) ::
        bodyFields o [m.msg.msgType] (m.msg.number o m.msgSeq) m.utcTime
          (moreFields o m.msgSeq [m.msg.msgType] m.msg.app))).length := by
    simp only [Outgoing.head, encodeAll_cons, TagValue.encode, List.length_append, List.length_cons,
      List.length_nil, padded_length, zeros_length]
    rfl
  rw [frame, Outgoing.frame_bytes, List.length_append, trailer_length, hhead]
  exact hroom

/-- **The sender composes the frame.** -/
lemma send_eq (ho : WellFormed o) :
    ∃ w, m.send = some w ∧ w.data = (m.frame hw).bytes ∧
      w.seq = ulong (value (m.msg.number o m.msgSeq)) := by
  obtain ⟨w, hsend, hdata, hseq⟩ := m.outgoing.send_eq ho hw
  refine ⟨w, ?_, hdata, hseq⟩
  have hcompose : compose o m.msgSeq [m.msg.msgType] m.msg.app false (m.msg.number o m.msgSeq)
      m.utcTime = some w := hsend
  have hlen : w.data.length ≤ bufSize := hdata ▸ m.frame_length hw
  rw [send, SessionMsg.send_eq_compose ho m.numbers, hcompose, Option.bind_some, inBuf,
    if_pos hlen]

end Sending

/-! ### What the peer reads -/

def raw (f : Field) : RawField := ⟨decimal f.1, f.2⟩

lemma encode_raw (fs : List Field) : encode (fs.map raw) = encodeAll fs := by
  induction fs with
  | nil => rfl
  | cons f fs ih =>
    rw [List.map_cons, encode_cons, ih, encodeAll_cons, TagValue.encode]
    simp [raw, soh, endOfField]

lemma known_raw {f : Field} (h : Readable f) (hlt : f.1 < maxFixTag) : Known (raw f) := by
  refine ⟨⟨fun b => isDigit_of_mem_decimal, ?_, h.2⟩, ?_⟩
  · simpa [raw] using h.1
  · simpa [raw] using hlt

variable {o : SessionOption}

lemma toField_lt {fs : List (ℤ × List Byte)} (h : ∀ f ∈ fs, IsTag f.1) :
    ∀ f ∈ fs.map toField, f.1 < maxFixTag := by
  intro f hf
  obtain ⟨g, hg, rfl⟩ := List.mem_map.mp hf
  obtain ⟨-, hlt⟩ := h g hg
  simp only [toField, maxFixTag]
  omega

lemma typeFields_lt (ho : WellFormed o) (msgSeq msgType : List Byte) :
    ∀ f ∈ typeFields o msgSeq msgType, f.1 < maxFixTag := by
  intro f hf
  unfold typeFields at hf
  split at hf
  · rcases List.mem_cons.mp hf with rfl | hf
    · decide
    rcases List.mem_cons.mp hf with rfl | hf
    · exact show heartBtIn < maxFixTag by decide
    rcases List.mem_append.mp hf with hf | hf
    · split at hf
      · rw [List.mem_singleton.mp hf]
        exact show defaultApplVerId < maxFixTag by decide
      · cases hf
    · exact toField_lt (fun g hg => (ho.logonOptions g hg).1) f hf
  · split at hf
    · rw [List.mem_singleton.mp hf]
      exact show testRequestId < maxFixTag by decide
    · cases hf

lemma bodyFields_lt (ho : WellFormed o) {msgType msgSeq₀ msgSeq utcTime : List Byte}
    {app : List (ℤ × List Byte)} (happ : ∀ f ∈ app, IsTag f.1) :
    ∀ f ∈ bodyFields o msgType msgSeq utcTime (moreFields o msgSeq₀ msgType app),
      f.1 < maxFixTag := by
  intro f hf
  rcases List.mem_append.mp hf with hf | hf
  · simp only [List.mem_cons, List.not_mem_nil, or_false] at hf
    rcases hf with rfl | rfl | rfl | rfl | rfl | rfl | rfl <;> exact of_decide_eq_true rfl
  · rcases List.mem_append.mp hf with hf | hf
    · rcases List.mem_append.mp hf with hf | hf
      · exact toField_lt (fun g hg => (ho.headerOptions g hg).1) f hf
      · exact typeFields_lt ho _ _ f hf
    · exact toField_lt happ f hf

namespace Sending

variable (m : Sending o) (hw : o.maxBodyLengthSize ≤ 9)

def lengthDigits : List Byte := padded o.maxBodyLengthSize (encodeAll m.outgoing.body).length

def sumField : Field := (checksum, padded 3 (byteSum m.outgoing.head % 256))

def fields : List Field :=
  [(beginString, o.fixVersion), (bodyLength, m.lengthDigits)] ++ m.outgoing.body ++ [m.sumField]

lemma frame_bytes : (m.frame hw).bytes = encode (m.fields.map raw) := by
  have hhead : m.outgoing.head =
      encodeAll ([(beginString, o.fixVersion), (bodyLength, m.lengthDigits)] ++ m.outgoing.body) :=
    rfl
  have hsum : trailer m.outgoing.head = encodeAll [m.sumField] := by
    rw [trailer_eq, sumField, encodeAll_cons, encodeAll_nil, TagValue.encode]
    simp [soh, endOfField]
  rw [encode_raw, frame, Outgoing.frame_bytes, hsum, fields, encodeAll_append _ [m.sumField],
    ← hhead]

lemma fields_known (ho : WellFormed o) : ∀ f ∈ m.fields.map raw, Known f := by
  have hdigits : ∀ {w n : ℕ}, soh ∉ padded w n := soh_of_isDigit fun b => isDigit_of_mem_padded
  intro f hf
  obtain ⟨g, hg, rfl⟩ := List.mem_map.mp hf
  simp only [fields, List.mem_append, List.mem_cons, List.not_mem_nil, or_false] at hg
  rcases hg with ((rfl | rfl) | hg) | rfl
  · exact known_raw ⟨show beginString ≠ 0 by decide, ho.fixVersion.soh⟩
      (show beginString < maxFixTag by decide)
  · exact known_raw ⟨show bodyLength ≠ 0 by decide, hdigits⟩ (show bodyLength < maxFixTag by decide)
  · exact known_raw
      (bodyFields_readable ho m.outgoing.msgType_clean m.msg.app_readable
        (soh_of_isDigit m.msgSeq_digits) (soh_of_isDigit m.outgoing.msgSeq_digits) m.utcTime_soh
        g hg)
      (bodyFields_lt ho m.outgoing.app_tag g hg)
  · exact known_raw ⟨show checksum ≠ 0 by decide, hdigits⟩ (show checksum < maxFixTag by decide)

/-- `get_field` finds the last field of a tag behind the times. -/
lemma getField_frame (ho : WellFormed o) {before behind : List Field} {tag : ℕ} {val : List Byte}
    (hmore : m.outgoing.more = before ++ (tag, val) :: behind) (hbehind : ∀ f ∈ behind, f.1 ≠ tag)
    (h10 : tag ≠ checksum) (p : SessionMsgsParser) (beyond : List Byte) :
    ∃ info rest, (p.parse (m.frame hw).bytes).parser.getField tag = some info ∧
      ((m.frame hw).bytes ++ beyond).drop info.val = val ++ soh :: rest := by
  obtain ⟨front, hfields⟩ : ∃ front,
      m.fields.map raw = front ++ raw (tag, val) :: (behind ++ [m.sumField]).map raw := by
    rw [fields, Outgoing.body, bodyFields, hmore]
    simp only [List.map_append, List.map_cons, List.append_assoc, List.cons_append]
    simp only [← List.cons_append, ← List.append_assoc]
    exact ⟨_, rfl⟩
  have hknown := m.fields_known ho
  rw [hfields] at hknown
  have hlast : ∀ g ∈ (behind ++ [m.sumField]).map raw,
      value g.tag ≠ value (raw (tag, val)).tag := by
    intro g hg
    obtain ⟨f, hf, rfl⟩ := List.mem_map.mp hg
    rw [raw, raw, value_decimal, value_decimal]
    rcases List.mem_append.mp hf with hf | hf
    · exact hbehind f hf
    · rw [List.mem_singleton.mp hf]
      exact h10.symm
  obtain ⟨info, hinfo, hval⟩ := getField_encode ⟨p.fieldsSize, p.counter⟩ p.rgDictionary hknown
    hlast
  have hbytes := m.frame_bytes hw
  rw [hfields] at hbytes
  rw [← hbytes, raw, value_decimal] at hinfo
  refine ⟨info, encode ((behind ++ [m.sumField]).map raw) ++ beyond, hinfo, ?_⟩
  have hsplit : (m.frame hw).bytes ++ beyond = (encode front ++ decimal tag ++ [equal]) ++
      (val ++ soh :: (encode ((behind ++ [m.sumField]).map raw) ++ beyond)) := by
    rw [hbytes, encode_append, encode_cons, raw]
    simp
  have hpos : info.val = (encode front ++ decimal tag ++ [equal]).length := by
    rw [hval, raw]
    simp only [List.length_append, List.length_singleton]
  rw [hsplit, hpos, List.drop_left]

lemma bytesFrom_type (beyond : List Byte) : ∃ rest,
    bytesFrom ((m.frame hw).bytes ++ beyond) (m.frame hw).msgTypePos =
      some (m.msg.msgType :: soh :: rest) := by
  have hlen := (m.frame hw).fromType_length
  have hfrom : bytesFrom ((m.frame hw).bytes ++ beyond) (0 + (m.frame hw).msgTypePos) =
      some ((m.frame hw).bytes.drop (m.frame hw).msgTypePos ++ beyond) :=
    bytesFrom_inside (m.frame hw).msgTypePos (List.nil_append _).symm rfl (by omega)
  rw [zero_add, FixMessage.bytes_drop_type] at hfrom
  exact ⟨_, hfrom⟩

/-- The number of a field that the peer reads. -/
lemma getNumber_frame (ho : WellFormed o) {before behind : List Field} {tag n : ℕ}
    (hmore : m.outgoing.more = before ++ (tag, decimal n) :: behind)
    (hbehind : ∀ f ∈ behind, f.1 ≠ tag) (h10 : tag ≠ checksum) (hn : n < 2 ^ 64)
    (s : ReceiverSession) (beyond : List Byte) :
    getNumber ((m.frame hw).bytes ++ beyond)
      { s with sessionMsgsParser := s.sessionMsgsParser.parse (m.frame hw).bytes } tag =
        .ok n := by
  obtain ⟨info, rest, hget, hdrop⟩ := m.getField_frame hw ho hmore hbehind h10
    s.sessionMsgsParser beyond
  have hdigits : (decimal n ++ soh :: rest).takeWhile (fun b => IsDigit b) = decimal n :=
    ReceiverBounds.takeWhile_digits (fun b => isDigit_of_mem_decimal) rest
  simp only [getNumber, ReceiverSession.getField, hget, Option.map_some, hdrop]
  rw [ReceiverBounds.convertAtoll_of_soh (by simp), hdigits, value_decimal, ulong_of_lt hn]

end Sending

/-! ### What it does there -/

/-- What a session message is for: a Logon is noted, a TestRequest and a ResendRequest queue a
command for the answer, a gap fill stands for the numbers it skips. -/
def effect (msgSeq : List Byte) (junk : CmdBlock) (s : ReceiverSession) :
    SessionMsg → ReceiverSession
  | .logon => s.addState stateLogonRecv
  | .testRequest =>
    { s with cmds := s.cmds.addCmd (junk.fill (msgTypeHeartbeat :: msgSeq ++ [0])) }
  | .resendRequest first last =>
    { s with cmds := s.cmds.addCmd (sequenceResetCmd junk first last) }.addState stateRrRecv
  | .gapFill start newSeq => s.updateSeq start newSeq

/-- The message handed on has the number it was sent with and its effect, on any session and
whatever stands behind it in the memory. -/
def Understood (m : Sending o) (msg : RMessage) : Prop :=
  msg.seq = ulong (value (m.msg.number o m.msgSeq)) ∧
    ∀ (s : ReceiverSession) (junk : CmdBlock) (beyond : List Byte),
      processMsg s junk msg beyond = .ok (putMsgToAppQueue
        (effect m.msgSeq junk
          { s with sessionMsgsParser := s.sessionMsgsParser.parse msg.data } m.msg) msg)

section

variable (hw : o.maxBodyLengthSize ≤ 9) (m : Sending o)

lemma more_eq : m.outgoing.more =
    (o.headerOptions.map toField ++ typeFields o m.msgSeq [m.msg.msgType]) ++
      m.msg.app.map toField := rfl

/-- **The handler does what the message is for.** -/
lemma processSessionMsg_frame (ho : WellFormed o) (s : ReceiverSession) (junk : CmdBlock)
    (beyond : List Byte) :
    s.processSessionMsg junk (m.frame hw).received beyond =
      .ok (effect m.msgSeq junk
        { s with sessionMsgsParser := s.sessionMsgsParser.parse (m.frame hw).bytes } m.msg) := by
  have hmore := more_eq m
  obtain ⟨rest, htype⟩ := m.bytesFrom_type hw beyond
  have hproc : s.processSessionMsg junk (m.frame hw).received beyond =
      { s with sessionMsgsParser := s.sessionMsgsParser.parse (m.frame hw).bytes }.processMsg
        ((m.frame hw).bytes ++ beyond) junk (ulong (value (m.msg.number o m.msgSeq)))
        m.msg.msgType := by
    have hreceived : (m.frame hw).received = .new (m.frame hw).bytes (m.frame hw).msgTypePos
      (ulong (value (m.msg.number o m.msgSeq))) := rfl
    simp only [processSessionMsg, hreceived, RMessage.new, htype]
  have hnumbers := m.numbers
  rw [hproc]
  cases hmsg : m.msg with
  | logon => rfl
  | testRequest =>
    rw [hmsg] at hnumbers hmore
    have hid : m.outgoing.more = o.headerOptions.map toField ++ [(testRequestId, m.msgSeq)] := by
      rw [hmore, SessionMsg.app, List.map_nil, List.append_nil]
      rfl
    obtain ⟨info, rest, hget, hdrop⟩ := m.getField_frame hw ho hid (by simp) (by decide)
      s.sessionMsgsParser beyond
    have hsoh : soh ∉ m.msgSeq := soh_of_isDigit m.msgSeq_digits
    have hshort : m.msgSeq.length < cmdBlockSize - 1 := m.msgSeq_length ▸ hnumbers
    have htest : ∀ t : ReceiverSession, t.processMsg ((m.frame hw).bytes ++ beyond) junk
        (ulong (value (SessionMsg.number o m.msgSeq .testRequest))) msgTypeTestRequest =
          t.processMsgTestRequest ((m.frame hw).bytes ++ beyond) junk := fun _ => rfl
    rw [SessionMsg.msgType, htest, processMsgTestRequest, ReceiverSession.getField, hget,
      Option.map_some, hdrop, addHbCmd, hbCmd, copyId_eq hsoh, if_pos hshort]
    rfl
  | resendRequest first last =>
    rw [hmsg] at hnumbers hmore
    obtain ⟨hfirst, hlast⟩ := hnumbers
    have hfields : m.outgoing.more = o.headerOptions.map toField ++
        [(beginSeqNo, decimal first), (endSeqNo, decimal last)] := by
      rw [hmore]
      simp [SessionMsg.app, toField, typeFields, SessionMsg.msgType, msgTypeLogon,
        msgTypeTestRequest, msgTypeResendRequest]
    have hfields' : m.outgoing.more =
        (o.headerOptions.map toField ++ [(beginSeqNo, decimal first)]) ++
          [(endSeqNo, decimal last)] := by
      rw [hfields]
      simp
    have hbegin := m.getNumber_frame hw ho hfields (by simp [endSeqNo, beginSeqNo]) (by decide)
      (by omega) s beyond
    have hend := m.getNumber_frame hw ho hfields' (by simp) (by decide) (by omega) s beyond
    have hreq : ∀ t : ReceiverSession, t.processMsg ((m.frame hw).bytes ++ beyond) junk
        (ulong (value (SessionMsg.number o m.msgSeq (.resendRequest first last))))
          msgTypeResendRequest =
          t.processMsgResendRequest ((m.frame hw).bytes ++ beyond) junk := fun _ => rfl
    rw [SessionMsg.msgType, hreq, processMsgResendRequest, hbegin, hend]
    rfl
  | gapFill start newSeq =>
    rw [hmsg] at hnumbers hmore
    obtain ⟨hw1, hw18, hstart, hnew⟩ := hnumbers
    have hfields : m.outgoing.more =
        (o.headerOptions.map toField ++ [(gapFillFlag, [gapFillYes])]) ++
          [(newSeqNo, decimal newSeq)] := by
      rw [hmore]
      simp [SessionMsg.app, toField, typeFields, SessionMsg.msgType, msgTypeLogon,
        msgTypeTestRequest, msgTypeSequenceReset]
    have hnum := m.getNumber_frame hw ho hfields (by simp) (by decide) (by omega) s beyond
    have h18 : start < 10 ^ 18 := lt_of_lt_of_le hstart (Nat.pow_le_pow_right (by omega) hw18)
    have hseq : ulong (value (SessionMsg.number o m.msgSeq (.gapFill start newSeq))) = start := by
      rw [SessionMsg.number, value_padded_of_lt hstart, ulong_of_lt (by omega)]
    have hreset : ∀ (t : ReceiverSession) (seq : ℕ), t.processMsg ((m.frame hw).bytes ++ beyond)
        junk seq msgTypeSequenceReset =
          t.processMsgSequenceReset ((m.frame hw).bytes ++ beyond) seq := fun _ _ => rfl
    rw [SessionMsg.msgType, hseq, hreset, processMsgSequenceReset, hnum]
    rfl

lemma understood_frame (ho : WellFormed o) : Understood m (m.frame hw).received := by
  refine ⟨rfl, fun s junk beyond => ?_⟩
  obtain ⟨rest, htype⟩ := m.bytesFrom_type hw beyond
  have hsession : isSessionMsg (m.msg.msgType :: soh :: rest) = some true := by
    cases m.msg <;> rfl
  have hdata : (m.frame hw).received.data = (m.frame hw).bytes := rfl
  have hpos : (m.frame hw).received.msgTypePos = (m.frame hw).msgTypePos := rfl
  rw [processMsg, processSessionMsg_frame hw m ho, hdata, hpos, htype, Option.bind_some, hsession]
  rfl

end

/-! ### The whole way -/

lemma mapM_send (ho : WellFormed o) (hw : o.maxBodyLengthSize ≤ 9) (ms : List (Sending o)) :
    ∃ ws, ms.mapM Sending.send = some ws ∧
      ws.flatMap WMessage.data = stream (ms.map fun m => m.frame hw) := by
  induction ms with
  | nil => exact ⟨[], rfl, rfl⟩
  | cons m ms ih =>
    obtain ⟨w, hsend, hdata, -⟩ := m.send_eq hw ho
    obtain ⟨ws, hws, hstream⟩ := ih
    refine ⟨w :: ws, ?_, ?_⟩
    · rw [List.mapM_cons, hsend, hws]
      rfl
    · rw [List.flatMap_cons, hdata, hstream, List.map_cons, stream_cons]

/-- A stream that is received to its end is handed on message by message. -/
lemma recvAll_whole {n : ℕ} {r : Receiver} {msgs : List (FixMessage n)}
    {chunks : List (List Byte × List Byte)} (hempty : r.recvBufHead = r.recvBufTail)
    (hpos : 0 ≤ r.recvBufTail ∧ r.recvBufTail ≤ r.recvBuf.length) (hint : r.recvBufSize < 2 ^ 31)
    (hstale : ∀ c ∈ chunks, c.2 ≠ [])
    (hroom : r.recvBufTail + (stream msgs).length ≤ r.recvBufSize)
    (hcut : chunks.flatMap Prod.fst = stream msgs) :
    ∃ r' outs, Receiver.recvAll n r chunks = some (r', outs) ∧
      outs.flatMap Prod.fst = msgs.map FixMessage.received := by
  have hcut' : [] ++ chunks.flatMap Prod.fst ++ [] = stream msgs := by
    rw [List.nil_append, List.append_nil, hcut]
  obtain ⟨r', outs, done, todo, part, hall, hmsgs, hdata, houts, -, h⟩ :=
    recvAll_framed (framed_empty hempty hpos hroom hint) hcut' hstale
  have htodo : todo = [] := by
    rw [List.nil_append, hcut, hmsgs, stream_append, List.append_cancel_left_eq] at hdata
    exact h.unfinished.eq_nil hdata.symm
  rw [htodo, List.append_nil] at hmsgs
  exact ⟨r', outs, hall, by rw [houts, hmsgs]⟩

def number12 : List Byte := padded 10 12

/-- Messages `2` and `3` are asked for. -/
def askTwoThree : SessionMsg := .resendRequest 2 3

lemma askTwoThree_numbers : askTwoThree.Numbers optionsAB := by decide

lemma askTwoThree_fits : (encodeAll (bodyFields optionsAB [askTwoThree.msgType]
    (askTwoThree.number optionsAB number12) newYear
    (moreFields optionsAB number12 [askTwoThree.msgType] askTwoThree.app))).length <
      10 ^ optionsAB.maxBodyLengthSize := by decide +kernel

lemma askTwoThree_room : (encodeAll ((beginString, optionsAB.fixVersion) ::
    (bodyLength, zeros optionsAB.maxBodyLengthSize) :: bodyFields optionsAB [askTwoThree.msgType]
      (askTwoThree.number optionsAB number12) newYear
      (moreFields optionsAB number12 [askTwoThree.msgType] askTwoThree.app))).length +
        checksumSize ≤ bufSize := by decide +kernel

lemma number12_digits : ∀ b ∈ number12, IsDigit b := fun _ => isDigit_of_mem_padded

lemma number12_length : number12.length = optionsAB.maxMsgSeqSize := padded_length _ _

lemma newYear_soh : soh ∉ newYear := by decide

lemma newYear_length : newYear.length = sendingTimeSize := by decide

/-- The request is sent as message `12`. -/
def askMissing : Sending optionsAB where
  msg := askTwoThree
  msgSeq := number12
  utcTime := newYear
  msgSeq_digits := number12_digits
  msgSeq_length := number12_length
  utcTime_soh := newYear_soh
  utcTime_length := newYear_length
  numbers := askTwoThree_numbers
  fits := askTwoThree_fits
  room := askTwoThree_room

lemma optionsAB_bodyLength : optionsAB.maxBodyLengthSize ≤ 9 := by decide

def twoParts : List (List Byte × List Byte) :=
  [((askMissing.frame optionsAB_bodyLength).bytes.take 40, [7]),
    ((askMissing.frame optionsAB_bodyLength).bytes.drop 40, [7])]

lemma twoParts_stale : ∀ c ∈ twoParts, c.2 ≠ [] := by
  intro c hc
  simp only [twoParts, List.mem_cons, List.not_mem_nil, or_false] at hc
  rcases hc with rfl | rfl <;> exact List.cons_ne_nil _ _

lemma askMissing_length :
    (askMissing.frame optionsAB_bodyLength).bytes.length + 11 ≤ 256 := by decide +kernel

lemma twoParts_bytes :
    twoParts.flatMap Prod.fst = (askMissing.frame optionsAB_bodyLength).bytes := by
  simp [twoParts]

/-- What the next command of a ring comes to, with the bytes behind the ring whatever they are. -/
def NextCmd (o : SessionOption) (msgSeq utcTime : List Byte) (s : Cmds.State) (e : CmdEffect) :
    Prop :=
  ∀ mapped, maxCmds * cmdBlockSize ≤ mapped → ∃ cmd, s.ring.getNextCmd.2 = some cmd ∧
    sendCmd o msgSeq utcTime (ringFrom s.ring mapped cmd) = some e

section

variable {cmds : ℕ → Byte} {acts : List Cmds.Act} {s s' : Cmds.State}

lemma step_added {a : Cmds.Act} (h : Cmds.step s a = some s') : s.added <+: s'.added := by
  cases a with
  | addCmd cmd =>
    simp only [Cmds.step] at h
    split at h
    · cases h
    · cases h
      exact List.prefix_rfl
  | moveTail =>
    obtain ⟨cmd, -, rfl⟩ := Option.map_eq_some_iff.mp h
    exact List.prefix_append _ _
  | getNextCmd =>
    cases h
    exact List.prefix_rfl

lemma run_added (h : run Cmds.step s acts = some s') : s.added <+: s'.added := by
  induction acts generalizing s with
  | nil =>
    cases h
    exact List.prefix_rfl
  | cons a acts ih =>
    obtain ⟨t, ht, h⟩ := (run_cons_eq_some Cmds.step).mp h
    exact (step_added ht).trans (ih h)

lemma ring_of_next (hroom : Meets Cmds.step Cmds.HasRoom (Cmds.start cmds) acts)
    (hr : run Cmds.step (Cmds.start cmds) acts = some s) {block : CmdBlock}
    (hnext : s.added[s.returned.length]? = some block) {mapped : ℕ}
    (hmapped : maxCmds * cmdBlockSize ≤ mapped) :
    ∃ cmd behind, s.ring.getNextCmd.2 = some cmd ∧
      ringFrom s.ring mapped cmd = block.1 ++ behind := by
  obtain ⟨hget, hblock, hhead⟩ := Cmds.getNextCmd_of_waits hroom hr hnext
  have hinside : s.ring.head * cmdBlockSize + cmdBlockSize ≤ mapped := by
    have : (s.ring.head + 1) * cmdBlockSize ≤ maxCmds * cmdBlockSize :=
      Nat.mul_le_mul_right _ hhead
    rw [Nat.succ_mul] at this
    omega
  have hmem := ringFrom_block s.ring hinside
  rw [hblock] at hmem
  exact ⟨_, _, hget, hmem⟩

lemma nextCmd_resendRequest {o : SessionOption} (hroom : Meets Cmds.step Cmds.HasRoom
    (Cmds.start cmds) acts) (hr : run Cmds.step (Cmds.start cmds) acts = some s) {junk : CmdBlock}
    {first last : ℕ} (hfirst : first < 10 ^ 18) (hlast : last < 10 ^ 18)
    (hnext : s.added[s.returned.length]? = some (resendRequestCmd junk first last))
    {msgSeq utcTime : List Byte} {w : WMessage}
    (hsend : (SessionMsg.resendRequest first last).send o msgSeq utcTime = some w) :
    NextCmd o msgSeq utcTime s (.msg w) := by
  intro mapped hmapped
  obtain ⟨cmd, behind, hget, hmem⟩ := ring_of_next hroom hr hnext hmapped
  obtain ⟨rest, hblock⟩ := fill_numbers junk msgTypeResendRequest first last
  rw [resendRequestCmd, hblock, List.cons_append, List.append_assoc, List.append_assoc] at hmem
  obtain ⟨hhead, h1, h9⟩ := numbers_of_block hmem (by omega) (by omega)
  have hcmd : msgTypeResendRequest :: bytesOf 8 first ++ bytesOf 8 last =
      msgTypeResendRequest :: (bytesOf 8 first ++ (bytesOf 8 last ++ [])) := by simp
  obtain ⟨-, h1', h9'⟩ := numbers_of_block hcmd (by omega) (by omega)
  rw [SessionMsg.send, SessionMsg.sendResendRequest_eq h1' h9' hfirst hlast] at hsend
  refine ⟨cmd, hget, ?_⟩
  rw [sendCmd, hhead, Option.bind_some, if_neg (by decide), if_neg (by decide), if_pos rfl,
    SessionMsg.sendResendRequest_eq h1 h9 hfirst hlast, hsend]
  rfl

lemma nextCmd_sequenceReset (hroom : Meets Cmds.step Cmds.HasRoom (Cmds.start cmds) acts)
    (hr : run Cmds.step (Cmds.start cmds) acts = some s) {junk : CmdBlock} {first last : ℕ}
    (hfirst : first < 10 ^ 18) (hlast : last < 10 ^ 18)
    (hnext : s.added[s.returned.length]? = some (sequenceResetCmd junk first last))
    (o : SessionOption) (msgSeq utcTime : List Byte) :
    NextCmd o msgSeq utcTime s (.resend first last) := by
  intro mapped hmapped
  obtain ⟨cmd, behind, hget, hmem⟩ := ring_of_next hroom hr hnext hmapped
  obtain ⟨rest, hblock⟩ := fill_numbers junk msgTypeSequenceReset first last
  rw [sequenceResetCmd, hblock, List.cons_append, List.append_assoc, List.append_assoc] at hmem
  obtain ⟨hhead, h1, h9⟩ := numbers_of_block hmem (by omega) (by omega)
  refine ⟨cmd, hget, ?_⟩
  rw [sendCmd, hhead, Option.bind_some, if_neg (by decide), if_neg (by decide),
    if_neg (by decide), if_pos rfl, h1, h9]
  rfl

end

section

variable (s t : ReceiverSession) (add : ℕ)

@[simp] lemma addState_recvQueue : (s.addState add).recvQueue = s.recvQueue := by
  unfold addState
  split
  · rfl
  · split <;> rfl

@[simp] lemma addState_cmds : (s.addState add).cmds = s.cmds := by
  unfold addState
  split
  · rfl
  · split <;> rfl

variable {s t} in
lemma addState_state (h : s.state = t.state) : (s.addState add).state = (t.addState add).state := by
  have his : ∀ k, s.isState k = t.isState k := fun k => by rw [isState, isState, h]
  unfold addState
  rw [his, his]
  split
  · exact h
  · split
    · exact congrArg (· + add) h
    · exact h

end

/-- **A gap that is asked for is what is resent**: the numbers in the command of the requester
go over the wire, however it is cut, into a command of the peer, and when that is next there, the
peer resends from the first number to the last. The receive queue is left to the request itself. -/
theorem resendRequest_carried (ho : WellFormed o) (hw : o.maxBodyLengthSize ≤ 9) {first last : ℕ}
    (m : Sending o) (hmsg : m.msg = .resendRequest first last)
    {cmds : ℕ → Byte} {acts : List Cmds.Act} {s : Cmds.State} {junk : CmdBlock}
    (hroom : Meets Cmds.step Cmds.HasRoom (Cmds.start cmds) acts)
    (hr : run Cmds.step (Cmds.start cmds) acts = some s)
    (hnext : s.added[s.returned.length]? = some (resendRequestCmd junk first last))
    {r : Receiver} {chunks : List (List Byte × List Byte)} (hempty : r.recvBufHead = r.recvBufTail)
    (hpos : 0 ≤ r.recvBufTail ∧ r.recvBufTail ≤ r.recvBuf.length) (hint : r.recvBufSize < 2 ^ 31)
    (hstale : ∀ c ∈ chunks, c.2 ≠ []) {p : ReceiverSession} {cmds' : ℕ → Byte}
    {acts' : List Cmds.Act} {s' : Cmds.State}
    (hr' : run Cmds.step (Cmds.start cmds') acts' = some s') (hadding : s'.adding = none)
    (hring : p.cmds = s'.ring) (junk' : CmdBlock) (beyond : List Byte) :
    ∃ w, m.send = some w ∧ NextCmd o m.msgSeq m.utcTime s (.msg w) ∧
      (r.recvBufTail + w.data.length ≤ r.recvBufSize → chunks.flatMap Prod.fst = w.data →
        ∃ r' outs msg p' t, Receiver.recvAll o.fixVersion.length r chunks = some (r', outs) ∧
          outs.flatMap Prod.fst = [msg] ∧
          processMsg p junk' msg beyond = .ok (putMsgToAppQueue p' msg) ∧
          p'.recvQueue = p.recvQueue ∧ p'.state = (p.addState stateRrRecv).state ∧
          run Cmds.step s' [.addCmd (sequenceResetCmd junk' first last), .moveTail] = some t ∧
          p'.cmds = t.ring ∧
          ∀ later u, Meets Cmds.step Cmds.HasRoom (Cmds.start cmds')
              (acts' ++ [.addCmd (sequenceResetCmd junk' first last), .moveTail] ++ later) →
            run Cmds.step t later = some u → u.returned.length = s'.added.length →
              ∀ o' msgSeq' utcTime', NextCmd o' msgSeq' utcTime' u (.resend first last)) := by
  obtain ⟨w, hsend, hdata, -⟩ := m.send_eq hw ho
  have hnumbers := m.numbers
  rw [hmsg] at hnumbers
  obtain ⟨hfirst, hlast⟩ := hnumbers
  have hsend' : (SessionMsg.resendRequest first last).send o m.msgSeq m.utcTime = some w :=
    hmsg ▸ hsend
  refine ⟨w, hsend, nextCmd_resendRequest hroom hr hfirst hlast hnext hsend', fun hfit hcut => ?_⟩
  have hone : stream [m.frame hw] = w.data := by rw [stream_singleton, hdata]
  rw [← hone] at hfit hcut
  obtain ⟨r', outs, hall, houts⟩ := recvAll_whole hempty hpos hint hstale hfit hcut
  have hproc := (understood_frame hw m ho).2 p junk' beyond
  rw [hmsg] at hproc
  refine ⟨r', outs, _, _, { s' with
    ring := s'.ring.addCmd (sequenceResetCmd junk' first last)
    adding := none
    added := s'.added ++ [sequenceResetCmd junk' first last] }, hall, houts, hproc, ?_, ?_, ?_, ?_,
    fun later u hroom' hu hlength o' msgSeq' utcTime' => ?_⟩
  · exact addState_recvQueue _ _
  · exact addState_state _ rfl
  · rw [run_cons, Cmds.step, hadding]
    rfl
  · rw [effect, addState_cmds, hring]
  · have hrun : run Cmds.step (Cmds.start cmds') (acts' ++
        [.addCmd (sequenceResetCmd junk' first last), .moveTail] ++ later) = some u := by
      rw [run_append, run_append, hr', Option.bind_some, run_cons, Cmds.step, hadding]
      exact hu
    have hwaits : u.added[u.returned.length]? = some (sequenceResetCmd junk' first last) := by
      obtain ⟨more, hadded⟩ := run_added hu
      rw [hlength, ← hadded]
      simp
    exact nextCmd_sequenceReset hroom' hrun hfirst hlast hwaits o' msgSeq' utcTime'

/-- The request waits in the ring of one side, another command in that of the other. -/
theorem resendRequest_carried_askMissing :
    let s : Cmds.State := ⟨(Cmds.new fun _ => 0).addCmd (resendRequestCmd zeroBlock 2 3), none,
      [resendRequestCmd zeroBlock 2 3], []⟩
    let p := { idle with cmds := (Cmds.new fun _ => 0).addCmd zeroBlock }
    ∃ w r' outs msg p' t u, askMissing.send = some w ∧
      NextCmd optionsAB number12 newYear s (.msg w) ∧
      Receiver.recvAll 7 ⟨[], 2048, 0, 0⟩ twoParts = some (r', outs) ∧
      outs.flatMap Prod.fst = [msg] ∧
      processMsg p zeroBlock msg [] = .ok (putMsgToAppQueue p' msg) ∧
      p'.recvQueue = p.recvQueue ∧ p'.state = (p.addState stateRrRecv).state ∧ p'.cmds = t.ring ∧
      run Cmds.step t [.getNextCmd] = some u ∧ u.returned.length = 1 ∧
      NextCmd optionsAB number12 newYear u (.resend 2 3) := by
  intro s p
  obtain ⟨w, hsend, hnext, h⟩ := @resendRequest_carried optionsAB optionsAB_wellFormed
    optionsAB_bodyLength 2 3 askMissing rfl (fun _ => 0)
    [.addCmd (resendRequestCmd zeroBlock 2 3), .moveTail] s zeroBlock (by decide) rfl rfl
    ⟨[], 2048, 0, 0⟩ twoParts rfl (by decide) (by decide) twoParts_stale p (fun _ => 0)
    [.addCmd zeroBlock, .moveTail] ⟨(Cmds.new fun _ => 0).addCmd zeroBlock, none, [zeroBlock], []⟩
    rfl rfl rfl zeroBlock []
  obtain ⟨w', hsend', hdata, -⟩ := askMissing.send_eq optionsAB_bodyLength optionsAB_wellFormed
  cases hsend.symm.trans hsend'
  have hlength := askMissing_length
  have hfit : (0 : ℤ) + w.data.length ≤ 2048 := by
    rw [hdata]
    omega
  obtain ⟨r', outs, msg, p', t, hrecv, hout, hproc, hqueue, hstate, ht, hcmds, hlater⟩ :=
    h hfit (by rw [hdata, twoParts_bytes])
  cases ht
  refine ⟨w, r', outs, msg, p', _, _, hsend, hnext, hrecv, hout, hproc, hqueue, hstate, hcmds, rfl,
    rfl, ?_⟩
  exact hlater [.getNextCmd] _ (by decide) rfl rfl _ _ _

end Ufix.SessionExchange
