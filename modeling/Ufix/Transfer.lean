import Ufix.Compose
import Ufix.Framing

/-!
From one side to the other: each message a session composes is one that the receiver of its peer
frames, with its bytes and its number.
-/

namespace Ufix.Transfer

open Ufix.Decimal Ufix.TagValue Ufix.Compose Ufix.Framing

/-- A message to be sent: its type and the application's fields, the numbers the session has at
`get_msg` and at `finalize_msg`, the time, and whether the trailer is added early. -/
structure Outgoing (o : SessionOption) where
  msgType : List Byte
  app : List (ℤ × List Byte)
  msgSeq₀ : List Byte
  msgSeq : List Byte
  utcTime : List Byte
  early : Bool
  msgType_ne : msgType ≠ []
  msgType_clean : Clean msgType
  msgType_equal : equal ∉ msgType
  app_tag : ∀ f ∈ app, IsTag f.1
  msgSeq_digits : ∀ b ∈ msgSeq, IsDigit b
  msgSeq_length : msgSeq.length = o.maxMsgSeqSize
  utcTime_length : utcTime.length = sendingTimeSize
  fits : (encodeAll (bodyFields o msgType msgSeq utcTime
    (moreFields o msgSeq₀ msgType app))).length < 10 ^ o.maxBodyLengthSize

namespace Outgoing

variable {o : SessionOption} (m : Outgoing o)

def more : List Field := moreFields o m.msgSeq₀ m.msgType m.app

def body : List Field := bodyFields o m.msgType m.msgSeq m.utcTime m.more

def afterSeq : List Field := m.body.drop 2

def head : List Byte :=
  encodeAll ((beginString, o.fixVersion) ::
    (bodyLength, padded o.maxBodyLengthSize (encodeAll m.body).length) :: m.body)

def send : Option WMessage := compose o m.msgSeq₀ m.msgType m.app m.early m.msgSeq m.utcTime

lemma encodeAll_body : encodeAll m.body =
    [51, 53, 61] ++ m.msgType ++ soh :: [] ++ seqPattern ++ m.msgSeq ++
      soh :: encodeAll m.afterSeq := by
  have h35 : decimal msgTypeTag = [51, 53] := by decide
  have h34 : decimal msgSeqNum = [51, 52] := by decide
  simp [afterSeq, body, bodyFields, encodeAll_cons, encode, h35, h34, seqPattern, equal,
    endOfField, soh]

def frame (hw : o.maxBodyLengthSize ≤ 9) : FixMessage o.fixVersion.length where
  version := o.fixVersion
  bodyLen := padded o.maxBodyLengthSize (encodeAll m.body).length
  msgType := m.msgType
  fields := []
  seq := m.msgSeq
  after := encodeAll m.afterSeq
  sum := padded 3 (byteSum m.head % 256)
  version_length := rfl
  bodyLen_digits := fun _ => isDigit_of_mem_padded
  bodyLen_length := by
    rw [padded_length]
    exact ⟨one_le_of_fits m.fits, hw⟩
  msgType_equal := m.msgType_equal
  fields_whole := fields_whole_nil
  fields_noSeq := fields_noSeq_nil
  seq_digits := m.msgSeq_digits
  sum_length := padded_length _ _
  bodyLen_value := by
    have hfits : (encodeAll m.body).length < 10 ^ o.maxBodyLengthSize := m.fits
    rw [value_padded_of_lt hfits, encodeAll_body]

lemma frame_bytes (hw : o.maxBodyLengthSize ≤ 9) :
    (m.frame hw).bytes = m.head ++ trailer m.head := by
  have h8 : decimal beginString = [56] := by decide
  have h9 : decimal bodyLength = [57] := by decide
  have h10 : decimal checksum = [49, 48] := by decide
  have hbody := m.encodeAll_body
  have hhead : m.head = [56, 61] ++ o.fixVersion ++ soh :: ([57, 61] ++
      padded o.maxBodyLengthSize (encodeAll m.body).length ++ soh :: encodeAll m.body) := by
    simp [head, encodeAll_cons, encode, h8, h9, equal, endOfField, soh]
  rw [trailer_eq, h10]
  generalize hs : padded 3 (byteSum m.head % 256) = s
  rw [hhead, hbody]
  simp [frame, FixMessage.bytes, FixMessage.fromLength, FixMessage.fromType, hs, hbody, equal]

lemma send_eq (ho : WellFormed o) (hw : o.maxBodyLengthSize ≤ 9) :
    ∃ w, m.send = some w ∧ w.data = (m.frame hw).bytes ∧ w.seq = ulong (value m.msgSeq) := by
  obtain ⟨w, hsend, hdata, hseq⟩ := compose_eq ho m.msgType_ne m.msgType_clean m.app_tag
    m.msgSeq_length m.utcTime_length rfl m.fits m.early rfl
  refine ⟨w, hsend, ?_, ?_⟩
  · rw [frame_bytes]
    exact hdata
  · rw [hseq, convertAtollLen, foldl_ulongDigit m.msgSeq_digits]

end Outgoing

variable {o : SessionOption}

def sent (w : WMessage) : List Byte × ℕ := (w.data, w.seq)
def received (m : RMessage) : List Byte × ℕ := (m.data, m.seq)

lemma mapM_send (ho : WellFormed o) (hw : o.maxBodyLengthSize ≤ 9) (ms : List (Outgoing o)) :
    ∃ ws, ms.mapM Outgoing.send = some ws ∧
      ws.flatMap WMessage.data = stream (ms.map fun m => m.frame hw) ∧
      ws.map sent = ((ms.map fun m => m.frame hw).map FixMessage.received).map received := by
  induction ms with
  | nil => exact ⟨[], rfl, rfl, rfl⟩
  | cons m ms ih =>
    obtain ⟨w, hsend, hdata, hseq⟩ := m.send_eq ho hw
    obtain ⟨ws, hws, hstream, hsent⟩ := ih
    refine ⟨w :: ws, ?_, ?_, ?_⟩
    · rw [List.mapM_cons, hsend, hws]
      rfl
    · rw [List.flatMap_cons, hdata, hstream, List.map_cons, stream_cons]
    · rw [List.map_cons, hsent, sent, hdata, hseq]
      rfl

lemma data_of_sent {n : ℕ} {ws : List WMessage} {ms : List (FixMessage n)}
    (h : ws.map sent = (ms.map FixMessage.received).map received) :
    ws.map WMessage.data = ms.map FixMessage.bytes := by
  have hfst := congrArg (List.map Prod.fst) h
  simp only [List.map_map] at hfst ⊢
  exact hfst

end Ufix.Transfer
