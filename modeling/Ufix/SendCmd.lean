import Ufix.HeaderLookup
import Ufix.Heartbeat
import Ufix.SlotBytes
import Ufix.Transfer

/-!
The session messages a sender composes: `send_logon`, `send_test_request`, `send_resend_request`,
the gap fill of `send_sequence_reset`, and `send_cmd`, which takes them from the ring of commands.

Every one is `get_msg`, its own fields and `finalize_msg` on a buffer of its own. Written with
the bytes of its numbers, it is a message that the peer cuts off and parses.
-/

namespace Ufix.SendCmd

open Ufix.Compose Ufix.Heartbeat Ufix.ReceiverSession Ufix.LittleEndian Ufix.TagValue Ufix.Decimal

def gapFillFlag : ℕ := 123

/-- `'Y'`. -/
def gapFillYes : Byte := 89

def inBuf (m : WMessage) : Option WMessage := if m.data.length ≤ bufSize then some m else none

/-- A `ULONG` read from memory. -/
def ulongAt (mem : List Byte) (pos : ℕ) : Option ℕ :=
  if pos + 8 ≤ mem.length then some (numberOf ((mem.drop pos).take 8)) else none

/-- The block of `add_resend_request`. -/
def resendRequestCmd (junk : CmdBlock) (beginSeqNo endSeqNo : ℕ) : CmdBlock :=
  junk.fill (msgTypeResendRequest :: bytesOf 8 beginSeqNo ++ bytesOf 8 endSeqNo)

/-- The block of `add_sequence_reset_cmd`. -/
def sequenceResetCmd (junk : CmdBlock) (beginSeqNo endSeqNo : ℕ) : CmdBlock :=
  junk.fill (msgTypeSequenceReset :: bytesOf 8 beginSeqNo ++ bytesOf 8 endSeqNo)

section

variable (o : SessionOption) (msgSeq utcTime : List Byte)

/-- `Session::finalize_msg(msg, seq, resend_flag)` without the flag. -/
def finalizeMsgSeq (seq : ℕ) (m : WMessage) : Option WMessage :=
  let p := calculateMsgsPositions o
  let add := getMsgTypeSize o m - 1
  (seqBuf o.maxMsgSeqSize seq).bind fun seqBuf =>
    m.finalizeNew (p.msgSeqPos + add).toNat seqBuf (p.sendingTimePos + add).toNat utcTime

def sendLogon : Option WMessage := do
  let m ← getMsg o msgSeq .new [msgTypeLogon]
  let m ← finalizeMsg o msgSeq utcTime m
  inBuf m

def sendTestRequest : Option WMessage := do
  let m ← getMsg o msgSeq .new [msgTypeTestRequest]
  let m ← finalizeMsg o msgSeq utcTime m
  inBuf m

def sendResendRequest (cmd : List Byte) : Option WMessage :=
  (ulongAt cmd 1).bind fun first => (ulongAt cmd 9).bind fun last => do
    let m ← getMsg o msgSeq .new [msgTypeResendRequest]
    let m ← m.setFieldUlong beginSeqNo first
    let m ← m.setFieldUlong endSeqNo last
    let m ← finalizeMsg o msgSeq utcTime m
    inBuf m

/-- `send_sequence_reset(start, end)`. -/
def sendGapFill (start newSeq : ℕ) : Option WMessage := do
  let m ← getMsg o msgSeq .new [msgTypeSequenceReset]
  let m ← m.setFieldChar gapFillFlag gapFillYes
  let m ← m.setFieldUlong newSeqNo newSeq
  let m ← finalizeMsgSeq o utcTime start m
  inBuf m

/-- What `send_cmd` comes to: a message for the socket, the loop of `send_sequence_reset(cmd)`
with its two numbers, or a warning. -/
inductive CmdEffect
  | msg (m : WMessage)
  | resend (beginSeqNo endSeqNo : ℕ)
  | notSupported

/-- `send_cmd` on the memory from the command on. -/
def sendCmd (cmd : List Byte) : Option CmdEffect :=
  cmd.head?.bind fun cmdType =>
    if cmdType = msgTypeHeartbeat then (sendHeartbeat o msgSeq utcTime cmd).map .msg
    else if cmdType = msgTypeTestRequest then (sendTestRequest o msgSeq utcTime).map .msg
    else if cmdType = msgTypeResendRequest then (sendResendRequest o msgSeq utcTime cmd).map .msg
    else if cmdType = msgTypeSequenceReset then
      (ulongAt cmd 1).bind fun first => (ulongAt cmd 9).map fun last => .resend first last
    else some .notSupported

end

/-! ### The numbers of a block -/

lemma ulongAt_append (pre rest : List Byte) {mem : List Byte} {n pos : ℕ} (hn : n < 2 ^ 64)
    (hpos : pos = pre.length) (hmem : mem = pre ++ (bytesOf 8 n ++ rest)) :
    ulongAt mem pos = some n := by
  subst hpos hmem
  have hlen : (bytesOf 8 n).length = 8 := bytesOf_length 8 n
  rw [ulongAt, if_pos (by simp only [List.length_append, hlen]; omega), List.drop_left,
    List.take_left' hlen, numberOf_bytesOf_of_lt (by simpa using hn)]

lemma fill_numbers (junk : CmdBlock) (type : Byte) (first last : ℕ) :
    ∃ rest, (junk.fill (type :: bytesOf 8 first ++ bytesOf 8 last)).1 =
      type :: (bytesOf 8 first ++ (bytesOf 8 last ++ rest)) := by
  have hlen : (type :: bytesOf 8 first ++ bytesOf 8 last).length = 17 := by simp
  refine ⟨(junk.1.drop 17).take 15, ?_⟩
  have hfill : (junk.fill (type :: bytesOf 8 first ++ bytesOf 8 last)).1 =
      ((type :: bytesOf 8 first ++ bytesOf 8 last) ++ junk.1.drop 17).take (17 + 15) := by
    rw [← hlen]
    rfl
  rw [hfill, ← hlen, List.take_length_add_append]
  simp

lemma numbers_of_block {cmd : List Byte} {type : Byte} {first last : ℕ} {rest : List Byte}
    (hcmd : cmd = type :: (bytesOf 8 first ++ (bytesOf 8 last ++ rest))) (hfirst : first < 2 ^ 64)
    (hlast : last < 2 ^ 64) :
    cmd.head? = some type ∧ ulongAt cmd 1 = some first ∧ ulongAt cmd 9 = some last := by
  refine ⟨by rw [hcmd]; rfl, ?_, ?_⟩
  · exact ulongAt_append [type] _ hfirst rfl (by rw [hcmd]; rfl)
  · exact ulongAt_append (type :: bytesOf 8 first) rest hlast (by simp) (by rw [hcmd]; simp)

/-! ### The messages are composed ones -/

inductive SessionMsg
  | logon
  | testRequest
  | resendRequest (first last : ℕ)
  | gapFill (start newSeq : ℕ)
  deriving DecidableEq, Repr

namespace SessionMsg

def msgType : SessionMsg → Byte
  | .logon => msgTypeLogon
  | .testRequest => msgTypeTestRequest
  | .resendRequest _ _ => msgTypeResendRequest
  | .gapFill _ _ => msgTypeSequenceReset

/-- The fields behind those of `get_msg`. -/
def app : SessionMsg → List (ℤ × List Byte)
  | .logon | .testRequest => []
  | .resendRequest first last => [(beginSeqNo, decimal first), (endSeqNo, decimal last)]
  | .gapFill _ newSeq => [(gapFillFlag, [gapFillYes]), (newSeqNo, decimal newSeq)]

variable (o : SessionOption) (msgSeq utcTime : List Byte)

def number : SessionMsg → List Byte
  | .gapFill start _ => padded o.maxMsgSeqSize start
  | _ => msgSeq

/-- What the sender does for it; the command of a resend request holds its numbers. -/
def send : SessionMsg → Option WMessage
  | .logon => sendLogon o msgSeq utcTime
  | .testRequest => sendTestRequest o msgSeq utcTime
  | .resendRequest first last =>
    sendResendRequest o msgSeq utcTime (msgTypeResendRequest :: bytesOf 8 first ++ bytesOf 8 last)
  | .gapFill start newSeq => sendGapFill o msgSeq utcTime start newSeq

/-- The numbers have room in their fields, and the identifier of a TestRequest in the command of
its answer. -/
def Numbers : SessionMsg → Prop
  | .logon => True
  | .testRequest => o.maxMsgSeqSize < cmdBlockSize - 1
  | .resendRequest first last => first < 10 ^ 18 ∧ last < 10 ^ 18
  | .gapFill start newSeq => 1 ≤ o.maxMsgSeqSize ∧ o.maxMsgSeqSize ≤ 18 ∧
      start < 10 ^ o.maxMsgSeqSize ∧ newSeq < 10 ^ 18

instance : DecidablePred (Numbers o) := fun m => by
  cases m <;> unfold Numbers <;> infer_instance

variable {o msgSeq utcTime} {m : SessionMsg}

lemma app_tag (m : SessionMsg) : ∀ f ∈ m.app, IsTag f.1 := by
  cases m <;> simp [app, IsTag, beginSeqNo, endSeqNo, gapFillFlag, newSeqNo]

lemma app_readable (m : SessionMsg) : ∀ f ∈ m.app, IsTag f.1 ∧ soh ∉ f.2 := by
  have hdec : ∀ n, soh ∉ decimal n := fun n h => absurd (isDigit_of_mem_decimal h) (by decide)
  intro f hf
  refine ⟨m.app_tag f hf, ?_⟩
  cases m with
  | logon | testRequest => cases hf
  | resendRequest first last =>
    simp only [app, List.mem_cons, List.not_mem_nil, or_false] at hf
    rcases hf with rfl | rfl <;> exact hdec _
  | gapFill start newSeq =>
    simp only [app, List.mem_cons, List.not_mem_nil, or_false] at hf
    rcases hf with rfl | rfl
    · decide
    · exact hdec _

lemma number_digits (hseq : ∀ b ∈ msgSeq, IsDigit b) (m : SessionMsg) :
    ∀ b ∈ m.number o msgSeq, IsDigit b := by
  cases m with
  | gapFill start newSeq => exact fun b hb => isDigit_of_mem_padded hb
  | _ => exact hseq

lemma number_length (hsize : msgSeq.length = o.maxMsgSeqSize) (m : SessionMsg) :
    (m.number o msgSeq).length = o.maxMsgSeqSize := by
  cases m with
  | gapFill start newSeq => exact padded_length _ _
  | _ => exact hsize

lemma setFieldUlong_eq (w : WMessage) {tag n : ℕ} (htag : tag < 2 ^ 15) (hn : n < 10 ^ 18) :
    w.setFieldUlong tag n = w.setField tag (decimal n) := by
  rw [WMessage.setFieldUlong, WMessage.setFieldLong, bmod_of_lt (by omega),
    WMessage.setTag_natCast w htag, convertLtoa_of_lt hn, WMessage.setField,
    WMessage.setTag_natCast w htag]
  rfl

lemma finalizeMsgSeq_eq (w : WMessage) {seq : ℕ} (hw : 1 ≤ o.maxMsgSeqSize)
    (hw' : o.maxMsgSeqSize ≤ 18) (hseq : seq < 10 ^ o.maxMsgSeqSize)
    (hadd : getMsgTypeSize o w = 1) :
    finalizeMsgSeq o utcTime seq w = finalizeMsg o (padded o.maxMsgSeqSize seq) utcTime w := by
  simp only [finalizeMsgSeq, finalizeMsg, seqBuf_of_lt hw hw' hseq, hadd, Option.bind_some]
  rfl

lemma getMsgTypeSize_draft (ho : WellFormed o) {msgType : Byte} (hty : Clean [msgType])
    (more : List Field) : getMsgTypeSize o (drafted o [msgType] more) = 1 :=
  getMsgTypeSize_eq ho hty (zeros_length _) (drafted_data _ _)

lemma sendResendRequest_eq {cmd : List Byte} {first last : ℕ} (h1 : ulongAt cmd 1 = some first)
    (h9 : ulongAt cmd 9 = some last) (hfirst : first < 10 ^ 18) (hlast : last < 10 ^ 18) :
    sendResendRequest o msgSeq utcTime cmd =
      (compose o msgSeq [msgTypeResendRequest]
        [(beginSeqNo, decimal first), (endSeqNo, decimal last)] false msgSeq utcTime).bind
          inBuf := by
  have hbegin : ∀ w : WMessage, w.setFieldUlong beginSeqNo first =
      w.setField beginSeqNo (decimal first) := fun w => setFieldUlong_eq w (by decide) hfirst
  have hend : ∀ w : WMessage, w.setFieldUlong endSeqNo last =
      w.setField endSeqNo (decimal last) := fun w => setFieldUlong_eq w (by decide) hlast
  rw [sendResendRequest, h1, Option.bind_some, h9, Option.bind_some]
  simp only [compose, hbegin, hend, WMessage.setFields, List.foldlM_cons, List.foldlM_nil,
    Option.bind_eq_bind, Option.bind_assoc, Option.bind_some, Option.pure_def, Bool.false_eq_true,
    if_false]

lemma sendGapFill_eq (ho : WellFormed o) {start newSeq : ℕ} (hw : 1 ≤ o.maxMsgSeqSize)
    (hw' : o.maxMsgSeqSize ≤ 18) (hstart : start < 10 ^ o.maxMsgSeqSize)
    (hnew : newSeq < 10 ^ 18) :
    sendGapFill o msgSeq utcTime start newSeq =
      (compose o msgSeq [msgTypeSequenceReset]
        [(gapFillFlag, [gapFillYes]), (newSeqNo, decimal newSeq)] false
        (padded o.maxMsgSeqSize start) utcTime).bind inBuf := by
  have hty : Clean [msgTypeSequenceReset] := by decide
  obtain ⟨w, hget, hset⟩ := getMsg_setFields ho msgSeq hty (app_tag (.gapFill start newSeq))
  have hchar : ∀ w : WMessage, w.setFieldChar gapFillFlag gapFillYes =
      w.setField gapFillFlag [gapFillYes] := fun w => rfl
  have hnum : ∀ w : WMessage, w.setFieldUlong newSeqNo newSeq =
      w.setField newSeqNo (decimal newSeq) := fun w => setFieldUlong_eq w (by decide) hnew
  have hboth : ((w.setFieldChar gapFillFlag gapFillYes).bind fun w =>
      w.setFieldUlong newSeqNo newSeq) = w.setFields (app (.gapFill start newSeq)) := by
    simp only [app, WMessage.setFields, List.foldlM_cons, List.foldlM_nil, hchar, hnum,
      Option.bind_eq_bind, Option.pure_def, Option.bind_fun_some]
  rw [app] at hset hboth
  simp only [sendGapFill, compose, Option.bind_eq_bind, Bool.false_eq_true, if_false]
  rw [hget, Option.bind_some, Option.bind_some, ← Option.bind_assoc, hboth, hset, Option.bind_some,
    Option.bind_some, Option.bind_some,
    finalizeMsgSeq_eq _ hw hw' hstart (getMsgTypeSize_draft ho hty _)]

/-- **Every session message is composed** of its type and its fields. -/
lemma send_eq_compose (ho : WellFormed o) (hm : m.Numbers o) :
    m.send o msgSeq utcTime =
      (compose o msgSeq [m.msgType] m.app false (m.number o msgSeq) utcTime).bind inBuf := by
  cases m with
  | logon | testRequest =>
    simp only [send, sendLogon, sendTestRequest, compose, app, msgType, number, WMessage.setFields,
      List.foldlM_nil, Option.bind_eq_bind, Option.bind_assoc, Option.bind_some, Option.pure_def,
      Bool.false_eq_true, if_false]
  | resendRequest first last =>
    obtain ⟨hfirst, hlast⟩ := hm
    have hcmd : msgTypeResendRequest :: bytesOf 8 first ++ bytesOf 8 last =
        msgTypeResendRequest :: (bytesOf 8 first ++ (bytesOf 8 last ++ [])) := by simp
    obtain ⟨-, h1, h9⟩ := numbers_of_block hcmd (by omega) (by omega)
    exact sendResendRequest_eq h1 h9 hfirst hlast
  | gapFill start newSeq =>
    obtain ⟨hw, hw', hstart, hnew⟩ := hm
    exact sendGapFill_eq ho hw hw' hstart hnew

end SessionMsg

end Ufix.SendCmd
