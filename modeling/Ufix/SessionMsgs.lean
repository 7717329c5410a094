import Ufix.Cmds
import Ufix.Compose
import Ufix.FieldTable
import Ufix.LittleEndian
import Ufix.Receiver

/-!
What the receiver does with a session message: `process_session_msg` and its handlers, with the
commands they queue.

A message is parsed as far as it can be, and then the handler of its type asks for the fields it
needs. Pointers are positions in the memory from the message on, of which the data of the message
is the front.
-/

namespace Ufix

open Ufix.FieldTags Ufix.FieldTable

def beginSeqNo : ℕ := 7
def endSeqNo : ℕ := 16
def newSeqNo : ℕ := 36

/-- `'0'`, `'2'` and `'4'`. -/
def msgTypeHeartbeat : Byte := 48
def msgTypeResendRequest : Byte := 50
def msgTypeSequenceReset : Byte := 52

def stateConnected : ℕ := 1
def stateLogonRecv : ℕ := 4
def stateRrRecv : ℕ := 8

/-- A read that cannot be: through a null pointer, or outside the memory. -/
inductive Fault
  | null
  | outside
  deriving DecidableEq

/-- A parser for session messages: it has a full table and no dictionary, and no entry of it is
from a later message than the last one. -/
structure SessionMsgsParser where
  parser : FieldsParser
  fieldsSize : parser.fieldsSize = maxFixTag
  rgDictionary : parser.rgDictionary = none
  counter : ∀ i, (parser.fields i).counter ≤ parser.counter

namespace SessionMsgsParser

def new : SessionMsgsParser := ⟨.new maxFixTag, rfl, rfl, fun _ => le_rfl⟩

/-- `RMessage::parse`, whose result is not looked at. -/
def parse (p : SessionMsgsParser) (data : List Byte) : SessionMsgsParser where
  parser := (p.parser.parse data).1
  fieldsSize := by
    rw [parse_eq_foldl, foldl_record_fieldsSize]
    exact p.fieldsSize
  rgDictionary := by
    rw [parse_eq_foldl, foldl_record_rgDictionary]
    exact p.rgDictionary
  counter := parse_counter p.counter data

end SessionMsgsParser

structure ReceiverSession where
  sessionMsgsParser : SessionMsgsParser
  recvQueue : RecvQueue
  cmds : Cmds
  state : ℕ

namespace ReceiverSession

/-! ### The state bits and the commands -/

def isState (s : ReceiverSession) (stateToCheck : ℕ) : Bool :=
  s.state % (2 * stateToCheck) ≥ stateToCheck

def addState (s : ReceiverSession) (add : ℕ) : ReceiverSession :=
  if s.isState add then s
  else if add = stateConnected ∨ add = stateRrRecv ∨ s.isState stateConnected then
    { s with state := s.state + add }
  else s

/-- The loop of `add_hb_cmd` over the identifier, with room for `n` bytes. -/
def copyId : ℕ → List Byte → Except Fault (List Byte)
  | 0, _ => .ok []
  | _ + 1, [] => .error .outside
  | n + 1, b :: id => if b ≠ soh then (copyId n id).map (b :: ·) else .ok [0]

/-- The block of `add_hb_cmd`, which may be called without an identifier. -/
def hbCmd (junk : CmdBlock) : Option (List Byte) → Except Fault CmdBlock
  | none => .ok (junk.fill [msgTypeHeartbeat, 0])
  | some id => (copyId (cmdBlockSize - 1) id).map fun text => junk.fill (msgTypeHeartbeat :: text)

/-- Blocks are local variables: what is not written to them is what the stack held. -/
def addHbCmd (s : ReceiverSession) (junk : CmdBlock) (id : Option (List Byte)) :
    Except Fault ReceiverSession :=
  (hbCmd junk id).map fun cmd => { s with cmds := s.cmds.addCmd cmd }

def addSequenceResetCmd (s : ReceiverSession) (junk : CmdBlock) (first last : ℕ) :
    ReceiverSession :=
  { s with cmds := s.cmds.addCmd (junk.fill (msgTypeSequenceReset ::
      LittleEndian.bytesOf 8 first ++ LittleEndian.bytesOf 8 last)) }

def updateSeq (s : ReceiverSession) (currentSeqNo newSeqNo : ℕ) : ReceiverSession :=
  { s with recvQueue := s.recvQueue.updateSeq currentSeqNo newSeqNo }

/-! ### The handlers -/

variable (mem : List Byte)

/-- `RMessage::get_field`, with the memory from the value on; the parser is that of the session. -/
def getField (s : ReceiverSession) (tag : ℤ) : Option (List Byte) :=
  (s.sessionMsgsParser.parser.getField tag).map fun info => mem.drop info.val

/-- `convert_atoll` on what `get_field` gives. -/
def getNumber (s : ReceiverSession) (tag : ℤ) : Except Fault ℕ :=
  match s.getField mem tag with
  | none => .error .null
  | some val =>
    match convertAtoll val with
    | none => .error .outside
    | some number => .ok number

def processMsgTestRequest (s : ReceiverSession) (junk : CmdBlock) : Except Fault ReceiverSession :=
  s.addHbCmd junk (s.getField mem Compose.testRequestId)

def processMsgResendRequest (s : ReceiverSession) (junk : CmdBlock) :
    Except Fault ReceiverSession := do
  let first ← s.getNumber mem beginSeqNo
  let last ← s.getNumber mem endSeqNo
  .ok ((s.addSequenceResetCmd junk first last).addState stateRrRecv)

def processMsgSequenceReset (s : ReceiverSession) (currentSeq : ℕ) :
    Except Fault ReceiverSession := do
  let number ← s.getNumber mem newSeqNo
  .ok (s.updateSeq currentSeq number)

/-- The handlers of the other types do nothing. -/
def processMsg (s : ReceiverSession) (junk : CmdBlock) (seq : ℕ) (msgType : Byte) :
    Except Fault ReceiverSession :=
  if msgType = Compose.msgTypeTestRequest then s.processMsgTestRequest mem junk
  else if msgType = msgTypeResendRequest then s.processMsgResendRequest mem junk
  else if msgType = msgTypeSequenceReset then s.processMsgSequenceReset mem seq
  else if msgType = Compose.msgTypeLogon then .ok (s.addState stateLogonRecv)
  else .ok s

/-- `process_session_msg` on a message with `beyond` behind it in the memory. -/
def processSessionMsg (s : ReceiverSession) (junk : CmdBlock) (m : RMessage)
    (beyond : List Byte) : Except Fault ReceiverSession :=
  let s := { s with sessionMsgsParser := s.sessionMsgsParser.parse m.data }
  match bytesFrom (m.data ++ beyond) m.msgTypePos with
  | some (msgType :: _) => s.processMsg (m.data ++ beyond) junk m.seq msgType
  | _ => .error .outside

/-! ### What a handler needs -/

def requiredTags (msgType : Byte) : List ℕ :=
  if msgType = msgTypeResendRequest then [beginSeqNo, endSeqNo]
  else if msgType = msgTypeSequenceReset then [newSeqNo]
  else []

/-- Among the fields up to the first whose tag cannot be read, the last one that goes to the entry
of the tag has this tag. -/
def Found (data : List Byte) (tag : ℕ) : Prop :=
  (((fieldTags data).takeWhile (· ≠ 0)).filter fun t => t.tmod maxFixTag = (tag : ℤ)).getLast? =
    some (tag : ℤ)

instance (data : List Byte) : DecidablePred (Found data) := fun _ =>
  inferInstanceAs (Decidable (_ = _))

/-- The message does no harm: nothing is read through a null pointer, and when a field that is
needed is absent, the queue, the commands and the state bits stay. -/
def Harmless (s : ReceiverSession) (junk : CmdBlock) (m : RMessage) (beyond : List Byte)
    (msgType : Byte) : Prop :=
  s.processSessionMsg junk m beyond ≠ .error .null ∧
    ((∃ t ∈ requiredTags msgType, (s.sessionMsgsParser.parse m.data).parser.getField t = none) →
      ∃ s', s.processSessionMsg junk m beyond = .ok s' ∧ s'.recvQueue = s.recvQueue ∧
        s'.cmds = s.cmds ∧ s'.state = s.state)

lemma topTags_none (tags : List ℤ) : topTags none none tags = tags.takeWhile (· ≠ 0) := by
  induction tags with
  | nil => rfl
  | cons tag tags ih =>
    rw [topTags_out (inGroup_none tag)]
    by_cases h : tag = 0
    · rw [if_pos h, List.takeWhile_cons_of_neg (by simpa using h)]
    · rw [if_neg h, List.takeWhile_cons_of_pos (by simpa using h), ← ih]
      rfl

lemma getField_isSome_iff (p : SessionMsgsParser) (data : List Byte) {tag : ℕ}
    (ht : tag < maxFixTag) : ((p.parse data).parser.getField tag).isSome ↔ Found data tag := by
  have hindex : (tag : ℤ).tmod p.parser.fieldsSize = tag :=
    FieldGrammar.tmod_fieldsSize p.fieldsSize ht
  have htags : ((storedAt maxFixTag (visits none data) tag).map Visit.tag) =
      ((fieldTags data).takeWhile (· ≠ 0)).filter fun t => t.tmod maxFixTag = (tag : ℤ) := by
    rw [← topTags_none, ← visits_tags, storedAt, List.filter_map]
    rfl
  have hget := getField_parse p.counter data tag
  rw [hindex, p.fieldsSize, p.rgDictionary] at hget
  have hparse : (p.parse data).parser = (p.parser.parse data).1 := rfl
  rw [hparse, hget, Option.isSome_map, Found, ← htags, List.getLast?_map]
  cases (storedAt maxFixTag (visits none data) tag).getLast? with
  | none => simp
  | some v => by_cases h : v.tag = tag <;> simp [h]

lemma getNumber_eq_null_iff (s : ReceiverSession) (tag : ℤ) :
    s.getNumber mem tag = .error .null ↔ s.sessionMsgsParser.parser.getField tag = none := by
  unfold getNumber getField
  cases s.sessionMsgsParser.parser.getField tag with
  | none => simp
  | some info =>
    simp only [Option.map_some, reduceCtorEq, iff_false]
    cases convertAtoll (mem.drop info.val) <;> simp

/-- Without a field that it needs, a handler has no result. -/
lemma processMsg_of_absent {s : ReceiverSession} {junk : CmdBlock} {seq : ℕ} {msgType : Byte}
    {t : ℕ} (ht : t ∈ requiredTags msgType)
    (hnone : s.sessionMsgsParser.parser.getField t = none) (s' : ReceiverSession) :
    s.processMsg mem junk seq msgType ≠ .ok s' := by
  have hnull := (getNumber_eq_null_iff mem s t).mpr hnone
  unfold requiredTags at ht
  split at ht
  · next h =>
    subst h
    have hproc : s.processMsg mem junk seq msgTypeResendRequest =
      s.processMsgResendRequest mem junk := rfl
    rw [hproc, processMsgResendRequest]
    simp only [List.mem_cons, List.not_mem_nil, or_false] at ht
    rcases ht with rfl | rfl
    · rw [hnull]
      intro h
      cases h
    · cases s.getNumber mem beginSeqNo with
      | error e => intro h; cases h
      | ok first =>
        simp only [hnull]
        intro h
        cases h
  · split at ht
    · next h =>
      subst h
      have hproc : s.processMsg mem junk seq msgTypeSequenceReset =
        s.processMsgSequenceReset mem seq := rfl
      rw [List.mem_singleton.mp ht] at hnull
      rw [hproc, processMsgSequenceReset, hnull]
      intro h
      cases h
    · cases ht

section

variable {α β : Type} {x : Except Fault α}

lemma map_ne_null {f : α → β} (h : x ≠ .error .null) : x.map f ≠ .error .null := by
  cases x with
  | ok a =>
    intro he
    cases he
  | error e =>
    intro he
    cases he
    exact h rfl

lemma bind_ne_null {f : α → Except Fault β} (h : x ≠ .error .null)
    (hf : ∀ a, f a ≠ .error .null) : (x >>= f) ≠ .error .null := by
  cases x with
  | ok a => exact hf a
  | error e =>
    intro he
    cases he
    exact h rfl

lemma ok_ne_null (a : α) : (.ok a : Except Fault α) ≠ .error .null := by
  intro h
  cases h

end

lemma copyId_ne_null (n : ℕ) (id : List Byte) : copyId n id ≠ .error .null := by
  induction n generalizing id with
  | zero => exact ok_ne_null _
  | succ n ih =>
    cases id with
    | nil =>
      intro h
      cases h
    | cons b id =>
      rw [copyId]
      split
      · exact map_ne_null (ih id)
      · exact ok_ne_null _

lemma hbCmd_ne_null (junk : CmdBlock) (id : Option (List Byte)) :
    hbCmd junk id ≠ .error .null := by
  cases id with
  | none => exact ok_ne_null _
  | some id => exact map_ne_null (copyId_ne_null _ id)

/-- With the fields that it needs, a handler reads through no null pointer. -/
lemma processMsg_of_present {s : ReceiverSession} {junk : CmdBlock} {seq : ℕ} {msgType : Byte}
    (h : ∀ t ∈ requiredTags msgType, s.sessionMsgsParser.parser.getField t ≠ none) :
    s.processMsg mem junk seq msgType ≠ .error .null := by
  have hnum : ∀ t ∈ requiredTags msgType, s.getNumber mem t ≠ .error .null :=
    fun t ht hnull => h t ht ((getNumber_eq_null_iff mem s t).mp hnull)
  unfold processMsg
  split
  · exact map_ne_null (hbCmd_ne_null _ _)
  split
  · next htype =>
    subst htype
    refine bind_ne_null (hnum beginSeqNo (by decide)) fun first => ?_
    exact bind_ne_null (hnum endSeqNo (by decide)) fun last => ok_ne_null _
  split
  · next htype =>
    subst htype
    exact bind_ne_null (hnum newSeqNo (by decide)) fun number => ok_ne_null _
  split
  · exact ok_ne_null _
  · exact ok_ne_null _

lemma requiredTags_lt {msgType : Byte} : ∀ t ∈ requiredTags msgType, t < maxFixTag := by
  unfold requiredTags
  split
  · decide
  · split
    · decide
    · simp

/-- **Malformed session messages do no harm** exactly where they have what their handler needs:
for every session, every message and whatever stands behind it in the memory. -/
theorem processSessionMsg_harmless_iff (s : ReceiverSession) (junk : CmdBlock) {m : RMessage}
    {beyond rest : List Byte} {msgType : Byte}
    (htype : bytesFrom (m.data ++ beyond) m.msgTypePos = some (msgType :: rest)) :
    Harmless s junk m beyond msgType ↔ ∀ t ∈ requiredTags msgType, Found m.data t := by
  have hproc : s.processSessionMsg junk m beyond =
      { s with sessionMsgsParser := s.sessionMsgsParser.parse m.data }.processMsg
        (m.data ++ beyond) junk m.seq msgType := by
    rw [processSessionMsg, htype]
  have hfound : ∀ t ∈ requiredTags msgType,
      ((s.sessionMsgsParser.parse m.data).parser.getField t ≠ none ↔ Found m.data t) :=
    fun t ht => by rw [← getField_isSome_iff _ _ (requiredTags_lt t ht), Option.isSome_iff_ne_none]
  unfold Harmless
  rw [hproc]
  constructor
  · rintro ⟨-, hstays⟩ t ht
    rw [← hfound t ht]
    intro hnone
    obtain ⟨s', hs', -⟩ := hstays ⟨t, ht, hnone⟩
    exact processMsg_of_absent _ ht hnone s' hs'
  · intro hall
    have hpresent := fun t ht => (hfound t ht).mpr (hall t ht)
    refine ⟨processMsg_of_present _ hpresent, ?_⟩
    rintro ⟨t, ht, hnone⟩
    exact absurd hnone (hpresent t ht)

def idle : ReceiverSession := ⟨.new, .new 8, .new fun _ => 0, 31⟩

/-- A SequenceReset with `NewSeqNo`. -/
theorem processSessionMsg_harmless_iff_sequenceReset :
    Harmless idle ⟨List.replicate 32 0, by decide⟩
        (.new [51, 53, 61, 52, 1, 51, 54, 61, 57, 1] 3 7) [] 52 ↔
      ∀ t ∈ requiredTags 52, Found [51, 53, 61, 52, 1, 51, 54, 61, 57, 1] t :=
  @processSessionMsg_harmless_iff idle _ (.new [51, 53, 61, 52, 1, 51, 54, 61, 57, 1] 3 7) []
    [1, 51, 54, 61, 57, 1] 52 (by decide)

/-- A ResendRequest without fields is read through a null pointer. -/
theorem processSessionMsg_null :
    ¬ Harmless idle ⟨List.replicate 32 0, by decide⟩ (.new [51, 53, 61, 50, 1] 3 7) [] 50 :=
  fun h => h.1 rfl

end ReceiverSession

end Ufix
