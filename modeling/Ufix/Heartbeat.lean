import Ufix.SessionMsgs

/-!
The Heartbeat that answers a TestRequest, from the identifier received to the bytes sent.

The identifier is copied to a block of the ring of commands, with a terminator only if the block
has room for one, and read back by a scan for a terminator.
-/

namespace Ufix.Heartbeat

open Ufix.Compose Ufix.Runs Ufix.ReceiverSession

/-- `str_size` on memory: `none` when it runs out of it. -/
def strSizeIn (mem : List Byte) : Option ℕ :=
  if mem.any isCharEnd then some (strSize mem) else none

/-- The length of `buf` in `send_heartbeat`. -/
def bufSize : ℕ := 1024

/-- `send_heartbeat` up to the socket, on the memory from the command on. -/
def sendHeartbeat (o : SessionOption) (msgSeq utcTime cmd : List Byte) : Option WMessage := do
  let m ← getMsg o msgSeq .new [msgTypeHeartbeat]
  let id := cmd.tail
  let m ← if id.head? = some 0 then some m else do
    let size ← strSizeIn id
    m.setField testRequestId (id.take size)
  let m ← finalizeMsg o msgSeq utcTime m
  if m.data.length ≤ bufSize then some m else none

/-- The ring from a command on, with what else can be read, `mapped` bytes from its start. -/
def ringFrom (ring : Cmds) (mapped cmd : ℕ) : List Byte := Memory.read ring.cmds cmd (mapped - cmd)

def answer (o : SessionOption) (msgSeq utcTime id : List Byte) : List TagValue.Field :=
  bodyFields o [msgTypeHeartbeat] msgSeq utcTime
    (moreFields o msgSeq [msgTypeHeartbeat] [(testRequestId, id)])

def Answered (o : SessionOption) (msgSeq utcTime id : List Byte) (r : Option WMessage) : Prop :=
  ∃ m, r = some m ∧
    IsMessage o.maxBodyLengthSize o.fixVersion (answer o msgSeq utcTime id) m.data

/-- There is room for the answer: its body length has the digits reserved and it fits the buffer. -/
def HasRoom (o : SessionOption) (msgSeq utcTime id : List Byte) : Prop :=
  (TagValue.encodeAll (answer o msgSeq utcTime id)).length < 10 ^ o.maxBodyLengthSize ∧
    (TagValue.encodeAll ((beginString, o.fixVersion) :: (bodyLength, zeros o.maxBodyLengthSize) ::
      answer o msgSeq utcTime id)).length + checksumSize ≤ bufSize

def GoesOn (id behind : List Byte) : Prop :=
  ∃ b rest, behind = id.drop (cmdBlockSize - 1) ++ b :: rest ∧ isCharEnd b = true

/-! ### The message -/

variable {o : SessionOption} {msgSeq utcTime id : List Byte}

lemma finalizeNew_length {m m' : WMessage} {p₁ p₂ : ℕ} {seq time : List Byte} (hm : m.status = .new)
    (h : m.finalizeNew p₁ seq p₂ time = some m') :
    m'.data.length = m.data.length + checksumSize := by
  simp only [WMessage.finalizeNew, hm, if_true, Option.bind_eq_bind] at h
  obtain ⟨m₁, h₁, h⟩ := Option.bind_eq_some_iff.mp h
  obtain ⟨cks, -, h⟩ := Option.bind_eq_some_iff.mp h
  obtain ⟨d₁, hd₁, h⟩ := Option.bind_eq_some_iff.mp h
  obtain ⟨d₂, hd₂, h⟩ := Option.bind_eq_some_iff.mp h
  obtain ⟨d₃, hd₃, h⟩ := Option.bind_eq_some_iff.mp h
  obtain ⟨d₄, hd₄, h⟩ := Option.bind_eq_some_iff.mp h
  cases h
  rw [patch_length hd₄, patch_length hd₃, patch_length hd₂, patch_length hd₁,
    preFinalize_length h₁]

/-- A Heartbeat with a text has the length of its fields. -/
lemma compose_length (ho : WellFormed o) (hsize : msgSeq.length = o.maxMsgSeqSize)
    (htimeSize : utcTime.length = sendingTimeSize) {text : List Byte} {m : WMessage}
    (h : compose o msgSeq [msgTypeHeartbeat] [(testRequestId, text)] false msgSeq utcTime =
      some m) :
    m.data.length = (TagValue.encodeAll ((beginString, o.fixVersion) ::
      (bodyLength, zeros o.maxBodyLengthSize) :: answer o msgSeq utcTime text)).length +
        checksumSize := by
  have hty : Clean [msgTypeHeartbeat] := by decide
  have happ : ∀ f ∈ [((testRequestId : ℤ), text)], IsTag f.1 := by simp [IsTag, testRequestId]
  obtain ⟨m₀, hget, hset⟩ := getMsg_setFields ho msgSeq hty happ
  simp only [compose, hget, hset, Option.bind_eq_bind, Option.bind_some, Bool.false_eq_true,
    if_false] at h
  rw [finalizeMsg_eq ho (by decide) hty (zeros_length _) hsize (drafted_data _ _)] at h
  have hzeros : (TagValue.encodeAll (bodyFields o [msgTypeHeartbeat] (zeros o.maxMsgSeqSize)
      (zeros sendingTimeSize) (moreFields o msgSeq [msgTypeHeartbeat]
        [(testRequestId, text)]))).length =
      (TagValue.encodeAll (answer o msgSeq utcTime text)).length :=
    bodyFields_length ((zeros_length _).trans hsize.symm) ((zeros_length _).trans htimeSize.symm)
  rw [finalizeNew_length rfl h]
  simp only [drafted, TagValue.encodeAll_cons, List.length_append, hzeros]

lemma answer_length (o : SessionOption) (msgSeq utcTime text text' : List Byte) :
    (TagValue.encodeAll (answer o msgSeq utcTime text)).length + text'.length =
      (TagValue.encodeAll (answer o msgSeq utcTime text')).length + text.length := by
  simp only [answer, bodyFields, moreFields, toField, List.map_cons, List.map_nil,
    TagValue.encodeAll_append, TagValue.encodeAll_cons, TagValue.encodeAll_nil, TagValue.encode,
    List.length_append, List.length_cons, List.length_nil, List.append_assoc]
  omega

lemma answer_inj {text text' : List Byte}
    (h : answer o msgSeq utcTime text = answer o msgSeq utcTime text') : text = text' := by
  simpa [answer, bodyFields, moreFields, toField] using h

/-- What a message with this body says about room. -/
lemma hasRoom_of_isMessage {data : List Byte} (hbuf : data.length ≤ bufSize)
    (h : IsMessage o.maxBodyLengthSize o.fixVersion (answer o msgSeq utcTime id) data) :
    HasRoom o msgSeq utcTime id ∧ data.length = (TagValue.encodeAll ((beginString, o.fixVersion) ::
      (bodyLength, zeros o.maxBodyLengthSize) :: answer o msgSeq utcTime id)).length +
        checksumSize := by
  obtain ⟨len, sum, -, hdata, hlen, hdigits, hvalue, hsum⟩ := h
  have htrailer : (TagValue.encode (checksum, sum)).length = checksumSize := by
    rw [hsum]
    simp only [TagValue.encode, List.length_append, List.length_cons, List.length_nil,
      Decimal.padded_length]
    decide
  have hlength : data.length = (TagValue.encodeAll ((beginString, o.fixVersion) ::
      (bodyLength, zeros o.maxBodyLengthSize) :: answer o msgSeq utcTime id)).length +
        checksumSize := by
    rw [hdata, List.length_append, htrailer]
    simp only [TagValue.encodeAll_cons, TagValue.encode, List.length_append, List.length_cons,
      hlen, zeros_length]
  refine ⟨⟨?_, by rw [← hlength]; exact hbuf⟩, hlength⟩
  rw [← hvalue, ← hlen]
  exact Decimal.value_lt hdigits

/-- A Heartbeat with a text answers the request with this text only. -/
lemma compose_answered_iff (ho : WellFormed o) (hseq : ∀ b ∈ msgSeq, Decimal.IsDigit b)
    (hsize : msgSeq.length = o.maxMsgSeqSize) (htime : soh ∉ utcTime)
    (htimeSize : utcTime.length = sendingTimeSize) {text : List Byte} (htext : Clean text) :
    Answered o msgSeq utcTime id
        ((compose o msgSeq [msgTypeHeartbeat] [(testRequestId, text)] false msgSeq utcTime).bind
          fun m => if m.data.length ≤ bufSize then some m else none) ↔
      text = id ∧ HasRoom o msgSeq utcTime id := by
  have happ : ∀ f ∈ [((testRequestId : ℤ), text)], IsTag f.1 ∧ soh ∉ f.2 := by
    simpa [IsTag, testRequestId] using htext.soh
  have hmessage := fun hfits => compose_isMessage ho (show [msgTypeHeartbeat] ≠ [] by decide)
    (by decide) happ hseq hseq hsize htime htimeSize hfits false
  constructor
  · rintro ⟨m, hm, his⟩
    obtain ⟨m₀, hcompose, hbuf⟩ := Option.bind_eq_some_iff.mp hm
    split at hbuf
    · next hle =>
      cases hbuf
      obtain ⟨hroom, hlength⟩ := hasRoom_of_isMessage hle his
      have hlength' := compose_length ho hsize htimeSize hcompose
      have hanswer := answer_length o msgSeq utcTime text id
      have hfits : (TagValue.encodeAll (answer o msgSeq utcTime text)).length <
          10 ^ o.maxBodyLengthSize := by
        have := hroom.1
        rw [hlength'] at hlength
        simp only [TagValue.encodeAll_cons, List.length_append] at hlength
        omega
      obtain ⟨m', hcompose', his', -⟩ := hmessage hfits
      rw [hcompose] at hcompose'
      cases hcompose'
      obtain ⟨len, sum, hparse, -⟩ := his
      obtain ⟨len', sum', hparse', -⟩ := his'
      rw [hparse] at hparse'
      simp only [List.cons_append, Option.some.injEq, List.cons.injEq, true_and] at hparse'
      exact ⟨(answer_inj (List.append_inj' hparse'.2 rfl).1).symm, hroom⟩
    · cases hbuf
  · rintro ⟨rfl, hroom⟩
    obtain ⟨m, hcompose, his, -⟩ := hmessage hroom.1
    refine ⟨m, ?_, his⟩
    rw [hcompose, Option.bind_some, if_pos]
    rw [compose_length ho hsize htimeSize hcompose]
    exact hroom.2

/-! ### The text that is read back -/

lemma strSize_append {b : Byte} (hid : Clean id) (hb : isCharEnd b = true) (rest : List Byte) :
    strSize (id ++ b :: rest) = id.length := by
  have hall : ∀ b ∈ id, (!isCharEnd b) = true := fun b hb => by simp [isCharEnd, hid b hb]
  rw [strSize, List.takeWhile_append_of_pos hall, List.takeWhile_cons_of_neg (by simp [hb]),
    List.append_nil]

lemma exists_text {mem : List Byte} (h : mem.any isCharEnd = true) :
    ∃ text b rest, mem = text ++ b :: rest ∧ Clean text ∧ isCharEnd b = true := by
  induction mem with
  | nil => simp at h
  | cons c mem ih =>
    cases hc : isCharEnd c with
    | true => exact ⟨[], c, mem, rfl, by simp [Clean], hc⟩
    | false =>
      rw [List.any_cons, hc, Bool.false_or] at h
      obtain ⟨text, b, rest, rfl, htext, hb⟩ := ih h
      refine ⟨c :: text, b, rest, rfl, ?_, hb⟩
      intro d hd
      rcases List.mem_cons.mp hd with rfl | hd
      · simpa [isCharEnd] using hc
      · exact htext d hd

lemma text_unique {text text' rest rest' : List Byte} {b b' : Byte} (h : Clean text)
    (h' : Clean text') (hb : isCharEnd b = true) (hb' : isCharEnd b' = true)
    (he : text ++ b :: rest = text' ++ b' :: rest') : text = text' := by
  have hlen := congrArg strSize he
  rw [strSize_append h hb, strSize_append h' hb'] at hlen
  exact (List.append_inj he hlen).1

/-- **The answer is right** exactly where the identifier and a terminator stand behind the type of
the command, and there is room for the message. -/
lemma sendHeartbeat_answered_iff (ho : WellFormed o) (hseq : ∀ b ∈ msgSeq, Decimal.IsDigit b)
    (hsize : msgSeq.length = o.maxMsgSeqSize) (htime : soh ∉ utcTime)
    (htimeSize : utcTime.length = sendingTimeSize) (hid : Clean id) {cmd : List Byte}
    (hcmd : cmd.tail.head? ≠ some 0) :
    Answered o msgSeq utcTime id (sendHeartbeat o msgSeq utcTime cmd) ↔
      (∃ b rest, cmd.tail = id ++ b :: rest ∧ isCharEnd b = true) ∧
        HasRoom o msgSeq utcTime id := by
  by_cases hend : cmd.tail.any isCharEnd = true
  · obtain ⟨text, b, rest, htail, htext, hb⟩ := exists_text hend
    have hsend : sendHeartbeat o msgSeq utcTime cmd =
        (compose o msgSeq [msgTypeHeartbeat] [(testRequestId, text)] false msgSeq utcTime).bind
          fun m => if m.data.length ≤ bufSize then some m else none := by
      have hsizeIn : strSizeIn (text ++ b :: rest) = some text.length := by
        rw [htail] at hend
        rw [strSizeIn, if_pos hend, strSize_append htext hb]
      rw [htail] at hcmd
      simp only [sendHeartbeat, compose, WMessage.setFields, List.foldlM_cons, List.foldlM_nil,
        htail, if_neg hcmd, hsizeIn, List.take_left, Option.bind_eq_bind, Option.bind_some,
        Option.bind_assoc, Option.pure_def, Bool.false_eq_true, if_false]
    rw [hsend, compose_answered_iff ho hseq hsize htime htimeSize htext]
    refine and_congr_left' ⟨?_, ?_⟩
    · rintro rfl
      exact ⟨b, rest, htail, hb⟩
    · rintro ⟨b', rest', htail', hb'⟩
      exact text_unique htext hid hb hb' (htail.symm.trans htail')
  · have hnone : sendHeartbeat o msgSeq utcTime cmd = none := by
      simp only [sendHeartbeat, strSizeIn, if_neg hcmd, if_neg hend, Option.bind_eq_bind,
        Option.bind_none, Option.bind_fun_none]
    rw [hnone]
    constructor
    · rintro ⟨m, hm, -⟩
      cases hm
    · rintro ⟨⟨b, rest, htail, hb⟩, -⟩
      rw [htail] at hend
      exact absurd (by simp [hb]) hend

/-! ### The block -/

lemma copyId_eq (hid : soh ∉ id) (n : ℕ) (rest : List Byte) :
    copyId n (id ++ soh :: rest) = .ok (if id.length < n then id ++ [0] else id.take n) := by
  induction n generalizing id with
  | zero => simp [copyId]
  | succ n ih =>
    cases id with
    | nil => simp [copyId]
    | cons b id =>
      have hb : b ≠ soh := fun he => hid (by simp [he])
      rw [List.cons_append, copyId, if_pos hb, ih fun hm => hid (List.mem_cons_of_mem _ hm)]
      by_cases h : id.length < n
      · rw [if_pos h, if_pos (by simpa using h)]
        rfl
      · rw [if_neg h, if_neg (by simpa using h)]
        rfl

/-- What stands behind the type in the block of a Heartbeat. -/
lemma hbCmd_tail (hid : soh ∉ id) {junk block : CmdBlock} {rest : List Byte}
    (h : hbCmd junk (some (id ++ soh :: rest)) = .ok block) :
    (id.length < cmdBlockSize - 1 ∧ ∃ more, block.1.tail = id ++ 0 :: more) ∨
      (cmdBlockSize - 1 ≤ id.length ∧ block.1.tail = id.take (cmdBlockSize - 1)) := by
  rw [hbCmd, copyId_eq hid] at h
  cases h
  have htail : ∀ text : List Byte, (junk.fill (msgTypeHeartbeat :: text)).1.tail =
      (text ++ junk.1.drop (text.length + 1)).take (cmdBlockSize - 1) := fun text => rfl
  rw [htail]
  by_cases hlt : id.length < cmdBlockSize - 1
  · refine Or.inl ⟨hlt, ?_⟩
    rw [if_pos hlt, List.append_assoc, List.take_append, List.take_of_length_le (by omega)]
    obtain ⟨k, hk⟩ : ∃ k, cmdBlockSize - 1 - id.length = k + 1 :=
      ⟨cmdBlockSize - 1 - id.length - 1, by omega⟩
    rw [hk, List.singleton_append, List.take_succ_cons]
    exact ⟨_, rfl⟩
  · refine Or.inr ⟨by omega, ?_⟩
    have hlen : (id.take (cmdBlockSize - 1)).length = cmdBlockSize - 1 := by
      rw [List.length_take]
      omega
    rw [if_neg hlt, List.take_append_of_le_length hlen.ge, List.take_of_length_le hlen.le]

/-- Behind the type stand the identifier and a terminator if the identifier is short, or else if
it goes on behind the block. -/
lemma text_in_ring_iff (hid : soh ∉ id) {junk block : CmdBlock} {rest behind : List Byte}
    (h : hbCmd junk (some (id ++ soh :: rest)) = .ok block) :
    (∃ b rest, (block.1 ++ behind).tail = id ++ b :: rest ∧ isCharEnd b = true) ↔
      id.length < cmdBlockSize - 1 ∨ GoesOn id behind := by
  have hne : block.1 ≠ [] := by
    intro he
    have hlen := block.2
    rw [he] at hlen
    cases hlen
  rw [List.tail_append_of_ne_nil hne]
  rcases hbCmd_tail hid h with ⟨hlt, more, htail⟩ | ⟨hge, htail⟩
  · rw [htail]
    exact iff_of_true ⟨0, more ++ behind, by simp, by decide⟩ (Or.inl hlt)
  · rw [htail]
    constructor
    · rintro ⟨b, rest, hrest, hb⟩
      refine Or.inr ⟨b, rest, ?_, hb⟩
      apply List.append_cancel_left
      rw [hrest, ← List.append_assoc, List.take_append_drop]
    · rintro (hlt | ⟨b, rest, hbehind, hb⟩)
      · omega
      · exact ⟨b, rest, by rw [hbehind, ← List.append_assoc, List.take_append_drop], hb⟩

lemma hbCmd_first (hid : Clean id) (hne : id ≠ []) {junk block : CmdBlock} {rest : List Byte}
    (h : hbCmd junk (some (id ++ soh :: rest)) = .ok block) (behind : List Byte) :
    (block.1 ++ behind).tail.head? ≠ some 0 := by
  obtain ⟨b, more, rfl⟩ := List.exists_cons_of_ne_nil hne
  have hb := (hid b (by simp)).1
  have hblock : block.1 ≠ [] := by
    intro he
    have hlen := block.2
    rw [he] at hlen
    cases hlen
  rw [List.tail_append_of_ne_nil hblock]
  rcases hbCmd_tail hid.soh h with ⟨-, more, htail⟩ | ⟨-, htail⟩
  · simpa [htail] using hb
  · have htake : (b :: more).take (cmdBlockSize - 1) = b :: more.take (cmdBlockSize - 2) := rfl
    simpa [htail, htake] using hb

/-! ### From the ring -/

lemma ringFrom_block (ring : Cmds) {mapped cmd : ℕ} (h : cmd + cmdBlockSize ≤ mapped) :
    ringFrom ring mapped cmd =
      (ring.block cmd).1 ++ ringFrom ring mapped (cmd + cmdBlockSize) := by
  have hsplit : mapped - cmd = cmdBlockSize + (mapped - (cmd + cmdBlockSize)) := by omega
  rw [ringFrom, hsplit, Memory.read_add]
  rfl

/-- **A TestRequest is answered with its own identifier** if and only if the identifier leaves room
for a terminator in its block, or the bytes behind the block happen to be the rest of it. The
command is the next one of a ring that other commands were added to and taken from, `r` is the
session with the parsed TestRequest. -/
theorem testRequest_answered_iff (ho : WellFormed o) (hseq : ∀ b ∈ msgSeq, Decimal.IsDigit b)
    (hsize : msgSeq.length = o.maxMsgSeqSize) (htime : soh ∉ utcTime)
    (htimeSize : utcTime.length = sendingTimeSize) {r : ReceiverSession} {mem rest : List Byte}
    (hid : Clean id) (hne : id ≠ [])
    (hfield : r.getField mem testRequestId = some (id ++ soh :: rest))
    {junk block : CmdBlock} (hcmd : hbCmd junk (r.getField mem testRequestId) = .ok block)
    {cmds : ℕ → Byte} {acts : List Cmds.Act} {s : Cmds.State}
    (hroom : Meets Cmds.step Cmds.HasRoom (Cmds.start cmds) acts)
    (hr : run Cmds.step (Cmds.start cmds) acts = some s)
    (hnext : s.added[s.returned.length]? = some block) {mapped : ℕ}
    (hmapped : maxCmds * cmdBlockSize ≤ mapped) :
    (∃ cmd, s.ring.getNextCmd.2 = some cmd ∧ Answered o msgSeq utcTime id
        (sendHeartbeat o msgSeq utcTime (ringFrom s.ring mapped cmd))) ↔
      (id.length < cmdBlockSize - 1 ∨
          GoesOn id (ringFrom s.ring mapped ((s.ring.head + 1) * cmdBlockSize))) ∧
        HasRoom o msgSeq utcTime id := by
  obtain ⟨hget, hblock, hhead⟩ := Cmds.getNextCmd_of_waits hroom hr hnext
  have hinside : s.ring.head * cmdBlockSize + cmdBlockSize ≤ mapped := by
    have : (s.ring.head + 1) * cmdBlockSize ≤ maxCmds * cmdBlockSize :=
      Nat.mul_le_mul_right _ hhead
    rw [Nat.succ_mul] at this
    omega
  rw [hfield] at hcmd
  have hmem := ringFrom_block s.ring hinside
  rw [hblock, ← Nat.succ_mul] at hmem
  have hfirst := hbCmd_first hid hne hcmd
    (ringFrom s.ring mapped ((s.ring.head + 1) * cmdBlockSize))
  rw [← hmem] at hfirst
  have hanswer := sendHeartbeat_answered_iff ho hseq hsize htime htimeSize hid hfirst
  rw [hmem, text_in_ring_iff hid.soh hcmd] at hanswer
  rw [← hanswer, ← hmem, hget]
  simp

/-- `20240101-00:00:00.000`. -/
def newYear : List Byte :=
  [50, 48, 50, 52, 48, 49, 48, 49, 45, 48, 48, 58, 48, 48, 58, 48, 48, 46, 48, 48, 48]

def zeroBlock : CmdBlock := ⟨List.replicate 32 0, by decide⟩

/-- The session after a TestRequest with `112=Hi`. -/
def requested : ReceiverSession :=
  { idle with sessionMsgsParser := idle.sessionMsgsParser.parse [49, 49, 50, 61, 72, 105, 1] }

/-- `Hi` in an empty ring. -/
theorem testRequest_answered_iff_hi :
    let block := zeroBlock.fill [48, 72, 105, 0]
    let ring := (Cmds.new fun _ => 0).addCmd block
    (∃ cmd, ring.getNextCmd.2 = some cmd ∧ Answered optionsAB (Decimal.padded 10 12) newYear
        [72, 105] (sendHeartbeat optionsAB (Decimal.padded 10 12) newYear
          (ringFrom ring 32768 cmd))) ↔
      ([72, 105].length < cmdBlockSize - 1 ∨
          GoesOn [72, 105] (ringFrom ring 32768 ((ring.head + 1) * cmdBlockSize))) ∧
        HasRoom optionsAB (Decimal.padded 10 12) newYear [72, 105] := by
  intro block ring
  have hroom : Meets Cmds.step Cmds.HasRoom (Cmds.start fun _ => 0)
      [.addCmd block, .moveTail] := by
    intro t ht
    cases ht
    refine ⟨trivial, fun u hu => ⟨?_, trivial⟩⟩
    exact (by decide : (1 : ℕ) ≠ 0)
  have hr : run Cmds.step (Cmds.start fun _ => 0) [.addCmd block, .moveTail] =
      some ⟨ring, none, [block], []⟩ := rfl
  have hfield : requested.getField [49, 49, 50, 61, 72, 105, 1] testRequestId =
      some ([72, 105] ++ soh :: []) := by decide +kernel
  have hcmd : hbCmd zeroBlock (requested.getField [49, 49, 50, 61, 72, 105, 1] testRequestId) =
      .ok block := by
    rw [hfield]
    rfl
  exact testRequest_answered_iff optionsAB_wellFormed (fun b => Decimal.isDigit_of_mem_padded)
    (Decimal.padded_length _ _) (by decide) (by decide) (by decide) (by decide) hfield hcmd hroom
    hr rfl (by decide)

/-- 31 times `x`, and behind it a TestRequest of our own. -/
def twoCmds : Cmds :=
  ((Cmds.new fun _ => 0).addCmd (zeroBlock.fill (48 :: List.replicate 31 120))).addCmd
    (zeroBlock.fill [49])

/-- The identifier of 31 bytes is sent with a `1` behind it. -/
theorem testRequest_misanswered :
    hbCmd zeroBlock (some (List.replicate 31 120 ++ [soh])) =
        .ok (zeroBlock.fill (48 :: List.replicate 31 120)) ∧
      twoCmds.getNextCmd.2 = some 0 ∧
      ¬ Answered optionsAB (Decimal.padded 10 12) newYear (List.replicate 31 120)
        (sendHeartbeat optionsAB (Decimal.padded 10 12) newYear (ringFrom twoCmds 32768 0)) := by
  have hbyte : ∀ i < 32768, (ringFrom twoCmds 32768 0)[i]? = some (twoCmds.cmds i) := by
    intro i hi
    simp [ringFrom, Memory.read, hi]
  have hfirst : (ringFrom twoCmds 32768 0).tail.head? ≠ some 0 := by
    rw [List.head?_tail, hbyte 1 (by decide)]
    decide
  have hsize : (Decimal.padded 10 12).length = optionsAB.maxMsgSeqSize :=
    Decimal.padded_length _ _
  refine ⟨rfl, rfl, fun hanswered => ?_⟩
  obtain ⟨⟨b, rest, htail, hb⟩, -⟩ := (sendHeartbeat_answered_iff optionsAB_wellFormed
    (fun b => Decimal.isDigit_of_mem_padded) hsize (by decide) (by decide) (by decide)
    hfirst).mp hanswered
  have hnext : (ringFrom twoCmds 32768 0).tail[31]? = some 49 := by
    rw [List.getElem?_tail, hbyte 32 (by decide)]
    rfl
  rw [htail, List.getElem?_append_right (by simp)] at hnext
  obtain rfl : b = 49 := by simpa using hnext
  exact absurd hb (by decide)

end Ufix.Heartbeat
