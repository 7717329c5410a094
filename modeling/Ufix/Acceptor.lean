import Ufix.AcceptorFraming
import Ufix.HeaderLookup
import Ufix.SessionExchange

/-!
A connection that is accepted: its first message says which session it is for, and the session goes
on with all that was received.

`connection_handler` reads into a buffer of its own until the first message is complete. It looks
for the names of both sides in it and hands the buffer over to the session that has them; the
connector of the session starts with these bytes.
-/

namespace Ufix.Acceptor

open Decimal Framing Compose Transfer SkipSearch HeaderLookup FieldGrammar SendCmd
open SessionExchange AcceptorFraming ReceiverBounds
open TagValue (equal Field encodeAll)

/-! ### Which session -/

/-- `str_match`, on the memory from the first byte of each string on. -/
def strMatch : List Byte → List Byte → Option Bool
  | a :: src, b :: dest =>
    if a ≠ b then some ((a = 0 && b = soh) || (a = soh && b = 0))
    else if a = 0 || a = soh then some true
    else strMatch src dest
  | _, _ => none

/-- `Session::match`; the sizes are read, and used for nothing. -/
def isMatch (o : SessionOption) (senderCompId targetCompId : List Byte) : Option Bool := do
  let _senderSize ← Heartbeat.strSizeIn senderCompId
  let _targetSize ← Heartbeat.strSizeIn targetCompId
  let code ← strMatch senderCompId (o.senderCompId ++ [0])
  if code then strMatch targetCompId (o.targetCompId ++ [0]) else some false

/-- The first session from number `i` on that matches. -/
def findSession (senderCompId targetCompId : List Byte) :
    ℕ → List SessionOption → Option (Option ℕ)
  | _, [] => some none
  | i, o :: sessions =>
    (isMatch o senderCompId targetCompId).bind fun code =>
      if code then some (some i) else findSession senderCompId targetCompId (i + 1) sessions

/-! ### The first message -/

/-- What comes out of the loop that waits for the first message, with the chunks still to come. -/
inductive First
  | waits
  | complete (buf stale : List Byte) (msgLen : ℤ) (later : List (List Byte × List Byte))

def handlerBufSize : ℕ := 8192

/-- The loop of `connection_handler`, on the chunks `recv` gives and what is behind each in the
buffer; a chunk has at most the bytes for which there is room. -/
def recvFirst (buf : List Byte) : List (List Byte × List Byte) → Option First
  | [] => some .waits
  | (chunk, stale) :: chunks =>
    if buf.length + chunk.length > handlerBufSize then none
    else if chunk = [] then recvFirst buf chunks
    else
      (isFullMsg (buf ++ chunk ++ stale) (buf ++ chunk).length).bind fun msgLen =>
        if msgLen > 0 then some (.complete (buf ++ chunk) stale msgLen chunks)
        else recvFirst (buf ++ chunk) chunks

def logBufSize : ℕ := 512

/-- The bytes of `"Recv msg: %.*s"` with the message and the null byte behind. -/
def infoSize (mem : List Byte) (msgLen : ℤ) : ℕ :=
  10 + ((mem.take msgLen.toNat).takeWhile (· ≠ 0)).length + 1

inductive Handled
  | waits
  | closed
  | handedOver (session : ℕ) (buf : List Byte) (later : List (List Byte × List Byte))
  deriving DecidableEq

/-- `connection_handler`; the session looked for is the one that would send the answer. -/
def connectionHandler (sessions : List SessionOption) (tPos : ℤ)
    (chunks : List (List Byte × List Byte)) : Option Handled :=
  (recvFirst [] chunks).bind fun
    | .waits => some .waits
    | .complete buf stale msgLen later =>
      if infoSize (buf ++ stale) msgLen > logBufSize then none
      else (validateCompId (buf ++ stale) msgLen tPos).bind fun (code, sPos, tPos) =>
        if code then do
          let sender ← bytesFrom (buf ++ stale) sPos
          let target ← bytesFrom (buf ++ stale) tPos
          match ← findSession target sender 0 sessions with
          | none => some .closed
          | some i => some (.handedOver i buf later)
        else some .closed

/-! ### The connector -/

/-- The constructor copies the bytes behind those the session has. -/
def acceptorConnector (r : Receiver) (buf stale : List Byte) : Receiver :=
  { r with
    recvBuf := r.recvBuf.take r.recvBufTail.toNat ++ buf ++ stale
    recvBufTail := r.recvBufTail + buf.length }

/-- What `recv_msgs` does in front of its loop, whatever `process_new_data` says. -/
def recvHandedOver (fixVersionLen : ℕ) (r : Receiver) : Option (Receiver × List RMessage) :=
  if r.recvBufTail > r.recvBufHead then
    (processNewData fixVersionLen r.recvBuf r.recvBufHead r.recvBufTail).map
      fun (head, msgs, _) => ({ r with recvBufHead := head }, msgs)
  else some (r, [])

/-- The receiver thread of an accepted connection, with the messages given to `process_msg`. -/
def acceptorRecvMsgs (fixVersionLen : ℕ) (r : Receiver) (buf stale : List Byte)
    (later : List (List Byte × List Byte)) : Option (Receiver × List RMessage) :=
  (recvHandedOver fixVersionLen (acceptorConnector r buf stale)).bind fun (r, msgs) =>
    (r.recvAll fixVersionLen later).map fun (r, outs) => (r, msgs ++ outs.flatMap Prod.fst)

/-! ### Names -/

lemma strMatch_text {text id : List Byte} (ht : Clean text) (hid : Clean id) (rest : List Byte) :
    strMatch (text ++ soh :: rest) (id ++ [0]) = some (decide (text = id)) := by
  induction text generalizing id with
  | nil =>
    cases id with
    | nil => rfl
    | cons b id =>
      have hb := hid b (by simp)
      rw [List.nil_append, List.cons_append, strMatch, if_pos (Ne.symm hb.2)]
      simp [hb.1, show soh ≠ 0 by decide]
  | cons a text ih =>
    have ha := ht a (by simp)
    cases id with
    | nil => simp [strMatch, ha.1, ha.2]
    | cons b id =>
      have hb := hid b (by simp)
      by_cases hab : a = b
      · subst hab
        rw [List.cons_append, List.cons_append, strMatch, if_neg (by simp),
          if_neg (by simp [ha.1, ha.2]),
          ih (fun c hc => ht c (by simp [hc])) fun c hc => hid c (by simp [hc])]
        simp
      · simp [strMatch, hab, ha.1, ha.2]

def Has (o : SessionOption) (sender target : List Byte) : Prop :=
  sender = o.senderCompId ∧ target = o.targetCompId

instance (o : SessionOption) (sender target : List Byte) : Decidable (Has o sender target) :=
  inferInstanceAs (Decidable (_ ∧ _))

variable {sessions : List SessionOption} {sender target : List Byte}

lemma strSizeIn_text (text rest : List Byte) :
    Heartbeat.strSizeIn (text ++ soh :: rest) = some (strSize (text ++ soh :: rest)) :=
  if_pos (by simp [isCharEnd])

lemma isMatch_text {o : SessionOption} (ho : Clean o.senderCompId ∧ Clean o.targetCompId)
    (hsender : Clean sender) (htarget : Clean target) (rest rest' : List Byte) :
    isMatch o (sender ++ soh :: rest) (target ++ soh :: rest') =
      some (decide (Has o sender target)) := by
  simp only [isMatch, strSizeIn_text, strMatch_text hsender ho.1, Option.bind_eq_bind,
    Option.bind_some]
  by_cases h : sender = o.senderCompId
  · rw [if_pos (decide_eq_true h), strMatch_text htarget ho.2]
    simp [Has, h]
  · rw [if_neg (by simp [h])]
    simp [Has, h]

/-- **The first session with the names is found**, and no other. -/
lemma findSession_text
    (hsessions : ∀ o ∈ sessions, Clean o.senderCompId ∧ Clean o.targetCompId)
    (hsender : Clean sender) (htarget : Clean target) (rest rest' : List Byte) (i : ℕ) :
    findSession (sender ++ soh :: rest) (target ++ soh :: rest') i sessions =
      some ((sessions.findIdx? fun o => Has o sender target).map (i + ·)) := by
  induction sessions generalizing i with
  | nil => rfl
  | cons o sessions ih =>
    rw [findSession, isMatch_text (hsessions o (by simp)) hsender htarget, Option.bind_some,
      List.findIdx?_cons]
    by_cases h : Has o sender target
    · simp [h]
    · simp only [h, decide_false, Bool.false_eq_true, if_false]
      rw [ih (fun o ho => hsessions o (by simp [ho])), Option.map_map]
      congr 2
      funext j
      simp only [Function.comp_apply]
      omega

/-! ### The positions of the names -/

/-- The tags that `connection_handler` looks for stand in nothing in front of them. -/
structure Findable (o : SessionOption) : Prop where
  bodyLength : ¬ bodyLengthPattern <:+: o.fixVersion
  target : ¬ targetCompIdPattern <:+: o.fixVersion ∧ ¬ targetCompIdPattern <:+: o.senderCompId

variable {o : SessionOption} (m : Sending o) (hw : o.maxBodyLengthSize ≤ 9)

def frontFields : List Field :=
  [(beginString, o.fixVersion), (bodyLength, m.lengthDigits), (msgTypeTag, [m.msg.msgType]),
    (msgSeqNum, m.msg.number o m.msgSeq)]

lemma fields_split : ∃ behind, m.fields = frontFields m ++ (senderCompId, o.senderCompId) ::
    (targetCompId, o.targetCompId) :: behind := ⟨_, rfl⟩

lemma not_infix_of_digits {p val : List Byte} (hp : equal ∈ p) (hval : ∀ b ∈ val, IsDigit b) :
    ¬ p <:+: val := fun h => absurd (hval equal (h.subset hp)) (by decide)

lemma not_infix_append {p pre v : List Byte}
    (hpre : ∀ s ∈ pre.tails, s ≠ [] → ¬ s <+: p ∧ ¬ p <+: s) (hv : ¬ p <:+: v) :
    ¬ p <:+: pre ++ v := by
  induction pre with
  | nil => exact hv
  | cons c pre ih =>
    rw [List.cons_append, List.infix_cons_iff]
    rintro (h | h)
    · obtain ⟨h1, h2⟩ := hpre (c :: pre) (by simp) (List.cons_ne_nil _ _)
      rcases List.prefix_or_prefix_of_prefix h (List.prefix_append (c :: pre) v) with h | h
      · exact h2 h
      · exact h1 h
    · exact ih (fun s hs => hpre s (by simp only [List.tails_cons, List.mem_cons, hs, or_true])) h

lemma not_met_part {p v : List Byte} {tag : ℕ} {k : ℕ}
    (htag : ∀ s ∈ (decimal tag ++ [equal]).tails, s ≠ [] → ¬ s <+: p ∧ ¬ p <+: s)
    (hv : ¬ p <:+: v) : ¬ Met p (part (raw (tag, v))) k := by
  intro hk
  have h := hk.infix
  rw [part, raw, ← List.singleton_append, ← List.append_assoc] at h
  exact not_infix_append htag hv h

lemma not_met_front {p : List Byte} (hp : equal ∈ p) (h2 : 2 ≤ p.length)
    (htags : ∀ f ∈ frontFields m, ∀ s ∈ (decimal f.1 ++ [equal]).tails, s ≠ [] →
      ¬ s <+: p ∧ ¬ p <+: s)
    (hversion : ¬ p <:+: o.fixVersion) :
    ∀ g ∈ (frontFields m).map raw, ∀ k, ¬ Met p (part g) k := by
  have hlength : ¬ p <:+: m.lengthDigits :=
    not_infix_of_digits hp fun b hb => isDigit_of_mem_padded hb
  have hseq : ¬ p <:+: m.msg.number o m.msgSeq :=
    not_infix_of_digits hp (m.msg.number_digits m.msgSeq_digits)
  have htype : ¬ p <:+: [m.msg.msgType] := by
    intro h
    have := h.length_le
    rw [List.length_singleton] at this
    omega
  intro g hg k
  obtain ⟨f, hf, rfl⟩ := List.mem_map.mp hg
  refine not_met_part (htags f hf) ?_
  simp only [frontFields, List.mem_cons, List.not_mem_nil, or_false] at hf
  rcases hf with rfl | rfl | rfl | rfl
  · exact hversion
  · exact hlength
  · exact htype
  · exact hseq

/-- The field whose tag is met nowhere in front is found, and its value stands behind its tag. -/
lemma seek_raw {t : ℕ} (h0 : t ≠ 0) {v : List Byte} (hv : soh ∉ v) {before behind : List RawField}
    (hbefore : ∀ g ∈ before, ∀ k, ¬ Met (decimal t ++ [equal]) (part g) k) (more : List Byte) :
    ∃ i : ℕ, seek (encode (before ++ raw (t, v) :: behind) ++ more)
        (encode (before ++ raw (t, v) :: behind)).length (decimal t ++ [equal]) = some (i : ℤ) ∧
      (encode (before ++ raw (t, v) :: behind) ++ more).drop
        (i + (decimal t ++ [equal]).length) = v ++ soh :: (encode behind ++ more) := by
  have hok : (raw (t, v)).Ok :=
    ⟨fun b hb => isDigit_of_mem_decimal hb, by rw [raw, value_decimal]; exact h0, hv⟩
  obtain ⟨i, hmet, hi⟩ := met_encode h0 hok (value_decimal t) before behind
  refine ⟨i, Seek.seek_of_met hmet more, ?_⟩
  have hsplit : encode (before ++ raw (t, v) :: behind) ++ more =
      (encode before ++ decimal t ++ [equal]) ++ (v ++ soh :: (encode behind ++ more)) := by
    rw [encode_append, encode_cons, raw]
    simp
  have hpos : i + (decimal t ++ [equal]).length =
      (encode before ++ decimal t ++ [equal]).length := by
    rw [hi.mpr hbefore, raw]
    simp only [List.length_append, List.length_singleton]
  rw [hsplit, hpos, List.drop_left]

lemma tags_apart : ∀ p ∈ [senderCompIdPattern, targetCompIdPattern],
    ∀ t ∈ [beginString, bodyLength, msgTypeTag, msgSeqNum],
      ∀ s ∈ (decimal t ++ [equal]).tails, s ≠ [] → ¬ s <+: p ∧ ¬ p <+: s := by decide +kernel

lemma sender_apart : ∀ s ∈ (decimal senderCompId ++ [equal]).tails, s ≠ [] →
    ¬ s <+: targetCompIdPattern ∧ ¬ targetCompIdPattern <+: s := by decide +kernel

lemma frontFields_apart {p : List Byte} (hp : p ∈ [senderCompIdPattern, targetCompIdPattern]) :
    ∀ f ∈ frontFields m, ∀ s ∈ (decimal f.1 ++ [equal]).tails, s ≠ [] →
      ¬ s <+: p ∧ ¬ p <+: s := by
  intro f hf
  have hmem : f.1 ∈ [beginString, bodyLength, msgTypeTag, msgSeqNum] :=
    List.mem_map_of_mem (f := Prod.fst) hf
  exact tags_apart p hp f.1 hmem

/-- **Both names are found** in the first message. -/
lemma validateCompId_frame (ho : WellFormed o) (hf : Findable o) (more : List Byte) (tPos : ℤ) :
    ∃ (s t : ℕ) (rest rest' : List Byte),
      validateCompId ((m.frame hw).bytes ++ more) (m.frame hw).bytes.length tPos =
        some (true, (s : ℤ), (t : ℤ)) ∧
      bytesFrom ((m.frame hw).bytes ++ more) s = some (o.senderCompId ++ soh :: rest) ∧
      bytesFrom ((m.frame hw).bytes ++ more) t = some (o.targetCompId ++ soh :: rest') := by
  obtain ⟨behind, hfields⟩ := fields_split m
  have hsender : senderCompIdPattern = decimal senderCompId ++ [equal] := by decide
  have htarget : targetCompIdPattern = decimal targetCompId ++ [equal] := by decide
  have hversion : ¬ senderCompIdPattern <:+: o.fixVersion := fun h =>
    hf.bodyLength (List.IsInfix.trans (List.suffix_cons _ _).isInfix h)
  have hraw : m.fields.map raw = (frontFields m).map raw ++ raw (senderCompId, o.senderCompId) ::
      (raw (targetCompId, o.targetCompId) :: behind.map raw) := by
    rw [hfields, List.map_append, List.map_cons, List.map_cons]
  have hraw' : m.fields.map raw =
      ((frontFields m).map raw ++ [raw (senderCompId, o.senderCompId)]) ++
        raw (targetCompId, o.targetCompId) :: behind.map raw := by
    rw [hraw, List.append_assoc, List.singleton_append]
  have hfront := not_met_front m (by decide) (by decide)
    (frontFields_apart m (p := senderCompIdPattern) (by decide)) hversion
  have hfront' : ∀ g ∈ (frontFields m).map raw ++ [raw (senderCompId, o.senderCompId)], ∀ k,
      ¬ Met targetCompIdPattern (part g) k := by
    intro g hg
    rcases List.mem_append.mp hg with hg | hg
    · exact not_met_front m (by decide) (by decide)
        (frontFields_apart m (p := targetCompIdPattern) (by decide)) hf.target.1 g hg
    · rw [List.mem_singleton.mp hg]
      exact fun k => not_met_part sender_apart hf.target.2
  obtain ⟨i, hi, hdrop⟩ := seek_raw (t := senderCompId) (by decide) ho.senderCompId.soh
    (hsender ▸ hfront) more
  obtain ⟨j, hj, hdrop'⟩ := seek_raw (t := targetCompId) (by decide) ho.targetCompId.soh
    (htarget ▸ hfront') more
  rw [← hraw, ← m.frame_bytes hw, ← hsender] at hi hdrop
  rw [← hraw', ← m.frame_bytes hw, ← htarget] at hj hdrop'
  have hthree : senderCompIdPattern.length = 3 ∧ targetCompIdPattern.length = 3 := ⟨rfl, rfl⟩
  rw [hthree.1] at hdrop
  rw [hthree.2] at hdrop'
  refine ⟨i + 3, j + 3, encode (raw (targetCompId, o.targetCompId) :: behind.map raw) ++ more,
    encode (behind.map raw) ++ more, ?_, ?_, ?_⟩
  · simp only [validateCompId, hi, hj, Option.bind_eq_bind, Option.bind_some]
    rw [if_neg (by omega), if_neg (by omega)]
    rfl
  · rw [bytesFrom, if_neg (by omega), Int.toNat_natCast, hdrop]
  · rw [bytesFrom, if_neg (by omega), Int.toNat_natCast, hdrop']

/-! ### The loop -/

/-- Of the first bytes of a connection the loop takes the first message, as soon as it is whole. -/
lemma isFullMsg_frame {n : ℕ} {m : FixMessage n} (hno : ¬ bodyLengthPattern <:+: m.version)
    {buf stale more : List Byte} (hpre : buf <+: m.bytes ++ more) (hstale : stale ≠ [])
    (hsize : buf.length < 2 ^ 30) :
    isFullMsg (buf ++ stale) buf.length =
      some (if m.bytes.length ≤ buf.length then (m.bytes.length : ℤ) else 0) := by
  obtain ⟨h1, h9⟩ := m.bodyLen_length
  have hbytes : m.bytes ++ more = front m.version ++
      (m.bodyLen ++ soh :: ([51, 53, 61] ++ m.fromType ++ more)) := by
    simp [FixMessage.bytes, FixMessage.fromLength, front, bodyLengthPattern]
  have hlen := m.bytes_length
  have hversion := m.version_length
  have hsum : checksumSize = 7 := rfl
  rw [hbytes] at hpre
  obtain hshort | ⟨ds, hds, rfl⟩ | ⟨more', rfl⟩ := fill_cases hpre
  · rw [isFullMsg_short hno hpre hshort, if_neg (by omega)]
  · have hdigits : ∀ b ∈ ds, IsDigit b := fun b hb => m.bodyLen_digits b (hds.subset hb)
    have hle := hds.length_le
    rw [isFullMsg_open hno (fun h => absurd (hdigits soh h) (by decide)) hstale, if_neg ?_]
    rw [List.length_append, front_length]
    omega
  · have hlong : (front m.version ++ (m.bodyLen ++ soh :: more')).length =
        m.version.length + 5 + m.bodyLen.length + 1 + more'.length := by
      simp only [List.length_append, List.length_cons, front_length]
      omega
    rw [isFullMsg_closed hno m.bodyLen_digits h1, hlong]
    rw [hlong] at hsize
    have hwrapped : wrappedLen 0 (m.version.length + 5 + m.bodyLen.length) (value m.bodyLen) =
        m.version.length + 5 + m.bodyLen.length + 1 + value m.bodyLen + checksumSize :=
      wrappedLen_of_digits h9 m.bodyLen_digits (by omega) (by omega)
    simp only [hwrapped]
    by_cases hle : m.bytes.length ≤ m.version.length + 5 + m.bodyLen.length + 1 + more'.length
    · rw [if_pos hle, if_neg (by omega), Option.some.injEq]
      omega
    · rw [if_neg hle, if_pos (by omega)]

/-- **The loop stops with the chunk that completes the first message.** -/
lemma recvFirst_frame {n : ℕ} {m : FixMessage n} (hno : ¬ bodyLengthPattern <:+: m.version)
    {buf more : List Byte} {chunks : List (List Byte × List Byte)}
    (hcut : buf ++ chunks.flatMap Prod.fst = m.bytes ++ more) (hbuf : buf.length < m.bytes.length)
    (hstale : ∀ c ∈ chunks, c.2 ≠ []) (hsize : (m.bytes ++ more).length ≤ handlerBufSize) :
    ∃ (before : List (List Byte × List Byte)) (chunk stale : List Byte)
      (later : List (List Byte × List Byte)), chunks = before ++ (chunk, stale) :: later ∧
      m.bytes <+: buf ++ before.flatMap Prod.fst ++ chunk ∧
      recvFirst buf chunks = some (.complete (buf ++ before.flatMap Prod.fst ++ chunk) stale
        m.bytes.length later) := by
  induction chunks generalizing buf with
  | nil =>
    have hlen := congrArg List.length hcut
    rw [List.flatMap_nil, List.append_nil, List.length_append] at hlen
    omega
  | cons c chunks ih =>
    obtain ⟨chunk, stale⟩ := c
    rw [List.flatMap_cons, ← List.append_assoc] at hcut
    have hpre : buf ++ chunk <+: m.bytes ++ more := ⟨_, hcut⟩
    have hroom : (buf ++ chunk).length ≤ handlerBufSize := hpre.length_le.trans hsize
    have hchunks : ∀ c ∈ chunks, c.2 ≠ [] := fun c hc => hstale c (by simp [hc])
    have hfull := isFullMsg_frame hno hpre (hstale (chunk, stale) (by simp))
      (lt_of_le_of_lt hroom (by decide))
    have hpos := m.bytes_length
    rw [recvFirst, if_neg (by rw [List.length_append] at hroom; omega)]
    by_cases hwhole : m.bytes.length ≤ (buf ++ chunk).length
    · have hne : chunk ≠ [] := by
        rintro rfl
        rw [List.append_nil] at hwhole
        omega
      refine ⟨[], chunk, stale, chunks, rfl, ?_, ?_⟩
      · rw [List.flatMap_nil, List.append_nil]
        exact List.prefix_of_prefix_length_le (List.prefix_append _ _) hpre hwhole
      · rw [if_neg hne, hfull, if_pos hwhole, Option.bind_some, if_pos (by omega),
          List.flatMap_nil, List.append_nil]
    · obtain ⟨before, chunk', stale', later, rfl, hwhole', hrecv⟩ :=
        ih hcut (not_le.mp hwhole) hchunks
      have hbefore : buf ++ ((chunk, stale) :: before).flatMap Prod.fst =
          buf ++ chunk ++ before.flatMap Prod.fst := by
        rw [List.flatMap_cons, List.append_assoc]
      refine ⟨(chunk, stale) :: before, chunk', stale', later, rfl, hbefore ▸ hwhole', ?_⟩
      rw [hbefore]
      by_cases hnil : chunk = []
      · subst hnil
        rw [if_pos rfl]
        rwa [List.append_nil] at hrecv ⊢
      · rw [if_neg hnil, hfull, if_neg hwhole, Option.bind_some, if_neg (lt_irrefl _)]
        exact hrecv

/-! ### What is handed over -/

/-- With room for all of it the connector does with the buffer what it would have done with the same
bytes from `recv`. -/
lemma acceptorRecvMsgs_of_recvAll {n : ℕ} {r r' : Receiver} {buf stale : List Byte}
    {later : List (List Byte × List Byte)} {outs : List (List RMessage × Bool)}
    (hnew : r.recvBufHead < r.recvBufTail + buf.length)
    (hroom : r.recvBufTail + buf.length ≤ r.recvBufSize)
    (hall : r.recvAll n ((buf, stale) :: later) = some (r', outs))
    (hok : ∀ out ∈ outs, out.2 = true) :
    acceptorRecvMsgs n r buf stale later = some (r', outs.flatMap Prod.fst) := by
  rw [Receiver.recvAll] at hall
  obtain ⟨⟨r₁, out⟩, hfirst, hall⟩ := Option.bind_eq_some_iff.mp hall
  obtain ⟨⟨r₂, outs'⟩, hlater, heq⟩ := Option.map_eq_some_iff.mp hall
  cases heq
  simp only [Receiver.recvMsgs] at hfirst
  obtain ⟨⟨head, msgs, ok⟩, hproc, heq⟩ := Option.map_eq_some_iff.mp hfirst
  cases ok with
  | false =>
    cases heq
    exact absurd (hok _ List.mem_cons_self) (by simp)
  | true =>
    simp only [if_true] at heq
    rw [if_neg (not_lt.mpr hroom)] at heq
    cases heq
    simp only [acceptorRecvMsgs, recvHandedOver, acceptorConnector, gt_iff_lt, hnew, if_true, hproc,
      Option.map_some, Option.bind_some, hlater]
    rfl

/-- The messages of a stream that was handed over in part are given to `process_msg` as they are
when all of it is received. -/
lemma acceptorRecvMsgs_stream {n : ℕ} {r : Receiver} {msgs : List (FixMessage n)}
    {buf stale : List Byte} {later : List (List Byte × List Byte)} (hbuf : buf ≠ [])
    (hempty : r.recvBufHead = r.recvBufTail)
    (hpos : 0 ≤ r.recvBufTail ∧ r.recvBufTail ≤ r.recvBuf.length) (hint : r.recvBufSize < 2 ^ 31)
    (hroom : r.recvBufTail + (stream msgs).length ≤ r.recvBufSize)
    (hcut : buf ++ later.flatMap Prod.fst = stream msgs)
    (hstale : ∀ c ∈ (buf, stale) :: later, c.2 ≠ []) :
    ∃ r', acceptorRecvMsgs n r buf stale later = some (r', msgs.map FixMessage.received) := by
  have hcut' : ((buf, stale) :: later).flatMap Prod.fst ++ [] = stream msgs := by
    rw [List.append_nil, List.flatMap_cons, hcut]
  obtain ⟨r', outs, done, todo, hrecv, hmsgs, houts, hok, -, -, htodo⟩ :=
    recvAll_stream hempty hpos hroom hint hcut' hstale
  have hpart : buf.length ≤ (stream msgs).length := by
    rw [← hcut, List.length_append]
    omega
  have hne := List.length_pos_iff.mpr hbuf
  refine ⟨r', ?_⟩
  rw [acceptorRecvMsgs_of_recvAll (by omega) (by omega) hrecv hok, houts, hmsgs, htodo rfl,
    List.append_nil]

lemma infoSize_le (msg behind : List Byte) :
    infoSize (msg ++ behind) msg.length ≤ msg.length + 11 := by
  rw [infoSize, Int.toNat_natCast, List.take_left]
  have := (List.takeWhile_sublist (l := msg) (· ≠ 0)).length_le
  omega

/-- What is handed over is the start of the stream, with the first message in it. -/
lemma connectionHandler_frames (ho : WellFormed o) (hf : Findable o) {ms : List (Sending o)}
    (hsessions : ∀ s ∈ sessions, Clean s.senderCompId ∧ Clean s.targetCompId)
    (hlog : (m.frame hw).bytes.length + 11 ≤ logBufSize) {chunks : List (List Byte × List Byte)}
    (hcut : chunks.flatMap Prod.fst = (m.frame hw).bytes ++ stream (ms.map fun m => m.frame hw))
    (hstale : ∀ c ∈ chunks, c.2 ≠ [])
    (hsize : ((m.frame hw).bytes ++ stream (ms.map fun m => m.frame hw)).length ≤ handlerBufSize)
    (tPos : ℤ) :
    ∃ buf later, buf ≠ [] ∧ later ⊆ chunks ∧
      buf ++ later.flatMap Prod.fst = chunks.flatMap Prod.fst ∧
      connectionHandler sessions tPos chunks =
        match sessions.findIdx? fun s => Has s o.targetCompId o.senderCompId with
        | none => some .closed
        | some i => some (.handedOver i buf later) := by
  have hpos : 0 < (m.frame hw).bytes.length := by
    rw [FixMessage.bytes_length]
    exact Nat.add_pos_right _ (by decide)
  obtain ⟨before, chunk, stale, later, rfl, ⟨rest, hrest⟩, hrecv⟩ :=
    @recvFirst_frame _ (m.frame hw) hf.bodyLength [] _ chunks hcut hpos hstale hsize
  have hids := validateCompId_frame m hw ho hf (rest ++ stale) tPos
  have hinfo := infoSize_le (m.frame hw).bytes (rest ++ stale)
  rw [← List.append_assoc, hrest] at hids hinfo
  obtain ⟨s, t, restS, restT, hvalid, hs, ht⟩ := hids
  have hfind := findSession_text hsessions ho.targetCompId ho.senderCompId restT restS 0
  refine ⟨[] ++ before.flatMap Prod.fst ++ chunk, later, ?_, by simp, by simp, ?_⟩
  · rw [← hrest]
    exact List.append_ne_nil_of_left_ne_nil (List.ne_nil_of_length_pos hpos) rest
  · rw [connectionHandler, hrecv, Option.bind_some]
    simp only [if_neg (not_lt.mpr (hinfo.trans hlog)), gt_iff_lt, hvalid, if_true,
      Option.bind_eq_bind, Option.bind_some, hs, ht, hfind]
    cases sessions.findIdx? fun s => Has s o.targetCompId o.senderCompId with
    | none => rfl
    | some i => simp

def optionsBA : SessionOption :=
  { optionsAB with senderCompId := [66], targetCompId := [65] }

lemma optionsAB_findable : Findable optionsAB := ⟨by decide, by decide⟩

lemma optionsBA_clean :
    ∀ s ∈ [optionsBA], Clean s.senderCompId ∧ Clean s.targetCompId := by
  intro s hs
  rw [List.mem_singleton.mp hs]
  exact ⟨by decide, by decide⟩

end Ufix.Acceptor
