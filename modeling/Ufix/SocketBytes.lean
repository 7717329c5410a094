import Ufix.SessionExchange

/-!
The bytes of a connection: what the socket takes of a message and what the sender makes of it.

The socket may take a message in parts, may be full for a while, and may fail. What `send_msg`
returns is what the receiver of the peer knows of it, as long as a socket that has failed takes
nothing more.
-/

namespace Ufix.SocketBytes

open Framing Transfer Compose

/-! ### The loop -/

/-- What a call of `socket_send` comes to. -/
inductive SendResult
  | taken (nbytes : ℕ)
  /-- `EAGAIN`, `EWOULDBLOCK` or `EINTR` -/
  | again
  | failed
  deriving DecidableEq

/-- The loop of `send_msg` on a message of `len` bytes: how far it comes, what `send_msg` returns,
and the results of the calls to come. The socket takes no more than it is given, and something. -/
def sendLoop (len : ℕ) : ℕ → List SendResult → Option (ℕ × Bool × List SendResult)
  | _, [] => none
  | offset, .taken nbytes :: results =>
    if nbytes = 0 ∨ len < offset + nbytes then none
    else if offset + nbytes = len then some (offset + nbytes, true, results)
    else sendLoop len (offset + nbytes) results
  | offset, .again :: results => sendLoop len offset results
  | offset, .failed :: results => some (offset, false, results)

/-- The messages given to `send_msg` on a connection: the bytes on the wire, and the codes. -/
def sendMsgs : List (List Byte) → List SendResult → Option (List Byte × List Bool)
  | [], _ => some ([], [])
  | data :: msgs, results => do
    let (offset, code, results) ← sendLoop data.length 0 results
    let (wire, codes) ← sendMsgs msgs results
    some (data.take offset ++ wire, code :: codes)

/-- A socket that has failed goes on to fail. -/
def StaysFailed : List SendResult → Prop
  | [] => True
  | .failed :: results => ∀ r ∈ results, r = .failed
  | _ :: results => StaysFailed results

instance decidableStaysFailed : DecidablePred StaysFailed
  | [] => instDecidableTrue
  | .failed :: results => inferInstanceAs (Decidable (∀ r ∈ results, r = .failed))
  | .taken _ :: results => decidableStaysFailed results
  | .again :: results => decidableStaysFailed results

/-- The messages for which `send_msg` returned `1`. -/
def reported {α : Type*} (msgs : List α) (codes : List Bool) : List α :=
  ((msgs.zip codes).filter Prod.snd).map Prod.fst

/-! ### What is on the wire -/

variable {len offset offset' : ℕ} {code : Bool} {results later : List SendResult}

/-- A message is on the wire whole when it was sent, and in part when it was not. -/
lemma sendLoop_spec (hlt : offset < len)
    (h : sendLoop len offset results = some (offset', code, later)) :
    (code = true ∧ offset' = len) ∨ (code = false ∧ offset' < len) := by
  induction results generalizing offset with
  | nil => cases h
  | cons r results ih =>
    cases r with
    | taken nbytes =>
      rw [sendLoop] at h
      split at h
      · cases h
      split at h
      · rename_i hall
        cases h
        exact .inl ⟨rfl, hall⟩
      · exact ih (by omega) h
    | again => exact ih hlt h
    | failed =>
      cases h
      exact .inr ⟨rfl, hlt⟩

lemma sendLoop_later (hstays : StaysFailed results)
    (h : sendLoop len offset results = some (offset', code, later)) :
    StaysFailed later ∧ (code = false → ∀ r ∈ later, r = .failed) := by
  induction results generalizing offset with
  | nil => cases h
  | cons r results ih =>
    cases r with
    | taken nbytes =>
      rw [sendLoop] at h
      split at h
      · cases h
      split at h
      · cases h
        exact ⟨hstays, fun hcode => by cases hcode⟩
      · exact ih hstays h
    | again => exact ih hstays h
    | failed =>
      cases h
      refine ⟨?_, fun _ => hstays⟩
      cases later with
      | nil => trivial
      | cons r later =>
        rw [hstays r List.mem_cons_self]
        exact fun r hr => hstays r (List.mem_cons_of_mem _ hr)

/-- Nothing more goes out on a socket that has failed. -/
lemma sendMsgs_failed {msgs : List (List Byte)} {wire : List Byte} {codes : List Bool}
    (hfailed : ∀ r ∈ results, r = .failed) (h : sendMsgs msgs results = some (wire, codes)) :
    wire = [] ∧ codes = List.replicate msgs.length false := by
  induction msgs generalizing results wire codes with
  | nil =>
    cases h
    exact ⟨rfl, rfl⟩
  | cons data msgs ih =>
    cases results with
    | nil => cases h
    | cons r results =>
      obtain rfl := hfailed r List.mem_cons_self
      simp only [sendMsgs, sendLoop, Option.bind_eq_bind, Option.bind_some,
        Option.bind_eq_some_iff] at h
      obtain ⟨⟨wire', codes'⟩, hmsgs, heq⟩ := h
      cases heq
      obtain ⟨rfl, rfl⟩ := ih (fun r hr => hfailed r (List.mem_cons_of_mem _ hr)) hmsgs
      exact ⟨by simp, rfl⟩

/-- The whole messages on the wire are those that were sent, and they are the first ones. -/
lemma sendMsgs_spec {n : ℕ} {msgs : List (FixMessage n)} {wire : List Byte} {codes : List Bool}
    (hstays : StaysFailed results)
    (h : sendMsgs (msgs.map FixMessage.bytes) results = some (wire, codes)) :
    ∃ done todo part, msgs = done ++ todo ∧ wire = stream done ++ part ∧ Unfinished part todo ∧
      codes = List.replicate done.length true ++ List.replicate todo.length false := by
  induction msgs generalizing results wire codes with
  | nil =>
    cases h
    exact ⟨[], [], [], rfl, rfl, rfl, rfl⟩
  | cons m msgs ih =>
    simp only [List.map_cons, sendMsgs, Option.bind_eq_bind, Option.bind_eq_some_iff] at h
    obtain ⟨⟨offset, code, later⟩, hloop, ⟨wire', codes'⟩, hmsgs, heq⟩ := h
    cases heq
    have hpos : 0 < m.bytes.length := by
      rw [m.bytes_length]
      exact Nat.add_pos_right _ (by decide)
    obtain ⟨hlater, hfailed⟩ := sendLoop_later hstays hloop
    rcases sendLoop_spec hpos hloop with ⟨rfl, rfl⟩ | ⟨rfl, hlt⟩
    · obtain ⟨done, todo, part, rfl, rfl, hpart, rfl⟩ := ih hlater hmsgs
      refine ⟨m :: done, todo, part, rfl, ?_, hpart, rfl⟩
      rw [List.take_length, stream_cons, List.append_assoc]
    · obtain ⟨rfl, rfl⟩ := sendMsgs_failed (hfailed rfl) hmsgs
      refine ⟨[], m :: msgs, m.bytes.take offset, rfl, ?_, ⟨offset, hlt, rfl⟩, ?_⟩
      · rw [List.append_nil]
        rfl
      · rw [List.length_map]
        rfl

/-! ### What is received -/

lemma reported_append {α : Type*} (done todo : List α) :
    reported (done ++ todo)
      (List.replicate done.length true ++ List.replicate todo.length false) = done := by
  induction done with
  | nil =>
    induction todo with
    | nil => rfl
    | cons a todo ih => exact ih
  | cons a done ih => exact congrArg (a :: ·) ih

lemma reported_replicate {α : Type*} {l : List α} {j k : ℕ} (h : l.length = j + k) :
    reported l (List.replicate j true ++ List.replicate k false) = l.take j := by
  have htake : (l.take j).length = j := by
    rw [List.length_take, h, Nat.min_eq_left (Nat.le_add_right _ _)]
  have hdrop : (l.drop j).length = k := by
    rw [List.length_drop, h, Nat.add_sub_cancel_left]
  have := reported_append (l.take j) (l.drop j)
  rwa [List.take_append_drop, htake, hdrop] at this

variable {o : SessionOption}

/-- **What is reported is what is received**: the receiver of the peer hands on the messages for
which `send_msg` returned `1`, and no others, in order and once, however the socket takes them and
the bytes are cut. -/
theorem received_reported (ho : WellFormed o) (hw : o.maxBodyLengthSize ≤ 9)
    (ms : List (Outgoing o)) (hstays : StaysFailed results) {r : Receiver}
    {chunks : List (List Byte × List Byte)} (hempty : r.recvBufHead = r.recvBufTail)
    (hpos : 0 ≤ r.recvBufTail ∧ r.recvBufTail ≤ r.recvBuf.length) (hint : r.recvBufSize < 2 ^ 31)
    (hstale : ∀ c ∈ chunks, c.2 ≠ []) :
    ∃ ws, ms.mapM Outgoing.send = some ws ∧
      (r.recvBufTail + (ws.flatMap WMessage.data).length ≤ r.recvBufSize →
        ∀ wire codes, sendMsgs (ws.map WMessage.data) results = some (wire, codes) →
          chunks.flatMap Prod.fst = wire →
          ∃ r' outs, Receiver.recvAll o.fixVersion.length r chunks = some (r', outs) ∧
            (outs.flatMap Prod.fst).map received = (reported ws codes).map sent ∧
            ∀ out ∈ outs, out.2 = true) := by
  obtain ⟨ws, hws, hstream, hsent⟩ := mapM_send ho hw ms
  refine ⟨ws, hws, fun hroom wire codes hsend hcut => ?_⟩
  have hdata := data_of_sent hsent
  rw [hdata] at hsend
  obtain ⟨done, todo, part, hmsgs, hwire, hpart, hcodes⟩ := sendMsgs_spec hstays hsend
  obtain ⟨rest, hrest⟩ := hpart.begins
  have hall : chunks.flatMap Prod.fst ++ rest = stream (ms.map fun m => m.frame hw) := by
    rw [hcut, hwire, List.append_assoc, hrest, hmsgs, stream_append]
  obtain ⟨r', outs, done', todo', hrecv, hmsgs', houts, hok, hpending, hpart', -⟩ :=
    recvAll_stream hempty hpos (hstream ▸ hroom) hint hall hstale
  obtain rfl : done = done' := done_unique (hmsgs.symm.trans hmsgs')
    ((hcut.trans hwire).symm.trans hpending) hpart hpart'
  refine ⟨r', outs, hrecv, ?_, hok⟩
  have hlength : ws.length = done.length + todo.length := by
    have := congrArg List.length hdata
    rwa [List.length_map, List.length_map, hmsgs, List.length_append] at this
  have hreported : reported ws codes = ws.take done.length := by
    rw [hcodes, reported_replicate hlength]
  rw [houts, hreported, List.map_take, hsent, hmsgs, List.map_append, List.map_append,
    List.take_left' (by rw [List.length_map, List.length_map])]

/-! #### An example -/

open SessionExchange

/-- The socket takes the first message in two parts, and fails within the second. -/
def tornResults : List SendResult := [.taken 40, .again, .taken 84, .taken 9, .failed]

def askBytes : List Byte := (askMissing.frame optionsAB_bodyLength).bytes

def tornChunks : List (List Byte × List Byte) :=
  [(askBytes.take 100, [7]), (askBytes.drop 100 ++ askBytes.take 9, [7])]

lemma tornChunks_sent :
    sendMsgs [askBytes, askBytes] tornResults =
      some (tornChunks.flatMap Prod.fst, [true, false]) := by decide +kernel

lemma askBytes_length : askBytes.length = 124 := by decide +kernel

theorem received_reported_torn :
    ∃ w r' outs, askMissing.outgoing.send = some w ∧
      Receiver.recvAll 7 ⟨[], 2048, 0, 0⟩ tornChunks = some (r', outs) ∧
      (outs.flatMap Prod.fst).map received = [sent w] := by
  obtain ⟨ws, hws, h⟩ := @received_reported tornResults optionsAB optionsAB_wellFormed
    optionsAB_bodyLength [askMissing.outgoing, askMissing.outgoing] (by decide)
    ⟨[], 2048, 0, 0⟩ tornChunks rfl (by decide) (by decide) (by simp [tornChunks])
  obtain ⟨w, hsend, hdata, -⟩ := askMissing.outgoing.send_eq optionsAB_wellFormed
    optionsAB_bodyLength
  obtain rfl : ws = [w, w] := by
    rw [List.mapM_cons, List.mapM_cons, hsend] at hws
    exact (Option.some.inj hws).symm
  have hw : w.data = askBytes := hdata
  have hroom : 0 + (([w, w].flatMap WMessage.data).length : ℤ) ≤ 2048 := by
    rw [List.flatMap_cons, List.flatMap_cons, hw, List.length_append, List.length_append,
      askBytes_length]
    decide
  obtain ⟨r', outs, hrecv, hreceived, -⟩ := h hroom _ [true, false]
    (by rw [List.map_cons, List.map_cons, hw]; exact tornChunks_sent) rfl
  exact ⟨w, r', outs, hsend, hrecv, hreceived⟩

end Ufix.SocketBytes
