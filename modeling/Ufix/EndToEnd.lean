import Ufix.BufferStream
import Ufix.SocketBytes

/-!
From `send_msg` on one side to the application on the other.

What the sender is told of its messages is what the application of the peer reads, through a socket
that takes bytes as it likes and a receive buffer that starts over.
-/

namespace Ufix.EndToEnd

open Ufix.Runs Ufix.Framing Ufix.Decimal Ufix.TagValue Ufix.Transfer Ufix.Compose Ufix.SocketBytes
open Ufix.BufferStream

variable {n seq : ℕ} {ms : List (FixMessage n)} {wire : List Byte} {l : Reader}

lemma undisturbed_of_begins {stream : List Byte} (h : wire <+: stream) {a : RecvBuf.Act}
    (hok : Undisturbed wire l a) : Undisturbed stream l a := by
  cases a with
  | recv chunk => exact ⟨hok.1.trans h, hok.2⟩
  | _ => exact hok

lemma received_begins {l' : Reader} {a : RecvBuf.Act} (h : l.received <+: wire)
    (hok : Undisturbed wire l a) (hs : step l a = some l') : l'.received <+: wire := by
  cases a with
  | recv chunk =>
    obtain ⟨c, -, rfl⟩ := Option.map_eq_some_iff.mp hs
    exact hok.1
  | lost | stop | accept _ | updateSeq _ _ => exact hok.elim
  | _ =>
    obtain ⟨c, -, rfl⟩ := Option.map_eq_some_iff.mp hs
    exact h

lemma run_begins {size qSize : ℕ} (hsize : 0 < qSize) {seq : UInt64} {mem : ℕ → Byte}
    {ms : List (FixMessage n)} (hms : InSequence seq.toNat ms) (hbegin : wire <+: stream ms)
    {acts : List RecvBuf.Act}
    (hok : Meets step (Undisturbed wire) (start n size qSize seq mem) acts)
    (hr : run step (start n size qSize seq mem) acts = some l) :
    Inv seq.toNat ms l ∧ l.received <+: wire := by
  refine run_induct (P := fun l => Inv seq.toNat ms l ∧ l.received <+: wire)
    (fun l a l' h hok hs => ?_) ⟨start_inv hsize hms mem, List.nil_prefix⟩ hok hr
  exact ⟨step_inv hms h.1 (undisturbed_of_begins hbegin hok) hs, received_begins h.2 hok hs⟩

/-! ### The whole way -/

def entryOf (w : WMessage) : ℕ × List Byte := (w.seq, w.data)

variable {ws : List WMessage}

lemma entryOf_sent (hms : InSequence seq ms)
    (hsent : ws.map sent = (ms.map FixMessage.received).map received) :
    ws.map entryOf = ms.map entry := by
  have hentry : ∀ m ∈ ms, Prod.swap (received m.received) = entry m := by
    intro m hm
    obtain ⟨k, hk⟩ := List.mem_iff_getElem?.mp hm
    have hvalue := hms.number k m hk
    have hlt := (List.getElem?_eq_some_iff.mp hk).1
    have hbound := hms.bound
    exact congrArg (·, m.bytes) (ulong_of_lt (by omega))
  calc ws.map entryOf = (ws.map sent).map Prod.swap := by
        rw [List.map_map]
        rfl
    _ = ms.map fun m => Prod.swap (received m.received) := by
        rw [hsent, List.map_map, List.map_map]
        rfl
    _ = ms.map entry := List.map_congr_left hentry

variable {o : SessionOption} {results : List SendResult}

def NumberedFrom (seq : ℕ) (ms : List (Outgoing o)) : Prop :=
  ∀ k m, ms[k]? = some m → value m.msgSeq = seq + k + 1

lemma inSequence_frames (hw : o.maxBodyLengthSize ≤ 9) {ms : List (Outgoing o)}
    (hnum : NumberedFrom seq ms) (hbound : seq + ms.length + 1 < 2 ^ 64)
    (hint : ∀ m ∈ ms.map fun m => m.frame hw, m.bytes.length < 2 ^ 31) :
    InSequence seq (ms.map fun m => m.frame hw) := by
  refine ⟨fun k m hk => ?_, by rwa [List.length_map], hint⟩
  rw [List.getElem?_map] at hk
  obtain ⟨m', hm', rfl⟩ := Option.map_eq_some_iff.mp hk
  exact hnum k m' hm'

/-- **What is reported is what is read**: in every interleaving of the peer's receiver with its
consumer in which no write reaches a message still to be read, the application reads only messages
for which `send_msg` returned `1`, in order and once, with their numbers and their bytes; and when
everything on the wire was received and neither thread can go on, it has read all of them. -/
theorem read_reported (ho : WellFormed o) (hw : o.maxBodyLengthSize ≤ 9) {seq : UInt64}
    {ms : List (Outgoing o)} (hnum : NumberedFrom seq.toNat ms)
    (hbound : seq.toNat + ms.length + 1 < 2 ^ 64) (hstays : StaysFailed results)
    {size qSize : ℕ} (hsize : 0 < qSize) (mem : ℕ → Byte) :
    ∃ ws, ms.mapM Outgoing.send = some ws ∧
      ((∀ w ∈ ws, w.data.length < 2 ^ 31) →
        ∀ wire codes, sendMsgs (ws.map WMessage.data) results = some (wire, codes) →
          ∀ acts l,
            Meets step (Undisturbed wire) (start o.fixVersion.length size qSize seq mem) acts →
            run step (start o.fixVersion.length size qSize seq mem) acts = some l →
            l.read <+: (reported ws codes).map entryOf ∧
              (l.received = wire → step l .round = none → step l .get = none →
                step l .reset = none → l.read = (reported ws codes).map entryOf)) := by
  obtain ⟨ws, hws, -, hsent⟩ := mapM_send ho hw ms
  refine ⟨ws, hws, fun hint wire codes hsend acts l hok hr => ?_⟩
  have hdata := data_of_sent hsent
  have hms : InSequence seq.toNat (ms.map fun m => m.frame hw) := by
    refine inSequence_frames hw hnum hbound fun m hm => ?_
    have hmem := List.mem_map_of_mem (f := FixMessage.bytes) hm
    rw [← hdata] at hmem
    obtain ⟨w, hw', heq⟩ := List.mem_map.mp hmem
    rw [← heq]
    exact hint w hw'
  rw [hdata] at hsend
  obtain ⟨done, todo, part, hmsgs, hwire, hpart, hcodes⟩ := sendMsgs_spec hstays hsend
  obtain ⟨rest, hrest⟩ := hpart.begins
  have hbegin : wire <+: stream (ms.map fun m => m.frame hw) :=
    ⟨rest, by rw [hwire, List.append_assoc, hrest, hmsgs, stream_append]⟩
  have hend := run_begins hsize hms hbegin hok hr
  have hreported : (reported ws codes).map entryOf = done.map entry := by
    have hlength : ws.length = done.length + todo.length := by
      have := congrArg List.length hsent
      rwa [List.length_map, List.length_map, List.length_map, hmsgs, List.length_append] at this
    rw [hcodes, reported_replicate hlength, List.map_take, entryOf_sent hms hsent, hmsgs,
      List.map_append, List.take_left' (List.length_map _)]
  rw [hreported]
  rw [hwire] at hend ⊢
  exact ⟨hend.1.read_begins hmsgs hpart hend.2,
    fun hall => hend.1.read_all hms hmsgs hpart hall⟩

/-! #### An example -/

open SessionExchange Heartbeat

def number13 : List Byte := padded 10 13

lemma number13_digits : ∀ b ∈ number13, IsDigit b := fun _ => isDigit_of_mem_padded

lemma number13_fits : (encodeAll (bodyFields optionsAB askMissing.outgoing.msgType number13 newYear
    (moreFields optionsAB askMissing.outgoing.msgSeq₀ askMissing.outgoing.msgType
      askMissing.outgoing.app))).length < 10 ^ optionsAB.maxBodyLengthSize := by
  decide +kernel

/-- The same request as message `13`. -/
def askAgain : Outgoing optionsAB :=
  { askMissing.outgoing with
    msgSeq := number13
    msgSeq_digits := number13_digits
    msgSeq_length := padded_length _ _
    fits := number13_fits }

def againBytes : List Byte := (askAgain.frame optionsAB_bodyLength).bytes

def tornWire : List Byte := askBytes ++ againBytes.take 9

lemma tornWire_sent :
    sendMsgs [askBytes, againBytes] tornResults = some (tornWire, [true, false]) := by
  decide +kernel

/-- The buffer starts over within the first message, and again behind it. -/
def tornActs : List RecvBuf.Act :=
  [.recv (tornWire.take 100), .round, .recv (tornWire.drop 100), .round, .get, .reset, .round]

def tornStart : Reader := start 7 40 4 11 fun _ => 0

lemma tornActs_undisturbed : Meets step (Undisturbed tornWire) tornStart tornActs := by
  decide +kernel

lemma tornActs_end :
    (run step tornStart tornActs).map (fun l => (l.received, (step l .round).isNone,
      (step l .get).isNone, (step l .reset).isNone)) = some (tornWire, true, true, true) := by
  decide +kernel

lemma askAgain_numbered : NumberedFrom (11 : UInt64).toNat [askMissing.outgoing, askAgain] := by
  intro k m hm
  have h12 : value askMissing.outgoing.msgSeq = 12 := by decide +kernel
  have h13 : value askAgain.msgSeq = 13 := by decide +kernel
  rcases k with _ | _ | k
  · cases hm
    exact h12
  · cases hm
    exact h13
  · cases hm

lemma againBytes_length : againBytes.length = 124 := by decide +kernel

theorem read_reported_torn :
    ∃ w l, askMissing.outgoing.send = some w ∧ run step tornStart tornActs = some l ∧
      l.read = [(w.seq, w.data)] := by
  obtain ⟨ws, hws, h⟩ := @read_reported optionsAB tornResults optionsAB_wellFormed
    optionsAB_bodyLength 11 [askMissing.outgoing, askAgain] askAgain_numbered (by decide)
    (by decide) 40 4 (by decide) (fun _ => 0)
  obtain ⟨w, hsend, hdata, -⟩ := askMissing.outgoing.send_eq optionsAB_wellFormed
    optionsAB_bodyLength
  obtain ⟨w', hsend', hdata', -⟩ := askAgain.send_eq optionsAB_wellFormed optionsAB_bodyLength
  obtain rfl : ws = [w, w'] := by
    rw [List.mapM_cons, List.mapM_cons, hsend, hsend'] at hws
    exact (Option.some.inj hws).symm
  have hw : w.data = askBytes := hdata
  have hw' : w'.data = againBytes := hdata'
  have hint : ∀ v ∈ [w, w'], v.data.length < 2 ^ 31 := by
    simp [hw, hw', askBytes_length, againBytes_length]
  have htorn : sendMsgs ([w, w'].map WMessage.data) tornResults =
      some (tornWire, [true, false]) := by
    rw [List.map_cons, List.map_cons, hw, hw']
    exact tornWire_sent
  obtain ⟨l, hl, hend⟩ := Option.map_eq_some_iff.mp tornActs_end
  simp only [Prod.mk.injEq, Option.isNone_iff_eq_none] at hend
  obtain ⟨hall, hround, hget, hreset⟩ := hend
  obtain ⟨-, hread⟩ := h hint tornWire _ htorn tornActs l tornActs_undisturbed hl
  exact ⟨w, l, hsend, hl, hread hall hround hget hreset⟩

end Ufix.EndToEnd
