import Ufix.SingleProcess

/-!
The queues are served in turn: `send_data` takes at most `WINDOW_QUEUE_RR_SIZE` messages of a queue
before it goes on to the next.

Other threads add messages while a pass is under way. However much they add to the other queues,
a message waits for no more passes than its own queue needs to come to it.
-/

namespace Ufix.RoundRobin

open Ufix.Runs Ufix.Sender Ufix.History Ufix.SingleProcess Ufix.SentLog
open Ufix.SocketConnector (windowQueueRrSize)

/-- Where the sender thread is: outside of `send_data`, at the test of queue `i`, or in the inner
loop of queue `i` with `q_msgs_sent`. -/
inductive Turn
  | out
  | queue (i : ℕ)
  | inner (i qMsgsSent : ℕ)
  deriving DecidableEq

/-- The sender of a connection with the place of its thread, the passes it has completed and
`num_msgs_sent` of the last one begun. -/
structure Loop where
  conn : SocketConnector
  turn : Turn
  passes : ℕ
  numMsgsSent : ℕ

inductive Event
  /-- another thread adds a message, or the sender thread does something else than `send_data` -/
  | act (a : Act)
  /-- the sender thread goes on with `send_data`; `ok` is what the socket makes of a message -/
  | round (ok : Bool)

/-- The application adds a message, whatever the sender thread does. -/
def IsAdd : Act → Bool
  | .addMsg _ _ => true
  | _ => false

variable (o : SessionOption)

def round (l : Loop) (ok : Bool) : Option Loop :=
  match l.turn with
  | .out =>
    if l.conn.socketSendFlag ∧ l.conn.logonSent then
      some { l with turn := .queue 1, numMsgsSent := 0 }
    else none
  | .queue i =>
    if i > o.numSendQueues then some { l with turn := .out, passes := l.passes + 1 }
    else
      let r := l.conn.isQueueAvailable o i
      some { l with conn := r.2, turn := if r.1 then .inner i 0 else .queue (i + 1) }
  | .inner i n =>
    let done := { l with turn := .queue (i + 1), numMsgsSent := l.numMsgsSent + n }
    if n < windowQueueRrSize then
      match l.conn.sendQueuedMsg o i ok with
      | none => some done
      | some c =>
        if c.socketSendFlag then some { l with conn := c, turn := .inner i (n + 1) }
        else some { done with conn := c }
    else some done

def step (l : Loop) : Event → Option Loop
  | .act a =>
    if l.turn = .out ∨ IsAdd a then
      (Sender.step o l.conn a).map fun c => { l with conn := c }
    else none
  | .round ok => round o l ok

/-- The socket takes every new message. -/
def Smooth : Event → Prop
  | .act a => Taken a
  | .round ok => ok = true

instance : DecidablePred Smooth
  | .act a => inferInstanceAs (Decidable (Taken a))
  | .round ok => inferInstanceAs (Decidable (ok = true))

/-- Queue `i` is open when its turn comes. -/
def Open (i : ℕ) (l : Loop) : Prop :=
  l.turn = .queue i → (l.conn.session.sendQueues i).isClose.1 = false

instance (i : ℕ) (l : Loop) : Decidable (Open i l) := inferInstanceAs (Decidable (_ → _))

def start (M : ℕ) (lastQ : ℤ) : Loop := ⟨boot o M PManager.empty lastQ, .out, 0, 0⟩

variable {o} {M : ℕ} {l l' : Loop} {p p' : SocketConnector} {i : ℕ}

/-! ### A pass without others in between -/

/-- The rounds of the inner loop are those of `send_data`. -/
lemma inner_sendQueue (ok : ℕ → Bool) (l : Loop) {m n : ℕ} (hl : l.turn = .inner i m)
    (hn : m + n = windowQueueRrSize) :
    ∃ oks : List Bool, run (step o) l (oks.map .round) =
      some ⟨(l.conn.sendQueue o ok i n).1, .queue (i + 1), l.passes,
        l.numMsgsSent + (m + (l.conn.sendQueue o ok i n).2)⟩ := by
  induction n generalizing l m with
  | zero =>
    refine ⟨[true], ?_⟩
    simp only [List.map_cons, List.map_nil, run_cons, step, round, hl]
    rw [if_neg (by omega)]
    rfl
  | succ n ih =>
    simp only [SocketConnector.sendQueue]
    cases hc : l.conn.sendQueuedMsg o i (ok l.conn.wire.length) with
    | none =>
      refine ⟨[ok l.conn.wire.length], ?_⟩
      simp only [List.map_cons, List.map_nil, run_cons, step, round, hl, hc]
      rw [if_pos (by omega)]
      rfl
    | some c =>
      by_cases hflag : c.socketSendFlag = true
      · obtain ⟨oks, hoks⟩ := ih { l with conn := c, turn := .inner i (m + 1) } rfl (by omega)
        refine ⟨ok l.conn.wire.length :: oks, ?_⟩
        simp only [List.map_cons, run_cons, step, round, hl, hc, hflag, if_true]
        rw [if_pos (by omega), Option.bind_some, hoks]
        simp only [Nat.add_assoc, Nat.add_comm 1]
      · refine ⟨[ok l.conn.wire.length], ?_⟩
        simp only [List.map_cons, List.map_nil, run_cons, step, round, hl, hc, hflag,
          Bool.false_eq_true, if_false]
        rw [if_pos (by omega)]
        rfl

/-- So are the looks at the queues one after the other. -/
lemma queue_sendQueues (ok : ℕ → Bool) (l : Loop) {k j : ℕ} (hl : l.turn = .queue j)
    (hj : j + k = o.numSendQueues + 1) (h1 : 1 ≤ j) :
    ∃ oks : List Bool, run (step o) l (oks.map .round) =
      some ⟨(l.conn.sendQueues o ok (List.range' j k)).1, .out, l.passes + 1,
        l.numMsgsSent + (l.conn.sendQueues o ok (List.range' j k)).2⟩ := by
  induction k generalizing l j with
  | zero =>
    refine ⟨[true], ?_⟩
    simp only [List.map_cons, List.map_nil, run_cons, step, round, hl]
    rw [if_pos (by omega)]
    rfl
  | succ k ih =>
    rw [List.range'_succ]
    simp only [SocketConnector.sendQueues]
    set c := (l.conn.isQueueAvailable o j).2 with hc
    have hlook : ∀ b, step o l (.round b) = some { l with
        conn := c
        turn := if (l.conn.isQueueAvailable o j).1 then .inner j 0 else .queue (j + 1) } := by
      intro b
      simp only [step, round, hl]
      rw [if_neg (by omega)]
    by_cases havail : (l.conn.isQueueAvailable o j).1 = true
    · simp only [havail, if_true] at hlook ⊢
      obtain ⟨as, has⟩ := inner_sendQueue (o := o) ok { l with conn := c, turn := .inner j 0 } rfl
        (Nat.zero_add windowQueueRrSize)
      obtain ⟨bs, hbs⟩ := ih ⟨(c.sendQueue o ok j windowQueueRrSize).1, .queue (j + 1), l.passes,
        l.numMsgsSent + (0 + (c.sendQueue o ok j windowQueueRrSize).2)⟩ rfl (by omega) (by omega)
      refine ⟨true :: (as ++ bs), ?_⟩
      rw [List.map_cons, run_cons, hlook, Option.bind_some, List.map_append, run_append, has,
        Option.bind_some, hbs]
      simp only [Nat.zero_add, Nat.add_assoc]
    · simp only [havail, Bool.false_eq_true, if_false] at hlook ⊢
      obtain ⟨bs, hbs⟩ := ih { l with conn := c, turn := .queue (j + 1) } rfl (by omega) (by omega)
      refine ⟨true :: bs, ?_⟩
      rw [List.map_cons, run_cons, hlook, Option.bind_some, hbs]

/-- **With nothing in between the rounds are a pass of `send_data`**, whatever the socket does. -/
theorem rounds_sendData (ok : ℕ → Bool) (hout : l.turn = .out)
    (hready : l.conn.socketSendFlag = true ∧ l.conn.logonSent = true) :
    ∃ oks : List Bool, run (step o) l (oks.map .round) =
      some ⟨(l.conn.sendData o ok).1, .out, l.passes + 1, (l.conn.sendData o ok).2⟩ := by
  obtain ⟨oks, hoks⟩ := queue_sendQueues (o := o) ok { l with turn := .queue 1, numMsgsSent := 0 }
    (k := o.numSendQueues) rfl (by omega) le_rfl
  refine ⟨true :: oks, ?_⟩
  have hbegin : step o l (.round true) = some { l with turn := .queue 1, numMsgsSent := 0 } := by
    simp only [step, round, hout]
    rw [if_pos hready]
  rw [List.map_cons, run_cons, hbegin, Option.bind_some, hoks, Nat.zero_add]
  rfl

/-! ### What a step does to a queue -/

/-- Heads and ends only move up, and every new message that is passed to the socket is taken. -/
lemma sender_step (h : Sent o M p) {a : Act} (ha : Taken a) (hs : Sender.step o p a = some p')
    (i : ℕ) :
    (∃ w, p'.wire = p.wire ++ w ∧ ∀ pk ∈ w, pk.isNew = true → pk.ok = true) ∧
      (p.session.sendQueues i).headDataSeq ≤ (p'.session.sendQueues i).headDataSeq ∧
      (p.session.sendQueues i).dataSeq ≤ (p'.session.sendQueues i).dataSeq := by
  obtain ⟨new, he, hw, -, -⟩ := step_effect hs
  suffices hnew : (∀ pk ∈ new, pk.isNew = true → pk.ok = true) ∧
      (p.session.sendQueues i).headDataSeq ≤ (p'.session.sendQueues i).headDataSeq ∧
      (p.session.sendQueues i).dataSeq ≤ (p'.session.sendQueues i).dataSeq from
    ⟨⟨new, hw, hnew.1⟩, hnew.2⟩
  generalize p'.session = s at he
  cases he with
  | @addMsg j data q hj hq =>
    refine ⟨nofun, ?_⟩
    obtain ⟨-, rfl⟩ := SendQueue.addMsg_eq_some.mp hq
    simp only [Session.setQueue]
    by_cases hij : i = j
    · subst hij
      rw [Function.update_self]
      exact ⟨le_rfl, Nat.le_succ _⟩
    · rw [Function.update_of_ne hij]
      exact ⟨le_rfl, le_rfl⟩
  | reconnect => exact ⟨nofun, le_rfl, le_rfl⟩
  | @poll j q hq hh =>
    refine ⟨nofun, ?_⟩
    simp only [Session.setQueue]
    by_cases hij : i = j
    · subst hij
      rw [Function.update_self]
      exact ⟨hh.ge, hq.dataSeq.ge⟩
    · rw [Function.update_of_ne hij]
      exact ⟨le_rfl, le_rfl⟩
  | logon =>
    rw [afterSend_sendQueues]
    exact ⟨List.forall_mem_singleton.mpr fun _ => ha, le_rfl, le_rfl⟩
  | session =>
    rw [afterSend_sendQueues]
    exact ⟨List.forall_mem_singleton.mpr fun _ => ha, le_rfl, le_rfl⟩
  | @data j ok info =>
    refine ⟨List.forall_mem_singleton.mpr fun _ => ha, ?_⟩
    rw [Session.markMsgSent, Session.setQueue_sendQueues, afterSend_sendQueues]
    by_cases hij : i = j
    · subst hij
      rw [Function.update_self]
      exact ⟨Nat.le_succ _, le_rfl⟩
    · rw [Function.update_of_ne hij]
      exact ⟨le_rfl, le_rfl⟩
  | resend hl hr =>
    rw [resendLoop_eq_self h.queue hr]
    refine ⟨fun pk hpk hnew => ?_, le_rfl, le_rfl⟩
    obtain ⟨out, -, rfl⟩ := List.mem_map.mp hpk
    rw [resendPacket_isNew] at hnew
    cases hnew

lemma sendQueuedMsg_head (h : p.sendQueuedMsg o i true = some p') :
    (p'.session.sendQueues i).headDataSeq = (p.session.sendQueues i).headDataSeq + 1 ∧
      p'.socketSendFlag = p.socketSendFlag := by
  obtain ⟨msg, hmsg, rfl⟩ := Option.map_eq_some_iff.mp h
  obtain ⟨info, -, rfl⟩ := Option.map_eq_some_iff.mp hmsg
  refine ⟨?_, rfl⟩
  simp only [sendMsg_session, Session.markMsgSent, Session.setQueue_sendQueues,
    afterSend_sendQueues, Function.update_self]
  rfl

lemma sendQueuedMsg_none {ok : Bool} (h : p.sendQueuedMsg o i ok = none) :
    (p.session.sendQueues i).headDataSeq = (p.session.sendQueues i).dataSeq := by
  simp only [SocketConnector.sendQueuedMsg, SocketConnector.queuedMsg, Option.map_eq_none_iff] at h
  by_contra hne
  rw [SendQueue.getMsg_eq_some.mpr ⟨Ne.symm hne, rfl⟩] at h
  cases h

/-! ### The invariant -/

/-- The session keeps its log, and in a pass there is a Logon and a socket. -/
structure Inv (o : SessionOption) (M : ℕ) (l : Loop) : Prop where
  sent : Sent o M l.conn
  ready : l.turn ≠ .out → l.conn.socketSendFlag = true ∧ l.conn.logonSent = true
  queue : ∀ j, l.turn = .queue j → 1 ≤ j
  inner : ∀ j n, l.turn = .inner j n → IsQueue o j ∧ n ≤ windowQueueRrSize

/-- Everything a step can do while the socket takes what it is given. -/
inductive Move (o : SessionOption) (l : Loop) : Loop → Prop
  | act {a c} : Taken a → Sender.step o l.conn a = some c → (l.turn = .out ∨ IsAdd a = true) →
      Move o l { l with conn := c }
  | begin : l.turn = .out → l.conn.socketSendFlag = true ∧ l.conn.logonSent = true →
      Move o l { l with turn := .queue 1, numMsgsSent := 0 }
  | finish {j} : l.turn = .queue j → o.numSendQueues < j →
      Move o l { l with turn := .out, passes := l.passes + 1 }
  | look {j} : l.turn = .queue j → j ≤ o.numSendQueues →
      Move o l { l with
        conn := (l.conn.isQueueAvailable o j).2
        turn := if (l.conn.isQueueAvailable o j).1 then .inner j 0 else .queue (j + 1) }
  | send {j n c} : l.turn = .inner j n → n < windowQueueRrSize →
      l.conn.sendQueuedMsg o j true = some c →
      Move o l { l with conn := c, turn := .inner j (n + 1) }
  | next {j n} : l.turn = .inner j n →
      (n = windowQueueRrSize ∨ (l.conn.session.sendQueues j).headDataSeq =
        (l.conn.session.sendQueues j).dataSeq) →
      Move o l { l with turn := .queue (j + 1), numMsgsSent := l.numMsgsSent + n }

/-- **The inversion of a step.** -/
lemma step_move (h : Inv o M l) {e : Event} (he : Smooth e) (hs : step o l e = some l') :
    Move o l l' := by
  cases e with
  | act a =>
    simp only [step] at hs
    split at hs
    · next hor =>
      obtain ⟨c, hc, rfl⟩ := Option.map_eq_some_iff.mp hs
      exact .act he hc hor
    · cases hs
  | round ok =>
    obtain rfl : ok = true := he
    simp only [step, round] at hs
    split at hs
    · next hout =>
      split at hs
      · next hready =>
        cases hs
        exact .begin hout hready
      · cases hs
    · next j hj =>
      split at hs
      · next hlt =>
        cases hs
        exact .finish hj hlt
      · next hle =>
        cases hs
        exact .look hj (not_lt.mp hle)
    · next j n hj =>
      split at hs
      · next hlt =>
        cases hc : l.conn.sendQueuedMsg o j true with
        | none =>
          rw [hc] at hs
          cases hs
          exact .next hj (Or.inr (sendQueuedMsg_none hc))
        | some c =>
          have hready := h.ready (by simp [hj])
          rw [hc] at hs
          simp only [(sendQueuedMsg_head hc).2, hready.1, if_true] at hs
          cases hs
          exact .send hj hlt hc
      · next hge =>
        cases hs
        have hle := (h.inner j n hj).2
        exact .next hj (Or.inl (by omega))

lemma Move.conn (h : Inv o M l) (hm : Move o l l') :
    l'.conn = l.conn ∨ ∃ a, Taken a ∧ Sender.step o l.conn a = some l'.conn := by
  cases hm with
  | act ha hc => exact Or.inr ⟨_, ha, hc⟩
  | begin => exact Or.inl rfl
  | finish => exact Or.inl rfl
  | @look j => exact Or.inr ⟨.poll j, trivial, rfl⟩
  | @send j n c hj hlt hc =>
    refine Or.inr ⟨.data j true, rfl, ?_⟩
    simp only [Sender.step]
    rw [if_pos ⟨(h.ready (by simp [hj])).2, (h.inner j n hj).1⟩]
    exact hc
  | next => exact Or.inl rfl

lemma isQueueAvailable_ready (p : SocketConnector) (j : ℕ) :
    (p.isQueueAvailable o j).2.socketSendFlag = p.socketSendFlag ∧
      (p.isQueueAvailable o j).2.logonSent = p.logonSent := by
  simp only [SocketConnector.isQueueAvailable]
  split <;> exact ⟨rfl, rfl⟩

lemma step_inv (hW : 1 ≤ o.windowMarkSize) (h : Inv o M l) {e : Event} (he : Smooth e)
    (hs : step o l e = some l') : Inv o M l' := by
  have hm := step_move h he hs
  have hsent : Sent o M l'.conn := by
    rcases hm.conn h with heq | ⟨a, ha, hc⟩
    · rw [heq]
      exact h.sent
    · exact step_sent hW h.sent ha hc
  cases hm with
  | @act a c ha hc hor =>
    refine ⟨hsent, fun hne => ?_, h.queue, h.inner⟩
    have hready := h.ready hne
    have hadd := hor.resolve_left hne
    cases a with
    | addMsg i data =>
      simp only [Sender.step] at hc
      split at hc
      · obtain ⟨s, -, rfl⟩ := Option.map_eq_some_iff.mp hc
        exact hready
      · cases hc
    | _ => cases hadd
  | begin hout hready =>
    refine ⟨hsent, fun _ => hready, fun j hj => ?_, by simp⟩
    cases hj
    exact le_rfl
  | finish hj =>
    exact ⟨hsent, fun hne => absurd rfl hne, by simp, by simp⟩
  | @look j hj hle =>
    have hready := h.ready (by simp [hj])
    have hpos := h.queue j hj
    have hkeep := isQueueAvailable_ready (o := o) l.conn j
    refine ⟨hsent, fun _ => ?_, fun k hk => ?_, fun k n hk => ?_⟩
    · simp only [hkeep, hready, and_self]
    · simp only at hk
      split at hk
      · cases hk
      · cases hk
        omega
    · simp only at hk
      split at hk
      · cases hk
        exact ⟨⟨hpos, hle⟩, Nat.zero_le _⟩
      · cases hk
  | @send j n c hj hlt hc =>
    have hready := h.ready (by simp [hj])
    obtain ⟨hq, -⟩ := h.inner j n hj
    refine ⟨hsent, fun _ => ?_, by simp, fun k m hk => ?_⟩
    · obtain ⟨msg, -, rfl⟩ := Option.map_eq_some_iff.mp hc
      exact hready
    · cases hk
      exact ⟨hq, hlt⟩
  | @next j n hj =>
    have hready := h.ready (by simp [hj])
    refine ⟨hsent, fun _ => hready, fun k hk => ?_, by simp⟩
    cases hk
    omega

lemma start_inv (lastQ : ℤ) : Inv o M (start o M lastQ) :=
  ⟨boot_sent lastQ, fun hne => absurd rfl hne, by simp [start], by simp [start]⟩

/-! ### What the passes come to -/

/-- How often the turn of queue `i` is over. -/
def turns (i : ℕ) (l : Loop) : ℕ :=
  l.passes + match l.turn with
    | .out => 0
    | .queue j | .inner j _ => if i < j then 1 else 0

/-- What was sent of queue `i` in a turn that is not over. -/
def inTurn (i : ℕ) (l : Loop) : ℕ :=
  match l.turn with
  | .inner j n => if j = i then n else 0
  | _ => 0

/-- What has happened to queue `i` since `l₀`, where the thread was outside of `send_data`. -/
structure Since (i : ℕ) (l₀ l : Loop) : Prop where
  wire : ∃ w, l.conn.wire = l₀.conn.wire ++ w ∧ ∀ pk ∈ w, pk.isNew = true → pk.ok = true
  dataSeq : (l₀.conn.session.sendQueues i).dataSeq ≤ (l.conn.session.sendQueues i).dataSeq
  head : ∀ d < (l₀.conn.session.sendQueues i).dataSeq,
    d + windowQueueRrSize * l₀.passes < (l₀.conn.session.sendQueues i).headDataSeq +
      windowQueueRrSize * turns i l + inTurn i l →
    d < (l.conn.session.sendQueues i).headDataSeq

variable {l₀ : Loop}

lemma Since.refl (hout : l.turn = .out) : Since i l l := by
  refine ⟨⟨[], by simp, nofun⟩, le_rfl, fun d _ hd => ?_⟩
  simp only [turns, inTurn, hout, Nat.add_zero] at hd
  omega

/-- The number of turns goes up where one is over, and then the turn had all it could have. -/
lemma Move.turns (h : Inv o M l) (hi : IsQueue o i) (hm : Move o l l')
    (hopen : Open i l) :
    (turns i l' = turns i l ∧ inTurn i l' = inTurn i l) ∨
      (turns i l' = turns i l ∧ inTurn i l' = inTurn i l + 1 ∧
        (l'.conn.session.sendQueues i).headDataSeq =
          (l.conn.session.sendQueues i).headDataSeq + 1) ∨
      (turns i l' = turns i l + 1 ∧ inTurn i l' = 0 ∧ l'.conn = l.conn ∧
        (inTurn i l = windowQueueRrSize ∨ (l.conn.session.sendQueues i).headDataSeq =
          (l.conn.session.sendQueues i).dataSeq)) := by
  obtain ⟨hi1, hi2⟩ := hi
  cases hm with
  | act => exact Or.inl ⟨rfl, rfl⟩
  | begin hout =>
    refine Or.inl ⟨?_, ?_⟩
    · simp only [RoundRobin.turns, hout]
      rw [if_neg (by omega)]
    · simp only [inTurn, hout]
  | @finish j hj hlt =>
    refine Or.inl ⟨?_, ?_⟩
    · simp only [RoundRobin.turns, hj]
      rw [if_pos (by omega)]
    · simp only [inTurn, hj]
  | @look j hj hle =>
    have hpos := h.queue j hj
    have havail : (l.conn.isQueueAvailable o j).1 = !(l.conn.session.sendQueues j).isClose.1 := by
      simp only [SocketConnector.isQueueAvailable]
      rw [if_neg (by omega)]
    refine Or.inl ?_
    cases hc : (l.conn.session.sendQueues j).isClose.1 with
    | false =>
      rw [hc] at havail
      simp only [RoundRobin.turns, inTurn, hj, havail, Bool.not_false, if_true, ite_self, and_self]
    | true =>
      have hne : j ≠ i := by
        rintro rfl
        rw [hopen hj] at hc
        cases hc
      rw [hc] at havail
      simp only [RoundRobin.turns, inTurn, hj, havail, Bool.not_true, Bool.false_eq_true, if_false,
        and_true]
      congr 1
      by_cases hij : i < j
      · rw [if_pos hij, if_pos (by omega)]
      · rw [if_neg hij, if_neg (by omega)]
  | @send j n c hj hlt hc =>
    by_cases hij : j = i
    · subst hij
      refine Or.inr (Or.inl ⟨?_, ?_, (sendQueuedMsg_head hc).1⟩)
      · simp only [RoundRobin.turns, hj]
      · simp only [inTurn, hj, if_true]
    · refine Or.inl ⟨?_, ?_⟩
      · simp only [RoundRobin.turns, hj]
      · simp only [inTurn, hj, if_neg hij]
  | @next j n hj hend =>
    by_cases hij : j = i
    · subst hij
      refine Or.inr (Or.inr ⟨?_, rfl, rfl, ?_⟩)
      · simp only [RoundRobin.turns, hj, Nat.lt_succ_self, Nat.lt_irrefl, if_true, if_false]
      · simpa only [inTurn, hj, if_true] using hend
    · refine Or.inl ⟨?_, ?_⟩
      · simp only [RoundRobin.turns, hj]
        congr 1
        by_cases hlt : i < j
        · rw [if_pos hlt, if_pos (by omega)]
        · rw [if_neg hlt, if_neg (by omega)]
      · simp only [inTurn, hj, if_neg hij]

/-- A turn sends all the queue held when it began, or as many as a turn may. -/
lemma Since.step (hi : IsQueue o i) (h : Inv o M l) (hsince : Since i l₀ l) {e : Event}
    (he : Smooth e) (hopen : Open i l) (hs : step o l e = some l') : Since i l₀ l' := by
  have hm := step_move h he hs
  have hmoved : (∃ w, l'.conn.wire = l.conn.wire ++ w ∧
        ∀ pk ∈ w, pk.isNew = true → pk.ok = true) ∧
      (l.conn.session.sendQueues i).headDataSeq ≤ (l'.conn.session.sendQueues i).headDataSeq ∧
      (l.conn.session.sendQueues i).dataSeq ≤ (l'.conn.session.sendQueues i).dataSeq := by
    rcases hm.conn h with heq | ⟨a, ha, hc⟩
    · rw [heq]
      exact ⟨⟨[], by simp, nofun⟩, le_rfl, le_rfl⟩
    · exact sender_step h.sent ha hc i
  obtain ⟨⟨w', hw', hok'⟩, hhead, hdata⟩ := hmoved
  obtain ⟨w, hw, hok⟩ := hsince.wire
  refine ⟨⟨w ++ w', ?_, List.forall_mem_append.mpr ⟨hok, hok'⟩⟩, hsince.dataSeq.trans hdata,
    fun d hd hlt => ?_⟩
  · rw [hw', hw, List.append_assoc]
  · have hbefore := hsince.head d hd
    have hend := hsince.dataSeq
    rcases hm.turns h hi hopen with ⟨h1, h2⟩ | ⟨h1, h2, h3⟩ | ⟨h1, h2, h3, h4⟩
    · rw [h1, h2] at hlt
      exact lt_of_lt_of_le (hbefore hlt) hhead
    · rw [h1, h2] at hlt
      have := hsince.head (d - 1) (by omega)
      omega
    · rw [h1, h2, Nat.mul_succ] at hlt
      rw [h3]
      rcases h4 with hfull | hempty
      · exact hbefore (by omega)
      · omega

/-! ### The log -/

/-- A log holds every message of a queue up to the last one. -/
lemma exists_queued {w w' : List Packet} (h : InOrder (w ++ w')) (hi : i ≠ queueSession) {d : ℕ}
    (h1 : countOf i w < d) (h2 : d ≤ countOf i (w ++ w')) :
    ∃ pk ∈ w', pk.msg.content = .queued i d := by
  induction w' using List.reverseRecOn with
  | nil =>
    rw [List.append_nil] at h2
    omega
  | append_singleton w' x ih =>
    rw [← List.append_assoc] at h h2
    have hinit : InOrder (w ++ w') := by
      intro k pk hk
      have hlt := (List.getElem?_eq_some_iff.mp hk).1
      have := h k pk (by rw [List.getElem?_append_left hlt, hk])
      rwa [List.take_append_of_le_length hlt.le] at this
    rw [countOf_concat] at h2
    by_cases hx : x.msg.qIndex = i ∧ d = countOf i (w ++ w') + 1
    · obtain ⟨hxi, hd⟩ := hx
      have hnext := h (w ++ w').length x (by simp)
      rw [List.take_left] at hnext
      rcases hnext.2 with ⟨h0, -⟩ | ⟨-, hseq, hc⟩
      · exact absurd (hxi.symm.trans h0) hi
      · refine ⟨x, by simp, ?_⟩
        rw [hc, hseq, hxi, hd]
    · have hle : d ≤ countOf i (w ++ w') := by
        by_contra hgt
        split at h2
        · next hxi => exact hx ⟨hxi, by omega⟩
        · omega
      obtain ⟨pk, hpk, hc⟩ := ih hinit hle
      exact ⟨pk, List.mem_append_left _ hpk, hc⟩

/-- **No queue waits for another**: a message that lies in queue `i` is passed to the socket, and
taken, before the sender thread has completed one pass of `send_data` more than the messages in
front of it fill, `WINDOW_QUEUE_RR_SIZE` a pass; whatever is added meanwhile to this queue or to
the others, and whatever else is sent between the passes. -/
theorem run_served (hW : 1 ≤ o.windowMarkSize) (hi : IsQueue o i) {lastQ : ℤ}
    {before after : List Event} (hbefore : ∀ e ∈ before, Smooth e)
    (hr : run (step o) (start o M lastQ) before = some l) (hout : l.turn = .out)
    (hafter : ∀ e ∈ after, Smooth e) (hopen : Meets (step o) (fun l _ => Open i l) l after)
    (hr' : run (step o) l after = some l') {d : ℕ}
    (hqueued : (l.conn.session.sendQueues i).headDataSeq ≤ d ∧
      d < (l.conn.session.sendQueues i).dataSeq)
    (hpasses : d < (l.conn.session.sendQueues i).headDataSeq +
      windowQueueRrSize * (l'.passes - l.passes)) :
    ∃ pk ∈ l'.conn.wire.drop l.conn.wire.length,
      pk.msg.content = .queued i d ∧ pk.isNew = true ∧ pk.ok = true := by
  have h : Inv o M l := run_induct (fun _ _ _ h he hs => step_inv hW h he hs) (start_inv lastQ)
    (meets_of_mem hbefore _) hr
  have h' : Inv o M l' ∧ Since i l l' :=
    run_induct (P := fun m => Inv o M m ∧ Since i l m)
      (fun _ _ _ h he hs => ⟨step_inv hW h.1 he.1 hs, h.2.step hi h.1 he.1 he.2 hs⟩)
      ⟨h, .refl hout⟩ ((meets_of_mem hafter _).and hopen) hr'
  obtain ⟨hinv, hsince⟩ := h'
  obtain ⟨w, hw, hok⟩ := hsince.wire
  have hpast : d < (l'.conn.session.sendQueues i).headDataSeq := by
    refine hsince.head d hqueued.2 ?_
    have hturns : l'.passes ≤ turns i l' := Nat.le_add_right _ _
    calc d + windowQueueRrSize * l.passes <
          (l.conn.session.sendQueues i).headDataSeq + windowQueueRrSize * l'.passes := by
          rw [Nat.mul_sub] at hpasses
          omega
      _ ≤ (l.conn.session.sendQueues i).headDataSeq + windowQueueRrSize * turns i l' :=
          Nat.add_le_add_left (Nat.mul_le_mul_left _ hturns) _
      _ ≤ (l.conn.session.sendQueues i).headDataSeq + windowQueueRrSize * turns i l' +
          inTurn i l' := Nat.le_add_right _ _
  have hhead := h.sent.head i hi.ne_zero
  have hhead' := hinv.sent.head i hi.ne_zero
  have horder := hinv.sent.inOrder
  rw [hw, news_append] at hhead' horder
  obtain ⟨pk, hpk, hc⟩ := exists_queued horder hi.ne_zero (d := d) (by omega) (by omega)
  obtain ⟨hmem, hnew⟩ := List.mem_filter.mp hpk
  refine ⟨pk, ?_, hc, hnew, hok pk hmem hnew⟩
  rw [hw, List.drop_left]
  exact hmem

def optionsTwo : SessionOption := { SessionOption.oneQueue with numSendQueues := 2 }

def filling : List Event :=
  [.act (.addMsg 1 []), .act (.addMsg 1 []), .act (.addMsg 2 []), .act (.logon 0 true)]

def filled : Loop :=
  (run (step optionsTwo) (start optionsTwo 4 0) filling).get (by decide +kernel)

def busyPass : List Event :=
  [.round true, .round true, .round true, .act (.addMsg 1 []), .round true, .round true,
    .round true, .round true, .act (.addMsg 1 []), .round true, .round true, .round true]

lemma busyPass_ends : (run (step optionsTwo) filled busyPass).map Loop.passes = some 1 := by
  decide +kernel

lemma run_filled : run (step optionsTwo) (start optionsTwo 4 0) filling = some filled := by
  simp [filled]

theorem run_served_busyPass :
    ∃ l, run (step optionsTwo) filled busyPass = some l ∧
      ∃ pk ∈ l.conn.wire.drop filled.conn.wire.length,
        pk.msg.content = .queued 2 1 ∧ pk.isNew = true ∧ pk.ok = true := by
  obtain ⟨l, hl, hpasses⟩ := Option.map_eq_some_iff.mp busyPass_ends
  have hhead : (filled.conn.session.sendQueues 2).headDataSeq = 1 := by decide +kernel
  have hdata : (filled.conn.session.sendQueues 2).dataSeq = 2 := by decide +kernel
  have hnone : filled.passes = 0 := by decide +kernel
  refine ⟨l, hl, run_served (by decide) (by decide) (by decide) run_filled (by decide +kernel)
    (by decide) (by decide +kernel) hl ⟨hhead.le, by omega⟩ ?_⟩
  rw [hpasses, hnone, hhead]
  decide

end Ufix.RoundRobin
