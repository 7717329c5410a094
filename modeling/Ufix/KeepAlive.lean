import Ufix.Timeouts

/-!
A peer that goes on is not suspected, and one that is gone is found out.

The sender thread of one side and the receiver thread of the other, each with the clock of its own
session, and the time that passes between their steps. The delays are assumptions: how far a clock
is behind, how long a round of the loop of the sender takes, how long a message is on its way, and
how long the receiver does not look.
-/

namespace Ufix.KeepAlive

open Timeouts Runs
open Connection (elapsed)

/-! ### Two sides and the time -/

structure Delays where
  clock : ℕ
  round : ℕ
  wire : ℕ
  look : ℕ

/-- Where the sender thread stands in the loop of `send_msgs`. -/
inductive Place
  /-- in front of `is_logon`, where commands are sent -/
  | tests
  | sending
  /-- a message was sent in this round, and the time not yet noted -/
  | updating
  deriving DecidableEq

structure Sender where
  clock : ℕ
  lastSentUtcTs : ℕ
  /-- what `is_logon` returns -/
  logon : Bool
  place : Place
  roundStart : ℕ

structure Receiver where
  clock : ℕ
  watch : Watch
  /-- when the last message was received -/
  heard : ℕ
  looked : ℕ
  alarms : List Alarm

structure Wire where
  sent : ℕ
  /-- those that are on their way, the oldest first -/
  inFlight : List ℕ
  received : ℕ

structure State where
  now : ℕ
  sender : Sender
  wire : Wire
  receiver : Receiver

inductive Act
  /-- a second is over -/
  | pass
  | sendTick
  | recvTick
  /-- the last flag of the state is added -/
  | logon
  /-- a message of `send_cmds`, or a Logon, after which no time is noted -/
  | sendCmd
  | testLogon
  /-- `send_data` sends something -/
  | sendData
  /-- `send_data` has nothing; the clock shows `ts'` when `send_timeout` reads it again -/
  | noData (ts' : ℕ)
  | updateSendEventTs
  | receive
  | poll (ts' : ℕ)

def Wire.put (w : Wire) (now : ℕ) : Wire :=
  { w with sent := now, inFlight := w.inFlight ++ [now] }

/-- The action is one of the sender thread, or of the clock it looks at. -/
def Act.isSender : Act → Bool
  | .sendTick | .logon | .sendCmd | .testLogon | .sendData | .noData _ | .updateSendEventTs => true
  | _ => false

def State.startRound (s : State) (clock last : ℕ) : State :=
  { s with
    sender := { s.sender with
      clock := clock
      lastSentUtcTs := last
      place := .updating
      roundStart := s.now }
    wire := s.wire.put s.now }

/-- What a round without data comes to, by what `send_timeout` gives. -/
def State.round (s : State) (clock : ℕ) : ℕ × Bool → State
  | (last, true) => s.startRound clock last
  | (_, false) =>
    { s with sender := { s.sender with clock := clock, place := .tests, roundStart := s.now } }

/-- What a poll comes to, by what `recv_timeout` gives. -/
def State.polled (s : State) (clock : ℕ) (r : Watch × Option Alarm) : State :=
  { s with
    receiver := { s.receiver with
      clock := clock
      watch := r.1
      looked := s.now
      alarms := s.receiver.alarms ++ r.2.toList } }

variable (snd rcv : Thresholds)

def step (s : State) : Act → Option State
  | .pass => some { s with now := s.now + 1 }
  | .sendTick => some { s with sender := { s.sender with clock := s.now } }
  | .recvTick => some { s with receiver := { s.receiver with clock := s.now } }
  | .logon => some { s with sender := { s.sender with logon := true } }
  | .sendCmd => if s.sender.place = .tests then some { s with wire := s.wire.put s.now } else none
  | .testLogon =>
    if s.sender.place = .tests then
      -- without the logon the loop goes on without data and without a Heartbeat
      some { s with
        sender := if s.sender.logon then { s.sender with place := .sending }
          else { s.sender with roundStart := s.now } }
    else none
  | .sendData =>
    if s.sender.place = .sending then
      some (s.startRound s.sender.clock s.sender.lastSentUtcTs)
    else none
  | .noData ts' =>
    if s.sender.place = .sending then
      some (s.round ts' (sendTimeout snd s.sender.clock ts' s.sender.lastSentUtcTs))
    else none
  | .updateSendEventTs =>
    if s.sender.place = .updating then
      some { s with
        sender := { s.sender with lastSentUtcTs := s.sender.clock, place := .tests } }
    else none
  | .receive =>
    match s.wire.inFlight with
    | [] => none
    | sent :: later =>
      some { s with
        wire := ⟨s.wire.sent, later, sent⟩
        receiver := { s.receiver with
          watch := updateRecvEventTs s.receiver.clock
          heard := s.now
          looked := s.now } }
  | .poll ts' => some (s.polled ts' (recvTimeout rcv s.receiver.clock ts' s.receiver.watch))

def start (now : ℕ) (logon : Bool) : State where
  now := now
  sender := ⟨now, now, logon, .tests, now⟩
  wire := ⟨now, [], now⟩
  receiver := ⟨now, updateRecvEventTs now, now, now, []⟩

variable (d : Delays)

/-- The sides go on, and so does the wire; and as long as the sender is not logged on, it sent its
last message no longer ago than a Heartbeat would be due. -/
def Timely (s : State) : Act → Prop
  | .pass => s.now + 1 ≤ s.sender.clock + d.clock ∧ s.now + 1 ≤ s.receiver.clock + d.clock ∧
      s.now + 1 ≤ s.sender.roundStart + d.round ∧
      (∀ sent ∈ s.wire.inFlight, s.now + 1 ≤ sent + d.wire) ∧ s.now + 1 < 2 ^ 63 ∧
      s.now + 1 < s.sender.lastSentUtcTs + 2 ^ 31 ∧
      (s.sender.logon = false → (s.now : ℤ) + 1 ≤ s.wire.sent + snd.heartBt)
  | .noData ts' => s.sender.clock ≤ ts' ∧ ts' ≤ s.now
  | .poll ts' => s.receiver.clock ≤ ts' ∧ ts' ≤ s.now
  | _ => True

/-- The receiver looks often enough until it gives up, whatever the other side does. -/
def Looking (s : State) : Act → Prop
  | .pass => s.now + 1 ≤ s.receiver.clock + d.clock ∧
      (.disconnect ∉ s.receiver.alarms → s.now + 1 ≤ s.receiver.looked + d.look) ∧
      s.now + 1 < 2 ^ 63
  | .poll ts' => s.receiver.clock ≤ ts' ∧ ts' ≤ s.now
  | _ => True

instance (s : State) : ∀ a, Decidable (Timely snd d s a)
  | .pass => inferInstanceAs (Decidable (_ ∧ _ ∧ _ ∧ _ ∧ _ ∧ _ ∧ _))
  | .noData _ => inferInstanceAs (Decidable (_ ∧ _))
  | .poll _ => inferInstanceAs (Decidable (_ ∧ _))
  | .sendTick | .recvTick | .logon | .sendCmd | .testLogon | .sendData | .updateSendEventTs
  | .receive => inferInstanceAs (Decidable True)

instance (s : State) : ∀ a, Decidable (Looking d s a)
  | .pass => inferInstanceAs (Decidable (_ ∧ _ ∧ _))
  | .poll _ => inferInstanceAs (Decidable (_ ∧ _))
  | .sendTick | .recvTick | .logon | .sendCmd | .testLogon | .sendData | .noData _
  | .updateSendEventTs | .receive => inferInstanceAs (Decidable True)

/-! ### The wire -/

/-- `last` is the last of the times behind `first`, and none is more than `gap` after the one in
front of it. -/
def Spaced (gap : ℤ) (last : ℕ) : ℕ → List ℕ → Prop
  | first, [] => first = last
  | first, sent :: later => sent ≤ first + gap ∧ Spaced gap last sent later

lemma Spaced.concat {gap : ℤ} {last now first : ℕ} {times : List ℕ}
    (h : Spaced gap last first times) (hnow : now ≤ last + gap) :
    Spaced gap now first (times ++ [now]) := by
  induction times generalizing first with
  | nil =>
    cases h
    exact ⟨hnow, rfl⟩
  | cons sent times ih => exact ⟨h.1, ih h.2⟩

variable {snd rcv d} {now : ℕ} {s t : State}

/-- How long nothing may be sent. -/
def gap (snd : Thresholds) (d : Delays) : ℤ := snd.heartBt + d.clock + 2 * d.round

structure WireInv (snd : Thresholds) (d : Delays) (now : ℕ) (w : Wire) : Prop where
  onTime : ∀ sent ∈ w.inFlight, now ≤ sent + d.wire
  past : ∀ sent ∈ w.inFlight, sent ≤ now
  spaced : Spaced (gap snd d) w.sent w.received w.inFlight

lemma WireInv.put {w : Wire} (h : WireInv snd d now w) (hgap : now ≤ w.sent + gap snd d) :
    WireInv snd d now (w.put now) where
  onTime := by
    intro sent hsent
    rcases List.mem_append.mp hsent with hsent | hsent
    · exact h.onTime sent hsent
    · rw [List.mem_singleton.mp hsent]
      exact Nat.le_add_right _ _
  past := by
    intro sent hsent
    rcases List.mem_append.mp hsent with hsent | hsent
    · exact h.past sent hsent
    · exact (List.mem_singleton.mp hsent).le
  spaced := h.spaced.concat hgap

/-! ### No false alarm -/

/-- A clock that shows no less than what was noted of it, and is no more than `d.clock` behind. -/
def Shows (d : Delays) (now noted clock : ℕ) : Prop :=
  noted ≤ clock ∧ clock ≤ now ∧ now ≤ clock + d.clock

lemma Shows.tick {noted clock : ℕ} (h : Shows d now noted clock) : Shows d now noted now :=
  ⟨h.1.trans h.2.1, le_rfl, Nat.le_add_right _ _⟩

lemma Shows.note {noted clock : ℕ} (h : Shows d now noted clock) : Shows d now clock clock :=
  ⟨le_rfl, h.2⟩

lemma Shows.mono {noted clock ts' : ℕ} (h : Shows d now noted clock)
    (hok : clock ≤ ts' ∧ ts' ≤ now) : Shows d now noted ts' :=
  ⟨h.1.trans hok.1, hok.2, h.2.2.trans (Nat.add_le_add_right hok.1 _)⟩

lemma Shows.pass {noted clock : ℕ} (h : Shows d now noted clock) (hok : now + 1 ≤ clock + d.clock) :
    Shows d (now + 1) noted clock :=
  ⟨h.1, Nat.le_succ_of_le h.2.1, hok⟩

/-- Time is noted after a message, and a round without one starts soon after that. -/
structure SenderInv (snd : Thresholds) (d : Delays) (now sent : ℕ) (x : Sender) : Prop where
  clock : Shows d now x.lastSentUtcTs x.clock
  round : x.roundStart ≤ now ∧ now ≤ x.roundStart + d.round
  early : (x.roundStart : ℤ) ≤ sent + (snd.heartBt + d.clock + d.round)
  updating : x.place = .updating → x.roundStart ≤ sent
  noted : x.place ≠ .updating → x.lastSentUtcTs ≤ sent + d.round
  span : now < x.lastSentUtcTs + 2 ^ 31
  waiting : x.logon = false → (now : ℤ) ≤ sent + snd.heartBt

lemma SenderInv.gap {sent : ℕ} {x : Sender} (h : SenderInv snd d now sent x) :
    (now : ℤ) ≤ sent + gap snd d := by
  have := h.early
  have := h.round
  unfold KeepAlive.gap
  omega

/-- What was received was noted when it came, and nothing was missed. -/
structure ReceiverInv (d : Delays) (now received : ℕ) (x : Receiver) : Prop where
  clock : Shows d now x.watch.lastRecvUtcTs x.clock
  heard : received ≤ x.watch.lastRecvUtcTs + d.clock
  alarms : x.alarms = []

structure Inv (snd : Thresholds) (d : Delays) (s : State) : Prop where
  now : s.now < 2 ^ 63
  past : s.wire.sent ≤ s.now
  sender : SenderInv snd d s.now s.wire.sent s.sender
  wire : WireInv snd d s.now s.wire
  receiver : ReceiverInv d s.now s.wire.received s.receiver

/-- What the delays have to be for a peer that goes on to be heard in time. -/
structure InTime (snd rcv : Thresholds) (d : Delays) : Prop where
  heartBt : 0 ≤ snd.heartBt
  testRequest : snd.heartBt + 2 * d.clock + 2 * d.round + d.wire < rcv.testRequest
  int : rcv.testRequest < 2 ^ 31

/-- Where the receiver has heard nothing for long, there is a message on its way that is late, or
the sender is. -/
lemma Inv.silence (h : Inv snd d s) :
    (s.receiver.clock : ℤ) - s.receiver.watch.lastRecvUtcTs ≤ gap snd d + d.clock + d.wire := by
  obtain ⟨-, hclock, -⟩ := h.receiver.clock
  have hheard := h.receiver.heard
  obtain ⟨honTime, -, hspaced⟩ := h.wire
  cases hflight : s.wire.inFlight with
  | nil =>
    rw [hflight] at hspaced
    have hreceived : s.wire.received = s.wire.sent := hspaced
    have := h.sender.gap
    omega
  | cons sent later =>
    rw [hflight] at hspaced honTime
    have := hspaced.1
    have := honTime sent List.mem_cons_self
    omega

lemma start_inv (hheart : 0 ≤ snd.heartBt) (hnow : now < 2 ^ 63) (logon : Bool) :
    Inv snd d (start now logon) where
  now := hnow
  past := le_rfl
  sender :=
    { clock := ⟨le_rfl, le_rfl, Nat.le_add_right _ _⟩
      round := ⟨le_rfl, Nat.le_add_right _ _⟩
      early := by simp only [start]; omega
      updating := fun _ => le_rfl
      noted := fun _ => Nat.le_add_right _ _
      span := by simp only [start]; omega
      waiting := fun _ => by simp only [start]; omega }
  wire := ⟨by simp [start], by simp [start], rfl⟩
  receiver := ⟨⟨le_rfl, le_rfl, Nat.le_add_right _ _⟩, Nat.le_add_right _ _, rfl⟩

/-- A round that begins with a message. -/
lemma Inv.startRound (h : Inv snd d s) (hheart : 0 ≤ snd.heartBt) {clock last : ℕ}
    (hclock : Shows d s.now last clock) (hspan : s.now < last + 2 ^ 31) :
    Inv snd d (s.startRound clock last) where
  now := h.now
  past := le_rfl
  sender :=
    { clock := hclock
      round := ⟨le_rfl, Nat.le_add_right _ _⟩
      early := by
        show (s.now : ℤ) ≤ s.now + (snd.heartBt + d.clock + d.round)
        omega
      updating := fun _ => le_rfl
      noted := fun hplace => absurd rfl hplace
      span := hspan
      waiting := fun _ => by
        show (s.now : ℤ) ≤ s.now + snd.heartBt
        omega }
  wire := h.wire.put h.sender.gap
  receiver := h.receiver

lemma SenderInv.quiet {sent : ℕ} {x : Sender} (h : SenderInv snd d now sent x)
    (hidle : x.place = .sending) (hearly : (x.clock : ℤ) - x.lastSentUtcTs < snd.heartBt) {ts' : ℕ}
    (hok : x.clock ≤ ts' ∧ ts' ≤ now) :
    SenderInv snd d now sent { x with clock := ts', place := .tests, roundStart := now } := by
  have hlast := h.noted (by simp [hidle])
  obtain ⟨-, -, hclock⟩ := h.clock
  have hsent : (now : ℤ) ≤ sent + (snd.heartBt + d.clock + d.round) := by omega
  exact ⟨h.clock.mono hok, ⟨le_rfl, Nat.le_add_right _ _⟩, hsent, fun hplace => (by cases hplace),
    fun _ => hlast, h.span, h.waiting⟩

lemma SenderInv.notLogon {sent : ℕ} {x : Sender} (h : SenderInv snd d now sent x)
    (hplace : x.place = .tests) (hlogon : x.logon = false) :
    SenderInv snd d now sent { x with roundStart := now } := by
  have hwait := h.waiting hlogon
  have hsent : (now : ℤ) ≤ sent + (snd.heartBt + d.clock + d.round) := by omega
  refine ⟨h.clock, ⟨le_rfl, Nat.le_add_right _ _⟩, hsent, fun hupd => ?_, h.noted, h.span,
    h.waiting⟩
  rw [hplace] at hupd
  cases hupd

lemma SenderInv.update {sent : ℕ} {x : Sender} (h : SenderInv snd d now sent x)
    (hint : d.clock < 2 ^ 31) (hupd : x.place = .updating) :
    SenderInv snd d now sent { x with lastSentUtcTs := x.clock, place := .tests } := by
  have hstart := h.updating hupd
  have hround := h.round
  obtain ⟨-, hle, hclock⟩ := h.clock
  have hlast : x.clock ≤ sent + d.round := by omega
  have hspan : now < x.clock + 2 ^ 31 := by omega
  exact ⟨h.clock.note, h.round, h.early, fun hplace => (by cases hplace), fun _ => hlast, hspan,
    h.waiting⟩

lemma SenderInv.cmd {sent : ℕ} {x : Sender} (h : SenderInv snd d now sent x)
    (hheart : 0 ≤ snd.heartBt) (hplace : x.place = .tests) (hsent : sent ≤ now) :
    SenderInv snd d now now x := by
  have hlast := h.noted (by simp [hplace])
  have hround := h.round
  exact ⟨h.clock, h.round, by omega, fun _ => hround.1,
    fun _ => hlast.trans (Nat.add_le_add_right hsent _), h.span, fun _ => by omega⟩

lemma recvTimeout_quiet (hd : InTime snd rcv d) (h : Inv snd d s) (ts' : ℕ) :
    recvTimeout rcv s.receiver.clock ts' s.receiver.watch = (s.receiver.watch, none) := by
  have hsilence := h.silence
  have htest := hd.testRequest
  have hint := hd.int
  have hnow := h.now
  obtain ⟨hle, hclock, -⟩ := h.receiver.clock
  unfold gap at hsilence
  rw [recvTimeout, elapsed_eq hle (by omega) (by omega)]
  exact if_pos (by omega)

lemma elapsed_sent (h : Inv snd d s) :
    elapsed s.sender.clock s.sender.lastSentUtcTs =
      s.sender.clock - s.sender.lastSentUtcTs := by
  have hnow := h.now
  have hspan := h.sender.span
  obtain ⟨hle, hclock, -⟩ := h.sender.clock
  exact elapsed_eq hle (by omega) (by omega)

lemma step_inv (hd : InTime snd rcv d) {a : Act} (h : Inv snd d s) (hok : Timely snd d s a)
    (hs : step snd rcv s a = some t) : Inv snd d t := by
  have hheart := hd.heartBt
  have htest := hd.testRequest
  have hint := hd.int
  cases a with
  | pass =>
    cases hs
    obtain ⟨h1, h2, h3, h4, h5, h6, h7⟩ := hok
    exact ⟨h5, Nat.le_succ_of_le h.past,
      ⟨h.sender.clock.pass h1, ⟨Nat.le_succ_of_le h.sender.round.1, h3⟩, h.sender.early,
        h.sender.updating, h.sender.noted, h6, h7⟩,
      ⟨h4, fun sent hsent => Nat.le_succ_of_le (h.wire.past sent hsent), h.wire.spaced⟩,
      ⟨h.receiver.clock.pass h2, h.receiver.heard, h.receiver.alarms⟩⟩
  | sendTick =>
    cases hs
    exact ⟨h.now, h.past, ⟨h.sender.clock.tick, h.sender.round, h.sender.early, h.sender.updating,
      h.sender.noted, h.sender.span, h.sender.waiting⟩, h.wire, h.receiver⟩
  | recvTick =>
    cases hs
    exact ⟨h.now, h.past, h.sender, h.wire,
      ⟨h.receiver.clock.tick, h.receiver.heard, h.receiver.alarms⟩⟩
  | logon =>
    cases hs
    exact ⟨h.now, h.past, ⟨h.sender.clock, h.sender.round, h.sender.early, h.sender.updating,
      h.sender.noted, h.sender.span, fun hlogon => by cases hlogon⟩, h.wire, h.receiver⟩
  | sendCmd =>
    simp only [step, Option.ite_none_right_eq_some, Option.some.injEq] at hs
    obtain ⟨hplace, rfl⟩ := hs
    exact ⟨h.now, le_rfl, h.sender.cmd hheart hplace h.past, h.wire.put h.sender.gap, h.receiver⟩
  | testLogon =>
    simp only [step, Option.ite_none_right_eq_some, Option.some.injEq] at hs
    obtain ⟨hplace, rfl⟩ := hs
    refine ⟨h.now, h.past, ?_, h.wire, h.receiver⟩
    by_cases hlogon : s.sender.logon = true
    · rw [if_pos hlogon]
      exact ⟨h.sender.clock, h.sender.round, h.sender.early, fun hupd => (by cases hupd),
        fun _ => h.sender.noted (by simp [hplace]), h.sender.span, h.sender.waiting⟩
    · rw [if_neg hlogon]
      exact h.sender.notLogon hplace (by simpa using hlogon)
  | sendData =>
    simp only [step, Option.ite_none_right_eq_some, Option.some.injEq] at hs
    obtain ⟨-, rfl⟩ := hs
    exact h.startRound hheart h.sender.clock h.sender.span
  | noData ts' =>
    simp only [step, Option.ite_none_right_eq_some, Option.some.injEq] at hs
    obtain ⟨hplace, hs⟩ := hs
    have helapsed := elapsed_sent h
    have hclock := h.sender.clock.mono hok
    rcases lt_or_ge (elapsed s.sender.clock s.sender.lastSentUtcTs) snd.heartBt with hlt | hge
    · rw [sendTimeout_early hlt] at hs
      subst hs
      rw [helapsed] at hlt
      exact ⟨h.now, h.past, h.sender.quiet hplace hlt hok, h.wire, h.receiver⟩
    · rw [sendTimeout_due hge] at hs
      subst hs
      have hlag := hclock.note.2.2
      exact h.startRound hheart hclock.note (by omega)
  | updateSendEventTs =>
    simp only [step, Option.ite_none_right_eq_some, Option.some.injEq] at hs
    obtain ⟨hupd, rfl⟩ := hs
    exact ⟨h.now, h.past, h.sender.update (by omega) hupd, h.wire, h.receiver⟩
  | receive =>
    simp only [step] at hs
    split at hs
    · cases hs
    · rename_i sent later hflight
      cases hs
      obtain ⟨honTime, hpast, hspaced⟩ := h.wire
      rw [hflight] at honTime hpast hspaced
      have hsent := hpast sent List.mem_cons_self
      exact ⟨h.now, h.past, h.sender,
        ⟨fun t ht => honTime t (List.mem_cons_of_mem _ ht),
          fun t ht => hpast t (List.mem_cons_of_mem _ ht), hspaced.2⟩,
        ⟨h.receiver.clock.note, hsent.trans h.receiver.clock.2.2, h.receiver.alarms⟩⟩
  | poll ts' =>
    simp only [step, recvTimeout_quiet hd h, Option.some.injEq] at hs
    subst hs
    have halarms : s.receiver.alarms ++ [] = [] := by rw [h.receiver.alarms, List.append_nil]
    exact ⟨h.now, h.past, h.sender, h.wire,
      ⟨h.receiver.clock.mono hok, h.receiver.heard, halarms⟩⟩

/-- **A peer that goes on is not suspected**: whatever the order of the steps, the receiver neither
asks for a sign of life nor gives up, when the delays fit between the two thresholds and the login
of the sender takes no longer than a Heartbeat. -/
theorem run_unsuspected (hd : InTime snd rcv d) (hnow : now < 2 ^ 63) {logon : Bool}
    {acts : List Act} (hm : Meets (step snd rcv) (Timely snd d) (start now logon) acts)
    (hr : run (step snd rcv) (start now logon) acts = some s) : s.receiver.alarms = [] :=
  (run_induct (P := Inv snd d) (fun _ _ _ hi hok hs => step_inv hd hi hok hs)
    (start_inv hd.heartBt hnow logon) hm hr).receiver.alarms

def idleSecond (n : ℕ) : List Act := [.pass, .sendTick, .recvTick, .testLogon, .noData n, .poll n]

def waitingSecond (n : ℕ) : List Act := [.pass, .sendTick, .recvTick, .testLogon, .poll n]

/-- Forty seconds with a Heartbeat, of which the login takes six. -/
def idleRun : List Act :=
  (List.range 6).flatMap (fun n => waitingSecond (n + 1)) ++ [.logon] ++
    (List.range 23).flatMap (fun n => idleSecond (n + 7)) ++
    [.pass, .sendTick, .recvTick, .testLogon, .noData 30, .updateSendEventTs, .receive, .poll 30] ++
    (List.range 10).flatMap fun n => idleSecond (n + 31)

def oneSecond : Delays := ⟨1, 1, 1, 1⟩

lemma idleRun_timely :
    Meets (step (setHeartBtIn 30) (setHeartBtIn 30)) (Timely (setHeartBtIn 30) oneSecond)
      (start 0 false) idleRun := by
  decide +kernel

lemma idleRun_ends :
    (run (step (setHeartBtIn 30) (setHeartBtIn 30)) (start 0 false) idleRun).map
      (fun s => (s.now, s.receiver.heard)) = some (40, 30) := by decide +kernel

theorem run_unsuspected_idle :
    ∃ s, run (step (setHeartBtIn 30) (setHeartBtIn 30)) (start 0 false) idleRun = some s ∧
      s.now = 40 ∧ s.receiver.heard = 30 ∧ s.receiver.alarms = [] := by
  obtain ⟨s, hr, hs⟩ := Option.map_eq_some_iff.mp idleRun_ends
  obtain ⟨hnow, hheard⟩ := Prod.mk.inj hs
  exact ⟨s, hr, hnow, hheard, run_unsuspected ⟨by decide, by decide, by decide⟩ (by decide)
    idleRun_timely hr⟩

/-- A session with messages of an earlier process waits for a ResendRequest that never comes: it
sends no Heartbeat, and is asked, and then given up. -/
example : (run (step (setHeartBtIn 30) (setHeartBtIn 30)) (start 0 false)
    ((List.range 72).flatMap fun n => waitingSecond (n + 1))).map (fun s => s.receiver.alarms) =
      some [.testRequest, .disconnect] := by decide +kernel

/-! ### A silent peer -/

/-- What is asked of the thresholds and delays. -/
structure Sane (rcv : Thresholds) (d : Delays) : Prop where
  testRequest : rcv.testRequest ≤ rcv.disconnect
  pos : 0 < rcv.disconnect
  int : rcv.disconnect + d.clock + d.look < 2 ^ 31

/-- When the receiver looked last it was not yet time to give up. -/
structure LookInv (rcv : Thresholds) (d : Delays) (s : State) : Prop where
  now : s.now < 2 ^ 63
  clock : Shows d s.now s.receiver.watch.lastRecvUtcTs s.receiver.clock
  heard : s.receiver.watch.lastRecvUtcTs ≤ s.receiver.heard
  looked : s.now ≤ s.receiver.looked + d.look
  fresh : (s.receiver.looked : ℤ) < s.receiver.watch.lastRecvUtcTs + rcv.disconnect + d.clock
  alarms : .disconnect ∉ s.receiver.alarms

lemma start_lookInv (hd : Sane rcv d) (hnow : now < 2 ^ 63) (logon : Bool) :
    LookInv rcv d (start now logon) where
  now := hnow
  clock := ⟨le_rfl, le_rfl, Nat.le_add_right _ _⟩
  heard := le_rfl
  looked := Nat.le_add_right _ _
  fresh := by
    have := hd.pos
    show (now : ℤ) < now + rcv.disconnect + d.clock
    omega
  alarms := List.not_mem_nil

/-- The poll gives up, or it is not yet time. -/
lemma recvTimeout_cases (hd : Sane rcv d) (h : LookInv rcv d s) (ts' : ℕ) :
    (recvTimeout rcv s.receiver.clock ts' s.receiver.watch).2 = some .disconnect ∨
      (s.receiver.clock : ℤ) - s.receiver.watch.lastRecvUtcTs < rcv.disconnect ∧
      (recvTimeout rcv s.receiver.clock ts' s.receiver.watch).1.lastRecvUtcTs =
        s.receiver.watch.lastRecvUtcTs ∧
      (recvTimeout rcv s.receiver.clock ts' s.receiver.watch).2 ≠ some .disconnect := by
  obtain ⟨hle, hclock, -⟩ := h.clock
  have hnow := h.now
  have hlooked := h.looked
  have hfresh := h.fresh
  have hint := hd.int
  have htest := hd.testRequest
  have helapsed := elapsed_eq hle (by omega) (by omega)
  rw [← helapsed]
  simp only [recvTimeout]
  split
  · rename_i hearly
    exact .inr ⟨hearly.trans_le htest, rfl, by simp⟩
  split
  · exact .inl rfl
  · rename_i hlate
    split
    · exact .inr ⟨not_le.mp hlate, rfl, by simp⟩
    · exact .inr ⟨not_le.mp hlate, rfl, by simp⟩

lemma LookInv.of_eq (h : LookInv rcv d s) (hnow : t.now = s.now) (hrecv : t.receiver = s.receiver) :
    LookInv rcv d t := by
  obtain ⟨h1, h2, h3, h4, h5, h6⟩ := h
  rw [← hnow, ← hrecv] at *
  exact ⟨h1, h2, h3, h4, h5, h6⟩

/-- What a step of the sender leaves alone. -/
lemma sender_frame {a : Act} (ha : a.isSender = true) (hs : step snd rcv s a = some t) :
    t.now = s.now ∧ t.receiver = s.receiver := by
  cases a with
  | sendTick =>
    cases hs
    exact ⟨rfl, rfl⟩
  | logon =>
    cases hs
    exact ⟨rfl, rfl⟩
  | sendCmd =>
    simp only [step, Option.ite_none_right_eq_some, Option.some.injEq] at hs
    exact hs.2 ▸ ⟨rfl, rfl⟩
  | testLogon =>
    simp only [step, Option.ite_none_right_eq_some, Option.some.injEq] at hs
    exact hs.2 ▸ ⟨rfl, rfl⟩
  | sendData =>
    simp only [step, Option.ite_none_right_eq_some, Option.some.injEq] at hs
    exact hs.2 ▸ ⟨rfl, rfl⟩
  | noData ts' =>
    simp only [step, Option.ite_none_right_eq_some, Option.some.injEq] at hs
    obtain ⟨-, hs⟩ := hs
    generalize sendTimeout snd s.sender.clock ts' s.sender.lastSentUtcTs = r at hs
    obtain ⟨last, due⟩ := r
    subst hs
    cases due with
    | false => exact ⟨rfl, rfl⟩
    | true => exact ⟨rfl, rfl⟩
  | updateSendEventTs =>
    simp only [step, Option.ite_none_right_eq_some, Option.some.injEq] at hs
    exact hs.2 ▸ ⟨rfl, rfl⟩
  | _ => cases ha

lemma step_lookInv (hd : Sane rcv d) {a : Act} (h : LookInv rcv d s) (hok : Looking d s a)
    (hs : step snd rcv s a = some t) : .disconnect ∈ t.receiver.alarms ∨ LookInv rcv d t := by
  cases a with
  | pass =>
    cases hs
    obtain ⟨hclock, hlook, hnow⟩ := hok
    exact .inr ⟨hnow, h.clock.pass hclock, h.heard, hlook h.alarms, h.fresh, h.alarms⟩
  | recvTick =>
    cases hs
    exact .inr ⟨h.now, h.clock.tick, h.heard, h.looked, h.fresh, h.alarms⟩
  | receive =>
    simp only [step] at hs
    split at hs
    · cases hs
    · cases hs
      have hpos := hd.pos
      obtain ⟨-, hle, hclock⟩ := h.clock
      have hfresh : (s.now : ℤ) < s.receiver.clock + rcv.disconnect + d.clock := by omega
      exact .inr ⟨h.now, h.clock.note, hle, Nat.le_add_right _ _, hfresh, h.alarms⟩
  | poll ts' =>
    simp only [step, Option.some.injEq] at hs
    subst hs
    rcases recvTimeout_cases hd h ts' with halarm | ⟨hlt, hlast, halarm⟩
    · exact .inl (by simp [State.polled, halarm])
    · obtain ⟨-, -, hclock⟩ := h.clock
      have hfresh : (s.now : ℤ) < s.receiver.watch.lastRecvUtcTs + rcv.disconnect + d.clock := by
        omega
      refine .inr ⟨h.now, ?_, ?_, Nat.le_add_right _ _, ?_, ?_⟩
      · exact hlast.symm ▸ h.clock.mono hok
      · exact hlast.symm ▸ h.heard
      · exact hlast.symm ▸ hfresh
      · have := h.alarms
        simp only [State.polled, List.mem_append, Option.mem_toList]
        tauto
  | _ => exact .inr (h.of_eq (sender_frame rfl hs).1 (sender_frame rfl hs).2)

/-- An alarm is not taken back. -/
lemma step_alarms {a : Act} (hs : step snd rcv s a = some t)
    (h : .disconnect ∈ s.receiver.alarms) : .disconnect ∈ t.receiver.alarms := by
  cases a with
  | pass =>
    cases hs
    exact h
  | recvTick =>
    cases hs
    exact h
  | receive =>
    simp only [step] at hs
    split at hs
    · cases hs
    · cases hs
      exact h
  | poll ts' =>
    cases hs
    exact List.mem_append_left _ h
  | _ => exact (sender_frame rfl hs).2 ▸ h

/-- **A silent peer is found out**: the receiver has given up, or the last message came no longer
ago than the threshold and the delays. -/
theorem run_foundOut (hd : Sane rcv d) (hnow : now < 2 ^ 63) {logon : Bool} {acts : List Act}
    (hm : Meets (step snd rcv) (Looking d) (start now logon) acts)
    (hr : run (step snd rcv) (start now logon) acts = some s) :
    .disconnect ∈ s.receiver.alarms ∨
      (s.now : ℤ) < s.receiver.heard + (rcv.disconnect + d.clock + d.look) := by
  have h := run_induct (P := fun s => .disconnect ∈ s.receiver.alarms ∨ LookInv rcv d s)
    (fun s a t hi hok hs => hi.elim (fun h => .inl (step_alarms hs h))
      fun h => step_lookInv hd h hok hs)
    (.inr (start_lookInv hd hnow logon)) hm hr
  refine h.imp_right fun h => ?_
  have := h.heard
  have := h.looked
  have := h.fresh
  omega

def silentRun : List Act :=
  (List.range 75).flatMap fun n => [.pass, .recvTick, .poll (n + 1)]

lemma silentRun_looking :
    Meets (step (setHeartBtIn 30) (setHeartBtIn 30)) (Looking oneSecond) (start 0 true)
      silentRun := by
  decide +kernel

lemma silentRun_ends :
    (run (step (setHeartBtIn 30) (setHeartBtIn 30)) (start 0 true) silentRun).map
      (fun s => (s.now, s.receiver.heard)) = some (75, 0) := by decide +kernel

theorem run_foundOut_silent :
    ∃ s, run (step (setHeartBtIn 30) (setHeartBtIn 30)) (start 0 true) silentRun = some s ∧
      .disconnect ∈ s.receiver.alarms := by
  obtain ⟨s, hr, hs⟩ := Option.map_eq_some_iff.mp silentRun_ends
  obtain ⟨hnow, hheard⟩ := Prod.mk.inj hs
  rcases run_foundOut ⟨by decide, by decide, by decide⟩ (by decide) silentRun_looking hr with h | h
  · exact ⟨s, hr, h⟩
  · rw [hnow, hheard] at h
    exact absurd h (by decide)

end Ufix.KeepAlive
