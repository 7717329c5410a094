import Mathlib.Algebra.Order.Ring.Int
import Mathlib.Logic.Function.Basic
import Ufix.Runs

/-!
The lock on which a thread waits for events and others wake it.

One thread calls `wait`, any number of others change what it waits for and call `signal`. A step is
one access to what the threads share. The waiting thread first tests for an event, spins a while and
only then sleeps; a signal looks at the times the waiting thread left behind, to see whether it
still spins.
-/

namespace Ufix.Locker

/-- What a class built on the lock adds: its events. The test for one may change what it looks
at. -/
structure Source (ε ι κ : Type*) where
  hasEvent : ε → Bool × ε
  publish : ε → ι → Option ε
  withdraw : ε → κ → Option ε

/-- As long as `Ok` holds, a test changes no event, publishing keeps one that is there, and what
withdraws events makes none. -/
structure Source.Steady {ε ι κ : Type*} (src : Source ε ι κ) (Ok : ε → Prop) : Prop where
  hasEvent_ok : ∀ {e : ε}, Ok e → Ok (src.hasEvent e).2
  publish_ok : ∀ {e e' : ε} {x : ι}, Ok e → src.publish e x = some e' → Ok e'
  withdraw_ok : ∀ {e e' : ε} {k : κ}, Ok e → src.withdraw e k = some e' → Ok e'
  hasEvent_same : ∀ {e : ε}, Ok e → (src.hasEvent (src.hasEvent e).2).1 = (src.hasEvent e).1
  publish_keeps : ∀ {e e' : ε} {x : ι}, Ok e → src.publish e x = some e' →
    (src.hasEvent e).1 = true → (src.hasEvent e').1 = true
  withdraw_makes_none : ∀ {e e' : ε} {k : κ}, Ok e → src.withdraw e k = some e' →
    (src.hasEvent e').1 = true → (src.hasEvent e).1 = true

/-- Where the waiting thread stands in `wait`, with whether the wait was forced. -/
inductive WaiterPc
  | idle
  /-- the test in front of everything -/
  | test
  | setStart
  | setWait
  | lock (force : Bool)
  /-- the test of the loop -/
  | spinTest
  | spinClock
  /-- the test behind the loop -/
  | check
  | condWait (force : Bool)
  /-- asleep in the condition variable, without the mutex -/
  | blocked (force : Bool)
  /-- on its way out of the condition variable -/
  | woken (force : Bool)
  | unlock (force : Bool)
  | resetElapse
  | resetWait
  deriving DecidableEq, Repr

/-- Where another thread stands in `signal`. -/
inductive SignalPc
  | idle
  | waitTest
  | elapseTest
  | clock
  /-- the test of `p_wait` in the loop -/
  | loop
  | trylock
  | signal
  | unlock
  deriving DecidableEq, Repr

namespace WaiterPc

def holds : WaiterPc → Bool
  | .spinTest | .spinClock | .check | .condWait _ | .unlock _ => true
  | _ => false

/-- `p_wait` is set. -/
def announced : WaiterPc → Bool
  | .idle | .test | .setStart | .setWait => false
  | .lock force | .condWait force | .blocked force | .woken force | .unlock force => !force
  | _ => true

/-- A wait that is not forced found no event and goes to sleep. -/
def asleep : WaiterPc → Bool
  | .condWait false | .blocked false => true
  | _ => false

/-- After `pthread_cond_signal`, or when the time is over. -/
def wake : WaiterPc → WaiterPc
  | .blocked force => .woken force
  | pc => pc

lemma wake_holds (pc : WaiterPc) : pc.wake.holds = pc.holds := by cases pc <;> rfl
lemma wake_announced (pc : WaiterPc) : pc.wake.announced = pc.announced := by cases pc <;> rfl
lemma wake_ne_blocked (pc : WaiterPc) (force : Bool) : pc.wake ≠ .blocked force := by
  cases pc <;> simp [wake]
lemma wake_eq_check {pc : WaiterPc} (h : pc.wake = .check) : pc = .check := by
  cases pc <;> simp_all [wake]

lemma holds_of_wake_asleep {pc : WaiterPc} (h : pc.wake.asleep = true) : pc.holds = true := by
  cases pc <;> simp_all [wake, asleep, holds]

lemma announced_of_asleep {pc : WaiterPc} (h : pc.asleep = true) : pc.announced = true := by
  unfold asleep at h
  split at h
  · rfl
  · rfl
  · cases h

end WaiterPc

namespace SignalPc

def holds : SignalPc → Bool
  | .signal | .unlock => true
  | _ => false

/-- On the way to the signal, past the looks at the clock or in front of them. -/
def coming : SignalPc → Bool
  | .waitTest | .elapseTest | .loop | .trylock | .signal => true
  | _ => false

end SignalPc

inductive Holder
  | waiter
  | thread (i : ℕ)
  deriving DecidableEq, Repr

structure State (ε : Type*) where
  source : ε
  startTimestamp : ℕ
  elapseTime : ℤ
  pWait : ℤ
  mutex : Option Holder
  waiter : WaiterPc
  thread : ℕ → SignalPc

inductive Act (ι κ : Type*)
  | wait (force : Bool)
  /-- the waiting thread goes on, at time `now` where it looks at the clock -/
  | waiter (now : ℕ)
  /-- `pthread_cond_timedwait` comes back on its own -/
  | timeout
  /-- thread `i` changes the source and calls `signal` -/
  | publish (i : ℕ) (x : ι)
  /-- thread `i` calls `signal` -/
  | callSignal (i : ℕ)
  | thread (i : ℕ) (now : ℕ)
  | withdraw (k : κ)

/-- The thread in `signal` that the action is one of. -/
def Act.actor {ι κ : Type*} : Act ι κ → Option ℕ
  | .publish i _ | .callSignal i | .thread i _ => some i
  | _ => none

def spinTime : ℤ := 20

/-- `time += UINT_MAX` is done on unsigned numbers. -/
def elapse (startTimestamp timestamp : ℕ) : ℤ :=
  let time := ((timestamp : ℤ) - startTimestamp).bmod (2 ^ 32)
  if time < 0 then (time + (2 ^ 32 - 1)).bmod (2 ^ 32) else time

namespace State

variable {ε : Type*}

def goWaiter (s : State ε) (pc : WaiterPc) : State ε := { s with waiter := pc }

/-- After a test for an event. -/
def tested {ι κ : Type*} (src : Source ε ι κ) (s : State ε) : State ε :=
  { s with source := (src.hasEvent s.source).2 }

def goThread (s : State ε) (i : ℕ) (pc : SignalPc) : State ε :=
  { s with thread := Function.update s.thread i pc }

@[simp] lemma goThread_self (s : State ε) (i : ℕ) (pc : SignalPc) :
    (s.goThread i pc).thread i = pc := Function.update_self ..

lemma goThread_of_ne (s : State ε) {i j : ℕ} (pc : SignalPc) (h : j ≠ i) :
    (s.goThread i pc).thread j = s.thread j := Function.update_of_ne h ..

end State

section Steps

variable {ε ι κ : Type*} (src : Source ε ι κ)

/-- `wait`. -/
def stepWaiter (s : State ε) (now : ℕ) : Option (State ε) :=
  match s.waiter with
  | .idle => none
  | .test =>
    some ((s.tested src).goWaiter (if (src.hasEvent s.source).1 then .idle else .setStart))
  | .setStart => some { s with startTimestamp := now % 2 ^ 32, waiter := .setWait }
  | .setWait => some { s with pWait := 1, waiter := .lock false }
  | .lock force =>
    if s.mutex = none then
      some { s with
        mutex := some .waiter
        waiter := if force then .condWait true else .spinTest }
    else none
  | .spinTest =>
    some ((s.tested src).goWaiter (if (src.hasEvent s.source).1 then .check else .spinClock))
  | .spinClock =>
    let elapseTime := elapse s.startTimestamp (now % 2 ^ 32)
    some { s with
      elapseTime := elapseTime
      waiter := if elapseTime > spinTime then .check else .spinTest }
  | .check =>
    some ((s.tested src).goWaiter
      (if (src.hasEvent s.source).1 then .unlock false else .condWait false))
  | .condWait force => some { s with mutex := none, waiter := .blocked force }
  | .blocked _ => none
  | .woken force =>
    if s.mutex = none then some { s with mutex := some .waiter, waiter := .unlock force } else none
  | .unlock force =>
    some { s with mutex := none, waiter := if force then .idle else .resetElapse }
  | .resetElapse => some { s with elapseTime := 0, waiter := .resetWait }
  | .resetWait => some { s with pWait := 0, waiter := .idle }

/-- `signal` of thread `i`. -/
def stepThread (s : State ε) (i now : ℕ) : Option (State ε) :=
  match s.thread i with
  | .idle => none
  | .waitTest => some (s.goThread i (if s.pWait = 1 then .elapseTest else .idle))
  | .elapseTest => some (s.goThread i (if s.elapseTime < spinTime then .clock else .loop))
  | .clock =>
    some (s.goThread i
      (if elapse s.startTimestamp (now % 2 ^ 32) < spinTime then .idle else .loop))
  | .loop => some (s.goThread i (if s.pWait = 0 then .idle else .trylock))
  | .trylock =>
    if s.mutex = none then some { s.goThread i .signal with mutex := some (.thread i) }
    else some (s.goThread i .loop)
  | .signal => some { s.goThread i .unlock with waiter := s.waiter.wake }
  | .unlock => some { s.goThread i .idle with mutex := none }

def step (s : State ε) : Act ι κ → Option (State ε)
  | .wait force =>
    if s.waiter = .idle then some (s.goWaiter (if force then .lock true else .test)) else none
  | .waiter now => stepWaiter src s now
  | .timeout => if s.waiter.wake = s.waiter then none else some (s.goWaiter s.waiter.wake)
  | .publish i x =>
    if s.thread i = .idle then
      (src.publish s.source x).map fun e => { s.goThread i .waitTest with source := e }
    else none
  | .callSignal i => if s.thread i = .idle then some (s.goThread i .waitTest) else none
  | .thread i now => stepThread s i now
  | .withdraw k => (src.withdraw s.source k).map fun e => { s with source := e }

/-- `p_wait` is not set by the constructor. -/
def start (e : ε) (now : ℕ) (junk : ℤ) : State ε where
  source := e
  startTimestamp := now % 2 ^ 32
  elapseTime := 0
  pWait := junk
  mutex := none
  waiter := .idle
  thread := fun _ => .idle

end Steps

end Ufix.Locker
