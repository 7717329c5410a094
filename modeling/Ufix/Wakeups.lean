import Mathlib.Data.List.GetD
import Ufix.Endless
import Ufix.EventSources

/-!
Wake-ups: a thread that sleeps while there is an event is woken, if it was not forced to wait.

A signal looks at `p_wait` and at the times the waiting thread left, and may come back without a
wake-up. It does so only while the other still spins and will see the event itself.
-/

namespace Ufix.Wakeups

open Locker Runs

variable {ε ι κ : Type*} {src : Source ε ι κ} {Ok : ε → Prop} {s t : State ε} {i j : ℕ}

/-- While the waiting thread goes to sleep or sleeps, it has spun long enough for the signals to see
it, and when there is an event, a thread is on its way to signal it. -/
structure Inv (src : Source ε ι κ) (Ok : ε → Prop) (s : State ε) : Prop where
  ok : Ok s.source
  waiter : s.mutex = some .waiter ↔ s.waiter.holds = true
  thread : ∀ i, s.mutex = some (.thread i) ↔ (s.thread i).holds = true
  announced : s.waiter.announced = true → s.pWait = 1
  check : s.waiter = .check → (src.hasEvent s.source).1 = true ∨ s.elapseTime > spinTime
  spun : s.waiter.asleep = true → s.elapseTime > spinTime
  coming : s.waiter.asleep = true → (src.hasEvent s.source).1 = true →
    ∃ i, (s.thread i).coming = true
  signalled : ∀ i, s.thread i = .unlock → ∀ force, s.waiter ≠ .blocked force

/-- Events are not withdrawn between the last test of the loop and the test behind it. -/
def Orderly (s : State ε) : Act ι κ → Prop
  | .withdraw _ => s.waiter ≠ .check
  | _ => True

lemma start_inv {e : ε} (he : Ok e) (now : ℕ) (junk : ℤ) : Inv src Ok (start e now junk) where
  ok := he
  waiter := by simp [start, WaiterPc.holds]
  thread := by simp [start, SignalPc.holds]
  announced h := by cases h
  check h := by cases h
  spun h := by cases h
  coming h := by cases h
  signalled _ h := by cases h

lemma Inv.not_holds (hi : Inv src Ok s) (h : s.mutex = none ∨ s.mutex = some .waiter) (i : ℕ) :
    (s.thread i).holds = false := by
  rw [← Bool.not_eq_true, ← hi.thread i]
  rcases h with h | h <;> simp [h]

lemma Inv.holds_inj (hi : Inv src Ok s) (h : (s.thread i).holds = true)
    (h' : (s.thread j).holds = true) : i = j := by
  have h := (hi.thread i).mpr h
  have h' := (hi.thread j).mpr h'
  rw [h] at h'
  simpa using h'

/-! ### The waiting thread -/

lemma Inv.goWaiter {start : ℕ} {elapseTime pWait : ℤ} {pc : WaiterPc} (hi : Inv src Ok s)
    (hholds : pc.holds = s.waiter.holds) (hannounced : pc.announced = true → pWait = 1)
    (hcheck : pc = .check → (src.hasEvent s.source).1 = true ∨ elapseTime > spinTime)
    (hasleep : pc.asleep = true → elapseTime > spinTime ∧ (src.hasEvent s.source).1 = false)
    (hblocked : ∀ force, pc ≠ .blocked force) :
    Inv src Ok { s with
      startTimestamp := start, elapseTime := elapseTime, pWait := pWait, waiter := pc } where
  ok := hi.ok
  waiter := hi.waiter.trans (by rw [hholds])
  thread := hi.thread
  announced := hannounced
  check := hcheck
  spun h := (hasleep h).1
  coming h he := by
    simp only [(hasleep h).2] at he
    cases he
  signalled _ _ := hblocked

lemma Inv.lockWaiter {pc : WaiterPc} (hi : Inv src Ok s) (hfree : s.mutex = none)
    (hholds : pc.holds = true) (hannounced : pc.announced = true → s.pWait = 1)
    (hcheck : pc ≠ .check) (hasleep : pc.asleep = false)
    (hblocked : ∀ force, pc ≠ .blocked force) :
    Inv src Ok { s with mutex := some .waiter, waiter := pc } where
  ok := hi.ok
  waiter := by simp [hholds]
  thread i := by simp [hi.not_holds (.inl hfree) i]
  announced := hannounced
  check h := absurd h hcheck
  spun h := by simp [hasleep] at h
  coming h := by simp [hasleep] at h
  signalled _ _ := hblocked

lemma Inv.unlockWaiter {pc : WaiterPc} (hi : Inv src Ok s) (h : s.waiter.holds = true)
    (hholds : pc.holds = false) (hannounced : pc.announced = true → s.pWait = 1)
    (hasleep : pc.asleep = true → s.waiter.asleep = true) :
    Inv src Ok { s with mutex := none, waiter := pc } := by
  have hmutex := hi.waiter.mpr h
  have hthread := hi.not_holds (.inr hmutex)
  exact {
    ok := hi.ok
    waiter := by simp [hholds]
    thread := fun i => by simp [hthread i]
    announced := hannounced
    check := fun hpc => by
      simp only at hpc
      simp [hpc, WaiterPc.holds] at hholds
    spun := fun ha => hi.spun (hasleep ha)
    coming := fun ha => hi.coming (hasleep ha)
    signalled := fun i hpc => by
      simp only at hpc
      have := hthread i
      simp [hpc, SignalPc.holds] at this }

lemma Inv.tested (hsrc : src.Steady Ok) (hi : Inv src Ok s) : Inv src Ok (s.tested src) :=
  { hi with
    ok := hsrc.hasEvent_ok hi.ok
    check := fun h => (hi.check h).imp_left (hsrc.hasEvent_same hi.ok).trans
    coming := fun ha he => hi.coming ha ((hsrc.hasEvent_same hi.ok).symm.trans he) }

lemma stepWaiter_inv {now : ℕ} (hsrc : src.Steady Ok) (hi : Inv src Ok s)
    (h : stepWaiter src s now = some t) : Inv src Ok t := by
  have hwait := hi.announced
  have htest := hsrc.hasEvent_same hi.ok
  unfold stepWaiter at h
  cases hpc : s.waiter with
  | idle => simp [hpc] at h
  | blocked force => simp [hpc] at h
  | test =>
    simp only [hpc, Option.some.injEq] at h
    subst h
    refine (hi.tested hsrc).goWaiter ?_ ?_ ?_ ?_ ?_ <;> split <;>
      simp [State.tested, hpc, WaiterPc.holds, WaiterPc.announced, WaiterPc.asleep]
  | setStart | setWait | resetElapse | resetWait =>
    simp only [hpc, WaiterPc.announced, Option.some.injEq, forall_const] at h hwait
    subst h
    refine hi.goWaiter (by rw [hpc]; rfl) ?_ ?_ ?_ ?_ <;>
      simp [hwait, WaiterPc.announced, WaiterPc.asleep]
  | spinTest =>
    simp only [hpc, Option.some.injEq] at h
    subst h
    refine (hi.tested hsrc).goWaiter ?_ ?_ ?_ ?_ ?_ <;> split <;>
      simp_all [State.tested, WaiterPc.holds, WaiterPc.announced, WaiterPc.asleep]
  | spinClock =>
    simp only [hpc, Option.some.injEq] at h
    subst h
    refine hi.goWaiter ?_ ?_ ?_ ?_ ?_ <;> split <;>
      simp_all [WaiterPc.holds, WaiterPc.announced, WaiterPc.asleep]
  | check =>
    -- no event here means that the loop was left for the time
    have hcheck := hi.check hpc
    simp only [hpc, Option.some.injEq] at h
    subst h
    refine (hi.tested hsrc).goWaiter ?_ ?_ ?_ ?_ ?_ <;> split <;>
      simp_all [State.tested, WaiterPc.holds, WaiterPc.announced, WaiterPc.asleep]
  | lock force =>
    simp only [hpc, Option.ite_none_right_eq_some, Option.some.injEq] at h
    obtain ⟨hfree, rfl⟩ := h
    cases force <;> refine hi.lockWaiter hfree rfl ?_ ?_ rfl ?_ <;>
      simp_all [WaiterPc.announced]
  | woken force =>
    simp only [hpc, Option.ite_none_right_eq_some, Option.some.injEq] at h
    obtain ⟨hfree, rfl⟩ := h
    refine hi.lockWaiter hfree rfl ?_ ?_ rfl ?_ <;> simp_all [WaiterPc.announced]
  | condWait force =>
    simp only [hpc, Option.some.injEq] at h
    subst h
    refine hi.unlockWaiter (by rw [hpc]; rfl) rfl ?_ ?_ <;>
      cases force <;> simp_all [WaiterPc.announced, WaiterPc.asleep]
  | unlock force =>
    simp only [hpc, Option.some.injEq] at h
    subst h
    cases force <;> refine hi.unlockWaiter (by rw [hpc]; rfl) rfl ?_ ?_ <;>
      simp_all [WaiterPc.announced, WaiterPc.asleep]

/-! ### The signals -/

lemma coming_goThread {pc : SignalPc} (h : ∃ j, (s.thread j).coming = true)
    (hpc : (s.thread i).coming = true → pc.coming = true) :
    ∃ j, ((s.goThread i pc).thread j).coming = true := by
  obtain ⟨j, hj⟩ := h
  rcases eq_or_ne j i with rfl | hne
  · exact ⟨j, by rw [State.goThread_self, hpc hj]⟩
  · exact ⟨j, by rw [State.goThread_of_ne s pc hne, hj]⟩

/-- A thread goes on without the mutex, or keeps it. -/
lemma Inv.goThread {pc : SignalPc} (hi : Inv src Ok s) (hholds : pc.holds = (s.thread i).holds)
    (hcoming : s.waiter.asleep = true → (s.thread i).coming = true → pc.coming = true)
    (hunlock : pc ≠ .unlock) : Inv src Ok (s.goThread i pc) where
  ok := hi.ok
  waiter := hi.waiter
  thread j := by
    rcases eq_or_ne j i with rfl | hne
    · rw [State.goThread_self, hholds]
      exact hi.thread j
    · rw [State.goThread_of_ne s pc hne]
      exact hi.thread j
  announced := hi.announced
  check := hi.check
  spun := hi.spun
  coming ha he := coming_goThread (hi.coming ha he) (hcoming ha)
  signalled j hj := by
    rcases eq_or_ne j i with rfl | hne
    · rw [State.goThread_self] at hj
      exact absurd hj hunlock
    · rw [State.goThread_of_ne s pc hne] at hj
      exact hi.signalled j hj

lemma Inv.trylock (hi : Inv src Ok s) (hpc : s.thread i = .trylock) (hfree : s.mutex = none) :
    Inv src Ok { s.goThread i .signal with mutex := some (.thread i) } where
  ok := hi.ok
  waiter := by
    have hwaiter := hi.waiter
    rw [hfree] at hwaiter
    simpa [State.goThread] using hwaiter
  thread j := by
    rcases eq_or_ne j i with rfl | hne
    · simp [SignalPc.holds]
    · have hj := hi.not_holds (.inl hfree) j
      simp only [State.goThread_of_ne s _ hne, hj]
      simp [hne.symm]
  announced := hi.announced
  check := hi.check
  spun := hi.spun
  coming ha he := coming_goThread (hi.coming ha he) (fun _ => rfl)
  signalled j hj := by
    rcases eq_or_ne j i with rfl | hne
    · simp at hj
    · simp only [State.goThread_of_ne s _ hne] at hj
      exact hi.signalled j hj

lemma Inv.wake (hi : Inv src Ok s) (hfree : s.waiter.holds = false) {thread : ℕ → SignalPc}
    (hthread : ∀ j, (thread j).holds = (s.thread j).holds) :
    Inv src Ok { s with thread := thread, waiter := s.waiter.wake } where
  ok := hi.ok
  waiter := by rw [WaiterPc.wake_holds]; exact hi.waiter
  thread j := by rw [hthread]; exact hi.thread j
  announced h := hi.announced (by rwa [WaiterPc.wake_announced] at h)
  check h := hi.check (WaiterPc.wake_eq_check h)
  spun h := by simp [WaiterPc.holds_of_wake_asleep h] at hfree
  coming h := by simp [WaiterPc.holds_of_wake_asleep h] at hfree
  signalled _ _ := WaiterPc.wake_ne_blocked s.waiter

lemma Inv.signal (hi : Inv src Ok s) (hpc : s.thread i = .signal) :
    Inv src Ok { s.goThread i .unlock with waiter := s.waiter.wake } := by
  have hmutex : s.mutex = some (.thread i) := (hi.thread i).mpr (by rw [hpc]; rfl)
  have hfree : s.waiter.holds = false := by
    rw [← Bool.not_eq_true, ← hi.waiter, hmutex]
    simp
  refine hi.wake hfree fun j => ?_
  rcases eq_or_ne j i with rfl | hne
  · rw [State.goThread_self, hpc]
    rfl
  · rw [State.goThread_of_ne s _ hne]

lemma Inv.unlock (hi : Inv src Ok s) (hpc : s.thread i = .unlock) :
    Inv src Ok { s.goThread i .idle with mutex := none } := by
  have hholds : (s.thread i).holds = true := by rw [hpc]; rfl
  have hmutex : s.mutex = some (.thread i) := (hi.thread i).mpr hholds
  refine ⟨hi.ok, ?_, fun j => ?_, hi.announced, hi.check, hi.spun, fun ha he => ?_, fun j hj => ?_⟩
  · have hwaiter := hi.waiter
    rw [hmutex] at hwaiter
    simpa [State.goThread] using hwaiter
  · rcases eq_or_ne j i with rfl | hne
    · simp [SignalPc.holds]
    · have hj : (s.thread j).holds = false := by
        by_contra h
        exact hne (hi.holds_inj (by simpa using h) hholds)
      simp [State.goThread_of_ne s _ hne, hj]
  · exact coming_goThread (hi.coming ha he) (by simp [hpc, SignalPc.coming])
  · rcases eq_or_ne j i with rfl | hne
    · simp at hj
    · simp only [State.goThread_of_ne s _ hne] at hj
      exact hi.signalled j hj

lemma stepThread_inv {now : ℕ} (hi : Inv src Ok s) (h : stepThread s i now = some t) :
    Inv src Ok t := by
  have hspun := hi.spun
  have hwait : s.waiter.asleep = true → s.pWait = 1 :=
    fun ha => hi.announced (WaiterPc.announced_of_asleep ha)
  unfold stepThread at h
  cases hpc : s.thread i with
  | idle => simp [hpc] at h
  | waitTest | clock | loop =>
    simp only [hpc, Option.some.injEq] at h
    subst h
    refine hi.goThread ?_ ?_ ?_ <;> split <;> simp_all [SignalPc.holds, SignalPc.coming]
  | elapseTest =>
    simp only [hpc, Option.some.injEq] at h
    subst h
    refine hi.goThread ?_ (fun ha _ => ?_) ?_
    · split <;> simp [hpc, SignalPc.holds]
    · rw [if_neg (by have := hspun ha; omega)]
      rfl
    · split <;> simp
  | trylock =>
    simp only [hpc] at h
    split at h
    · next hfree =>
      cases h
      exact hi.trylock hpc hfree
    · cases h
      exact hi.goThread (by rw [hpc]; rfl) (fun _ _ => rfl) (by simp)
  | signal =>
    simp only [hpc, Option.some.injEq] at h
    subst h
    exact hi.signal hpc
  | unlock =>
    simp only [hpc, Option.some.injEq] at h
    subst h
    exact hi.unlock hpc

/-! ### Every step -/

lemma Inv.publish {x : ι} {e : ε} (hsrc : src.Steady Ok) (hi : Inv src Ok s)
    (hpc : s.thread i = .idle) (he : src.publish s.source x = some e) :
    Inv src Ok { s.goThread i .waitTest with source := e } := by
  have hgo : Inv src Ok (s.goThread i .waitTest) :=
    hi.goThread (by rw [hpc]; rfl) (fun _ _ => rfl) (by simp)
  exact { hgo with
    ok := hsrc.publish_ok hi.ok he
    check := fun h => (hi.check h).imp_left (hsrc.publish_keeps hi.ok he)
    coming := fun _ _ => ⟨i, by simp [SignalPc.coming]⟩ }

lemma Inv.withdraw {k : κ} {e : ε} (hsrc : src.Steady Ok) (hi : Inv src Ok s)
    (hpc : s.waiter ≠ .check) (he : src.withdraw s.source k = some e) :
    Inv src Ok { s with source := e } :=
  { hi with
    ok := hsrc.withdraw_ok hi.ok he
    check := fun h => absurd h hpc
    coming := fun ha h => hi.coming ha (hsrc.withdraw_makes_none hi.ok he h) }

theorem step_inv {a : Act ι κ} (hsrc : src.Steady Ok) (hi : Inv src Ok s) (hok : Orderly s a)
    (h : step src s a = some t) : Inv src Ok t := by
  cases a with
  | wait force =>
    simp only [step, Option.ite_none_right_eq_some, Option.some.injEq] at h
    obtain ⟨hpc, rfl⟩ := h
    refine hi.goWaiter ?_ ?_ ?_ ?_ ?_ <;> cases force <;>
      simp [hpc, WaiterPc.holds, WaiterPc.announced, WaiterPc.asleep]
  | waiter now => exact stepWaiter_inv hsrc hi h
  | timeout =>
    simp only [step, Option.ite_none_left_eq_some, Option.some.injEq] at h
    obtain ⟨hpc, rfl⟩ := h
    refine hi.wake ?_ (fun _ => rfl)
    cases hw : s.waiter <;> simp_all [WaiterPc.wake, WaiterPc.holds]
  | publish i x =>
    simp only [step, Option.ite_none_right_eq_some, Option.map_eq_some_iff] at h
    obtain ⟨hpc, e, he, rfl⟩ := h
    exact hi.publish hsrc hpc he
  | callSignal i =>
    simp only [step, Option.ite_none_right_eq_some, Option.some.injEq] at h
    obtain ⟨hpc, rfl⟩ := h
    exact hi.goThread (by rw [hpc]; rfl) (fun _ _ => rfl) (by simp)
  | thread i now => exact stepThread_inv hi h
  | withdraw k =>
    simp only [step, Option.map_eq_some_iff] at h
    obtain ⟨e, he, rfl⟩ := h
    exact hi.withdraw hsrc hok he

/-! ### Endless runs -/

/-- A thread stands still while others go on. -/
lemma step_thread_other {a : Act ι κ} (h : step src s a = some t) (ha : a.actor ≠ some i) :
    t.thread i = s.thread i := by
  cases a with
  | wait force =>
    simp only [step, Option.ite_none_right_eq_some, Option.some.injEq] at h
    rw [← h.2]
    rfl
  | waiter now =>
    simp only [step, stepWaiter] at h
    split at h <;> try split at h
    all_goals cases h; try rfl
  | timeout =>
    simp only [step, Option.ite_none_left_eq_some, Option.some.injEq] at h
    rw [← h.2]
    rfl
  | publish j x =>
    simp only [step, Option.ite_none_right_eq_some, Option.map_eq_some_iff] at h
    obtain ⟨-, e, he, rfl⟩ := h
    exact State.goThread_of_ne s _ (by rintro rfl; exact ha rfl)
  | callSignal j =>
    simp only [step, Option.ite_none_right_eq_some, Option.some.injEq] at h
    obtain ⟨-, rfl⟩ := h
    exact State.goThread_of_ne s _ (by rintro rfl; exact ha rfl)
  | thread j now =>
    have hne : i ≠ j := by rintro rfl; exact ha rfl
    simp only [step, stepThread] at h
    split at h <;> try split at h
    all_goals cases h; try exact State.goThread_of_ne s _ hne
  | withdraw k =>
    simp only [step, Option.map_eq_some_iff] at h
    obtain ⟨e, he, rfl⟩ := h
    rfl

lemma eq_thread_of_actor {a : Act ι κ} (h : step src s a = some t) (hpc : s.thread i ≠ .idle)
    (ha : a.actor = some i) : ∃ now, a = .thread i now := by
  cases a with
  | publish j x =>
    cases ha
    simp [step, hpc] at h
  | callSignal j =>
    cases ha
    simp [step, hpc] at h
  | thread j now =>
    cases ha
    exact ⟨now, rfl⟩
  | _ => cases ha

/-- A sleeping thread sleeps on or is woken. -/
lemma step_blocked {a : Act ι κ} (h : step src s a = some t) {force : Bool}
    (hpc : s.waiter = .blocked force) : t.waiter = .blocked force ∨ t.waiter = .woken force := by
  cases a with
  | wait force => simp [step, hpc] at h
  | waiter now => simp [step, stepWaiter, hpc] at h
  | timeout =>
    simp only [step, Option.ite_none_left_eq_some, Option.some.injEq] at h
    rw [← h.2]
    exact .inr (by simp [State.goWaiter, hpc, WaiterPc.wake])
  | publish j x =>
    simp only [step, Option.ite_none_right_eq_some, Option.map_eq_some_iff] at h
    obtain ⟨hj, e, he, rfl⟩ := h
    exact .inl hpc
  | callSignal j =>
    simp only [step, Option.ite_none_right_eq_some, Option.some.injEq] at h
    rw [← h.2]
    exact .inl hpc
  | thread j now =>
    simp only [step, stepThread] at h
    split at h <;> try split at h
    all_goals cases h
    all_goals first | exact .inl hpc | exact .inr (by simp [hpc, WaiterPc.wake])
  | withdraw k =>
    simp only [step, Option.map_eq_some_iff] at h
    obtain ⟨e, he, rfl⟩ := h
    exact .inl hpc

/-- Thread `i` has come to `pc` and the waiting thread sleeps. -/
def At (i : ℕ) (pc : SignalPc) (s : State ε) : Prop :=
  s.waiter = .blocked false ∧ s.thread i = pc

def Awake (s : State ε) : Prop := s.waiter ≠ .blocked false

section Endless

variable {r : Endless (step src)} (hinv : ∀ n, Inv src Ok (r.state n))
  (hfair : ∀ n i, (r.state n).thread i ≠ .idle → ∃ m, n ≤ m ∧ ∃ now, r.act m = .thread i now)

include hfair hinv

/-- What the next step of thread `i` comes to, the run comes to. -/
lemma leads_of_step {pc : SignalPc} {Q : State ε → Prop} (hpc : pc ≠ .idle)
    (hnext : ∀ {s t : State ε} {now : ℕ}, Inv src Ok s → At i pc s → stepThread s i now = some t →
      Q t)
    (hawake : ∀ s, Awake s → Q s) : r.Leads (At i pc) Q := by
  have hstep : ∀ n, At i pc (r.state n) → (∃ now, r.act n = .thread i now) →
      Q (r.state (n + 1)) := by
    rintro n hn ⟨now, ha⟩
    have hs := r.next n
    rw [ha] at hs
    exact hnext (hinv n) hn hs
  refine Endless.leads_of_fair (H := fun a => ∃ now, a = .thread i now) (fun n hn => ?_) hstep
    (fun n hn => hfair n i (by rw [hn.2]; exact hpc))
  have hbusy : (r.state n).thread i ≠ .idle := by rw [hn.2]; exact hpc
  by_cases ha : (r.act n).actor = some i
  · exact .inr (hstep n hn (eq_thread_of_actor (r.next n) hbusy ha))
  · have hother := step_thread_other (r.next n) ha
    rcases step_blocked (r.next n) hn.1 with hb | hw
    · exact .inl ⟨hb, hother.trans hn.2⟩
    · exact .inr (hawake _ (by simp [Awake, hw]))

lemma leads_signal : r.Leads (At i .signal) Awake := by
  refine leads_of_step hinv hfair (by simp) (fun hi hat h => ?_) (fun s h => h)
  simp only [stepThread, hat.2, Option.some.injEq] at h
  subst h
  simp [Awake, hat.1, WaiterPc.wake]

/-- The mutex is free, or the thread that has it is about to signal. -/
lemma leads_trylock : r.Leads (At i .trylock) Awake := by
  refine Endless.Leads.trans
    (leads_of_step hinv hfair (by simp) (fun {s t now} hi hat h => ?_) (fun s h => .inl h))
    (Endless.leads_of_exists fun j => leads_signal hinv hfair (i := j))
  simp only [stepThread, hat.2] at h
  cases hm : s.mutex with
  | none =>
    simp only [hm, if_true, Option.some.injEq] at h
    subst h
    exact .inr ⟨i, hat.1, State.goThread_self ..⟩
  | some holder =>
    simp only [hm, reduceCtorEq, if_false, Option.some.injEq] at h
    subst h
    cases holder with
    | waiter =>
      have hw := hi.waiter.mp hm
      simp [hat.1, WaiterPc.holds] at hw
    | thread j =>
      have hj := (hi.thread j).mp hm
      have hne : j ≠ i := by
        rintro rfl
        simp [hat.2, SignalPc.holds] at hj
      refine .inr ⟨j, hat.1, ?_⟩
      rw [State.goThread_of_ne s _ hne]
      cases hpc : s.thread j with
      | signal => rfl
      | unlock => exact absurd hat.1 (hi.signalled j hpc false)
      | _ => simp [hpc, SignalPc.holds] at hj

lemma leads_passed {pc pc' : SignalPc} (hpc : pc ≠ .idle)
    (hpass : ∀ {s t : State ε} {now : ℕ}, Inv src Ok s → At i pc s → stepThread s i now = some t →
      t = s.goThread i pc')
    (h : r.Leads (At i pc') Awake) : r.Leads (At i pc) Awake := by
  refine Endless.Leads.trans
    (leads_of_step hinv hfair hpc (fun hi hat hs => ?_) (fun s h => .inl h)) h
  rw [hpass hi hat hs]
  exact .inr ⟨hat.1, State.goThread_self ..⟩

lemma leads_loop : r.Leads (At i .loop) Awake := by
  refine leads_passed hinv hfair (by simp) (fun {s t now} hi hat h => ?_) (leads_trylock hinv hfair)
  have hwait := hi.announced (by rw [hat.1]; rfl)
  have hnot : ¬ s.pWait = 0 := by omega
  simp only [stepThread, hat.2, if_neg hnot, Option.some.injEq] at h
  exact h.symm

lemma leads_elapseTest : r.Leads (At i .elapseTest) Awake := by
  refine leads_passed hinv hfair (by simp) (fun {s t now} hi hat h => ?_) (leads_loop hinv hfair)
  have hspun := hi.spun (by rw [hat.1]; rfl)
  have hnot : ¬ s.elapseTime < spinTime := by omega
  simp only [stepThread, hat.2, if_neg hnot, Option.some.injEq] at h
  exact h.symm

lemma leads_waitTest : r.Leads (At i .waitTest) Awake := by
  refine leads_passed hinv hfair (by simp) (fun hi hat h => ?_) (leads_elapseTest hinv hfair)
  have hwait := hi.announced (by rw [hat.1]; rfl)
  simp only [stepThread, hat.2, hwait, if_true, Option.some.injEq] at h
  exact h.symm

/-- **A thread that comes wakes the one that sleeps.** -/
theorem leads_coming :
    r.Leads (fun s => s.waiter = .blocked false ∧ ∃ i, (s.thread i).coming = true) Awake := by
  rintro n ⟨hb, i, hi⟩
  have hcases : ∀ {pc : SignalPc}, (r.state n).thread i = pc → r.Leads (At i pc) Awake →
      ∃ m, n ≤ m ∧ Awake (r.state m) := fun hpc h => h n ⟨hb, hpc⟩
  cases hpc : (r.state n).thread i with
  | waitTest => exact hcases hpc (leads_waitTest hinv hfair)
  | elapseTest => exact hcases hpc (leads_elapseTest hinv hfair)
  | loop => exact hcases hpc (leads_loop hinv hfair)
  | trylock => exact hcases hpc (leads_trylock hinv hfair)
  | signal => exact hcases hpc (leads_signal hinv hfair)
  | _ => simp [hpc, SignalPc.coming] at hi

end Endless

/-- In every endless run from `e` in which every thread in `signal` goes on, a thread that sleeps
while there is an event is woken. -/
def NoneLost (src : Source ε ι κ) (e : ε) : Prop :=
  ∀ (r : Endless (step src)) (now : ℕ) (junk : ℤ), r.state 0 = start e now junk →
    (∀ n, Orderly (r.state n) (r.act n)) →
    (∀ n i, (r.state n).thread i ≠ .idle → ∃ m, n ≤ m ∧ ∃ now, r.act m = .thread i now) →
    ∀ n, (r.state n).waiter = .blocked false → (src.hasEvent (r.state n).source).1 = true →
      ∃ m, n < m ∧ (r.state m).waiter = .woken false ∧
        ∀ k, n ≤ k → k < m → (r.state k).waiter = .blocked false

lemma noneLost_of_steady (hsrc : src.Steady Ok) {e : ε} (he : Ok e) : NoneLost src e := by
  intro r now junk hstart hord hfair n hsleeps hevent
  have hinv := r.always (fun n hi => step_inv hsrc hi (hord n) (r.next n))
    (hstart ▸ start_inv he now junk)
  have hcoming := (hinv n).coming (by rw [hsleeps]; rfl) hevent
  obtain ⟨m, hnm, hawake, hfirst⟩ := (leads_coming hinv hfair).first ⟨hsleeps, hcoming⟩
  have hlt : n < m := Nat.lt_of_le_of_ne hnm fun h => hawake (h ▸ hsleeps)
  have hblocked : ∀ k, n ≤ k → k < m → (r.state k).waiter = .blocked false :=
    fun k h1 h2 => by simpa [Awake] using hfirst k h1 h2
  obtain ⟨k, rfl⟩ : ∃ k, m = k + 1 := ⟨m - 1, by omega⟩
  refine ⟨k + 1, hlt, ?_, hblocked⟩
  rcases step_blocked (r.next k) (hblocked k (by omega) (by omega)) with h | h
  · exact absurd h hawake
  · exact h

def wakingActs : List (Act RMessage EventSources.Consume) :=
  [.wait false, .waiter 0, .waiter 0, .waiter 0, .waiter 0, .waiter 0, .waiter 100, .waiter 0,
    .waiter 0, .publish 0 (RMessage.new [] 0 1), .thread 0 0, .thread 0 0, .thread 0 0, .thread 0 0,
    .thread 0 0, .thread 0 0, .waiter 0, .waiter 0, .waiter 0, .waiter 0]

def wakingAct (n : ℕ) : Act RMessage EventSources.Consume :=
  wakingActs.getD n (if n % 2 = 0 then .wait false else .waiter 0)

def wakingState : ℕ → State RecvQueue
  | 0 => start (RecvQueue.new 4) 0 0
  | n + 1 =>
    (step EventSources.recvQueue (wakingState n) (wakingAct n)).getD (wakingState n)

lemma wakingState_front : ∀ n < 20,
    (step EventSources.recvQueue (wakingState n) (wakingAct n)).isSome = true := by
  decide +kernel

lemma wait_event (hpc : s.waiter = .idle) (he : src.hasEvent s.source = (true, s.source))
    (now : ℕ) : step src s (.wait false) = some (s.goWaiter .test) ∧
      step src (s.goWaiter .test) (.waiter now) = some s := by
  refine ⟨by simp [step, hpc], ?_⟩
  simp [step, stepWaiter, State.goWaiter, State.tested, he, ← hpc]

lemma wakingState_waits :
    step EventSources.recvQueue (wakingState 20) (.wait false) =
        some ((wakingState 20).goWaiter .test) ∧
      step EventSources.recvQueue ((wakingState 20).goWaiter .test) (.waiter 0) =
        some (wakingState 20) :=
  have hidle : (wakingState 20).waiter = .idle := by decide +kernel
  have hevent : (EventSources.recvQueue.hasEvent (wakingState 20).source).1 = true := by
    decide +kernel
  wait_event hidle (Prod.ext hevent rfl) 0

lemma wakingAct_back (k : ℕ) :
    wakingAct (20 + 2 * k) = .wait false ∧ wakingAct (20 + 2 * k + 1) = .waiter 0 := by
  constructor
  · rw [wakingAct, List.getD_eq_default _ _ (show 20 ≤ _ by omega), if_pos (by omega)]
  · rw [wakingAct, List.getD_eq_default _ _ (show 20 ≤ _ by omega), if_neg (by omega)]

lemma wakingState_back (k : ℕ) : wakingState (20 + 2 * k) = wakingState 20 ∧
    wakingState (20 + 2 * k + 1) = (wakingState 20).goWaiter .test := by
  obtain ⟨hwait, htest⟩ := wakingState_waits
  have htested : ∀ k, wakingState (20 + 2 * k) = wakingState 20 →
      wakingState (20 + 2 * k + 1) = (wakingState 20).goWaiter .test := by
    intro k hk
    rw [wakingState, hk, (wakingAct_back k).1, hwait, Option.getD_some]
  have hidle : wakingState (20 + 2 * k) = wakingState 20 := by
    induction k with
    | zero => rfl
    | succ k ih =>
      rw [show 20 + 2 * (k + 1) = 20 + 2 * k + 1 + 1 by omega, wakingState, htested k ih,
        (wakingAct_back k).2, htest, Option.getD_some]
  exact ⟨hidle, htested k hidle⟩

lemma wakingState_next (n : ℕ) :
    step EventSources.recvQueue (wakingState n) (wakingAct n) = some (wakingState (n + 1)) := by
  rcases Nat.lt_or_ge n 20 with hn | hn
  · obtain ⟨t, ht⟩ := Option.isSome_iff_exists.mp (wakingState_front n hn)
    rw [wakingState, ht, Option.getD_some]
  · obtain ⟨hwait, htest⟩ := wakingState_waits
    obtain ⟨k, hk | hk⟩ : ∃ k, n = 20 + 2 * k ∨ n = 20 + 2 * k + 1 := ⟨(n - 20) / 2, by omega⟩
    · rw [hk, (wakingState_back k).2, (wakingState_back k).1, (wakingAct_back k).1, hwait]
    · have hnext := (wakingState_back (k + 1)).1
      rw [show 20 + 2 * (k + 1) = 20 + 2 * k + 1 + 1 by omega] at hnext
      rw [hk, hnext, (wakingState_back k).2, (wakingAct_back k).2, htest]

def wakingRun : Endless (step EventSources.recvQueue) := ⟨wakingState, wakingAct, wakingState_next⟩

lemma wakingAct_mem (n : ℕ) : wakingAct n ∈ .wait false :: .waiter 0 :: wakingActs := by
  rcases Nat.lt_or_ge n 20 with hn | hn
  · have hget : wakingAct n = wakingActs.get ⟨n, hn⟩ := List.getD_eq_getElem _ _ hn
    rw [hget]
    exact List.mem_cons_of_mem _ (List.mem_cons_of_mem _ (List.get_mem ..))
  · rw [wakingAct, List.getD_eq_default _ _ hn]
    split <;> simp

lemma wakingAct_orderly (n : ℕ) (s : State RecvQueue) : Orderly s (wakingAct n) := by
  have hall : ∀ a ∈ .wait false :: .waiter 0 :: wakingActs, Orderly s a := by
    simp [wakingActs, Orderly]
  exact hall _ (wakingAct_mem n)

/-- Only thread `0` is ever in `signal`, and it comes back. -/
lemma wakingState_busy {n : ℕ} (h : (wakingState n).thread i ≠ .idle) : i = 0 ∧ n ≤ 15 := by
  have hactor : ∀ a ∈ .wait false :: .waiter 0 :: wakingActs, i ≠ 0 → a.actor ≠ some i := by
    intro a ha hi
    simp only [wakingActs, List.mem_cons, List.not_mem_nil, or_false] at ha
    rcases ha with rfl | rfl | rfl | rfl | rfl | rfl | rfl | rfl | rfl | rfl | rfl | rfl | rfl |
      rfl | rfl | rfl | rfl | rfl | rfl | rfl | rfl | rfl <;> simp [Act.actor, hi.symm]
  have hi : i = 0 := by
    by_contra hi
    refine h (wakingRun.always (P := fun s => s.thread i = .idle) (fun n hn => ?_) rfl n)
    rw [step_thread_other (wakingRun.next n) (hactor _ (wakingAct_mem n) hi)]
    exact hn
  refine ⟨hi, ?_⟩
  by_contra hn
  have hfront : ∀ n ≤ 20, 15 < n → (wakingState n).thread 0 = .idle := by decide +kernel
  rcases Nat.lt_or_ge n 20 with h20 | h20
  · exact h (hi ▸ hfront n (by omega) (by omega))
  · obtain ⟨k, rfl | rfl⟩ : ∃ k, n = 20 + 2 * k ∨ n = 20 + 2 * k + 1 := ⟨(n - 20) / 2, by omega⟩
    · rw [(wakingState_back k).1] at h
      exact h (hi ▸ hfront 20 le_rfl (by omega))
    · rw [(wakingState_back k).2] at h
      exact h (hi ▸ hfront 20 le_rfl (by omega))

def oneClosed : SendQueue := { SendQueue.new 4 1 [] with dataSeq := 2 }

/-- The queue is opened while the sender spins, and closed again between the last test of the loop
and the test behind it. -/
def closingActs : List (Act EventSources.Offer EventSources.Retract) :=
  [.wait false, .waiter 0, .waiter 0, .waiter 0, .waiter 0, .publish 0 (.setOpen 1), .waiter 0,
    .withdraw (.setClose 1), .waiter 0, .waiter 0, .thread 0 0, .thread 0 0, .thread 0 0,
    .publish 0 (.setOpen 1), .thread 0 5, .thread 0 5, .thread 0 5]

/-- **A wake-up is lost** when the events are not withdrawn in order: the sender sleeps with a
message in an open queue, and no signal is on its way. -/
theorem lost_in_close : ∃ s,
    run (step EventSources.session) (start [oneClosed] 0 0) closingActs =
      some s ∧ s.waiter = .blocked false ∧
      (EventSources.session.hasEvent s.source).1 = true ∧ ∀ i, s.thread i = .idle :=
  ⟨_, rfl, rfl, rfl, fun i => by cases i <;> rfl⟩

/-- A queue with one message that is open at the fourth look. -/
def oneCounted : SendQueue :=
  { SendQueue.new 4 1 [] with dataSeq := 2, qFlag := 1, qFlagThreshold := 4 }

/-- **A wake-up is lost** when the test behind the loop counts the flag up to its threshold: the
sender sleeps with a message in an open queue, and there was no signal. -/
theorem lost_in_count : ∃ s,
    run (step EventSources.session) (start [oneCounted] 0 0)
        [.wait false, .waiter 0, .waiter 0, .waiter 0, .waiter 0, .waiter 0, .waiter 30, .waiter 0,
          .waiter 0] = some s ∧ s.waiter = .blocked false ∧
      (EventSources.session.hasEvent s.source).1 = true ∧ ∀ i, s.thread i = .idle :=
  ⟨_, rfl, rfl, rfl, fun _ => rfl⟩

/-! ### A forced wait -/

/-- `p_wait` is set only in a wait that is not forced. -/
lemma step_pWait {a : Act ι κ} (h : step src s a = some t)
    (hi : s.waiter.announced = false → s.pWait ≠ 1) : t.waiter.announced = false → t.pWait ≠ 1 := by
  cases a with
  | wait force =>
    simp only [step, Option.ite_none_right_eq_some, Option.some.injEq] at h
    obtain ⟨hpc, rfl⟩ := h
    exact fun _ => hi (by rw [hpc]; rfl)
  | waiter now =>
    simp only [step, stepWaiter] at h
    cases hpc : s.waiter with
    | idle | blocked force => simp [hpc] at h
    | lock force | woken force =>
      simp only [hpc, Option.ite_none_right_eq_some, Option.some.injEq] at h hi
      obtain ⟨-, rfl⟩ := h
      cases force <;> simp_all [WaiterPc.announced]
    | unlock force =>
      simp only [hpc, Option.some.injEq] at h hi
      subst h
      cases force <;> simp_all [WaiterPc.announced]
    | test | spinTest | spinClock | check =>
      simp only [hpc, Option.some.injEq] at h hi
      subst h
      split <;> simp_all [State.goWaiter, State.tested, WaiterPc.announced]
    | setStart | setWait | condWait force | resetElapse | resetWait =>
      simp only [hpc, Option.some.injEq] at h hi
      subst h
      simp_all [WaiterPc.announced]
  | timeout =>
    simp only [step, Option.ite_none_left_eq_some, Option.some.injEq] at h
    obtain ⟨-, rfl⟩ := h
    exact fun ht => hi (by rwa [State.goWaiter, WaiterPc.wake_announced] at ht)
  | publish j x =>
    simp only [step, Option.ite_none_right_eq_some, Option.map_eq_some_iff] at h
    obtain ⟨-, e, he, rfl⟩ := h
    exact hi
  | callSignal j =>
    simp only [step, Option.ite_none_right_eq_some, Option.some.injEq] at h
    obtain ⟨-, rfl⟩ := h
    exact hi
  | thread j now =>
    simp only [step, stepThread] at h
    split at h <;> try split at h
    all_goals cases h
    all_goals first | exact hi | exact fun ht => hi (by rwa [WaiterPc.wake_announced] at ht)
  | withdraw k =>
    simp only [step, Option.map_eq_some_iff] at h
    obtain ⟨e, he, rfl⟩ := h
    exact hi

/-- The waiting thread sleeps in a forced wait, and no signal is past its first test. -/
structure Deaf (s : State ε) : Prop where
  waiter : s.waiter = .blocked true
  pWait : s.pWait ≠ 1
  thread : ∀ i, s.thread i = .idle ∨ s.thread i = .waitTest

lemma step_deaf {a : Act ι κ} (hd : Deaf s) (ha : a ≠ .timeout) (h : step src s a = some t) :
    Deaf t := by
  obtain ⟨hwaiter, hwait, hthread⟩ := hd
  have hgo : ∀ j pc, pc = .idle ∨ pc = .waitTest →
      ∀ i, (s.goThread j pc).thread i = .idle ∨ (s.goThread j pc).thread i = .waitTest := by
    intro j pc hpc i
    rcases eq_or_ne i j with rfl | hne
    · rwa [State.goThread_self]
    · rw [State.goThread_of_ne s pc hne]
      exact hthread i
  cases a with
  | wait force => simp [step, hwaiter] at h
  | waiter now => simp [step, stepWaiter, hwaiter] at h
  | timeout => exact absurd rfl ha
  | publish j x =>
    simp only [step, Option.ite_none_right_eq_some, Option.map_eq_some_iff] at h
    obtain ⟨-, e, -, rfl⟩ := h
    exact ⟨hwaiter, hwait, hgo j _ (.inr rfl)⟩
  | callSignal j =>
    simp only [step, Option.ite_none_right_eq_some, Option.some.injEq] at h
    obtain ⟨-, rfl⟩ := h
    exact ⟨hwaiter, hwait, hgo j _ (.inr rfl)⟩
  | thread j now =>
    simp only [step, stepThread] at h
    rcases hthread j with hpc | hpc
    · simp [hpc] at h
    · simp only [hpc, if_neg hwait, Option.some.injEq] at h
      subst h
      exact ⟨hwaiter, hwait, hgo j _ (.inl rfl)⟩
  | withdraw k =>
    simp only [step, Option.map_eq_some_iff] at h
    obtain ⟨e, -, rfl⟩ := h
    exact ⟨hwaiter, hwait, hthread⟩

/-- **A forced wait hears no signal.** A thread that sleeps in a forced wait sleeps on until its
time is over, whatever is published and signalled; `p_wait` was not `1` to begin with. -/
theorem forced_wait_deaf {e : ε} {now : ℕ} {junk : ℤ} (hjunk : junk ≠ 1)
    {acts later : List (Act ι κ)}
    (hs : run (step src) (start e now junk) acts = some s) (hsleeps : s.waiter = .blocked true)
    (hthreads : ∀ i, s.thread i = .idle ∨ s.thread i = .waitTest)
    (ht : run (step src) s later = some t) (htime : .timeout ∉ later) :
    t.waiter = .blocked true := by
  have hwait : s.waiter.announced = false → s.pWait ≠ 1 :=
    run_induct (P := fun s => s.waiter.announced = false → s.pWait ≠ 1)
      (fun _ _ _ hi _ h => step_pWait h hi) (fun _ => hjunk)
      (meets_of_forall (fun _ _ => trivial) _ _) hs
  have hdeaf : Deaf s := ⟨hsleeps, hwait (by rw [hsleeps]; rfl), hthreads⟩
  exact (run_induct (fun _ _ _ hd ha h => step_deaf hd ha h) hdeaf
    (meets_of_mem (fun a ha => ne_of_mem_of_not_mem ha htime) s) ht).waiter

def beforeLogon : State (List SendQueue) :=
  { start [oneClosed] 0 0 with waiter := .blocked true }

def openedBeforeLogon : State (List SendQueue) :=
  { (beforeLogon.goThread 0 .waitTest).goThread 0 .idle with
    source := [oneClosed.setOpen] }

theorem forced_wait_deaf_beforeLogon :
    run (step EventSources.session) (start [oneClosed] 0 0)
        [.wait true, .waiter 0, .waiter 0] = some beforeLogon ∧
      run (step EventSources.session) beforeLogon [.publish 0 (.setOpen 1), .thread 0 0] =
        some openedBeforeLogon ∧
      (EventSources.session.hasEvent openedBeforeLogon.source).1 = true ∧
      openedBeforeLogon.waiter = .blocked true := by
  have hs : run (step EventSources.session) (start [oneClosed] 0 0)
      [.wait true, .waiter 0, .waiter 0] = some beforeLogon := rfl
  have ht : run (step EventSources.session) beforeLogon [.publish 0 (.setOpen 1), .thread 0 0] =
      some openedBeforeLogon := rfl
  exact ⟨hs, ht, rfl, forced_wait_deaf (by decide) hs rfl (fun _ => .inl rfl) ht (by simp)⟩

end Ufix.Wakeups
