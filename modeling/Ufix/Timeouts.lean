import Ufix.Connection
import Ufix.Traces

/-!
How long a peer may be silent: when a session asks whether it is still there, when it gives it up,
and when it sends a Heartbeat of its own.

The times are those of the clock of the session, in seconds. The receiver thread looks at what it
noted last when there is nothing to receive; the sender thread when there is nothing to send.
-/

namespace Ufix.Timeouts

open Connection (elapsed)
open Runs Traces

/-! ### The functions -/

structure Thresholds where
  heartBt : ℤ
  testRequest : ℤ
  disconnect : ℤ

/-- `set_heart_bt_in`; the products with `1.2` and `2.4`, of doubles, have these whole parts, which
are an `int` up to `894784853`. -/
def setHeartBtIn (hbt : ℤ) : Thresholds := ⟨hbt, (12 * hbt).tdiv 10, (24 * hbt).tdiv 10⟩

structure Watch where
  lastRecvUtcTs : ℕ
  trSentFlag : Bool

def updateRecvEventTs (ts : ℕ) : Watch := ⟨ts, false⟩

inductive Alarm
  | testRequest
  | disconnect
  deriving DecidableEq

variable (th : Thresholds)

/-- `recv_timeout`, with what the clock shows when it is read first and when it is read again; for a
`testRequest` the command is added. -/
def recvTimeout (ts ts' : ℕ) (w : Watch) : Watch × Option Alarm :=
  let elapseTime := elapsed ts w.lastRecvUtcTs
  if elapseTime < th.testRequest then (w, none)
  else if elapseTime ≥ th.disconnect then ({ w with lastRecvUtcTs := ts' }, some .disconnect)
  else if w.trSentFlag = false then ({ w with trSentFlag := true }, some .testRequest)
  else (w, none)

/-- `send_timeout`: the new `last_sent_utc_ts`, and whether it is time for a Heartbeat. -/
def sendTimeout (ts ts' lastSentUtcTs : ℕ) : ℕ × Bool :=
  if elapsed ts lastSentUtcTs ≥ th.heartBt then (ts', true) else (lastSentUtcTs, false)

lemma elapsed_eq {ts last : ℕ} (hle : last ≤ ts) (hlt : ts < 2 ^ 64) (hspan : ts < last + 2 ^ 31) :
    elapsed ts last = ts - last := by
  have hmod : ulong (ulong ts + 2 ^ 64 - last) = ts - last := by
    unfold ulong
    omega
  have hsmall : ((ts - last : ℕ) : ℤ).bmod (2 ^ 32) = (ts - last : ℕ) := by
    rw [Int.bmod_def]
    split <;> omega
  unfold elapsed
  rw [hmod, hsmall]
  omega

variable {th}

lemma sendTimeout_due {ts last : ℕ} (h : th.heartBt ≤ elapsed ts last) (ts' : ℕ) :
    sendTimeout th ts ts' last = (ts', true) := if_pos h

lemma sendTimeout_early {ts last : ℕ} (h : elapsed ts last < th.heartBt) (ts' : ℕ) :
    sendTimeout th ts ts' last = (last, false) := if_neg (not_le.mpr h)

variable (th)

/-! ### What a session has noted -/

inductive Act
  | received (ts : ℕ)
  /-- nothing to receive -/
  | poll (ts ts' : ℕ)

inductive Event
  | received
  | quiet
  | testRequest
  /-- the silence is counted from `ts'` on again -/
  | disconnect (ts' : ℕ)
  deriving DecidableEq

abbrev Trace := List (ℕ × Event)

def pollEvent (ts' : ℕ) : Option Alarm → Event
  | none => .quiet
  | some .testRequest => .testRequest
  | some .disconnect => .disconnect ts'

structure State where
  watch : Watch
  trace : Trace

def step (s : State) : Act → Option State
  | .received ts => some ⟨updateRecvEventTs ts, s.trace ++ [(ts, .received)]⟩
  | .poll ts ts' =>
    let (watch, alarm) := recvTimeout th ts ts' s.watch
    some ⟨watch, s.trace ++ [(ts, pollEvent ts' alarm)]⟩

/-- The constructor of the session notes the time as if a message had come. -/
def start (ts : ℕ) : State := ⟨updateRecvEventTs ts, [(ts, .received)]⟩

/-- The clock is not behind what was noted last, and no `2 ^ 31` seconds ahead of it. -/
def Orderly (s : State) : Act → Prop
  | .received ts => s.watch.lastRecvUtcTs ≤ ts
  | .poll ts ts' => s.watch.lastRecvUtcTs ≤ ts ∧ ts ≤ ts' ∧ ts < 2 ^ 64 ∧
      ts < s.watch.lastRecvUtcTs + 2 ^ 31

instance (s : State) : ∀ a, Decidable (Orderly s a)
  | .received _ => inferInstanceAs (Decidable (_ ≤ _))
  | .poll .. => inferInstanceAs (Decidable (_ ∧ _ ∧ _ ∧ _))

/-! ### What an alarm asks of the past -/

/-- The silence was counted from `r` on. -/
def Refreshed (tr : Trace) (r : ℕ) : Prop :=
  (r, .received) ∈ tr ∨ ∃ t, (t, .disconnect r) ∈ tr

/-- Nothing came for `d` seconds. -/
def Silent (tr : Trace) (t : ℕ) (d : ℤ) : Prop := ∀ r, Refreshed tr r → d ≤ t - r

/-- A TestRequest was asked for, and nothing came since. -/
def Asked : Trace → Prop := Since (fun e => e.2 = .testRequest) fun e => e.2 = .received

def Due (tr : Trace) : ℕ × Event → Prop
  | (_, .received) => True
  | (t, .quiet) => ¬ Silent tr t th.testRequest ∨ ¬ Silent tr t th.disconnect ∧ Asked tr
  | (t, .testRequest) =>
    Silent tr t th.testRequest ∧ ¬ Silent tr t th.disconnect ∧ ¬ Asked tr
  | (t, .disconnect _) => Silent tr t th.testRequest ∧ Silent tr t th.disconnect

variable {th} {s t : State}

lemma refreshed_concat {tr : Trace} {e : ℕ × Event} {r : ℕ} :
    Refreshed (tr ++ [e]) r ↔ Refreshed tr r ∨ e = (r, .received) ∨ e.2 = .disconnect r := by
  obtain ⟨t, e⟩ := e
  simp only [Refreshed, List.mem_append, List.mem_singleton, Prod.mk.injEq]
  grind

lemma asked_concat {tr : Trace} {e : ℕ × Event} :
    Asked (tr ++ [e]) ↔ e.2 = .testRequest ∨ Asked tr ∧ e.2 ≠ .received := since_concat

structure Inv (th : Thresholds) (s : State) : Prop where
  noted : Refreshed s.trace s.watch.lastRecvUtcTs
  latest : ∀ r, Refreshed s.trace r → r ≤ s.watch.lastRecvUtcTs
  flag : s.watch.trSentFlag = true ↔ Asked s.trace
  due : Guarded (Due th) s.trace

lemma Inv.silent (h : Inv th s) (ts : ℕ) (d : ℤ) :
    Silent s.trace ts d ↔ d ≤ ts - s.watch.lastRecvUtcTs := by
  refine ⟨fun hs => hs _ h.noted, fun hd r hr => ?_⟩
  have := h.latest r hr
  omega

lemma start_inv (ts : ℕ) : Inv th (start ts) where
  noted := .inl (by simp [start, updateRecvEventTs])
  latest := by
    rintro r (hr | ⟨t, hr⟩)
    · simp only [start, List.mem_singleton, Prod.mk.injEq] at hr
      exact hr.1.le
    · simp [start] at hr
  flag := by
    refine ⟨fun h => absurd h Bool.false_ne_true, fun h => ?_⟩
    rcases (@asked_concat [] (ts, .received)).mp h with h | h
    · cases h
    · exact absurd rfl h.2
  due := (@guarded_concat _ (Due th) [] _).mpr ⟨guarded_nil, trivial⟩

lemma received_inv (h : Inv th s) {ts : ℕ} (hle : s.watch.lastRecvUtcTs ≤ ts) :
    Inv th ⟨updateRecvEventTs ts, s.trace ++ [(ts, .received)]⟩ where
  noted := refreshed_concat.mpr (.inr (.inl rfl))
  latest := by
    intro r hr
    rcases refreshed_concat.mp hr with hr | hr | hr
    · exact (h.latest r hr).trans hle
    · cases hr
      exact le_rfl
    · cases hr
  flag := by
    rw [asked_concat]
    simp [updateRecvEventTs]
  due := guarded_concat.mpr ⟨h.due, trivial⟩

lemma polled_inv (h : Inv th s) {ts : ℕ} {e : Event} {flag : Bool}
    (he : Due th s.trace (ts, e)) (hreceived : e ≠ .received)
    (hdisconnect : ∀ r, e ≠ .disconnect r)
    (hflag : flag = (s.watch.trSentFlag || e = .testRequest)) :
    Inv th ⟨⟨s.watch.lastRecvUtcTs, flag⟩, s.trace ++ [(ts, e)]⟩ where
  noted := refreshed_concat.mpr (.inl h.noted)
  latest := by
    intro r hr
    rcases refreshed_concat.mp hr with hr | hr | hr
    · exact h.latest r hr
    · exact absurd (congrArg Prod.snd hr) hreceived
    · exact absurd hr (hdisconnect r)
  flag := by
    rw [asked_concat, ← h.flag, hflag]
    simp only [Bool.or_eq_true, decide_eq_true_eq, ne_eq, hreceived, not_false_iff, and_true]
    exact or_comm
  due := guarded_concat.mpr ⟨h.due, he⟩

lemma disconnected_inv (h : Inv th s) {ts ts' : ℕ} (hle : s.watch.lastRecvUtcTs ≤ ts')
    (he : Due th s.trace (ts, .disconnect ts')) :
    Inv th ⟨{ s.watch with lastRecvUtcTs := ts' }, s.trace ++ [(ts, .disconnect ts')]⟩ where
  noted := refreshed_concat.mpr (.inr (.inr rfl))
  latest := by
    intro r hr
    rcases refreshed_concat.mp hr with hr | hr | hr
    · exact (h.latest r hr).trans hle
    · cases hr
    · cases hr
      exact le_rfl
  flag := by
    rw [asked_concat, ← h.flag]
    simp
  due := guarded_concat.mpr ⟨h.due, he⟩

lemma step_inv {a : Act} (h : Inv th s) (hok : Orderly s a) (hs : step th s a = some t) :
    Inv th t := by
  cases a with
  | received ts =>
    cases hs
    exact received_inv h hok
  | poll ts ts' =>
    obtain ⟨hle, hle', hlt, hspan⟩ := hok
    have hsilent := h.silent ts
    rw [← elapsed_eq hle hlt hspan] at hsilent
    simp only [step, recvTimeout] at hs
    -- the three tests, as they are made
    split at hs
    · rename_i h1
      cases hs
      exact polled_inv h (.inl ((hsilent _).not.mpr (not_le.mpr h1))) (by simp [pollEvent])
        (by simp [pollEvent]) (by simp [pollEvent])
    split at hs
    · rename_i h1 h2
      cases hs
      exact disconnected_inv h (hle.trans hle')
        ⟨(hsilent _).mpr (not_lt.mp h1), (hsilent _).mpr h2⟩
    split at hs
    · rename_i h1 h2 h3
      cases hs
      have hasked : ¬ Asked s.trace := by
        rw [← h.flag, h3]
        exact Bool.false_ne_true
      exact polled_inv h ⟨(hsilent _).mpr (not_lt.mp h1), (hsilent _).not.mpr h2, hasked⟩
        (by simp [pollEvent]) (by simp [pollEvent]) (by simp [pollEvent])
    · rename_i h1 h2 h3
      cases hs
      have hasked : Asked s.trace := h.flag.mp (by simpa using h3)
      exact polled_inv h (.inr ⟨(hsilent _).not.mpr h2, hasked⟩) (by simp [pollEvent])
        (by simp [pollEvent]) (by simp [pollEvent])

/-- **Every alarm is due, and none is left out.** In every run of the receiver thread a TestRequest
is asked for, and the peer given up, at the polls at which the silence is long enough, the first
once between two receptions. -/
theorem run_due {ts : ℕ} {acts : List Act} (hm : Meets (step th) Orderly (start ts) acts)
    (hr : run (step th) (start ts) acts = some s) : Guarded (Due th) s.trace :=
  (run_induct (P := Inv th) (fun _ _ _ hi hok hs => step_inv hi hok hs) (start_inv ts) hm hr).due

def silentRun : List Act := [.poll 20 20, .poll 36 36, .poll 40 40, .poll 72 72, .poll 110 110]

/-- The silence after the first alarms, which is as long, does not make another TestRequest. -/
def silentTrace : Trace :=
  [(0, .received), (20, .quiet), (36, .testRequest), (40, .quiet), (72, .disconnect 72),
    (110, .quiet)]

theorem run_due_silent :
    run (step (setHeartBtIn 30)) (start 0) silentRun = some ⟨⟨72, true⟩, silentTrace⟩ ∧
      Guarded (Due (setHeartBtIn 30)) silentTrace := by
  have hr : run (step (setHeartBtIn 30)) (start 0) silentRun = some ⟨⟨72, true⟩, silentTrace⟩ :=
    rfl
  have hm : Meets (step (setHeartBtIn 30)) Orderly (start 0) silentRun := by
    refine fun t ht => ⟨by decide, ?_⟩
    cases ht
    refine fun t ht => ⟨by decide, ?_⟩
    cases ht
    refine fun t ht => ⟨by decide, ?_⟩
    cases ht
    refine fun t ht => ⟨by decide, ?_⟩
    cases ht
    exact fun t ht => ⟨by decide, trivial⟩
  exact ⟨hr, run_due hm hr⟩

end Ufix.Timeouts
