import Ufix.Flags
import Ufix.SessionMsgs

/-!
The state of a session: five flags in one number, kept with remainders and additions.

`add_state` and `reset_state` hold the mutex of the state; `is_state` and `is_logon` read it
without.
-/

namespace Ufix

def stateStart : ℕ := 0
def stateLogonSent : ℕ := 2
def stateRrTimeout : ℕ := 16
def stateLogon : ℕ := 31

namespace SessionState

/-! ### The functions of the source -/

def isState (state stateToCheck : ℕ) : Bool := Flags.isSet state stateToCheck

/-- Without a connection only two of the flags are taken. -/
def addState (state add : ℕ) : ℕ :=
  if isState state add then state
  else if add = stateConnected ∨ add = stateRrRecv ∨ isState state stateConnected then state + add
  else state

/-- `reset_state`, which looks at nothing. -/
def resetState : ℕ := stateRrRecv

def isLogon (state : ℕ) : Bool := state = stateLogon

/-- `get_state_description` looks at the state up to six times, and the threads may go on in
between: `read k` is what it finds the `k`-th time. -/
def getStateDescription (read : ℕ → ℕ) : String :=
  if read 0 = stateLogon then "LOGON"
  else if !isState (read 1) stateConnected then "DISCONNECTED"
  else if !isState (read 2) stateLogonSent && !isState (read 3) stateLogonRecv then "CONNECTED"
  else if !isState (read 4) stateRrRecv || !isState (read 5) stateRrTimeout then
    "SESSION INIT-TRY LOGON"
  else "SESSION INIT-RECOVERING"

/-- The state `init_session` and `init_p_manager` leave: a session that has sent messages before
waits for the peer to ask for them. -/
def initState (M : ℕ) (pm : PManager) : ℕ :=
  let r := pm.readSentMarks (SentMark.new M)
  match (if r.lastSeq > 0 then r.marks.getMark r.lastSeq else none) with
  | none => stateRrRecv
  | some _ => stateStart

/-! ### The state as a set of flags -/

inductive Flag
  | connected
  | logonSent
  | logonRecv
  | rrRecv
  | rrTimeout
  deriving DecidableEq, Repr

def Flag.bit : Flag → ℕ
  | .connected => 0
  | .logonSent => 1
  | .logonRecv => 2
  | .rrRecv => 3
  | .rrTimeout => 4

def Flag.value (f : Flag) : ℕ := 2 ^ f.bit

lemma Flag.bit_lt (f : Flag) : f.bit < 5 := by cases f <;> decide

lemma Flag.bit_inj {f g : Flag} : f.bit = g.bit ↔ f = g := by
  cases f <;> cases g <;> decide

def Has (state : ℕ) (f : Flag) : Prop := state.testBit f.bit = true

instance (state : ℕ) (f : Flag) : Decidable (Has state f) := inferInstanceAs (Decidable (_ = _))

lemma isState_iff (state : ℕ) (f : Flag) : isState state f.value = true ↔ Has state f := by
  unfold isState Flag.value
  rw [Flags.isSet_two_pow, Has]

/-- What `add_state` takes whatever the state is. -/
def Flag.Free (f : Flag) : Prop := f = .connected ∨ f = .rrRecv

instance (f : Flag) : Decidable f.Free := inferInstanceAs (Decidable (_ ∨ _))

lemma free_iff (f : Flag) :
    f.value = stateConnected ∨ f.value = stateRrRecv ↔ f.Free := by
  cases f <;> simp [Flag.value, Flag.bit, stateConnected, stateRrRecv, Flag.Free]

lemma addState_eq (state : ℕ) (f : Flag) :
    addState state f.value =
      if ¬ Has state f ∧ (f.Free ∨ Has state .connected) then state + f.value else state := by
  have hconn : isState state stateConnected = true ↔ Has state .connected :=
    isState_iff state .connected
  have hfree : f.value = stateConnected ∨ f.value = stateRrRecv ∨
      isState state stateConnected = true ↔ f.Free ∨ Has state .connected := by
    rw [← or_assoc, free_iff, hconn]
  simp only [addState, hfree, isState_iff]
  by_cases h : Has state f
  · simp [h]
  · simp [h]

/-- **What `add_state` does to the flags**: it adds its own, where it takes it, and no other. -/
theorem has_addState (state : ℕ) (f g : Flag) :
    Has (addState state f.value) g ↔
      Has state g ∨ g = f ∧ (f.Free ∨ Has state .connected) := by
  rw [addState_eq]
  split
  · next h =>
    have hunset : state.testBit f.bit = false := by simpa [Has] using h.1
    rw [and_iff_left h.2, Has, Flag.value, Flags.testBit_add_two_pow hunset]
    simp only [Bool.or_eq_true, decide_eq_true_eq, Flag.bit_inj, Has]
  · next h =>
    constructor
    · exact Or.inl
    · rintro (hg | ⟨rfl, hok⟩)
      · exact hg
      · by_contra hne
        exact h ⟨hne, hok⟩

lemma addState_lt {state : ℕ} (h : state < 32) (f : Flag) : addState state f.value < 32 := by
  rw [addState_eq]
  split
  · next hf =>
    have hunset : state.testBit f.bit = false := by simpa [Has] using hf.1
    exact Flags.add_two_pow_lt (w := 5) h f.bit_lt hunset
  · exact h

lemma has_resetState (f : Flag) : Has resetState f ↔ f = .rrRecv := by
  cases f <;> decide

lemma eq_of_has {s t : ℕ} (hs : s < 32) (ht : t < 32) (h : ∀ f, Has s f ↔ Has t f) : s = t := by
  have hbits : ∀ f : Flag, s.testBit f.bit = t.testBit f.bit := fun f => Bool.eq_iff_iff.mpr (h f)
  refine Flags.eq_of_testBit (w := 5) hs ht fun i hi => ?_
  obtain rfl | rfl | rfl | rfl | rfl : i = 0 ∨ i = 1 ∨ i = 2 ∨ i = 3 ∨ i = 4 := by omega
  · exact hbits .connected
  · exact hbits .logonSent
  · exact hbits .logonRecv
  · exact hbits .rrRecv
  · exact hbits .rrTimeout

lemma isLogon_iff {state : ℕ} (h : state < 32) : isLogon state = true ↔ ∀ f, Has state f := by
  have hall : ∀ f, Has stateLogon f := fun f => by cases f <;> decide
  unfold isLogon
  rw [decide_eq_true_eq]
  constructor
  · rintro rfl
    exact hall
  · intro hf
    exact eq_of_has h (by decide) fun f => ⟨fun _ => hall f, fun _ => hf f⟩

lemma initState_lt (M : ℕ) (pm : PManager) : initState M pm < 32 := by
  unfold initState
  simp only
  split <;> decide

lemma has_initState (M : ℕ) (pm : PManager) (f : Flag) (h : Has (initState M pm) f) :
    f = .rrRecv ∧ initState M pm = stateRrRecv := by
  unfold initState at h ⊢
  simp only at h ⊢
  split at h
  · exact ⟨(has_resetState f).mp h, rfl⟩
  · cases f <;> cases h

end SessionState

end Ufix
