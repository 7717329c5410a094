import Ufix.Connection
import Ufix.Traces

/-!
What a session sends on a connection, and what has happened there before, whatever the threads do
in between.

A test of the state and what the sender does upon it are apart, and the receiver may reset the
state between them. What saves the tests is that no flag of a connection comes back before there is
a new one: `add_state` takes the Logon flags only while the session is connected, and a new
connection is made by the sender itself.
-/

namespace Ufix.Login

open Ufix.Runs Ufix.Traces Ufix.SessionState Ufix.Connection

/-! ### What a trace says -/

abbrev Trace := List (ℕ × Event)

def SentLogon (tr : Trace) (conn : ℕ) : Prop := ∃ t, (t, .sent conn .logon true) ∈ tr
def TriedLogon (tr : Trace) (conn : ℕ) : Prop := ∃ t ok, (t, .sent conn .logon ok) ∈ tr
def LogonAt (tr : Trace) (conn t : ℕ) : Prop := (t, .received conn .logon) ∈ tr
def RecvLogon (tr : Trace) (conn : ℕ) : Prop := ∃ t, LogonAt tr conn t
def Down (tr : Trace) (conn : ℕ) : Prop := ∃ t, (t, .disconnected conn) ∈ tr

/-- The peer asked for old messages, or a connection was lost. -/
def Asked (tr : Trace) : Prop :=
  ∃ t conn, (t, .received conn .resendRequest) ∈ tr ∨ (t, .disconnected conn) ∈ tr

/-- The Logon of the peer came more than the five seconds ago. -/
def Ripe (tr : Trace) (conn now : ℕ) : Prop :=
  ∃ t, LogonAt tr conn t ∧ t + rrTimeoutSeconds * million < now

variable (ty : SocketType) (fresh : Prop)

/-- What an event asks of the ones before it, where the session is `fresh` if it never sent a
message before it started. -/
def Earned (tr : Trace) : ℕ × Event → Prop
  | (_, .sent conn .logon _) =>
    (ty = .acceptor → RecvLogon tr conn) ∧ (TriedLogon tr conn → Down tr conn)
  | (_, .sent conn .cmd _) => SentLogon tr conn ∧ RecvLogon tr conn
  | (t, .sent conn _ _) => SentLogon tr conn ∧ Ripe tr conn t ∧ (fresh ∨ Asked tr)
  | _ => True

/-- An acceptor takes a new connection when the threads of the ones before have ended, and the last
one was given up by its receiver. -/
def Orderly (s : System) : Act → Prop
  | .accept => (∀ i < s.num, (s.connector i).sender = .exited ∧
      (s.connector i).receiver = .exited) ∧ ¬ Has s.state .connected
  | _ => True

/-! ### The invariant -/

def Up (s : System) (conn : ℕ) : Prop := Has s.state .connected ∨ Down s.trace conn

/-- The flags seen are still there, unless the state was reset. -/
def Passed (s : System) (fs : List Flag) : Prop :=
  Has s.state .connected → ∀ f ∈ fs, Has s.state f

def SenderAt (s : System) (c : Connector) : SenderPc → Prop
  | .loop | .body => ty = .acceptor → Up s c.conn
  | .connect => ¬ Has s.state .connected
  | .addConnected => ¬ Has s.state .connected ∧ ¬ TriedLogon s.trace c.conn
  | .sendFlagTest => Up s c.conn
  | .logonSentTest => Up s c.conn ∧ c.socketSendFlag = true
  | .logonRecvGate => Up s c.conn ∧ (TriedLogon s.trace c.conn → Down s.trace c.conn)
  | .sendLogon => Up s c.conn ∧ (ty = .acceptor → RecvLogon s.trace c.conn) ∧
      (TriedLogon s.trace c.conn → Down s.trace c.conn)
  | .addLogonSent => Up s c.conn ∧ SentLogon s.trace c.conn
  | .logonRecvTest => Up s c.conn ∧ SentLogon s.trace c.conn ∧ Passed s [.logonSent]
  | .sendCmds | .logonTest | .rrRecvTest => Up s c.conn ∧ SentLogon s.trace c.conn ∧
      RecvLogon s.trace c.conn ∧ Passed s [.logonSent, .logonRecv]
  | .rrTimeoutTest | .rrClock => Up s c.conn ∧ SentLogon s.trace c.conn ∧
      RecvLogon s.trace c.conn ∧ Passed s [.logonSent, .logonRecv, .rrRecv]
  | .addRrTimeout => Up s c.conn ∧ Ripe s.trace c.conn s.now ∧
      Passed s [.logonSent, .logonRecv, .rrRecv]
  | .sendData _ => Up s c.conn ∧ SentLogon s.trace c.conn ∧ Ripe s.trace c.conn s.now ∧
      (fresh ∨ Asked s.trace)
  | .exited => True

def ReceiverAt (s : System) (c : Connector) : ReceiverPc → Prop
  | .msgs _ | .reset => Has s.state .connected
  | .addLogonRecv _ => Has s.state .connected ∧ RecvLogon s.trace c.conn
  | .addRrRecv _ => Has s.state .connected ∧ Asked s.trace
  | .loop | .connectedTest | .setStop | .exited => True

structure Live (s : System) (c : Connector) : Prop where
  conn : c.conn ≤ s.conns
  logonSent : Has s.state .logonSent → SentLogon s.trace c.conn
  logonRecv : Has s.state .logonRecv → RecvLogon s.trace c.conn
  rrTimeout : Has s.state .rrTimeout → (∀ f, Has s.state f) ∧ Ripe s.trace c.conn s.now
  clock : c.sender ≠ .addConnected → c.rrRecvTs ≠ 0 →
    ∃ r t, c.rrRecvTs = ulong r ∧ r ≤ s.now ∧ t ≤ r ∧ LogonAt s.trace c.conn t
  tried : c.socketSendFlag = true → c.sender ≠ .addLogonSent → TriedLogon s.trace c.conn →
    Has s.state .logonSent ∨ Down s.trace c.conn
  sender : SenderAt ty fresh s c c.sender
  receiver : ReceiverAt s c c.receiver

structure Shared (s : System) : Prop where
  lt : s.state < 32
  time : ∀ e ∈ s.trace, e.1 ≤ s.now
  conns : ∀ e ∈ s.trace, e.2.conn ≤ s.conns
  free : ∀ f, Has s.state f → f.Free ∨ Has s.state .connected
  rrRecv : Has s.state .rrRecv → fresh ∨ Asked s.trace
  guarded : Guarded (Earned ty fresh) s.trace

structure Inv (s : System) : Prop where
  shared : Shared ty fresh s
  old : ∀ i, i + 1 < s.num → (s.connector i).sender = .exited ∧ (s.connector i).receiver = .exited
  live : ∀ i, i + 1 = s.num → Live ty fresh s (s.connector i)
  idle : s.num = 0 → ∀ f, Has s.state f → f.Free

variable {ty fresh} {s t : System} {c c' : Connector}

/-! ### Traces grow -/

section Grow

variable {tr : Trace} {conn : ℕ} {e : ℕ × Event}

lemma SentLogon.concat (h : SentLogon tr conn) : SentLogon (tr ++ [e]) conn :=
  h.imp fun _ ht => List.mem_append_left _ ht

lemma LogonAt.concat {t : ℕ} (h : LogonAt tr conn t) : LogonAt (tr ++ [e]) conn t :=
  List.mem_append_left _ h

lemma RecvLogon.concat (h : RecvLogon tr conn) : RecvLogon (tr ++ [e]) conn :=
  h.imp fun _ ht => ht.concat

lemma Down.concat (h : Down tr conn) : Down (tr ++ [e]) conn :=
  h.imp fun _ ht => List.mem_append_left _ ht

lemma Asked.concat (h : Asked tr) : Asked (tr ++ [e]) := by
  obtain ⟨t, conn, h⟩ := h
  exact ⟨t, conn, h.imp (List.mem_append_left _) (List.mem_append_left _)⟩

lemma Ripe.concat {now : ℕ} (h : Ripe tr conn now) : Ripe (tr ++ [e]) conn now :=
  h.imp fun _ ht => ⟨ht.1.concat, ht.2⟩

lemma Ripe.later {now now' : ℕ} (h : Ripe tr conn now) (hle : now ≤ now') : Ripe tr conn now' :=
  h.imp fun _ ht => ⟨ht.1, by omega⟩

lemma triedLogon_concat (he : ∀ conn ok, e.2 ≠ .sent conn .logon ok) :
    TriedLogon (tr ++ [e]) conn ↔ TriedLogon tr conn := by
  constructor
  · rintro ⟨t, ok, h⟩
    rcases List.mem_append.mp h with h | h
    · exact ⟨t, ok, h⟩
    · rw [List.mem_singleton] at h
      exact absurd (congrArg Prod.snd h).symm (he conn ok)
  · rintro ⟨t, ok, h⟩
    exact ⟨t, ok, List.mem_append_left _ h⟩

end Grow

lemma Up.concat {conn : ℕ} {e : Event} (h : Up s conn) : Up (s.record e) conn :=
  h.imp id Down.concat

/-- The state and the trace change so that what the sender knows stays true. -/
structure Grows (s t : System) (conn : ℕ) : Prop where
  now : s.now ≤ t.now
  sentLogon : SentLogon s.trace conn → SentLogon t.trace conn
  recvLogon : RecvLogon s.trace conn → RecvLogon t.trace conn
  ripe : Ripe s.trace conn s.now → Ripe t.trace conn t.now
  asked : Asked s.trace → Asked t.trace
  down : Down s.trace conn → Down t.trace conn
  tried : TriedLogon t.trace conn → TriedLogon s.trace conn
  up : Up s conn → Up t conn
  flags : Has t.state .connected → ∀ f, Has s.state f → Has t.state f
  connected : Has t.state .connected → Has s.state .connected

lemma Passed.grows {conn : ℕ} {fs : List Flag} (h : Passed s fs) (hg : Grows s t conn) :
    Passed t fs :=
  fun hc f hf => hg.flags hc f (h (hg.connected hc) f hf)

/-- What one thread does leaves the other where it is. -/
lemma SenderAt.grows {pc : SenderPc} (h : SenderAt ty fresh s c pc) (hg : Grows s t c.conn)
    (hconn : c'.conn = c.conn) (hflag : c'.socketSendFlag = c.socketSendFlag) :
    SenderAt ty fresh t c' pc := by
  have htried : (TriedLogon s.trace c.conn → Down s.trace c.conn) →
      TriedLogon t.trace c.conn → Down t.trace c.conn := fun h ht => hg.down (h (hg.tried ht))
  cases pc <;> simp only [SenderAt, hconn, hflag] at h ⊢
  case loop | body => exact fun hty => hg.up (h hty)
  case connect => exact fun hc => h (hg.connected hc)
  case addConnected => exact ⟨fun hc => h.1 (hg.connected hc), fun ht => h.2 (hg.tried ht)⟩
  case sendFlagTest => exact hg.up h
  case logonSentTest => exact ⟨hg.up h.1, h.2⟩
  case logonRecvGate => exact ⟨hg.up h.1, htried h.2⟩
  case sendLogon => exact ⟨hg.up h.1, fun hty => hg.recvLogon (h.2.1 hty), htried h.2.2⟩
  case addLogonSent => exact ⟨hg.up h.1, hg.sentLogon h.2⟩
  case logonRecvTest => exact ⟨hg.up h.1, hg.sentLogon h.2.1, h.2.2.grows hg⟩
  case sendCmds | logonTest | rrRecvTest | rrTimeoutTest | rrClock =>
    exact ⟨hg.up h.1, hg.sentLogon h.2.1, hg.recvLogon h.2.2.1, h.2.2.2.grows hg⟩
  case addRrTimeout => exact ⟨hg.up h.1, hg.ripe h.2.1, h.2.2.grows hg⟩
  case sendData => exact ⟨hg.up h.1, hg.sentLogon h.2.1, hg.ripe h.2.2.1, h.2.2.2.imp id hg.asked⟩

lemma ReceiverAt.grows {pc : ReceiverPc} (h : ReceiverAt s c pc) (hconn : c'.conn = c.conn)
    (hc : Has s.state .connected → Has t.state .connected)
    (hrecv : RecvLogon s.trace c.conn → RecvLogon t.trace c.conn)
    (hasked : Asked s.trace → Asked t.trace) : ReceiverAt t c' pc := by
  cases pc <;> simp only [ReceiverAt, hconn] at h ⊢
  case msgs | reset => exact hc h
  case addLogonRecv => exact ⟨hc h.1, hrecv h.2⟩
  case addRrRecv => exact ⟨hc h.1, hasked h.2⟩

lemma ReceiverAt.of_down {pc : ReceiverPc} (h : ReceiverAt s c pc)
    (hc : ¬ Has s.state .connected) : ReceiverAt t c' pc := by
  cases pc <;> simp only [ReceiverAt] at h ⊢
  case msgs | reset => exact absurd h hc
  case addLogonRecv | addRrRecv => exact absurd h.1 hc

/-! ### The state and the trace -/

lemma addState_has (s : System) (f g : Flag) : Has (s.addState f.value).state g ↔
    Has s.state g ∨ g = f ∧ (f.Free ∨ Has s.state .connected) := has_addState s.state f g

lemma Grows.addState {conn : ℕ} {f : Flag} (hf : f ≠ .connected) :
    Grows s (s.addState f.value) conn where
  now := le_rfl
  sentLogon := id
  recvLogon := id
  ripe := id
  asked := id
  down := id
  tried := id
  up := fun h => h.imp (fun hc => (addState_has s f _).mpr (Or.inl hc)) id
  flags := fun _ g hg => (addState_has s f g).mpr (Or.inl hg)
  connected := fun h => ((addState_has s f _).mp h).resolve_right fun hc => hf hc.1.symm

lemma Grows.record {conn : ℕ} {e : Event} (he : ∀ conn ok, e ≠ .sent conn .logon ok) :
    Grows s (s.record e) conn where
  now := le_rfl
  sentLogon := SentLogon.concat
  recvLogon := RecvLogon.concat
  ripe := Ripe.concat
  asked := Asked.concat
  down := Down.concat
  tried := (triedLogon_concat he).mp
  up := Up.concat
  flags := fun _ _ => id
  connected := id

lemma Shared.addState (h : Shared ty fresh s) {f : Flag}
    (hrr : f = .rrRecv → fresh ∨ Asked s.trace) : Shared ty fresh (s.addState f.value) where
  lt := addState_lt h.lt f
  time := h.time
  conns := h.conns
  free := by
    intro g hg
    rcases (addState_has s f g).mp hg with hg | ⟨rfl, hfree | hc⟩
    · exact (h.free g hg).imp id fun hc => (addState_has s f _).mpr (Or.inl hc)
    · exact Or.inl hfree
    · exact Or.inr ((addState_has s g _).mpr (Or.inl hc))
  rrRecv := by
    intro hrrRecv
    rcases (addState_has s f _).mp hrrRecv with hold | ⟨rfl, -⟩
    · exact h.rrRecv hold
    · exact hrr rfl
  guarded := h.guarded

lemma Shared.record (h : Shared ty fresh s) {e : Event} (hconn : e.conn ≤ s.conns)
    (he : Earned ty fresh s.trace (s.now, e)) : Shared ty fresh (s.record e) where
  lt := h.lt
  time := by
    intro a ha
    rcases List.mem_append.mp ha with ha | ha
    · exact h.time a ha
    · rw [List.mem_singleton.mp ha]
      exact le_rfl
  conns := by
    intro a ha
    rcases List.mem_append.mp ha with ha | ha
    · exact h.conns a ha
    · rw [List.mem_singleton.mp ha]
      exact hconn
  free := h.free
  rrRecv := fun hrr => (h.rrRecv hrr).imp id Asked.concat
  guarded := guarded_concat.mpr ⟨h.guarded, he⟩

lemma Shared.not_has (h : Shared ty fresh s) (hc : ¬ Has s.state .connected) {f : Flag}
    (hf : ¬ f.Free) : ¬ Has s.state f :=
  fun hs => (h.free f hs).elim hf hc

lemma Shared.not_tried (h : Shared ty fresh s) : ¬ TriedLogon s.trace (s.conns + 1) := by
  rintro ⟨t, ok, ht⟩
  have hle : s.conns + 1 ≤ s.conns := h.conns _ ht
  omega

/-! ### Steps of the sender -/

lemma Inv.put (h : Inv ty fresh s) {i : ℕ} (hi : i + 1 = s.num) (hnum : t.num = s.num)
    (hconnector : t.connector = s.connector) (hs : Shared ty fresh t) (hl : Live ty fresh t c) :
    Inv ty fresh (t.put i c) where
  shared := ⟨hs.lt, hs.time, hs.conns, hs.free, hs.rrRecv, hs.guarded⟩
  old := by
    intro j hj
    change j + 1 < t.num at hj
    have hne : j ≠ i := by omega
    simp only [System.put, Function.update_of_ne hne, hconnector]
    exact h.old j (by omega)
  live := by
    intro j hj
    change j + 1 = t.num at hj
    have heq : j = i := by omega
    subst heq
    simp only [System.put, Function.update_self]
    exact ⟨hl.conn, hl.logonSent, hl.logonRecv, hl.rrTimeout, hl.clock, hl.tried, hl.sender,
      hl.receiver⟩
  idle := by
    intro h0
    change t.num = 0 at h0
    omega

lemma Inv.last (h : Inv ty fresh s) {i : ℕ} (hi : i < s.num)
    (hrun : (s.connector i).sender ≠ .exited ∨ (s.connector i).receiver ≠ .exited) :
    i + 1 = s.num := by
  by_contra hne
  obtain ⟨h1, h2⟩ := h.old i (by omega)
  exact hrun.elim (fun h => h h1) fun h => h h2

lemma Live.go (h : Live ty fresh s c) (h1 : c.sender ≠ .addConnected)
    (h2 : c.sender ≠ .addLogonSent) {pc : SenderPc} (hpc : SenderAt ty fresh s c pc) :
    Live ty fresh s { c with sender := pc } where
  conn := h.conn
  logonSent := h.logonSent
  logonRecv := h.logonRecv
  rrTimeout := h.rrTimeout
  clock := fun _ => h.clock h1
  tried := fun hf _ => h.tried hf h2
  sender := hpc
  receiver := h.receiver

lemma elapsed_le {now r : ℕ} (h : r ≤ now) : elapsed now (ulong r) ≤ (now - r : ℕ) := by
  have hmod : ulong (ulong now + 2 ^ 64 - ulong r) = ulong (now - r) := by
    unfold ulong
    omega
  have hle : ulong (now - r) ≤ now - r := Nat.mod_le _ _
  have hb : ((ulong (now - r) : ℕ) : ℤ).bmod (2 ^ 32) ≤ (ulong (now - r) : ℕ) := by
    rw [Int.bmod_def]
    split <;> omega
  unfold elapsed
  rw [hmod]
  omega

lemma Live.ripe (h : Live ty fresh s c) (hpc : c.sender ≠ .addConnected) (hne : c.rrRecvTs ≠ 0)
    (hout : rrTimedOut s.now c.rrRecvTs = true) : Ripe s.trace c.conn s.now := by
  have hlt := of_decide_eq_true hout
  obtain ⟨r, t, hr, hle, htr, ht⟩ := h.clock hpc hne
  have hel := elapsed_le hle
  rw [← hr] at hel
  refine ⟨t, ht, ?_⟩
  rw [← Nat.cast_mul] at hlt
  generalize rrTimeoutSeconds * million = d at hlt ⊢
  omega

/-- The sender adds a flag of its own and goes back to the head of its loop. -/
lemma Live.add (h : Live ty fresh s c) {f : Flag} (hf : f = .logonSent ∨ f = .rrTimeout)
    (hup : Up s c.conn) (hsent : f = .logonSent → SentLogon s.trace c.conn)
    (hripe : f = .rrTimeout → c.sender ≠ .addLogonSent ∧ Ripe s.trace c.conn s.now ∧
      Passed s [.logonSent, .logonRecv, .rrRecv])
    (hconn : c.sender ≠ .addConnected) :
    Live ty fresh (s.addState f.value) { c with sender := .loop } where
  conn := h.conn
  logonSent := by
    intro hs
    rcases (addState_has s f _).mp hs with hs | ⟨rfl, -⟩
    · exact h.logonSent hs
    · exact hsent rfl
  logonRecv := by
    intro hs
    rcases (addState_has s f _).mp hs with hs | ⟨rfl, -⟩
    · exact h.logonRecv hs
    · rcases hf with hf | hf <;> cases hf
  rrTimeout := by
    intro hs
    rcases (addState_has s f _).mp hs with hs | ⟨rfl, hfree | hc⟩
    · obtain ⟨hall, hr⟩ := h.rrTimeout hs
      exact ⟨fun g => (addState_has s f g).mpr (Or.inl (hall g)), hr⟩
    · rcases hfree with hfree | hfree <;> cases hfree
    · obtain ⟨-, hr, hp⟩ := hripe rfl
      have hp := hp hc
      refine ⟨fun g => (addState_has s _ g).mpr ?_, hr⟩
      cases g with
      | connected => exact Or.inl hc
      | logonSent => exact Or.inl (hp _ (by simp))
      | logonRecv => exact Or.inl (hp _ (by simp))
      | rrRecv => exact Or.inl (hp _ (by simp))
      | rrTimeout => exact Or.inr ⟨rfl, Or.inr hc⟩
  clock := fun _ => h.clock hconn
  tried := by
    intro hflag _ htried
    rcases hf with rfl | rfl
    · exact hup.imp (fun hc => (addState_has s _ _).mpr (Or.inr ⟨rfl, Or.inr hc⟩)) id
    · exact (h.tried hflag (hripe rfl).1 htried).imp
        (fun hs => (addState_has s _ _).mpr (Or.inl hs)) id
  sender := fun _ => hup.imp (fun hc => (addState_has s f _).mpr (Or.inl hc)) id
  receiver := h.receiver.grows rfl (fun hc => (addState_has s f _).mpr (Or.inl hc)) id id

lemma Live.connect (h : Live ty fresh s c) (hs : Shared ty fresh s)
    (hc : ¬ Has s.state .connected) :
    Live ty fresh { s with conns := s.conns + 1 }
      { c with conn := s.conns + 1, socketSendFlag := true, sender := .addConnected } where
  conn := le_rfl
  logonSent := fun hf => absurd hf (hs.not_has hc (by simp [Flag.Free]))
  logonRecv := fun hf => absurd hf (hs.not_has hc (by simp [Flag.Free]))
  rrTimeout := fun hf => absurd hf (hs.not_has hc (by simp [Flag.Free]))
  clock := fun hne => absurd rfl hne
  tried := fun _ _ ht => absurd ht hs.not_tried
  sender := ⟨hc, hs.not_tried⟩
  receiver := h.receiver.of_down hc

lemma Live.addConnected (h : Live ty fresh s c) (hs : Shared ty fresh s)
    (hc : ¬ Has s.state .connected) (htried : ¬ TriedLogon s.trace c.conn) :
    Live ty fresh (s.addState stateConnected) { c with rrRecvTs := 0, sender := .loop } := by
  have hnew : Has (s.addState stateConnected).state .connected :=
    (addState_has s .connected _).mpr (Or.inr ⟨rfl, Or.inl (Or.inl rfl)⟩)
  have hnot : ∀ f : Flag, ¬ f.Free → f ≠ .connected →
      ¬ Has (s.addState stateConnected).state f := by
    intro f hfree hne hf
    rcases (addState_has s .connected f).mp hf with hf | ⟨hf, -⟩
    · exact hs.not_has hc hfree hf
    · exact hne hf
  exact {
    conn := h.conn
    logonSent := fun hf => absurd hf (hnot _ (by simp [Flag.Free]) (by simp))
    logonRecv := fun hf => absurd hf (hnot _ (by simp [Flag.Free]) (by simp))
    rrTimeout := fun hf => absurd hf (hnot _ (by simp [Flag.Free]) (by simp))
    clock := fun _ h0 => absurd rfl h0
    tried := fun _ _ ht => absurd ht htried
    sender := fun _ => Or.inl hnew
    receiver := h.receiver.of_down hc }

lemma stepSender_inv (h : Inv ty fresh s) {i : ℕ} (hi : i < s.num)
    (hstep : stepSender ty s i = some t) : Inv ty fresh t := by
  have hlast : i + 1 = s.num := by
    refine h.last hi (Or.inl fun hex => ?_)
    simp [stepSender, hex] at hstep
  have hl := h.live i hlast
  have hat := hl.sender
  -- a test, from a point that is neither of the two with an addition before it
  have go : ∀ pc, (s.connector i).sender ≠ .addConnected → (s.connector i).sender ≠ .addLogonSent →
      SenderAt ty fresh s (s.connector i) pc →
      Inv ty fresh (s.put i { s.connector i with sender := pc }) :=
    fun pc h1 h2 hpc => h.put hlast rfl rfl h.shared (hl.go h1 h2 hpc)
  have hconnected : isState s.state stateConnected = true ↔ Has s.state .connected :=
    isState_iff s.state .connected
  have hlogonSent : isState s.state stateLogonSent = true ↔ Has s.state .logonSent :=
    isState_iff s.state .logonSent
  have hlogonRecv : isState s.state stateLogonRecv = true ↔ Has s.state .logonRecv :=
    isState_iff s.state .logonRecv
  have hrrRecv : isState s.state stateRrRecv = true ↔ Has s.state .rrRecv :=
    isState_iff s.state .rrRecv
  cases hpc : (s.connector i).sender with
  | loop =>
    rw [hpc] at hat
    simp only [stepSender, hpc, Option.some.injEq] at hstep
    subst hstep
    refine go _ (by simp [hpc]) (by simp [hpc]) ?_
    split
    · exact hat
    · trivial
  | body =>
    rw [hpc] at hat
    simp only [stepSender, hpc, Option.some.injEq, hconnected] at hstep
    subst hstep
    refine go _ (by simp [hpc]) (by simp [hpc]) ?_
    split
    · next hn => exact hn.2
    · next hn =>
      cases ty with
      | acceptor => exact hat rfl
      | initiator => exact Or.inl (by simpa using hn)
  | connect =>
    rw [hpc] at hat
    simp only [stepSender, hpc, Option.some.injEq] at hstep
    subst hstep
    have hs := h.shared
    exact h.put (t := { s with conns := s.conns + 1 }) hlast rfl rfl
      ⟨hs.lt, hs.time, fun e he => (hs.conns e he).trans (Nat.le_succ _), hs.free, hs.rrRecv,
        hs.guarded⟩ (hl.connect hs hat)
  | addConnected =>
    rw [hpc] at hat
    simp only [stepSender, hpc, Option.some.injEq] at hstep
    subst hstep
    exact h.put hlast rfl rfl (h.shared.addState (f := .connected) fun hf => by cases hf)
      (hl.addConnected h.shared hat.1 hat.2)
  | sendFlagTest =>
    rw [hpc] at hat
    simp only [stepSender, hpc, Option.some.injEq] at hstep
    subst hstep
    refine go _ (by simp [hpc]) (by simp [hpc]) ?_
    split
    · next hflag => exact ⟨hat, hflag⟩
    · exact fun _ => hat
  | logonSentTest =>
    rw [hpc] at hat
    simp only [stepSender, hpc, Option.some.injEq, hlogonSent] at hstep
    subst hstep
    refine go _ (by simp [hpc]) (by simp [hpc]) ?_
    split
    · next hf => exact ⟨hat.1, hl.logonSent hf, fun _ f hm => by
        rw [List.mem_singleton.mp hm]
        exact hf⟩
    · next hf =>
      -- a Logon sent before can only have been on a connection that is down
      have htried : TriedLogon s.trace (s.connector i).conn → Down s.trace (s.connector i).conn :=
        fun ht => (hl.tried hat.2 (by simp [hpc]) ht).resolve_left hf
      split
      · next hty =>
        subst hty
        exact ⟨hat.1, fun hty => SocketType.noConfusion hty, htried⟩
      · exact ⟨hat.1, htried⟩
  | logonRecvGate =>
    rw [hpc] at hat
    simp only [stepSender, hpc, Option.some.injEq, hlogonRecv] at hstep
    subst hstep
    refine go _ (by simp [hpc]) (by simp [hpc]) ?_
    split
    · next hf => exact ⟨hat.1, fun _ => hl.logonRecv hf, hat.2⟩
    · exact fun _ => hat.1
  | sendLogon => simp [stepSender, hpc] at hstep
  | addLogonSent =>
    rw [hpc] at hat
    simp only [stepSender, hpc, Option.some.injEq] at hstep
    subst hstep
    exact h.put hlast rfl rfl (h.shared.addState (f := .logonSent) fun hf => by cases hf)
      (hl.add (f := .logonSent) (Or.inl rfl) hat.1 (fun _ => hat.2) (fun hf => by cases hf)
        (by simp [hpc]))
  | logonRecvTest =>
    rw [hpc] at hat
    simp only [stepSender, hpc, Option.some.injEq, hlogonRecv] at hstep
    subst hstep
    refine go _ (by simp [hpc]) (by simp [hpc]) ?_
    split
    · next hf =>
      refine ⟨hat.1, hat.2.1, hl.logonRecv hf, fun hc f hm => ?_⟩
      rcases List.mem_cons.mp hm with rfl | hm
      · exact hat.2.2 hc _ (by simp)
      · rw [List.mem_singleton.mp hm]
        exact hf
    · exact fun _ => hat.1
  | sendCmds =>
    rw [hpc] at hat
    simp only [stepSender, hpc, Option.some.injEq] at hstep
    subst hstep
    exact go _ (by simp [hpc]) (by simp [hpc]) hat
  | logonTest =>
    rw [hpc] at hat
    simp only [stepSender, hpc, Option.some.injEq] at hstep
    subst hstep
    refine go _ (by simp [hpc]) (by simp [hpc]) ?_
    split
    · next hlogon =>
      have hall := (isLogon_iff h.shared.lt).mp hlogon
      exact ⟨hat.1, hat.2.1, (hl.rrTimeout (hall _)).2, h.shared.rrRecv (hall _)⟩
    · exact hat
  | rrRecvTest =>
    rw [hpc] at hat
    simp only [stepSender, hpc, Option.some.injEq, hrrRecv] at hstep
    subst hstep
    refine go _ (by simp [hpc]) (by simp [hpc]) ?_
    split
    · next hf =>
      refine ⟨hat.1, hat.2.1, hat.2.2.1, fun hc f hm => ?_⟩
      simp only [List.mem_cons, List.not_mem_nil, or_false] at hm
      rcases hm with rfl | rfl | rfl
      · exact hat.2.2.2 hc _ (by simp)
      · exact hat.2.2.2 hc _ (by simp)
      · exact hf
    · exact fun _ => hat.1
  | rrTimeoutTest =>
    rw [hpc] at hat
    simp only [stepSender, hpc, Option.some.injEq] at hstep
    subst hstep
    refine go _ (by simp [hpc]) (by simp [hpc]) ?_
    split
    · exact fun _ => hat.1
    · exact hat
  | rrClock =>
    rw [hpc] at hat
    simp only [stepSender, hpc] at hstep
    split at hstep
    · cases hstep
      obtain ⟨t, ht⟩ := hat.2.2.1
      have hloop : SenderAt ty fresh s (s.connector i) .loop := fun _ => hat.1
      refine h.put hlast rfl rfl h.shared
        { hl.go (by simp [hpc]) (by simp [hpc]) hloop with clock := fun _ _ => ?_ }
      exact ⟨s.now, t, rfl, le_rfl, h.shared.time _ ht, ht⟩
    · next hne =>
      cases hstep
      refine go _ (by simp [hpc]) (by simp [hpc]) ?_
      cases hout : rrTimedOut s.now (s.connector i).rrRecvTs with
      | true => exact ⟨hat.1, hl.ripe (by simp [hpc]) hne hout, hat.2.2.2⟩
      | false => exact fun _ => hat.1
  | addRrTimeout =>
    rw [hpc] at hat
    simp only [stepSender, hpc, Option.some.injEq] at hstep
    subst hstep
    exact h.put hlast rfl rfl (h.shared.addState (f := .rrTimeout) fun hf => by cases hf)
      (hl.add (f := .rrTimeout) (Or.inr rfl) hat.1 (fun hf => by cases hf)
        (fun _ => ⟨by simp [hpc], hat.2⟩) (by simp [hpc]))
  | sendData sent =>
    rw [hpc] at hat
    simp only [stepSender, hpc, Option.some.injEq] at hstep
    subst hstep
    exact go _ (by simp [hpc]) (by simp [hpc]) fun _ => hat.1
  | exited => simp [stepSender, hpc] at hstep

/-! ### Messages -/

lemma Live.record (h : Live ty fresh s c) {e : Event} (he : ∀ conn ok, e ≠ .sent conn .logon ok) :
    Live ty fresh (s.record e) c where
  conn := h.conn
  logonSent := fun hf => (h.logonSent hf).concat
  logonRecv := fun hf => (h.logonRecv hf).concat
  rrTimeout := fun hf => ⟨(h.rrTimeout hf).1, (h.rrTimeout hf).2.concat⟩
  clock := by
    intro hpc hne
    obtain ⟨r, t, h1, h2, h3, h4⟩ := h.clock hpc hne
    exact ⟨r, t, h1, h2, h3, h4.concat⟩
  tried := fun hflag hpc ht =>
    (h.tried hflag hpc ((triedLogon_concat he).mp ht)).imp id Down.concat
  sender := h.sender.grows (Grows.record he) rfl rfl
  receiver := h.receiver.grows rfl id RecvLogon.concat Asked.concat

/-- A Logon is passed to the socket. -/
lemma Live.recordLogon (h : Live ty fresh s c) (hpc : c.sender = .sendLogon) (ok : Bool) :
    Live ty fresh (s.record (.sent c.conn .logon ok)) { sendMsg ty c ok with
      sender := if ok then .addLogonSent else .loop } := by
  have hat := h.sender
  rw [hpc] at hat
  cases ok with
  | true =>
    exact {
      conn := h.conn
      logonSent := fun hf => (h.logonSent hf).concat
      logonRecv := fun hf => (h.logonRecv hf).concat
      rrTimeout := fun hf => ⟨(h.rrTimeout hf).1, (h.rrTimeout hf).2.concat⟩
      clock := by
        intro _ hne
        obtain ⟨r, t, h1, h2, h3, h4⟩ := h.clock (by simp [hpc]) hne
        exact ⟨r, t, h1, h2, h3, h4.concat⟩
      tried := fun _ hne _ => absurd rfl hne
      sender := ⟨hat.1.concat, s.now, List.mem_append_right _ (List.mem_singleton_self _)⟩
      receiver := h.receiver.grows rfl id RecvLogon.concat Asked.concat }
  | false =>
    exact {
      conn := h.conn
      logonSent := fun hf => (h.logonSent hf).concat
      logonRecv := fun hf => (h.logonRecv hf).concat
      rrTimeout := fun hf => ⟨(h.rrTimeout hf).1, (h.rrTimeout hf).2.concat⟩
      clock := by
        intro _ hne
        obtain ⟨r, t, h1, h2, h3, h4⟩ := h.clock (by simp [hpc]) hne
        exact ⟨r, t, h1, h2, h3, h4.concat⟩
      tried := fun hflag _ _ => by cases hflag
      sender := fun _ => hat.1.concat
      receiver := h.receiver.grows rfl id RecvLogon.concat Asked.concat }

/-- Any other message, after which the sender is where it was or at the head of its loop. -/
lemma Live.sent (h : Live ty fresh s c) {kind : Outgoing} (hkind : kind ≠ .logon)
    (h1 : c.sender ≠ .addConnected) (h2 : c.sender ≠ .addLogonSent) (ok : Bool) {pc : SenderPc}
    (hpc : SenderAt ty fresh s { c with socketSendFlag := (sendMsg ty c ok).socketSendFlag } pc) :
    Live ty fresh (s.record (.sent c.conn kind ok)) { sendMsg ty c ok with sender := pc } := by
  have he : ∀ conn ok', Event.sent c.conn kind ok ≠ .sent conn .logon ok' := by
    rintro conn ok' heq
    cases heq
    exact hkind rfl
  have hr := h.record he
  have hpc' : SenderAt ty fresh (s.record (.sent c.conn kind ok)) (sendMsg ty c ok) pc :=
    hpc.grows (Grows.record he) (by cases ok <;> rfl) rfl
  cases ok with
  | true => exact hr.go h1 h2 hpc'
  | false =>
    exact {
      conn := hr.conn
      logonSent := hr.logonSent
      logonRecv := hr.logonRecv
      rrTimeout := hr.rrTimeout
      clock := fun _ => hr.clock h1
      tried := fun hflag _ _ => by cases hflag
      sender := hpc'
      receiver := hr.receiver }

lemma stepSend_inv (h : Inv ty fresh s) {i : ℕ} (hi : i < s.num) {kind : Outgoing} {ok : Bool}
    (hstep : stepSend ty s i kind ok = some t) : Inv ty fresh t := by
  have hlast : i + 1 = s.num := by
    refine h.last hi (Or.inl fun hex => ?_)
    simp [stepSend, hex] at hstep
  have hl := h.live i hlast
  have hat := hl.sender
  simp only [stepSend] at hstep
  split at hstep
  · next hpc =>
    cases hstep
    rw [hpc] at hat
    exact h.put hlast rfl rfl (h.shared.record hl.conn ⟨hat.2.1, hat.2.2⟩) (hl.recordLogon hpc ok)
  · next hpc =>
    cases hstep
    rw [hpc] at hat
    exact h.put hlast rfl rfl (h.shared.record hl.conn ⟨hat.2.1, hat.2.2.1⟩)
      (hl.sent (by simp) (by simp [hpc]) (by simp [hpc]) ok hat)
  · next hpc =>
    cases hstep
    rw [hpc] at hat
    exact h.put hlast rfl rfl (h.shared.record hl.conn ⟨hat.2.1, hat.2.2.1, hat.2.2.2⟩)
      (hl.sent (by simp) (by simp [hpc]) (by simp [hpc]) ok hat)
  · next hpc =>
    cases hstep
    rw [hpc] at hat
    exact h.put hlast rfl rfl (h.shared.record hl.conn ⟨hat.2.1, hat.2.2.1, hat.2.2.2⟩)
      (hl.sent (by simp) (by simp [hpc]) (by simp [hpc]) ok fun _ => hat.1)
  · cases hstep

/-! ### Steps of the receiver -/

lemma Live.goReceiver (h : Live ty fresh s c) {pc : ReceiverPc} (hpc : ReceiverAt s c pc) :
    Live ty fresh s { c with receiver := pc } :=
  { h with receiver := hpc }

/-- The receiver adds a flag that a message brought. -/
lemma Live.addReceived (h : Live ty fresh s c) {f : Flag} (hf : f = .logonRecv ∨ f = .rrRecv)
    (hc : Has s.state .connected) (hrecv : f = .logonRecv → RecvLogon s.trace c.conn)
    (first : Bool) : Live ty fresh (s.addState f.value) { c with receiver := .msgs first } where
  conn := h.conn
  logonSent := by
    intro hs
    rcases (addState_has s f _).mp hs with hs | ⟨rfl, -⟩
    · exact h.logonSent hs
    · rcases hf with hf | hf <;> cases hf
  logonRecv := by
    intro hs
    rcases (addState_has s f _).mp hs with hs | ⟨rfl, -⟩
    · exact h.logonRecv hs
    · exact hrecv rfl
  rrTimeout := by
    intro hs
    rcases (addState_has s f _).mp hs with hs | ⟨rfl, -⟩
    · obtain ⟨hall, hr⟩ := h.rrTimeout hs
      exact ⟨fun g => (addState_has s f g).mpr (Or.inl (hall g)), hr⟩
    · rcases hf with hf | hf <;> cases hf
  clock := h.clock
  tried := fun hflag hpc ht =>
    (h.tried hflag hpc ht).imp (fun hs => (addState_has s f _).mpr (Or.inl hs)) id
  sender := by
    have hne : f ≠ .connected := by rcases hf with rfl | rfl <;> simp
    exact h.sender.grows (Grows.addState hne) rfl rfl
  receiver := (addState_has s f _).mpr (Or.inl hc)

lemma Grows.reset (s : System) (conn : ℕ) :
    Grows s { s.record (.disconnected conn) with state := resetState } conn where
  now := le_rfl
  sentLogon := SentLogon.concat
  recvLogon := RecvLogon.concat
  ripe := Ripe.concat
  asked := Asked.concat
  down := Down.concat
  tried := (triedLogon_concat (by simp)).mp
  up := fun _ => Or.inr ⟨s.now, List.mem_append_right _ (List.mem_singleton_self _)⟩
  flags := fun hc => by cases (has_resetState _).mp hc
  connected := fun hc => by cases (has_resetState _).mp hc

lemma Shared.reset (h : Shared ty fresh s) {conn : ℕ} (hconn : conn ≤ s.conns) :
    Shared ty fresh { s.record (.disconnected conn) with state := resetState } := by
  have hr := h.record (e := .disconnected conn) hconn trivial
  refine ⟨(by decide : resetState < 32), hr.time, hr.conns, fun f hf => ?_, fun _ => Or.inr ?_,
    hr.guarded⟩
  · exact Or.inl (Or.inr ((has_resetState f).mp hf))
  · exact ⟨s.now, conn, Or.inr (List.mem_append_right _ (List.mem_singleton_self _))⟩

lemma Live.reset (h : Live ty fresh s c) {pc : ReceiverPc} (hpc : pc = .setStop ∨ pc = .loop) :
    Live ty fresh { s.record (.disconnected c.conn) with state := resetState }
      { c with receiver := pc } where
  conn := h.conn
  logonSent := fun hf => by cases (has_resetState _).mp hf
  logonRecv := fun hf => by cases (has_resetState _).mp hf
  rrTimeout := fun hf => by cases (has_resetState _).mp hf
  clock := by
    intro hs hne
    obtain ⟨r, t, h1, h2, h3, h4⟩ := h.clock hs hne
    exact ⟨r, t, h1, h2, h3, h4.concat⟩
  tried := fun _ _ _ =>
    Or.inr ⟨s.now, List.mem_append_right _ (List.mem_singleton_self _)⟩
  sender := h.sender.grows (Grows.reset s c.conn) rfl rfl
  receiver := by rcases hpc with rfl | rfl <;> trivial

lemma stepReceiver_inv (h : Inv ty fresh s) {i : ℕ} (hi : i < s.num)
    (hstep : stepReceiver ty s i = some t) : Inv ty fresh t := by
  have hlast : i + 1 = s.num := by
    refine h.last hi (Or.inr fun hex => ?_)
    simp [stepReceiver, hex] at hstep
  have hl := h.live i hlast
  have hat := hl.receiver
  have go : ∀ pc, ReceiverAt s (s.connector i) pc →
      Inv ty fresh (s.put i { s.connector i with receiver := pc }) :=
    fun pc hpc => h.put hlast rfl rfl h.shared (hl.goReceiver hpc)
  have hconnected : isState s.state stateConnected = true ↔ Has s.state .connected :=
    isState_iff s.state .connected
  cases hpc : (s.connector i).receiver with
  | msgs first =>
    simp only [stepReceiver, hpc, Option.some.injEq] at hstep
    subst hstep
    exact go .loop trivial
  | addLogonRecv first =>
    rw [hpc] at hat
    simp only [stepReceiver, hpc, Option.some.injEq] at hstep
    subst hstep
    exact h.put hlast rfl rfl (h.shared.addState (f := .logonRecv) fun hf => by cases hf)
      (hl.addReceived (f := .logonRecv) (Or.inl rfl) hat.1 (fun _ => hat.2) first)
  | addRrRecv first =>
    rw [hpc] at hat
    simp only [stepReceiver, hpc, Option.some.injEq] at hstep
    subst hstep
    exact h.put hlast rfl rfl (h.shared.addState (f := .rrRecv) fun _ => Or.inr hat.2)
      (hl.addReceived (f := .rrRecv) (Or.inr rfl) hat.1 (fun hf => by cases hf) first)
  | loop =>
    simp only [stepReceiver, hpc, Option.some.injEq] at hstep
    subst hstep
    refine go _ ?_
    split <;> trivial
  | connectedTest =>
    simp only [stepReceiver, hpc, Option.some.injEq, hconnected] at hstep
    subst hstep
    refine go _ ?_
    split
    · next hc => exact hc
    · trivial
  | reset =>
    simp only [stepReceiver, hpc, Option.some.injEq] at hstep
    subst hstep
    refine h.put (t := { s.record (.disconnected (s.connector i).conn) with state := resetState })
      hlast rfl rfl (h.shared.reset hl.conn) (hl.reset ?_)
    split
    · exact Or.inl rfl
    · exact Or.inr rfl
  | setStop =>
    simp only [stepReceiver, hpc, Option.some.injEq] at hstep
    subst hstep
    exact h.put hlast rfl rfl h.shared { hl with receiver := trivial }
  | exited => simp [stepReceiver, hpc] at hstep

lemma stepReceive_inv (h : Inv ty fresh s) {i : ℕ} (hi : i < s.num) {kind : Incoming}
    (hstep : stepReceive s i kind = some t) : Inv ty fresh t := by
  simp only [stepReceive] at hstep
  split at hstep
  · next first hpc =>
    cases hstep
    have hlast := h.last hi (Or.inr (by simp [hpc]))
    have hl := h.live i hlast
    have hc : Has s.state .connected := by
      have hat := hl.receiver
      rwa [hpc] at hat
    have hmem : (s.now, Event.received (s.connector i).conn kind) ∈
        (s.record (.received (s.connector i).conn kind)).trace :=
      List.mem_append_right _ (List.mem_singleton_self _)
    refine h.put hlast rfl rfl (h.shared.record hl.conn trivial)
      ((hl.record (by simp)).goReceiver ?_)
    cases kind with
    | logon => exact ⟨hc, _, hmem⟩
    | resendRequest => exact ⟨hc, _, _, Or.inl hmem⟩
    | other => exact hc
  · cases hstep

/-! ### Runs -/

/-- An acceptor's new connection, when nothing is left of the one before. -/
lemma Inv.accept (h : Inv ty fresh s) (hok : Orderly s .accept) :
    Inv ty fresh { (s.addState stateConnected).put s.num (accepted (s.conns + 1)) with
      conns := s.conns + 1
      num := s.num + 1 } := by
  obtain ⟨hexited, hc⟩ := hok
  have hs := h.shared.addState (f := .connected) fun hf => by cases hf
  have hnew : Has (s.addState stateConnected).state .connected :=
    (addState_has s .connected _).mpr (Or.inr ⟨rfl, Or.inl (Or.inl rfl)⟩)
  have hnot : ∀ f : Flag, ¬ f.Free → f ≠ .connected →
      ¬ Has (s.addState stateConnected).state f := by
    intro f hfree hne hf
    rcases (addState_has s .connected f).mp hf with hf | ⟨hf, -⟩
    · exact h.shared.not_has hc hfree hf
    · exact hne hf
  refine ⟨⟨hs.lt, hs.time, fun e he => (hs.conns e he).trans (Nat.le_succ _), hs.free, hs.rrRecv,
    hs.guarded⟩, fun i hi => ?_, fun i hi => ?_, fun h0 => by cases h0⟩
  · simp only at hi
    simp only [System.put, Function.update_of_ne (show i ≠ s.num by omega)]
    exact hexited i (by omega)
  · simp only at hi
    obtain rfl : i = s.num := by omega
    simp only [System.put, Function.update_self]
    exact {
      conn := le_rfl
      logonSent := fun hf => absurd hf (hnot _ (by simp [Flag.Free]) (by simp))
      logonRecv := fun hf => absurd hf (hnot _ (by simp [Flag.Free]) (by simp))
      rrTimeout := fun hf => absurd hf (hnot _ (by simp [Flag.Free]) (by simp))
      clock := fun _ h0 => absurd rfl h0
      tried := fun _ _ ht => absurd ht h.shared.not_tried
      sender := fun _ => Or.inl hnew
      receiver := hnew }

lemma Grows.pass (s : System) (time conn : ℕ) : Grows s { s with now := s.now + time } conn where
  now := Nat.le_add_right _ _
  sentLogon := id
  recvLogon := id
  ripe := fun h => h.later (Nat.le_add_right _ _)
  asked := id
  down := id
  tried := id
  up := id
  flags := fun _ _ => id
  connected := id

lemma Inv.pass (h : Inv ty fresh s) (time : ℕ) : Inv ty fresh { s with now := s.now + time } := by
  have hs := h.shared
  refine ⟨⟨hs.lt, fun e he => (hs.time e he).trans (Nat.le_add_right _ _), hs.conns, hs.free,
    hs.rrRecv, hs.guarded⟩, h.old, fun i hi => ?_, h.idle⟩
  have hl := h.live i hi
  exact {
    conn := hl.conn
    logonSent := hl.logonSent
    logonRecv := hl.logonRecv
    rrTimeout := fun hf => ⟨(hl.rrTimeout hf).1, (hl.rrTimeout hf).2.later (Nat.le_add_right _ _)⟩
    clock := by
      intro hpc hne
      obtain ⟨r, t, h1, h2, h3, h4⟩ := hl.clock hpc hne
      exact ⟨r, t, h1, h2.trans (Nat.le_add_right _ _), h3, h4⟩
    tried := hl.tried
    sender := hl.sender.grows (Grows.pass s time _) rfl rfl
    receiver := hl.receiver.grows rfl id id id }

/-- **What a step preserves.** -/
theorem step_inv {a : Act} (h : Inv ty fresh s) (hok : Orderly s a) (hs : step ty s a = some t) :
    Inv ty fresh t := by
  cases a with
  | pass time =>
    cases hs
    exact h.pass time
  | accept =>
    simp only [step] at hs
    split at hs
    · cases hs
      exact h.accept hok
    · cases hs
  | sender i =>
    simp only [step] at hs
    split at hs
    · next hi => exact stepSender_inv h hi hs
    · cases hs
  | send i kind ok =>
    simp only [step] at hs
    split at hs
    · next hi => exact stepSend_inv h hi hs
    · cases hs
  | receiver i =>
    simp only [step] at hs
    split at hs
    · next hi => exact stepReceiver_inv h hi hs
    · cases hs
  | receive i kind =>
    simp only [step] at hs
    split at hs
    · next hi => exact stepReceive_inv h hi hs
    · cases hs
  | hangUp i =>
    simp only [step] at hs
    split at hs
    · next hi =>
      cases hs
      have hlast := h.last hi.1 (Or.inr (by simp [hi.2]))
      have hl := h.live i hlast
      have hat := hl.receiver
      rw [hi.2] at hat
      have hreset : ReceiverAt s (s.connector i) .reset := hat
      exact h.put hlast rfl rfl h.shared (hl.goReceiver hreset)
    · cases hs

lemma start_inv (M : ℕ) (pm : PManager) (junk : Bool) :
    Inv ty (initState M pm = stateRrRecv) (start ty M pm junk) := by
  have hfree : ∀ f, Has (start ty M pm junk).state f → f.Free :=
    fun f hf => Or.inr (has_initState M pm f hf).1
  refine ⟨⟨initState_lt M pm, fun _ he => (List.not_mem_nil he).elim,
    fun _ he => (List.not_mem_nil he).elim, fun f hf => Or.inl (hfree f hf),
    fun hf => Or.inl (has_initState M pm _ hf).2, guarded_nil⟩,
    fun i hi => ?_, fun i hi => ?_, fun _ => hfree⟩
  · cases ty <;> simp [start] at hi
  · cases ty with
    | acceptor => simp [start] at hi
    | initiator =>
      have hnot : ∀ f : Flag, ¬ f.Free → ¬ Has (start .initiator M pm junk).state f :=
        fun f hf hs => hf (hfree f hs)
      exact {
        conn := le_rfl
        logonSent := fun hf => absurd hf (hnot _ (by simp [Flag.Free]))
        logonRecv := fun hf => absurd hf (hnot _ (by simp [Flag.Free]))
        rrTimeout := fun hf => absurd hf (hnot _ (by simp [Flag.Free]))
        clock := fun _ h0 => absurd rfl h0
        tried := fun _ _ ht => by
          obtain ⟨_, _, ht⟩ := ht
          cases ht
        sender := fun hty => by cases hty
        receiver := trivial }

/-! ### What is sent was earned -/

section Results

variable {M : ℕ} {pm : PManager} {junk : Bool} {acts : List Act}

lemma meets_initiator (s : System) (acts : List Act) :
    Meets (step .initiator) Orderly s acts := by
  induction acts generalizing s with
  | nil => trivial
  | cons a acts ih =>
    intro t ht
    refine ⟨?_, ih t⟩
    cases a with
    | accept => cases ht
    | _ => trivial

/-- An initiator connects, both Logons pass, and it sends data after a little more than five
seconds. -/
def loginRun : List Act :=
  List.flatten [.replicate 8 (.sender 0), [.send 0 .logon true, .sender 0, .receiver 0, .receiver 0,
    .receive 0 .logon, .receiver 0, .pass 1], .replicate 10 (.sender 0), [.pass 5000001],
    .replicate 18 (.sender 0), [.send 0 .data true]]

lemma loginRun_isSome :
    (run (step .initiator) (start .initiator 4 PManager.empty false) loginRun).isSome = true := by
  decide +kernel

def loggedIn : System :=
  (run (step .initiator) (start .initiator 4 PManager.empty false) loginRun).get loginRun_isSome

/-- The sender of a connection that is lost is in `wait` when the peer comes back: it goes on with
the state of the new connection, and puts its Logon there. -/
def overlappingRun : List Act :=
  List.flatten [[.accept, .sender 0, .receiver 0, .receiver 0, .receiver 0, .hangUp 0, .receiver 0,
    .accept, .receive 1 .logon, .receiver 1], .replicate 4 (.sender 0),
    [.send 0 .logon true, .sender 0], .replicate 5 (.sender 1), [.send 1 .cmd true]]

/-- Without an end of the old threads the new connection may be used without a Logon on it. -/
theorem overlapping_unearned {s : System}
    (hr : run (step .acceptor) (start .acceptor 4 PManager.empty false) overlappingRun = some s) :
    ¬ Guarded (Earned .acceptor True) s.trace := by
  have htrace : (run (step .acceptor) (start .acceptor 4 PManager.empty false)
      overlappingRun).map System.trace = some [(0, .disconnected 1), (0, .received 2 .logon),
        (0, .sent 1 .logon true), (0, .sent 2 .cmd true)] := by decide +kernel
  rw [hr, Option.map_some, Option.some.injEq] at htrace
  intro h
  obtain ⟨⟨t, ht⟩, -⟩ := h [(0, .disconnected 1), (0, .received 2 .logon),
    (0, .sent 1 .logon true)] (0, .sent 2 .cmd true) [] htrace
  simp at ht

/-- A send fails, and both threads end before the receiver finds out: the state is not reset. -/
def unresetRun : List Act :=
  List.flatten [[.accept, .receive 0 .logon, .receiver 0], .replicate 5 (.sender 0),
    [.send 0 .logon true], .replicate 6 (.sender 0), [.send 0 .cmd false],
    .replicate 6 (.sender 0), [.receiver 0, .receiver 0, .accept], .replicate 5 (.sender 1),
    [.send 1 .cmd true]]

/-- The next connection then starts with the flags of the last, though its threads have ended. -/
theorem unreset_unearned {s : System}
    (hr : run (step .acceptor) (start .acceptor 4 PManager.empty false) unresetRun = some s) :
    ((s.connector 0).sender = .exited ∧ (s.connector 0).receiver = .exited) ∧
      ¬ Guarded (Earned .acceptor True) s.trace := by
  have hend : (run (step .acceptor) (start .acceptor 4 PManager.empty false)
      unresetRun).map (fun s => (s.trace, s.connector 0)) = some ([(0, .received 1 .logon),
        (0, .sent 1 .logon true), (0, .sent 1 .cmd false), (0, .sent 2 .cmd true)],
        ⟨1, false, false, 0, .exited, .exited⟩) := by decide +kernel
  rw [hr, Option.map_some, Option.some.injEq, Prod.mk.injEq] at hend
  obtain ⟨htrace, hconn⟩ := hend
  refine ⟨by rw [hconn]; exact ⟨rfl, rfl⟩, fun h => ?_⟩
  obtain ⟨⟨t, ht⟩, -⟩ := h [(0, .received 1 .logon), (0, .sent 1 .logon true),
    (0, .sent 1 .cmd false)] (0, .sent 2 .cmd true) [] htrace
  simp at ht

/-! ### The states there are -/

def states : List ℕ := [0, 8, 1, 3, 5, 7, 9, 11, 13, 15, 31]

lemma mem_states {s : ℕ} (hs : s < 32) (hfree : ∀ f, Has s f → f.Free ∨ Has s .connected)
    (hall : Has s .rrTimeout → ∀ f, Has s f) : s ∈ states := by
  have hdec : ∀ s < 32, ((Has s .logonSent → Has s .connected) ∧
      (Has s .logonRecv → Has s .connected) ∧ (Has s .rrTimeout → s = 31)) → s ∈ states := by decide
  refine hdec s hs ⟨fun h => (hfree _ h).resolve_left (by simp [Flag.Free]),
    fun h => (hfree _ h).resolve_left (by simp [Flag.Free]), fun h => ?_⟩
  exact of_decide_eq_true ((isLogon_iff hs).mpr (hall h))

variable (ty) in
/-- The state of a session on the way of a run. -/
def Passes (s : System) (acts : List Act) (state : ℕ) : Prop :=
  ∃ as t, as <+: acts ∧ run (step ty) s as = some t ∧ t.state = state

lemma description_recovering {read : ℕ → ℕ} (h5 : read 5 ∈ states)
    (h : getStateDescription read = "SESSION INIT-RECOVERING") :
    read 0 ≠ stateLogon ∧ read 5 = stateLogon := by
  have hdec : ∀ n ∈ states, isState n stateRrTimeout = true → n = stateLogon := by decide
  unfold getStateDescription at h
  split at h
  · exact absurd h (by decide)
  · next h0 =>
    refine ⟨h0, hdec _ h5 ?_⟩
    split at h
    · exact absurd h (by decide)
    · split at h
      · exact absurd h (by decide)
      · split at h
        · exact absurd h (by decide)
        · next hlast =>
          by_contra hno
          exact hlast (by simp [hno])

lemma run_mem_states (hm : Meets (step ty) Orderly (start ty M pm junk) acts)
    (hr : run (step ty) (start ty M pm junk) acts = some s) : s.state ∈ states := by
  have h : Inv ty (initState M pm = stateRrRecv) s :=
    run_induct (fun _ _ _ h hok hs => step_inv h hok hs) (start_inv M pm junk) hm hr
  refine mem_states h.shared.lt h.shared.free fun ht => ?_
  rcases Nat.eq_zero_or_pos s.num with h0 | hpos
  · exact absurd (h.idle h0 _ ht) (by simp [Flag.Free])
  · exact ((h.live (s.num - 1) (by omega)).rrTimeout ht).1

/-- **The state is one of eleven.** The timeout flag makes it the state of a session that is logged
on. A description that is put together from looks at the run says that the session recovers only
where the session is logged on at the last look and was not at the first. -/
theorem run_state (hm : Meets (step ty) Orderly (start ty M pm junk) acts)
    (hr : run (step ty) (start ty M pm junk) acts = some s) :
    s.state ∈ states ∧ (isLogon s.state = true ↔ isState s.state stateRrTimeout = true) ∧
      ∀ read : ℕ → ℕ, (∀ k, Passes ty (start ty M pm junk) acts (read k)) →
        getStateDescription read = "SESSION INIT-RECOVERING" →
        read 0 ≠ stateLogon ∧ read 5 = stateLogon := by
  have hmem := run_mem_states hm hr
  have hdec : ∀ n ∈ states, isLogon n = true ↔ isState n stateRrTimeout = true := by decide
  refine ⟨hmem, hdec _ hmem, fun read hread hrec => description_recovering ?_ hrec⟩
  obtain ⟨as, t, hpre, hrun, ht⟩ := hread 5
  exact ht ▸ run_mem_states (hm.of_prefix hpre) hrun

/-- The last step of the login falls between the first two looks. -/
def crossingLooks (k : ℕ) : ℕ := if k = 0 then 15 else stateLogon

lemma crossingLooks_pass (k : ℕ) :
    Passes .initiator (start .initiator 4 PManager.empty false) loginRun (crossingLooks k) := by
  have h15 : ((run (step .initiator) (start .initiator 4 PManager.empty false)
      (loginRun.take 32)).map System.state) = some 15 := by decide +kernel
  obtain ⟨t, ht, hstate⟩ := Option.map_eq_some_iff.mp h15
  unfold crossingLooks
  split
  · exact ⟨_, t, List.take_prefix _ _, ht, hstate⟩
  · exact ⟨_, loggedIn, List.prefix_rfl, (Option.some_get _).symm, by decide +kernel⟩

theorem run_state_login : loggedIn.state = stateLogon ∧ loggedIn.state ∈ states ∧
    (isLogon loggedIn.state = true ↔ isState loggedIn.state stateRrTimeout = true) ∧
      getStateDescription crossingLooks = "SESSION INIT-RECOVERING" ∧
      crossingLooks 0 ≠ stateLogon ∧ crossingLooks 5 = stateLogon := by
  have h := run_state (meets_initiator (start .initiator 4 PManager.empty false) loginRun)
    (Option.some_get loginRun_isSome).symm
  have hrec : getStateDescription crossingLooks = "SESSION INIT-RECOVERING" := by decide
  exact ⟨by decide +kernel, h.1, h.2.1, hrec, h.2.2 _ crossingLooks_pass hrec⟩

end Results

end Ufix.Login
