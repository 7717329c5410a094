import Ufix.Compose
import Ufix.SendBuffer

/-!
Messages built in the buffer of their queue.

A direct message takes the position of the queue when `get_msg` begins it and is written there;
`add_msg` copies nothing and has the slot point to the position the queue has then. Each message is
followed in two ways: by its bytes in memory, and as it would be in a buffer of its own.
-/

namespace Ufix.ZeroCopy

open Ufix.Memory Ufix.Runs Ufix.Decimal

/-- A message under construction: where its bytes lie, in the buffer of the queue or in its own one,
and its other fields. `built` is the same message in a private buffer. -/
structure Draft where
  direct : Bool
  pos : ℕ
  dataLen : ℕ
  msg : WMessage
  built : Option WMessage

structure State where
  queue : SendBuffer
  bufs : ℕ → ℕ → Byte
  drafts : ℕ → Option Draft
  file : List (List Byte)

/-- The calls that write to a message. `pre_finalize` is the part of `add_msg` before the lock. -/
inductive Edit
  | getMsg (o : SessionOption) (msgSeq msgType : List Byte)
  | reserveField (tag : ℤ) (len : ℕ)
  | setField (tag : ℤ) (value : List Byte)
  | setFieldInt (tag value : ℤ)
  | setFieldChar (tag : ℤ) (value : Byte)
  | preFinalize

def Edit.apply (m : WMessage) : Edit → Option WMessage
  | .getMsg o msgSeq msgType => Compose.getMsg o msgSeq m msgType
  | .reserveField tag len => m.reserveField tag len
  | .setField tag value => m.setField tag value
  | .setFieldInt tag value => m.setFieldInt tag value
  | .setFieldChar tag value => m.setFieldChar tag value
  | .preFinalize => m.preFinalize

namespace State

def mem (s : State) (i : ℕ) (d : Draft) : ℕ → Byte := if d.direct then s.queue.qBuf else s.bufs i

def load (s : State) (i : ℕ) (d : Draft) : WMessage :=
  { d.msg with data := read (s.mem i d) d.pos d.dataLen }

def setMem (s : State) (i : ℕ) (direct : Bool) (mem : ℕ → Byte) : State :=
  if direct then { s with queue := { s.queue with qBuf := mem } }
  else { s with bufs := Function.update s.bufs i mem }

/-- The bytes of `m` go to the place of the message, the other fields to the message. -/
def store (s : State) (i : ℕ) (d : Draft) (m : WMessage) (built : Option WMessage) : State :=
  let d' := { d with dataLen := m.data.length, msg := { m with data := [] }, built := built }
  { s.setMem i d.direct (write (s.mem i d) d.pos m.data) with
    drafts := Function.update s.drafts i (some d') }

end State

/-- `add_msg` of a direct message, once the lock is held. -/
def addDirect (q : SendBuffer) (len : ℕ) : Option SendBuffer :=
  if q.isQueueFull then none
  else some
    { q with
      msgsQueue := Function.update q.msgsQueue (q.dataSeq % q.qSize) ⟨q.dataSeq, q.qBufPos, len⟩
      qBufPos := advance q.qBufSize q.qBufPos len
      dataSeq := q.dataSeq + 1 }

inductive Act
  | create (i : ℕ) (direct : Bool)
  | edit (i : ℕ) (e : Edit)
  | enqueue (i : ℕ)
  | drop (i : ℕ)
  | markMsgSent
  | markSeqSent (seq : ℕ)

/-- `create` is the constructor with the first lines of `get_msg`, `enqueue` is `add_msg` once there
is room. -/
def step (s : State) : Act → Option State
  | .create i direct =>
    match s.drafts i with
    | some _ => none
    | none => some { s with
        drafts := Function.update s.drafts i
          (some ⟨direct, if direct then s.queue.qBufPos else 0, 0, .new, some .new⟩) }
  | .edit i e =>
    (s.drafts i).bind fun d =>
      (e.apply (s.load i d)).map fun m => s.store i d m (d.built.bind fun m => e.apply m)
  | .enqueue i =>
    (s.drafts i).bind fun d =>
      let data := (s.load i d).data
      (if d.direct then addDirect s.queue data.length else s.queue.addMsg data).map fun queue =>
        { s with
          queue := queue
          drafts := Function.update s.drafts i none
          file := s.file ++ [data] }
  | .drop i => some { s with drafts := Function.update s.drafts i none }
  | .markMsgSent => some { s with queue := s.queue.markMsgSent }
  | .markSeqSent seq => some { s with queue := s.queue.markSeqSent seq }

def start (queue : SendBuffer) (bufs : ℕ → ℕ → Byte) : State := ⟨queue, bufs, fun _ => none, []⟩

/-- While a direct message is under construction, no other one is begun and no other message is
added. -/
def Undisturbed (s : State) : Act → Prop
  | .create _ true => ∀ j d, s.drafts j = some d → d.direct = false
  | .enqueue i => ∀ j d, s.drafts j = some d → d.direct = true → j = i
  | _ => True

/-- The bytes of a message are those it would have in a buffer of its own. -/
def Intact (s : State) (i : ℕ) (d : Draft) : Prop := d.built = some (s.load i d)

variable {s t : State} {i j : ℕ} {d : Draft}

/-! ### Loading and storing -/

lemma load_store (s : State) (i : ℕ) (d : Draft) (m : WMessage) (built : Option WMessage)
    {d' : Draft} (h : (s.store i d m built).drafts i = some d') :
    d'.direct = d.direct ∧ d'.pos = d.pos ∧ d'.built = built ∧
      (s.store i d m built).load i d' = m := by
  have hd : some _ = some d' := (Function.update_self i _ _).symm.trans h
  cases hd
  refine ⟨rfl, rfl, rfl, ?_⟩
  cases hdir : d.direct with
  | true => simp [State.load, State.store, State.mem, State.setMem, hdir, read_write]
  | false => simp [State.load, State.store, State.mem, State.setMem, hdir, read_write]

lemma load_store_of_ne (s : State) (d : Draft) (m : WMessage) (built : Option WMessage)
    {e : Draft} (hne : j ≠ i) (hdirect : d.direct = false ∨ e.direct = false) :
    (s.store i d m built).load j e = s.load j e := by
  rcases hdirect with h | h
  · cases he : e.direct with
    | true => simp [State.load, State.store, State.mem, State.setMem, h, he]
    | false => simp [State.load, State.store, State.mem, State.setMem, h, he, hne]
  · cases hd : d.direct with
    | true => simp [State.load, State.store, State.mem, State.setMem, h, hd]
    | false => simp [State.load, State.store, State.mem, State.setMem, h, hd, hne]

/-! ### Steps -/

/-- What a step does not overwrite in the buffer of the queue: the bytes of message `j`. -/
def Spares (s : State) (j : ℕ) : Act → Prop
  | .edit i _ => ∀ d, s.drafts i = some d → d.direct = true → i = j
  | .enqueue _ => False
  | _ => True

/-- A message stays intact; one in its own buffer whatever else happens. -/
lemma step_intact {a : Act} {e : Draft} (hs : step s a = some t)
    (hj : ∀ d, s.drafts j = some d → d.direct = e.direct → Intact s j d)
    (he : t.drafts j = some e) (hspares : e.direct = true → Spares s j a) : Intact t j e := by
  cases a with
  | create i direct =>
    cases hi : s.drafts i with
    | some d => simp [step, hi] at hs
    | none =>
      simp only [step, hi, Option.some.injEq] at hs
      subst hs
      by_cases hne : j = i
      · subst hne
        simp only [Function.update_self, Option.some.injEq] at he
        subst he
        rfl
      · simp only [Function.update_of_ne hne] at he
        exact hj e he rfl
  | edit i ed =>
    obtain ⟨d, hd, hs⟩ := Option.bind_eq_some_iff.mp hs
    obtain ⟨m, hm, rfl⟩ := Option.map_eq_some_iff.mp hs
    by_cases hne : j = i
    · subst hne
      obtain ⟨hdir, -, hbuilt, hload⟩ := load_store s j d m _ he
      have hown := hj d hd hdir.symm
      unfold Intact at hown ⊢
      rw [hbuilt, hload, hown, Option.bind_some, hm]
    · have he' : s.drafts j = some e := by
        simpa [State.store, Function.update_of_ne hne] using he
      have hdirect : d.direct = false ∨ e.direct = false := by
        cases hdir : e.direct with
        | false => exact Or.inr rfl
        | true =>
          refine Or.inl (Bool.eq_false_iff.mpr fun hdd => ?_)
          exact hne (hspares hdir d hd hdd).symm
      unfold Intact
      rw [load_store_of_ne s d m _ hne hdirect]
      exact hj e he' rfl
  | enqueue i =>
    obtain ⟨d, hd, hs⟩ := Option.bind_eq_some_iff.mp hs
    obtain ⟨queue, -, rfl⟩ := Option.map_eq_some_iff.mp hs
    by_cases hne : j = i
    · subst hne
      simp at he
    · simp only [Function.update_of_ne hne] at he
      have hprivate : e.direct = false := Bool.eq_false_iff.mpr hspares
      have hown := hj e he rfl
      simpa [Intact, State.load, State.mem, hprivate] using hown
  | drop i =>
    cases hs
    by_cases hne : j = i
    · subst hne
      simp at he
    · simp only [Function.update_of_ne hne] at he
      exact hj e he rfl
  | markMsgSent =>
    cases hs
    exact hj e he rfl
  | markSeqSent seq =>
    cases hs
    have hbuf := (s.queue.markSeqSent_qBuf seq).1
    have hown := hj e he rfl
    simpa [Intact, State.load, State.mem, hbuf] using hown

/-- The slot and the record of a message that is added hold its bytes. -/
lemma enqueue_info (hs : step s (.enqueue i) = some t) (hd : s.drafts i = some d)
    (hintact : Intact s i d) (hpos : d.direct = true → d.pos = s.queue.qBufPos) :
    ∃ m, d.built = some m ∧
      t.queue.info (s.queue.dataSeq % s.queue.qSize) = ⟨s.queue.dataSeq, m.data⟩ ∧
      t.file = s.file ++ [m.data] := by
  refine ⟨_, hintact, ?_⟩
  simp only [step, hd, Option.bind_some] at hs
  obtain ⟨queue, hq, rfl⟩ := Option.map_eq_some_iff.mp hs
  refine ⟨?_, rfl⟩
  cases hdir : d.direct with
  | true =>
    simp only [hdir, if_true, addDirect] at hq
    split at hq
    · cases hq
    · cases hq
      simp [SendBuffer.info, State.load, State.mem, hdir, hpos hdir]
  | false =>
    simp only [hdir, Bool.false_eq_true, if_false] at hq
    obtain ⟨-, rfl⟩ := SendBuffer.addMsg_eq_some.mp hq
    simp [SendBuffer.info, read_write]

/-! ### Runs -/

/-- All messages are intact; a direct one is alone and where the queue goes on. -/
structure Inv (s : State) : Prop where
  intact : ∀ i d, s.drafts i = some d → Intact s i d
  pos : ∀ i d, s.drafts i = some d → d.direct = true → d.pos = s.queue.qBufPos
  alone : ∀ i j d e, s.drafts i = some d → s.drafts j = some e → d.direct = true →
    e.direct = true → i = j

lemma Inv.spares (h : Inv s) {a : Act} (hok : Undisturbed s a) (hs : step s a = some t) {e : Draft}
    (he : t.drafts j = some e) (hdirect : e.direct = true) : Spares s j a := by
  cases a with
  | edit i ed =>
    intro d hd hdd
    by_contra hne
    obtain ⟨d', hd', hs⟩ := Option.bind_eq_some_iff.mp hs
    obtain ⟨m, -, rfl⟩ := Option.map_eq_some_iff.mp hs
    have he' : s.drafts j = some e := by
      simpa [State.store, Function.update_of_ne (Ne.symm hne)] using he
    exact hne (h.alone i j d e hd he' hdd hdirect)
  | enqueue i =>
    obtain ⟨d, hd, hs⟩ := Option.bind_eq_some_iff.mp hs
    obtain ⟨queue, -, rfl⟩ := Option.map_eq_some_iff.mp hs
    by_cases hne : j = i
    · subst hne
      simp at he
    · simp only [Function.update_of_ne hne] at he
      exact hne (hok j e he hdirect)
  | _ => trivial

def SamePlaces (s t : State) : Prop :=
  t.queue.qBufPos = s.queue.qBufPos ∧ ∀ j e, t.drafts j = some e →
    ∃ d, s.drafts j = some d ∧ e.direct = d.direct ∧ e.pos = d.pos

lemma Inv.samePlaces (h : Inv s) (hsame : SamePlaces s t)
    (hintact : ∀ i d, t.drafts i = some d → Intact t i d) : Inv t := by
  obtain ⟨hq, hdrafts⟩ := hsame
  refine ⟨hintact, fun i d hi hdir => ?_, fun i j d e hi hj hdir hdir' => ?_⟩
  · obtain ⟨d', hd', h1, h2⟩ := hdrafts i d hi
    rw [h2, hq]
    exact h.pos i d' hd' (h1 ▸ hdir)
  · obtain ⟨d', hd', h1, -⟩ := hdrafts i d hi
    obtain ⟨e', he', h2, -⟩ := hdrafts j e hj
    exact h.alone i j d' e' hd' he' (h1 ▸ hdir) (h2 ▸ hdir')

lemma store_samePlaces (s : State) (hd : s.drafts i = some d) (m : WMessage)
    (built : Option WMessage) : SamePlaces s (s.store i d m built) := by
  refine ⟨?_, fun j e he => ?_⟩
  · cases hdir : d.direct <;> simp [State.store, State.setMem, hdir]
  · by_cases hne : j = i
    · subst hne
      obtain ⟨h1, h2, -, -⟩ := load_store s j d m built he
      exact ⟨d, hd, h1, h2⟩
    · have he' : s.drafts j = some e := by
        simpa [State.store, Function.update_of_ne hne] using he
      exact ⟨e, he', rfl, rfl⟩

lemma step_inv {a : Act} (h : Inv s) (hok : Undisturbed s a) (hs : step s a = some t) : Inv t := by
  have hintact : ∀ j e, t.drafts j = some e → Intact t j e := fun j e he =>
    step_intact hs (fun d hd _ => h.intact j d hd) he (h.spares hok hs he)
  cases a with
  | create i direct =>
    cases hi : s.drafts i with
    | some d => simp [step, hi] at hs
    | none =>
      simp only [step, hi, Option.some.injEq] at hs
      subst hs
      have hdirect : ∀ j e, Function.update s.drafts i (some ⟨direct,
          if direct then s.queue.qBufPos else 0, 0, .new, some .new⟩) j = some e →
          e.direct = true → (direct = true ∧ j = i ∧ e.pos = s.queue.qBufPos) ∨
            (direct = false ∧ s.drafts j = some e) := by
        intro j e he hdir
        by_cases hne : j = i
        · subst hne
          simp only [Function.update_self, Option.some.injEq] at he
          subst he
          exact Or.inl ⟨hdir, rfl, if_pos hdir⟩
        · rw [Function.update_of_ne hne] at he
          refine Or.inr ⟨Bool.eq_false_iff.mpr fun hnew => ?_, he⟩
          subst hnew
          rw [hok j e he] at hdir
          cases hdir
      refine ⟨hintact, fun j e he hdir => ?_, fun j k d e hj hk hdir hdir' => ?_⟩
      · rcases hdirect j e he hdir with ⟨-, -, hpos⟩ | ⟨-, hold⟩
        · exact hpos
        · exact h.pos j e hold hdir
      · rcases hdirect j d hj hdir with ⟨hnew, hji, -⟩ | ⟨hnew, hold⟩
        · rcases hdirect k e hk hdir' with ⟨-, hki, -⟩ | ⟨hnew', -⟩
          · rw [hji, hki]
          · rw [hnew] at hnew'
            cases hnew'
        · rcases hdirect k e hk hdir' with ⟨hnew', -, -⟩ | ⟨-, hold'⟩
          · rw [hnew] at hnew'
            cases hnew'
          · exact h.alone j k d e hold hold' hdir hdir'
  | edit i ed =>
    obtain ⟨d, hd, hs⟩ := Option.bind_eq_some_iff.mp hs
    obtain ⟨m, -, rfl⟩ := Option.map_eq_some_iff.mp hs
    exact h.samePlaces (store_samePlaces s hd m _) hintact
  | enqueue i =>
    have hnone : ∀ j e, t.drafts j = some e → e.direct ≠ true := fun j e he hdir =>
      h.spares hok hs he hdir
    exact ⟨hintact, fun j e he hdir => absurd hdir (hnone j e he),
      fun j k d e hj hk hdir _ => absurd hdir (hnone j d hj)⟩
  | drop i =>
    cases hs
    refine h.samePlaces ⟨rfl, fun j e he => ?_⟩ hintact
    by_cases hne : j = i
    · subst hne
      simp at he
    · simp only [Function.update_of_ne hne] at he
      exact ⟨e, he, rfl, rfl⟩
  | markMsgSent =>
    cases hs
    exact h.samePlaces ⟨rfl, fun j e he => ⟨e, he, rfl, rfl⟩⟩ hintact
  | markSeqSent seq =>
    cases hs
    exact h.samePlaces
      ⟨(s.queue.markSeqSent_qBuf seq).2, fun j e he => ⟨e, he, rfl, rfl⟩⟩ hintact

lemma start_inv (queue : SendBuffer) (bufs : ℕ → ℕ → Byte) : Inv (start queue bufs) :=
  ⟨fun _ _ h => (Option.some_ne_none _ h.symm).elim,
    fun _ _ h => (Option.some_ne_none _ h.symm).elim,
    fun _ _ _ _ h => (Option.some_ne_none _ h.symm).elim⟩

/-- **Built in place or copied, a message is the same**: in every run in which no other message is
begun in place or added while a direct one is under construction, each message that is added has in
its slot and in the file exactly the bytes it would have had in a buffer of its own. -/
theorem enqueue_built {queue : SendBuffer} {bufs : ℕ → ℕ → Byte} {acts : List Act}
    (hok : Meets step Undisturbed (start queue bufs) acts)
    (hr : run step (start queue bufs) acts = some s)
    (hs : step s (.enqueue i) = some t) :
    ∃ d m, s.drafts i = some d ∧ d.built = some m ∧
      t.queue.info (s.queue.dataSeq % s.queue.qSize) = ⟨s.queue.dataSeq, m.data⟩ ∧
      t.file = s.file ++ [m.data] := by
  have hinv : Inv s := run_induct (fun _ _ _ h ha hs => step_inv h ha hs)
    (start_inv queue bufs) hok hr
  obtain ⟨d, hd, -⟩ := Option.bind_eq_some_iff.mp hs
  obtain ⟨m, hm, hinfo, hfile⟩ := enqueue_info hs hd (hinv.intact i d hd) (hinv.pos i d hd)
  exact ⟨d, m, hd, hm, hinfo, hfile⟩

/-- **A message in its own buffer is always added right**, whatever happens to the others. -/
theorem enqueue_built_private {queue : SendBuffer} {bufs : ℕ → ℕ → Byte} {acts : List Act}
    (hr : run step (start queue bufs) acts = some s) (hd : s.drafts i = some d)
    (hprivate : d.direct = false) (hs : step s (.enqueue i) = some t) :
    ∃ m, d.built = some m ∧
      t.queue.info (s.queue.dataSeq % s.queue.qSize) = ⟨s.queue.dataSeq, m.data⟩ ∧
      t.file = s.file ++ [m.data] := by
  have hall : Meets step (fun _ _ => True) (start queue bufs) acts :=
    meets_of_forall (fun _ _ => trivial) _ acts
  have hintact : ∀ i d, s.drafts i = some d → d.direct = false → Intact s i d := by
    refine run_induct (P := fun s => ∀ i d, s.drafts i = some d → d.direct = false → Intact s i d)
      (fun s a t h _ hs j e he hdir => ?_) (fun _ _ h => (Option.some_ne_none _ h.symm).elim)
      hall hr
    refine step_intact hs (fun d hd heq => h j d hd (heq.trans hdir)) he fun hdir' => ?_
    rw [hdir] at hdir'
    cases hdir'
  refine enqueue_info hs hd (hintact i d hd hprivate) fun hdir => ?_
  rw [hprivate] at hdir
  cases hdir

/-! ### Two messages -/

def start₀ : State := start (.new 4 0 128 fun _ => 0) fun _ _ => 0

def begin (i : ℕ) (direct : Bool) (msgType : Byte) : List Act :=
  [.create i direct, .edit i (.getMsg Compose.optionsAB (padded 10 1) [msgType])]

/-- A direct message is begun, and finished while another one is built in its own buffer. -/
def besidePrivate : List Act :=
  begin 0 true 48 ++ begin 1 false 53 ++ [.edit 1 .preFinalize, .edit 0 .preFinalize]

theorem enqueue_built_besidePrivate :
    let s := (run step start₀ besidePrivate).get (by decide +kernel)
    let t := (step s (.enqueue 0)).get (by decide +kernel)
    ∃ d m, s.drafts 0 = some d ∧ d.built = some m ∧
      t.queue.info (s.queue.dataSeq % s.queue.qSize) = ⟨s.queue.dataSeq, m.data⟩ ∧
      t.file = s.file ++ [m.data] := by
  intro s t
  have hok : Meets step Undisturbed start₀ besidePrivate := by
    refine fun u hu => ⟨fun j d h => (Option.some_ne_none _ h.symm).elim, ?_⟩
    exact fun _ _ => ⟨trivial, fun _ _ => ⟨trivial, fun _ _ => ⟨trivial, fun _ _ => ⟨trivial,
      fun _ _ => ⟨trivial, trivial⟩⟩⟩⟩⟩
  exact enqueue_built hok (Option.some_get _).symm (Option.some_get _).symm

/-- The second message is begun behind the first one, and added before it. -/
def twoMessages (direct : Bool) : List Act :=
  begin 0 true 48 ++ begin 1 direct 53 ++ [.edit 1 .preFinalize, .enqueue 1, .edit 0 .preFinalize]

/-- The first message is lost, in the queue and in the file, whether the second one is built in
place or copied. -/
theorem enqueue_built_two :
    let s := (run step start₀ (twoMessages true)).get (by decide +kernel)
    let t := (step s (.enqueue 0)).get (by decide +kernel)
    let s' := (run step start₀ (twoMessages false)).get (by decide +kernel)
    let t' := (step s' (.enqueue 0)).get (by decide +kernel)
    let data := ((s.drafts 0).bind Draft.built).map WMessage.data
    let data' := ((s'.drafts 0).bind Draft.built).map WMessage.data
    data.isSome ∧ data ≠ some (t.queue.info (s.queue.dataSeq % s.queue.qSize)).data ∧
      data ≠ t.file.getLast? ∧
      data'.isSome ∧ data' ≠ some (t'.queue.info (s'.queue.dataSeq % s'.queue.qSize)).data ∧
      data' ≠ t'.file.getLast? := by
  decide +kernel

end Ufix.ZeroCopy
