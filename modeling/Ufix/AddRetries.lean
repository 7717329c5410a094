import Ufix.Compose
import Ufix.SendQueue

/-!
`add_msg` with its retries: the message is finished before there is room for it.

Between two attempts other threads add messages and the sender marks them, so each attempt finds a
queue of its own. A call that gives up leaves the queue alone, but not the message.
-/

namespace Ufix.AddRetries

open Ufix.Decimal Ufix.TagValue

structure LoggedQueue where
  queue : SendQueue
  file : List (List Byte)

/-- `add_msg` once the lock is held: `none` while the queue is full. -/
def LoggedQueue.addMsg (q : LoggedQueue) (data : List Byte) : Option LoggedQueue :=
  (q.queue.addMsg data).map fun queue => ⟨queue, q.file ++ [data]⟩

/-- The result of a call: what it returns, the queue as the call leaves it, and the message. -/
structure Added where
  code : Bool
  queue : LoggedQueue
  msg : WMessage

/-- The loop of `add_msg`; attempt `k` finds the queue `qs k`. A call that still waits after `fuel`
attempts has no result. -/
def retry (qs : ℕ → LoggedQueue) (m : WMessage) : ℕ → ℕ → ℤ → Option Added
  | 0, _, _ => none
  | fuel + 1, k, numRetries =>
    match (qs k).addMsg m.data with
    | some q => some ⟨true, q, m⟩
    | none =>
      let numRetries := (numRetries - 1).bmod (2 ^ 32)
      if numRetries = 0 then some ⟨false, qs k, m⟩ else retry qs m fuel (k + 1) numRetries

def addMsg (qs : ℕ → LoggedQueue) (m : WMessage) (numRetries : ℤ) (fuel : ℕ) : Option Added :=
  m.preFinalize.bind fun m => retry qs m fuel 0 numRetries

def Added.enqueued (a : Added) : List Byte :=
  (a.queue.queue.msgsQueue ((a.queue.queue.dataSeq - 1) % a.queue.queue.qSize)).data

def Added.logged (a : Added) : Option (List Byte) := a.queue.file.getLast?

variable {qs : ℕ → LoggedQueue} {m m' : WMessage} {numRetries : ℤ} {fuel k : ℕ} {a : Added}

/-! ### One call -/

/-- Whether it succeeds or gives up, the loop leaves the message as `pre_finalize` made it. -/
lemma retry_eq_some (h : retry qs m fuel k numRetries = some a) :
    a.msg = m ∧ ∃ j ≥ k, (∀ i, k ≤ i → i < j → (qs i).addMsg m.data = none) ∧
      if a.code then (qs j).addMsg m.data = some a.queue
      else (qs j).addMsg m.data = none ∧ a.queue = qs j := by
  induction fuel generalizing k numRetries with
  | zero => cases h
  | succ fuel ih =>
    rw [retry] at h
    split at h
    · next q hq =>
      cases h
      exact ⟨rfl, k, le_rfl, fun i h1 h2 => absurd h1 (by omega), by simpa using hq⟩
    · next hq =>
      simp only at h
      split at h
      · cases h
        exact ⟨rfl, k, le_rfl, fun i h1 h2 => absurd h1 (by omega), by simpa using hq⟩
      · obtain ⟨hmsg, j, hj, hbefore, hlast⟩ := ih h
        refine ⟨hmsg, j, by omega, fun i h1 h2 => ?_, hlast⟩
        rcases Nat.eq_or_lt_of_le h1 with rfl | hlt
        · exact hq
        · exact hbefore i hlt h2

lemma retry_isSome (h1 : 1 ≤ numRetries) (h2 : numRetries < 2 ^ 31) (hfuel : numRetries ≤ fuel) :
    (retry qs m fuel k numRetries).isSome := by
  induction fuel generalizing k numRetries with
  | zero => omega
  | succ fuel ih =>
    have hwrap : (numRetries - 1).bmod (2 ^ 32) = numRetries - 1 :=
      Int.bmod_eq_of_le (by omega) (by omega)
    rw [retry]
    split
    · rfl
    · simp only [hwrap]
      split
      · rfl
      · exact ih (by omega) (by omega) (by omega)

/-- **With a positive number of retries a call returns**, after as many attempts at most. -/
theorem addMsg_isSome (hp : m.preFinalize.isSome) (h1 : 1 ≤ numRetries) (h2 : numRetries < 2 ^ 31)
    (hfuel : numRetries ≤ fuel) : (addMsg qs m numRetries fuel).isSome := by
  obtain ⟨m', hm'⟩ := Option.isSome_iff_exists.mp hp
  rw [addMsg, hm', Option.bind_some]
  exact retry_isSome h1 h2 hfuel

lemma addMsg_bytes {data : List Byte} {q : LoggedQueue} (h : q.addMsg data = some a.queue) :
    a.enqueued = data ∧ a.logged = some data := by
  obtain ⟨queue, hq, hqueue⟩ := Option.map_eq_some_iff.mp h
  obtain ⟨-, rfl⟩ := SendQueue.addMsg_eq_some.mp hq
  simp [Added.enqueued, Added.logged, ← hqueue]

/-- **A call that gives up leaves the queue alone**: each attempt found it full, and what the call
leaves of it is what the last attempt found. -/
theorem addMsg_gaveUp (h : addMsg qs m numRetries fuel = some a) (hcode : a.code = false) :
    ∃ k, a.queue = qs k ∧ ∀ i ≤ k, (qs i).queue.isQueueFull = true := by
  obtain ⟨m', -, hr⟩ := Option.bind_eq_some_iff.mp h
  obtain ⟨-, k, -, hbefore, hlast⟩ := retry_eq_some hr
  rw [hcode] at hlast
  obtain ⟨hfull, hqueue⟩ := hlast
  refine ⟨k, hqueue, fun i hi => ?_⟩
  have hi' : (qs i).addMsg m'.data = none := by
    rcases Nat.eq_or_lt_of_le hi with rfl | hlt
    · exact hfull
    · exact hbefore i (Nat.zero_le _) hlt
  by_contra hroom
  simp only [LoggedQueue.addMsg, SendQueue.addMsg, if_neg hroom] at hi'
  cases hi'

lemma addMsg_added (h : addMsg qs m numRetries fuel = some a) (hcode : a.code = true) :
    ∃ m', m.preFinalize = some m' ∧ a.enqueued = m'.data ∧ a.logged = some m'.data := by
  obtain ⟨m', hp, hr⟩ := Option.bind_eq_some_iff.mp h
  obtain ⟨-, k, -, -, hlast⟩ := retry_eq_some hr
  rw [hcode] at hlast
  exact ⟨m', hp, addMsg_bytes hlast⟩

/-! ### Calls one after the other -/

/-- `j` calls gave up and made `m'` of `m`. -/
inductive GaveUp : ℕ → WMessage → WMessage → Prop
  | zero (m : WMessage) : GaveUp 0 m m
  | succ {j : ℕ} {m m' : WMessage} {qs : ℕ → LoggedQueue} {numRetries : ℤ} {fuel : ℕ} {a : Added}
      (h : GaveUp j m m') (ha : addMsg qs m' numRetries fuel = some a) (hcode : a.code = false) :
      GaveUp (j + 1) m a.msg

lemma GaveUp.length {j : ℕ} (h : GaveUp j m m') :
    m'.data.length = m.data.length + j * checksumSize := by
  induction h with
  | zero => rw [Nat.zero_mul, Nat.add_zero]
  | succ h ha hcode ih =>
    obtain ⟨m₁, hp, hr⟩ := Option.bind_eq_some_iff.mp ha
    rw [(retry_eq_some hr).1, preFinalize_length hp, ih, Nat.add_mul, Nat.one_mul, Nat.add_assoc]

lemma GaveUp.eq_of_zero (h : GaveUp 0 m m') : m' = m := by
  cases h
  rfl

/-- **A message that found no room is not as before**: after `j` calls that gave up, however many
attempts each made and whatever happened to the queue in between, a call that succeeds stores and
writes `j` trailers more than the first call would have, and the same bytes only for `j = 0`. -/
theorem added_eq_iff {j : ℕ} (h : GaveUp j m m') {qs qs' : ℕ → LoggedQueue} {n n' : ℤ}
    {fuel fuel' : ℕ} {a b : Added} (ha : addMsg qs m n fuel = some a) (ha' : a.code = true)
    (hb : addMsg qs' m' n' fuel' = some b) (hb' : b.code = true) :
    (m' = m ↔ j = 0) ∧ (b.enqueued = a.enqueued ↔ j = 0) ∧ (b.logged = a.logged ↔ j = 0) ∧
      b.enqueued.length = a.enqueued.length + j * checksumSize := by
  obtain ⟨m₁, hp₁, ha₁, ha₂⟩ := addMsg_added ha ha'
  obtain ⟨m₂, hp₂, hb₁, hb₂⟩ := addMsg_added hb hb'
  have hlen := h.length
  have hlen₁ := preFinalize_length hp₁
  have hlen₂ := preFinalize_length hp₂
  have hzero : j * checksumSize = 0 ↔ j = 0 := by simp [checksumSize]
  have heq : j = 0 → m₂ = m₁ := by
    rintro rfl
    rw [h.eq_of_zero, hp₁] at hp₂
    exact (Option.some.inj hp₂).symm
  rw [ha₁, ha₂, hb₁, hb₂]
  refine ⟨⟨fun hm => ?_, ?_⟩, ⟨fun hd => ?_, fun hj => by rw [heq hj]⟩,
    ⟨fun hd => ?_, fun hj => by rw [heq hj]⟩, by omega⟩
  · rw [hm] at hlen
    omega
  · rintro rfl
    exact h.eq_of_zero
  · rw [hd] at hlen₂
    omega
  · rw [Option.some.inj hd] at hlen₂
    omega

/-! ### One slot -/

def heartbeat : WMessage :=
  (Compose.getMsg Compose.optionsAB (padded 10 1) .new [48]).get (by decide +kernel)

def full : LoggedQueue := ⟨.new 1 0 [[7]], [[7]]⟩

def free : LoggedQueue := ⟨full.queue.markMsgSent, full.file⟩

/-- A call with one retry gives up, a later one succeeds. -/
theorem added_eq_iff_heartbeat :
    let a := (addMsg (fun _ => free) heartbeat 1 1).get (by decide +kernel)
    let m' := ((addMsg (fun _ => full) heartbeat 1 1).get (by decide +kernel)).msg
    let b := (addMsg (fun _ => free) m' 1 1).get (by decide +kernel)
    (m' = heartbeat ↔ 1 = 0) ∧ (b.enqueued = a.enqueued ↔ 1 = 0) ∧ (b.logged = a.logged ↔ 1 = 0) ∧
      b.enqueued.length = a.enqueued.length + 1 * checksumSize := by
  intro a m' b
  have hfull : GaveUp 1 heartbeat m' :=
    .succ (.zero heartbeat) (Option.some_get _).symm (by decide +kernel)
  exact added_eq_iff hfull (Option.some_get _).symm (by decide +kernel) (Option.some_get _).symm
    (by decide +kernel)

/-- There the second call stores a message with two checksums, the first in its body. -/
theorem addMsg_twice :
    let a := (addMsg (fun _ => free) heartbeat 1 1).get (by decide +kernel)
    let m' := ((addMsg (fun _ => full) heartbeat 1 1).get (by decide +kernel)).msg
    let b := (addMsg (fun _ => free) m' 1 1).get (by decide +kernel)
    b.enqueued ≠ a.enqueued ∧
      (parse a.enqueued).map (List.countP fun f => f.1 = checksum) = some 1 ∧
      (parse b.enqueued).map (List.countP fun f => f.1 = checksum) = some 2 := by
  decide +kernel

end Ufix.AddRetries
