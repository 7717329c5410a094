import Ufix.RingFifo
import Ufix.Utils

/-!
The ring of session commands, which the receiver and the application fill and the sender empties.

A command is a block of `CMD_BLOCK_SIZE` bytes. `add_cmd` copies it under a lock and then moves the
tail; `get_next_cmd` takes no lock. Neither looks at whether the ring is full.
-/

namespace Ufix

/-- `MAX_CMDS`. -/
def maxCmds : ℕ := 1024

def cmdBlockSize : ℕ := 32

/-- What `add_cmd` copies. -/
abbrev CmdBlock := { block : List Byte // block.length = cmdBlockSize }

def CmdBlock.fill (block : CmdBlock) (bytes : List Byte) : CmdBlock :=
  ⟨(bytes ++ block.1.drop bytes.length).take cmdBlockSize, by
    rw [List.length_take, List.length_append, List.length_drop, block.2]
    omega⟩

structure Cmds where
  cmds : ℕ → Byte
  head : ℕ
  tail : ℕ

namespace Cmds

open Ufix.Runs

/-- The constructor, on memory that `mem_alloc` gave. -/
def new (cmds : ℕ → Byte) : Cmds := ⟨cmds, 0, 0⟩

/-- `add_cmd` up to the copy. -/
def copyCmd (c : Cmds) (cmd : CmdBlock) : Cmds :=
  { c with cmds := Memory.write c.cmds (c.tail * cmdBlockSize) cmd.1 }

/-- The rest of `add_cmd`. -/
def moveTail (c : Cmds) : Cmds :=
  let newTail := c.tail + 1
  { c with tail := if newTail = maxCmds then 0 else newTail }

def addCmd (c : Cmds) (cmd : CmdBlock) : Cmds := (c.copyCmd cmd).moveTail

/-- The place of the command in `cmds`, unless the ring seems empty. -/
def getNextCmd (c : Cmds) : Cmds × Option ℕ :=
  if c.head = c.tail then (c, none)
  else
    let head := c.head + 1
    ({ c with head := if head = maxCmds then 0 else head }, some (c.head * cmdBlockSize))

def block (c : Cmds) (cmd : ℕ) : CmdBlock :=
  ⟨Memory.read c.cmds cmd cmdBlockSize, Memory.read_length _ _ _⟩

/-! ### Its threads -/

/-- The ring, the command of the thread that holds the lock, and the commands added and returned
so far. -/
structure State where
  ring : Cmds
  adding : Option CmdBlock
  added : List CmdBlock
  returned : List CmdBlock

/-- `add_cmd` up to the copy, the rest of it, and `get_next_cmd`. -/
inductive Act
  | addCmd (cmd : CmdBlock)
  | moveTail
  | getNextCmd

def step (s : State) : Act → Option State
  | .addCmd cmd =>
    match s.adding with
    | some _ => none
    | none => some { s with ring := s.ring.copyCmd cmd, adding := some cmd }
  | .moveTail =>
    s.adding.map fun cmd =>
      { s with ring := s.ring.moveTail, adding := none, added := s.added ++ [cmd] }
  | .getNextCmd =>
    let r := s.ring.getNextCmd
    some { s with
      ring := r.1
      returned := s.returned ++ (r.2.map s.ring.block).toList }

def start (cmds : ℕ → Byte) : State := ⟨new cmds, none, [], []⟩

/-- The blocks returned are the ones added, in order, and `NULL` is returned only when all of them
were. -/
def IsQueue (s : State) : Prop :=
  s.returned <+: s.added ∧ (s.ring.getNextCmd.2 = none → s.returned = s.added)

/-- When the tail moves, it does not move onto the head. -/
def HasRoom (s : State) : Act → Prop
  | .moveTail => s.ring.moveTail.tail ≠ s.ring.head
  | _ => True

instance (s : State) : DecidablePred (HasRoom s)
  | .moveTail => inferInstanceAs (Decidable (_ ≠ _))
  | .addCmd _ | .getNextCmd => inferInstanceAs (Decidable True)

/-! ### The ring is one of cells -/

def blocks : RingFifo.Cells (ℕ → Byte) CmdBlock where
  get := fun cmds i => ⟨Memory.read cmds (i * cmdBlockSize) cmdBlockSize, Memory.read_length _ _ _⟩
  set := fun cmds i cmd => Memory.write cmds (i * cmdBlockSize) cmd.1
  get_set := fun cmds i cmd j => by
    apply Subtype.ext
    split
    · next h =>
      subst h
      have hread := Memory.read_write cmds (j * cmdBlockSize) cmd.1
      rwa [cmd.2] at hread
    · next h =>
      refine Memory.read_write_of_apart ?_
      rw [cmd.2, Memory.Apart]
      unfold cmdBlockSize
      omega

def ringOf (s : State) : RingFifo.State (ℕ → Byte) CmdBlock :=
  ⟨s.ring.cmds, s.ring.head, s.ring.tail, s.adding, s.added, s.returned⟩

def actOf : Act → RingFifo.Act CmdBlock
  | .addCmd cmd => .copy cmd
  | .moveTail => .publish
  | .getNextCmd => .take

lemma step_ringOf (s : State) (a : Act) :
    RingFifo.step blocks maxCmds (ringOf s) (actOf a) = (step s a).map ringOf := by
  cases a with
  | addCmd cmd =>
    unfold actOf step RingFifo.step
    cases h : s.adding with
    | none => simp [ringOf, h, copyCmd, blocks]
    | some other => simp [ringOf, h]
  | moveTail =>
    unfold actOf step RingFifo.step
    cases h : s.adding with
    | none => simp [ringOf, h]
    | some cmd => simp [ringOf, h, moveTail, RingFifo.next]
  | getNextCmd =>
    unfold actOf step RingFifo.step getNextCmd
    by_cases h : s.ring.head = s.ring.tail
    · simp [ringOf, h]
    · simp [ringOf, h, RingFifo.next, blocks, block]
      rfl

lemma getNextCmd_eq_none_iff (c : Cmds) : c.getNextCmd.2 = none ↔ c.head = c.tail := by
  unfold getNextCmd
  split <;> simp_all

lemma isQueue_iff (s : State) : IsQueue s ↔ RingFifo.Fifo (ringOf s) := by
  unfold IsQueue RingFifo.Fifo
  rw [getNextCmd_eq_none_iff]
  rfl

lemma hasRoom_iff (s : State) (a : Act) :
    HasRoom s a ↔ RingFifo.HasRoom maxCmds (ringOf s) (actOf a) := by
  cases a <;> rfl

/-! ### Runs -/

/-- **The ring of commands is a queue** in every state of a run if and only if no addition of the
run moves the tail onto the head. -/
theorem always_isQueue_iff (cmds : ℕ → Byte) (acts : List Act) :
    Always step IsQueue (start cmds) acts ↔ Meets step HasRoom (start cmds) acts := by
  have hfifo := RingFifo.always_fifo_iff (c := blocks) (n := maxCmds) (by decide) cmds
    (acts.map actOf)
  have hstart : RingFifo.start cmds = ringOf (start cmds) := rfl
  rw [hstart, always_map step_ringOf, meets_map step_ringOf] at hfifo
  simpa only [← isQueue_iff, ← hasRoom_iff] using hfifo

lemma run_inv {cmds : ℕ → Byte} {acts : List Act} {s : State}
    (hroom : Meets step HasRoom (start cmds) acts) (hr : run step (start cmds) acts = some s) :
    RingFifo.Inv blocks maxCmds (ringOf s) := by
  have hstart : RingFifo.start cmds = ringOf (start cmds) := rfl
  have hroom' : Meets (RingFifo.step blocks maxCmds) (RingFifo.HasRoom maxCmds)
      (RingFifo.start cmds) (acts.map actOf) := by
    rw [hstart, meets_map step_ringOf]
    exact hroom.mono fun t a => (hasRoom_iff t a).mp
  have hr' : run (RingFifo.step blocks maxCmds) (RingFifo.start cmds) (acts.map actOf) =
      some (ringOf s) := by
    rw [hstart, run_map step_ringOf, hr]
    rfl
  exact RingFifo.run_inv (by decide) cmds hroom' hr'

/-- While a command waits, `get_next_cmd` gives the place of the one that is next. -/
lemma getNextCmd_of_waits {cmds : ℕ → Byte} {acts : List Act} {s : State} {cmd : CmdBlock}
    (hroom : Meets step HasRoom (start cmds) acts) (hr : run step (start cmds) acts = some s)
    (hnext : s.added[s.returned.length]? = some cmd) :
    s.ring.getNextCmd.2 = some (s.ring.head * cmdBlockSize) ∧
      s.ring.block (s.ring.head * cmdBlockSize) = cmd ∧ s.ring.head < maxCmds := by
  have hinv := run_inv hroom hr
  have hwaits := (List.getElem?_eq_some_iff.mp hnext).1
  have hne : s.ring.head ≠ s.ring.tail := by
    intro he
    have hall := hinv.eq_of_head_eq he
    have hreturned : s.returned = s.added := hall
    rw [hreturned] at hwaits
    omega
  have htaken := (hinv.take (by decide) hne).1
  have hhead : s.ring.head = s.returned.length % maxCmds := hinv.head
  refine ⟨?_, ?_, by rw [hhead]; exact Nat.mod_lt _ (by decide)⟩
  · rw [getNextCmd, if_neg hne]
  · exact Option.some.inj (htaken.symm.trans hnext)

/-- `k` commands added while none is taken. -/
def adds (cmd : CmdBlock) : ℕ → List Act
  | 0 => []
  | k + 1 => adds cmd k ++ [.addCmd cmd, .moveTail]

lemma run_adds (cmds : ℕ → Byte) (cmd : CmdBlock) (k : ℕ) :
    ∃ s, run step (start cmds) (adds cmd k) = some s ∧ s.adding = none ∧ s.added.length = k ∧
      s.returned = [] ∧ s.ring.head = 0 ∧ s.ring.tail = k % maxCmds := by
  induction k with
  | zero => exact ⟨_, rfl, rfl, rfl, rfl, rfl, rfl⟩
  | succ k ih =>
    obtain ⟨s, hr, hadding, hadded, hreturned, hhead, htail⟩ := ih
    refine ⟨{ s with
      ring := (s.ring.copyCmd cmd).moveTail, adding := none, added := s.added ++ [cmd] },
      ?_, rfl, ?_, hreturned, hhead, ?_⟩
    · rw [adds, run_append, hr]
      simp [step, hadding]
    · rw [List.length_append, hadded, List.length_singleton]
    · rw [← RingFifo.next_mod (by decide), ← htail]
      rfl

lemma not_always_isQueue_adds (cmds : ℕ → Byte) (cmd : CmdBlock) {k : ℕ} (hk : 0 < k)
    (hlap : k % maxCmds = 0) : ¬ Always step IsQueue (start cmds) (adds cmd k) := by
  intro h
  obtain ⟨s, hr, -, hadded, hreturned, hhead, htail⟩ := run_adds cmds cmd k
  rw [hlap] at htail
  have hall := (h.last hr).2 ((getNextCmd_eq_none_iff _).mpr (hhead.trans htail.symm))
  rw [hreturned] at hall
  rw [← hall, List.length_nil] at hadded
  omega

/-- After 1024 heartbeats the ring seems empty. -/
theorem not_always_isQueue :
    ¬ Always step IsQueue (start fun _ => 0)
      (adds ⟨48 :: List.replicate 31 0, by decide⟩ 1024) :=
  not_always_isQueue_adds _ _ (by decide) (by decide)

end Cmds

end Ufix
