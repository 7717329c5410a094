import Ufix.LittleEndian
import Ufix.Memory
import Ufix.Runs
import Ufix.SendQueue
import Ufix.TagValue
import Ufix.Utils

/-!
The file a send queue logs its messages to, byte by byte. A record is the length of a message in
four bytes and the message itself.

The recovery reads the file block by block into a buffer whose bytes behind those read are
whatever they were before, and looks for records by the first characters of a message.
-/

namespace Ufix.DataFile

open Ufix.LittleEndian Ufix.Memory Ufix.Runs
open Ufix.TagValue (equal)

/-- What `write_data` appends to the file. -/
def record (data : List Byte) : List Byte := bytesOf 4 data.length ++ data

def writeData (file data : List Byte) : List Byte := file ++ record data

def beginString : ℤ := 8

/-- The test for the first characters `8=FI` of a message. -/
def isMsgStart (buf : ℕ → Byte) (pos : ℕ) : Bool :=
  ctoi (buf pos) = beginString && buf (pos + 1) = equal && buf (pos + 2) = 70 && buf (pos + 3) = 73

/-- How many bytes the test looks at: it stops at the first that differs. -/
def tested (buf : ℕ → Byte) (pos : ℕ) : ℕ :=
  if ctoi (buf pos) ≠ beginString then 1
  else if buf (pos + 1) ≠ equal then 2
  else if buf (pos + 2) ≠ 70 then 3
  else 4

/-- The `int` at a position. -/
def intAt (buf : ℕ → Byte) (pos : ℕ) : ℤ := (numberOf (read buf pos 4) : ℤ).bmod (2 ^ 32)

/-- A sum with `sizeof(int)` in it is a `size_t`. -/
def toSize (x : ℤ) : ℕ := (x % 2 ^ 64).toNat

/-- What a run of `recover_msgs` does: the messages it calls `recover_msg` with, the number of
bytes it leaves for the next block, the buffer after it, and how far it tested bytes. -/
structure Scan where
  calls : List (List Byte)
  rest : ℕ
  buf : ℕ → Byte
  testedTo : ℕ

def keepRest (buf : ℕ → Byte) (bufLen start testedTo : ℕ) : Scan :=
  ⟨[], bufLen - start, write buf 0 (read buf start (bufLen - start)), testedTo⟩

/-- The loops of `recover_msgs` from `start` on, `n` rounds at most: `none` when a message of
negative length is to be copied. -/
def recoverMsgs (bufLen : ℕ) (buf : ℕ → Byte) : ℕ → ℕ → Option Scan
  | 0, _ => none
  | n + 1, start =>
    if start ≥ bufLen then some ⟨[], 0, buf, 0⟩
    else if start + 4 > bufLen then some (keepRest buf bufLen start 0)
    else
      let testedTo := start + 4 + tested buf (start + 4)
      if isMsgStart buf (start + 4) then
        let msgLen := intAt buf start
        if toSize (start + 4 + msgLen) > bufLen then some (keepRest buf bufLen start testedTo)
        else if msgLen < 0 then none
        else
          (recoverMsgs bufLen buf n (start + 4 + msgLen.toNat)).map fun s =>
            { s with
              calls := read buf (start + 4) msgLen.toNat :: s.calls
              testedTo := max testedTo s.testedTo }
      else
        (recoverMsgs bufLen buf n (start + 4)).map fun s =>
          { s with testedTo := max testedTo s.testedTo }

/-- What a recovery does: the messages it calls `recover_msg` with, and whether it tested only
bytes read from the file. -/
structure Recovery where
  msgs : List (List Byte)
  inside : Bool
  deriving DecidableEq

/-- The loop of `recover_data` with a buffer of the given size, `n` blocks at most, of which the
first `start` bytes are there already. -/
def recoverBlocks (size : ℕ) : ℕ → (ℕ → Byte) → ℕ → List Byte → Option Recovery
  | 0, _, _, _ => none
  | n + 1, buf, start, file =>
    let block := file.take (size - start)
    if block = [] then some ⟨[], true⟩
    else
      let bufLen := start + block.length
      (recoverMsgs bufLen (write buf start block) (bufLen + 1) 0).bind fun s =>
        (recoverBlocks size n s.buf s.rest (file.drop block.length)).map fun r =>
          ⟨s.calls ++ r.msgs, decide (s.testedTo ≤ bufLen) && r.inside⟩

def bufSize : ℕ := 2 ^ 24

/-- `recover_data` on a file, with what was in the memory of the buffer and behind it. -/
def recoverData (stale : ℕ → Byte) (file : List Byte) : Option Recovery :=
  recoverBlocks bufSize (file.length + 1) stale 0 file

/-- The numbers `recover_msg` gives to messages. -/
def assigned : SendQueue → List (List Byte) → List (List Byte × ℕ)
  | _, [] => []
  | q, msg :: msgs => (msg, q.recoverDataSeq) :: assigned (q.recoverMsg msg) msgs

/-- A queue and its file, with the messages accepted and their numbers. -/
structure Writer where
  queue : SendQueue
  file : List Byte
  accepted : List (List Byte × ℕ)

inductive Op
  | addMsg (data : List Byte)
  | markMsgSent

namespace Writer

def new (size reserve : ℕ) : Writer := ⟨SendQueue.new size reserve [], [], []⟩

/-- `add_msg` on a full queue is blocked. -/
def step (w : Writer) : Op → Option Writer
  | .addMsg data => (w.queue.addMsg data).map fun q =>
      ⟨q, writeData w.file data, w.accepted ++ [(data, w.queue.dataSeq)]⟩
  | .markMsgSent => some { w with queue := w.queue.markMsgSent }

end Writer

/-! ### Numbers and records -/

lemma assigned_eq_zipIdx (q : SendQueue) (msgs : List (List Byte)) :
    assigned q msgs = msgs.zipIdx q.recoverDataSeq := by
  induction msgs generalizing q with
  | nil => rfl
  | cons msg msgs ih =>
    rw [assigned, ih, List.zipIdx_cons]
    rfl

def records (msgs : List (List Byte)) : List Byte := msgs.flatMap record

@[simp] lemma records_nil : records [] = [] := rfl

lemma records_cons (msg : List Byte) (msgs : List (List Byte)) :
    records (msg :: msgs) = record msg ++ records msgs := rfl

lemma records_append (msgs msgs' : List (List Byte)) :
    records (msgs ++ msgs') = records msgs ++ records msgs' := List.flatMap_append

@[simp] lemma record_length (msg : List Byte) : (record msg).length = 4 + msg.length := by
  simp [record]

structure Writer.Logged (w : Writer) : Prop where
  file : w.file = records (w.accepted.map Prod.fst)
  accepted : w.accepted = (w.accepted.map Prod.fst).zipIdx 1
  dataSeq : w.queue.dataSeq = w.accepted.length + 1

lemma Writer.step_logged {w w' : Writer} {op : Op} (h : w.Logged) (hs : w.step op = some w') :
    w'.Logged := by
  cases op with
  | markMsgSent =>
    cases hs
    exact ⟨h.file, h.accepted, h.dataSeq⟩
  | addMsg data =>
    obtain ⟨q, hadd, rfl⟩ := Option.map_eq_some_iff.mp hs
    have hseq : q.dataSeq = w.queue.dataSeq + 1 := by
      rw [(SendQueue.addMsg_eq_some.mp hadd).2]
    refine ⟨?_, ?_, ?_⟩
    · simp only [writeData, h.file, List.map_append, List.map_singleton, records_append]
      rw [records_cons, records_nil, List.append_nil]
    · simp only [List.map_append, List.map_singleton, List.zipIdx_append, List.length_map]
      rw [← h.accepted, h.dataSeq, Nat.add_comm]
      rfl
    · simp only [hseq, h.dataSeq, List.length_append, List.length_singleton]

lemma Writer.run_logged {size reserve : ℕ} {w : Writer} {ops : List Op}
    (hr : run Writer.step (Writer.new size reserve) ops = some w) : w.Logged := by
  have hmeets : Meets Writer.step (fun _ _ => True) (Writer.new size reserve) ops :=
    meets_of_forall (fun _ _ => trivial) _ _
  refine run_induct (fun _ _ _ h _ hs => step_logged h hs) ⟨rfl, rfl, ?_⟩ hmeets hr
  exact SendQueue.new_dataSeq size reserve []

end Ufix.DataFile
