import Mathlib.Data.List.Range
import Ufix.Runs

/-!
An in-order reassembly buffer: entries arrive under numbers, in any order and more than once,
and leave in the order of the numbers.
-/

namespace Ufix.Reassembly

open Ufix.Runs

variable {ε : Type*}

/-- Everything up to `last` was taken, and `pending` are the entries that wait; `taken` is what
was taken, in order. -/
structure Buffer (ε : Type*) where
  last : ℕ
  pending : ℕ → Option ε
  taken : List (ℕ × ε)

inductive Op (ε : Type*)
  /-- entries arrive -/
  | store (l : List (ℕ × ε))
  /-- the consumer waits for the next number -/
  | wait
  /-- the consumer takes the next entry -/
  | take

namespace Buffer

def new (last : ℕ) : Buffer ε := ⟨last, fun _ => none, []⟩

/-- The first entry of a number stays. -/
def store (b : Buffer ε) (n : ℕ) (e : ε) : Buffer ε :=
  { b with pending := Function.update b.pending n (some ((b.pending n).getD e)) }

/-- The entry of the next number leaves, if it is there. -/
def take (b : Buffer ε) : Option (Buffer ε) :=
  (b.pending (b.last + 1)).map fun e =>
    { last := b.last + 1
      pending := Function.update b.pending (b.last + 1) none
      taken := b.taken ++ [(b.last + 1, e)] }

def step (b : Buffer ε) : Op ε → Option (Buffer ε)
  | .store l => some (l.foldl (fun b ne => b.store ne.1 ne.2) b)
  | .wait => if (b.pending (b.last + 1)).isSome then none else some b
  | .take => b.take

lemma store_eq_of_some {b : Buffer ε} {n : ℕ} {e e' : ε} (h : b.pending n = some e) :
    b.store n e' = b := by
  simp only [store, h, Option.getD_some]
  rw [← h, Function.update_eq_self]

lemma store_eq_of_none {b : Buffer ε} {n : ℕ} {e : ε} (h : b.pending n = none) :
    b.store n e = { b with pending := Function.update b.pending n (some e) } := by
  simp [store, h]

lemma take_eq_some {b : Buffer ε} {e : ε} (h : b.pending (b.last + 1) = some e) :
    b.take = some
      { last := b.last + 1
        pending := Function.update b.pending (b.last + 1) none
        taken := b.taken ++ [(b.last + 1, e)] } := by
  rw [take, h, Option.map_some]

/-! ### The order of what leaves -/

/-- The numbers taken are those after the start up to the last one. -/
def Consecutive (start : ℕ) (b : Buffer ε) : Prop :=
  start ≤ b.last ∧ b.taken.map Prod.fst = List.range' (start + 1) (b.last - start)

lemma foldl_store (l : List (ℕ × ε)) (b : Buffer ε) :
    (l.foldl (fun b ne => b.store ne.1 ne.2) b).last = b.last ∧
      (l.foldl (fun b ne => b.store ne.1 ne.2) b).taken = b.taken := by
  induction l generalizing b with
  | nil => exact ⟨rfl, rfl⟩
  | cons ne l ih => exact ih (b.store ne.1 ne.2)

lemma step_consecutive {start : ℕ} {b b' : Buffer ε} {op : Op ε} (h : Consecutive start b)
    (hs : step b op = some b') : Consecutive start b' := by
  cases op with
  | store l =>
    cases hs
    obtain ⟨h1, h2⟩ := foldl_store l b
    rwa [Consecutive, h1, h2]
  | wait =>
    simp only [step] at hs
    split at hs
    · cases hs
    · cases hs
      exact h
  | take =>
    obtain ⟨e, -, rfl⟩ := Option.map_eq_some_iff.mp hs
    obtain ⟨hle, hmap⟩ := h
    refine ⟨by simp only; omega, ?_⟩
    have hsub : b.last + 1 - start = b.last - start + 1 := by omega
    simp only [List.map_append, List.map_cons, List.map_nil]
    rw [hmap, hsub, List.range'_1_concat]
    congr 2
    omega

/-- **In order and each once**: the numbers taken in a run are consecutive. -/
theorem run_consecutive {start : ℕ} {b : Buffer ε} {ops : List (Op ε)}
    (hr : run step (new start) ops = some b) : Consecutive start b := by
  have hmeets : Meets step (fun _ _ => True) (new (ε := ε) start) ops :=
    meets_of_forall (fun _ _ => trivial) _ _
  exact run_induct (fun _ _ _ h _ hs => step_consecutive h hs) ⟨le_rfl, by simp [new]⟩ hmeets hr

end Buffer

end Ufix.Reassembly
