import Ufix.Memory
import Ufix.Runs

/-!
A ring of cells as a queue, with the place to take from and the place to add at, and no count.

An element is added in two steps, of which the first writes the cell and the second moves the place.
When the places meet, the ring is taken to be empty, so it holds its elements as long as one cell
stays free.
-/

namespace Ufix.RingFifo

open Ufix.Runs

/-- A memory of cells: a cell has what was written to it last, and the others stay. -/
structure Cells (μ α : Type*) where
  get : μ → ℕ → α
  set : μ → ℕ → α → μ
  get_set : ∀ m i a j, get (set m i a) j = if j = i then a else get m j

/-- The ring, the element that is written while its place is not moved yet, and what was added and
taken so far. -/
structure State (μ α : Type*) where
  mem : μ
  head : ℕ
  tail : ℕ
  copied : Option α
  added : List α
  taken : List α

inductive Act (α : Type*)
  | copy (a : α)
  | publish
  | take

variable {μ α : Type*} (c : Cells μ α) (n : ℕ)

/-- The place after `i` in a ring of `n` cells. -/
def next (i : ℕ) : ℕ := if i + 1 = n then 0 else i + 1

/-- One element is added at a time; to take from a ring that seems empty changes nothing. -/
def step (s : State μ α) : Act α → Option (State μ α)
  | .copy a =>
    match s.copied with
    | some _ => none
    | none => some { s with mem := c.set s.mem s.tail a, copied := some a }
  | .publish =>
    s.copied.map fun a =>
      { s with tail := next n s.tail, copied := none, added := s.added ++ [a] }
  | .take =>
    some (if s.head = s.tail then s
      else { s with head := next n s.head, taken := s.taken ++ [c.get s.mem s.head] })

def start (mem : μ) : State μ α := ⟨mem, 0, 0, none, [], []⟩

/-- What was taken is what was added, in order, and the ring seems empty only when all of it was
taken. -/
def Fifo (s : State μ α) : Prop := s.taken <+: s.added ∧ (s.head = s.tail → s.taken = s.added)

def HasRoom (s : State μ α) : Act α → Prop
  | .publish => next n s.tail ≠ s.head
  | _ => True

/-- The places count modulo the size, and the cells between them hold what waits. -/
structure Inv (s : State μ α) : Prop where
  taken : s.taken <+: s.added
  lt : s.added.length < s.taken.length + n
  head : s.head = s.taken.length % n
  tail : s.tail = s.added.length % n
  cell : ∀ k a, s.taken.length ≤ k → s.added[k]? = some a → c.get s.mem (k % n) = a
  copied : ∀ a, s.copied = some a → c.get s.mem s.tail = a

variable {c n} {s t : State μ α}

lemma next_mod (hn : 0 < n) (k : ℕ) : next n (k % n) = (k + 1) % n := by
  have hlt := Nat.mod_lt k hn
  rw [next, ← Nat.mod_add_mod]
  split
  · next h => rw [h, Nat.mod_self]
  · next h => exact (Nat.mod_eq_of_lt (by omega)).symm

/-! ### One step -/

lemma Inv.eq_of_head_eq (h : Inv c n s) (he : s.head = s.tail) : s.taken = s.added := by
  refine h.taken.eq_of_length_le ?_
  by_contra hlt
  rw [h.head, h.tail] at he
  exact Memory.mod_ne_of_lt (by omega) h.lt he

lemma Inv.fifo (h : Inv c n s) : Fifo s := ⟨h.taken, h.eq_of_head_eq⟩

lemma inv_start (hn : 0 < n) (mem : μ) : Inv c n (start mem) where
  taken := List.prefix_rfl
  lt := by
    simp only [start, List.length_nil]
    omega
  head := (Nat.zero_mod n).symm
  tail := (Nat.zero_mod n).symm
  cell := fun k a _ h => by simp [start] at h
  copied := fun a h => by simp [start] at h

lemma Inv.copy (h : Inv c n s) (a : α) :
    Inv c n { s with mem := c.set s.mem s.tail a, copied := some a } := by
  refine ⟨h.taken, h.lt, h.head, h.tail, fun k b hk hb => ?_, fun b hb => ?_⟩
  · have hlt : k < s.added.length := (List.getElem?_eq_some_iff.mp hb).1
    have hroom := h.lt
    have hne : k % n ≠ s.tail := by
      rw [h.tail]
      exact Memory.mod_ne_of_lt hlt (by simp only at hk; omega)
    simp only [c.get_set, if_neg hne]
    exact h.cell k b hk hb
  · simp only [Option.some.injEq] at hb
    simp only [c.get_set, if_true, hb]

lemma Inv.next_ne_iff (hn : 0 < n) (h : Inv c n s) :
    next n s.tail ≠ s.head ↔ s.added.length + 1 < s.taken.length + n := by
  have hlt := h.lt
  have hle := h.taken.length_le
  rw [h.head, h.tail, next_mod hn]
  constructor
  · intro hne
    by_contra hfull
    rw [show s.added.length + 1 = s.taken.length + n by omega, Nat.add_mod_right] at hne
    exact hne rfl
  · intro hroom
    exact (Memory.mod_ne_of_lt (by omega) hroom).symm

lemma Inv.publish (hn : 0 < n) (h : Inv c n s) {a : α} (ha : s.copied = some a)
    (hroom : next n s.tail ≠ s.head) :
    Inv c n { s with tail := next n s.tail, copied := none, added := s.added ++ [a] } := by
  refine ⟨h.taken.trans (List.prefix_append _ _), ?_, h.head, ?_, fun k b hk hb => ?_,
    fun b hb => by cases hb⟩
  · simp only [List.length_append, List.length_singleton]
    exact (h.next_ne_iff hn).mp hroom
  · simp only [List.length_append, List.length_singleton]
    rw [h.tail, next_mod hn]
  · simp only at hk hb ⊢
    rcases Nat.lt_or_ge k s.added.length with hlt | hge
    · rw [List.getElem?_append_left hlt] at hb
      exact h.cell k b hk hb
    · have hlen := (List.getElem?_eq_some_iff.mp hb).1
      rw [List.length_append, List.length_singleton] at hlen
      have hkl : k = s.added.length := by omega
      subst hkl
      rw [List.getElem?_concat_length, Option.some.injEq] at hb
      rw [← hb, ← h.tail]
      exact h.copied a ha

/-- What is taken is the next one that waits. -/
lemma Inv.take (hn : 0 < n) (h : Inv c n s) (hne : s.head ≠ s.tail) :
    s.added[s.taken.length]? = some (c.get s.mem s.head) ∧
      Inv c n { s with
        head := next n s.head, taken := s.taken ++ [c.get s.mem s.head] } := by
  have hlt : s.taken.length < s.added.length := by
    by_contra hge
    have heq := h.taken.eq_of_length_le (by omega)
    rw [h.head, h.tail, heq] at hne
    exact hne rfl
  have hnext : s.added[s.taken.length]? = some (c.get s.mem s.head) := by
    rw [h.head, List.getElem?_eq_getElem hlt]
    exact congrArg some (h.cell _ _ le_rfl (List.getElem?_eq_getElem hlt)).symm
  have htaken : s.taken ++ [c.get s.mem s.head] <+: s.added := by
    rw [List.prefix_iff_eq_take, List.length_append, List.length_singleton, List.take_add_one,
      hnext, ← List.prefix_iff_eq_take.mp h.taken]
    rfl
  refine ⟨hnext, htaken, ?_, ?_, h.tail, fun k a hk ha => ?_, h.copied⟩
  · have := h.lt
    simp only [List.length_append, List.length_singleton]
    omega
  · simp only [List.length_append, List.length_singleton]
    rw [h.head, next_mod hn]
  · simp only [List.length_append, List.length_singleton] at hk
    exact h.cell k a (by omega) ha

lemma step_inv (hn : 0 < n) {a : Act α} (h : Inv c n s) (hroom : HasRoom n s a)
    (hs : step c n s a = some t) : Inv c n t := by
  cases a with
  | copy a =>
    simp only [step] at hs
    split at hs
    · cases hs
    · cases hs
      exact h.copy a
  | publish =>
    obtain ⟨a, ha, rfl⟩ := Option.map_eq_some_iff.mp hs
    exact h.publish hn ha hroom
  | take =>
    cases hs
    split
    · exact h
    · next hne => exact (h.take hn hne).2

/-! ### Runs -/

lemma Inv.room_of_fifo (h : Inv c n s) {a : Act α} (hs : step c n s a = some t) (ht : Fifo t) :
    HasRoom n s a := by
  cases a with
  | copy a => trivial
  | take => trivial
  | publish =>
    obtain ⟨a, ha, rfl⟩ := Option.map_eq_some_iff.mp hs
    intro hmeet
    have hall : s.taken = s.added ++ [a] := ht.2 hmeet.symm
    have hle := h.taken.length_le
    rw [hall, List.length_append, List.length_singleton] at hle
    omega

lemma always_fifo_iff_of_inv (hn : 0 < n) (h : Inv c n s) (acts : List (Act α)) :
    Always (step c n) Fifo s acts ↔ Meets (step c n) (HasRoom n) s acts := by
  induction acts generalizing s with
  | nil => exact iff_of_true h.fifo trivial
  | cons a acts ih =>
    constructor
    · rintro ⟨-, hnext⟩ t ht
      have hroom := h.room_of_fifo ht (hnext t ht).head
      exact ⟨hroom, (ih (step_inv hn h hroom ht)).mp (hnext t ht)⟩
    · intro hmeets
      refine ⟨h.fifo, fun t ht => ?_⟩
      obtain ⟨hroom, hrest⟩ := hmeets t ht
      exact (ih (step_inv hn h hroom ht)).mpr hrest

/-- **The ring is a queue** in every state of a run if and only if each addition of the run finds a
cell besides its own free. -/
theorem always_fifo_iff (hn : 0 < n) (mem : μ) (acts : List (Act α)) :
    Always (step c n) Fifo (start mem) acts ↔ Meets (step c n) (HasRoom n) (start mem) acts :=
  always_fifo_iff_of_inv hn (inv_start hn mem) acts

lemma run_inv (hn : 0 < n) (mem : μ) {acts : List (Act α)}
    (hroom : Meets (step c n) (HasRoom n) (start mem) acts)
    (hr : run (step c n) (start mem) acts = some s) : Inv c n s :=
  run_induct (fun _ _ _ h hok hs => step_inv hn h hok hs) (inv_start hn mem) hroom hr

end Ufix.RingFifo
