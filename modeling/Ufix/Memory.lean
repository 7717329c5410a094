import Mathlib.Data.List.Basic
import Mathlib.Data.List.Range

/-!
A memory of cells that is written and read in runs of cells, and positions in it that start over
at the front once they are past a limit.
-/

namespace Ufix.Memory

variable {α : Type*}

/-- The memory with the cells of `l` written from `pos` on. -/
def write (mem : ℕ → α) (pos : ℕ) (l : List α) : ℕ → α :=
  fun i => if pos ≤ i then (l[i - pos]?).getD (mem i) else mem i

/-- The `len` cells from `pos` on. -/
def read (mem : ℕ → α) (pos len : ℕ) : List α := (List.range' pos len).map mem

/-- Two runs of cells have none in common. -/
def Apart (pos len pos' len' : ℕ) : Prop := pos + len ≤ pos' ∨ pos' + len' ≤ pos

instance (pos len pos' len' : ℕ) : Decidable (Apart pos len pos' len') :=
  inferInstanceAs (Decidable (_ ∨ _))

lemma Apart.symm {pos len pos' len' : ℕ} (h : Apart pos len pos' len') :
    Apart pos' len' pos len := Or.symm h

lemma Apart.mono {pos len pos' n n' : ℕ} (h : Apart pos len pos' n') (hle : n ≤ n') :
    Apart pos len pos' n := by
  unfold Apart at *
  omega

variable {mem mem' : ℕ → α} {pos len pos' : ℕ} {l : List α}

@[simp] lemma read_length (mem : ℕ → α) (pos len : ℕ) : (read mem pos len).length = len := by
  simp [read]

lemma read_congr (h : ∀ i, pos ≤ i → i < pos + len → mem i = mem' i) :
    read mem pos len = read mem' pos len := by
  refine List.map_congr_left fun i hi => ?_
  rw [List.mem_range'_1] at hi
  exact h i hi.1 hi.2

lemma read_add (mem : ℕ → α) (pos len len' : ℕ) :
    read mem pos (len + len') = read mem pos len ++ read mem (pos + len) len' := by
  rw [read, read, read, ← List.map_append, ← List.range'_append_1]

lemma take_drop_read {n : ℕ} (mem : ℕ → α) (h : pos + len ≤ n) :
    ((read mem 0 n).drop pos).take len = read mem pos len := by
  obtain ⟨rest, rfl⟩ := Nat.exists_eq_add_of_le h
  rw [Nat.add_assoc, read_add, read_add, Nat.zero_add, List.drop_left' (read_length _ _ _),
    List.take_left' (read_length _ _ _)]

lemma write_nil (mem : ℕ → α) (pos : ℕ) : write mem pos [] = mem := by
  funext i
  simp [write]

lemma write_of_lt {i : ℕ} (h : i < pos) : write mem pos l i = mem i := if_neg (by omega)

lemma write_of_ge {i : ℕ} (h : pos + l.length ≤ i) : write mem pos l i = mem i := by
  have hnone : l[i - pos]? = none := List.getElem?_eq_none (by omega)
  simp [write, hnone]

lemma write_at {i : ℕ} (h : i < l.length) : write mem pos l (pos + i) = l[i] := by
  simp [write, h]

lemma read_write (mem : ℕ → α) (pos : ℕ) (l : List α) :
    read (write mem pos l) pos l.length = l := by
  refine List.ext_getElem (by simp) fun i h h' => ?_
  simp only [read, List.getElem_map, List.getElem_range', Nat.one_mul]
  exact write_at h'

lemma read_write_of_apart (h : Apart pos len pos' l.length) :
    read (write mem pos' l) pos len = read mem pos len := by
  refine read_congr fun i h1 h2 => ?_
  rcases h with h | h
  · exact write_of_lt (by omega)
  · exact write_of_ge (by omega)

/-! ### Slots by residue -/

lemma mod_ne_of_lt {q a b : ℕ} (h : a < b) (h' : b < a + q) : a % q ≠ b % q := by
  intro he
  have hdvd : q ∣ b - a := Nat.dvd_of_mod_eq_zero (Nat.sub_mod_eq_zero_of_mod_eq he.symm)
  have := Nat.le_of_dvd (by omega) hdvd
  omega

lemma eq_of_mod_eq {q a b h : ℕ} (ha : h < a) (ha' : a ≤ h + q) (hb : h < b) (hb' : b ≤ h + q)
    (he : a % q = b % q) : a = b := by
  rcases Nat.lt_trichotomy a b with hlt | hlt | hlt
  · exact absurd he (mod_ne_of_lt hlt (by omega))
  · exact hlt
  · exact absurd he.symm (mod_ne_of_lt hlt (by omega))

/-! ### Positions that start over -/

/-- The position after `len` more cells: the front again, once the limit is passed. -/
def advance (limit pos len : ℕ) : ℕ := if pos + len > limit then 0 else pos + len

/-- `total` cells were taken since `pos`, which was taken first, up to `now`: in the same lap, or
in a later one. -/
def Trails (limit pos total now : ℕ) : Prop := now = pos + total ∨ limit + now < pos + total

variable {limit total now : ℕ}

lemma advance_le (limit pos len : ℕ) : advance limit pos len ≤ limit := by
  unfold advance
  split <;> omega

lemma trails_self (limit pos len : ℕ) : Trails limit pos len (advance limit pos len) := by
  unfold Trails advance
  split <;> omega

lemma Trails.advance (h : Trails limit pos total now) (len : ℕ) :
    Trails limit pos (total + len) (Memory.advance limit now len) := by
  unfold Trails Memory.advance at *
  split <;> omega

/-- **What is recent enough is not overwritten**: cells taken at `pos` and the next ones have none
in common while everything taken since, these included, stays within the limit. -/
theorem Trails.apart {n : ℕ} (h : Trails limit pos total now) (hn : n ≤ total)
    (hfit : total + len ≤ limit) : Apart pos n now len := by
  unfold Trails Apart at *
  omega

end Ufix.Memory
