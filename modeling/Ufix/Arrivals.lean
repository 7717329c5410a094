import Ufix.Reassembly

/-!
What has arrived in a reassembly buffer, whether it still waits or was taken.

The entry of a number is the first that was stored under it, in whatever order the stores and the
takes came.
-/

namespace Ufix.Reassembly

open Ufix.Runs

variable {ε : Type*}

def Op.stored : Op ε → List (ℕ × ε)
  | .store l => l
  | .wait | .take => []

namespace Buffer

def entry (b : Buffer ε) (n : ℕ) : Option ε :=
  if n ≤ b.last then b.taken.lookup n else b.pending n

variable {b b' : Buffer ε} {start n : ℕ}

lemma entry_of_le (h : n ≤ b.last) : b.entry n = b.taken.lookup n := if_pos h

lemma entry_of_lt (h : b.last < n) : b.entry n = b.pending n := if_neg (by omega)

lemma mem_of_lookup {l : List (ℕ × ε)} {e : ε} (h : l.lookup n = some e) : (n, e) ∈ l := by
  obtain ⟨l₁, l₂, rfl, -⟩ := List.lookup_eq_some_iff.mp h
  simp

lemma lookup_of_mem {l : List (ℕ × ε)} {e : ε} (hnodup : (l.map Prod.fst).Nodup)
    (h : (n, e) ∈ l) : l.lookup n = some e := by
  obtain ⟨l₁, l₂, rfl⟩ := List.append_of_mem h
  refine List.lookup_eq_some_iff.mpr ⟨l₁, l₂, rfl, fun p hp => ?_⟩
  rw [List.map_append, List.map_cons, List.nodup_append] at hnodup
  have hne := hnodup.2.2 p.1 (List.mem_map_of_mem hp) n (by simp)
  simpa using Ne.symm hne

lemma Consecutive.lookup_isSome (h : Consecutive start b) (hn : start < n) (hle : n ≤ b.last) :
    (b.taken.lookup n).isSome := by
  have hmem : n ∈ b.taken.map Prod.fst := by
    rw [h.2, List.mem_range'_1]
    omega
  obtain ⟨p, hp, rfl⟩ := List.mem_map.mp hmem
  exact List.lookup_isSome_iff.mpr ⟨p, hp, by simp⟩

lemma Consecutive.lookup_eq_none (h : Consecutive start b) (hn : b.last < n) :
    b.taken.lookup n = none := by
  refine List.lookup_eq_none_iff.mpr fun p hp => ?_
  have hmem : p.1 ∈ b.taken.map Prod.fst := List.mem_map_of_mem hp
  rw [h.2, List.mem_range'_1] at hmem
  have hle := h.1
  simp only [ne_eq, bne_iff_ne]
  omega

lemma foldl_store_pending (l : List (ℕ × ε)) (b : Buffer ε) (n : ℕ) :
    (l.foldl (fun b ne => b.store ne.1 ne.2) b).pending n = (b.pending n).or (l.lookup n) := by
  induction l generalizing b with
  | nil => simp
  | cons ne l ih =>
    obtain ⟨m, e⟩ := ne
    rw [List.foldl_cons, ih, List.lookup_cons, store]
    by_cases h : n = m
    · subst h
      cases b.pending n <;> simp
    · have hne : (n == m) = false := by simpa using h
      simp [h, hne]

/-- **One step** adds what it stores, where nothing has arrived. -/
lemma step_entry {op : Op ε} (h : Consecutive start b) (hs : step b op = some b')
    (hn : start < n) : b'.entry n = (b.entry n).or (op.stored.lookup n) := by
  cases op with
  | store l =>
    cases hs
    obtain ⟨hlast, htaken⟩ := foldl_store l b
    by_cases hle : n ≤ b.last
    · rw [entry_of_le (hlast.symm ▸ hle), htaken, entry_of_le hle,
        Option.or_of_isSome (h.lookup_isSome hn hle)]
    · rw [entry_of_lt (by omega), foldl_store_pending, entry_of_lt (by omega)]
      rfl
  | wait =>
    simp only [step] at hs
    split at hs
    · cases hs
    · cases hs
      simp [Op.stored]
  | take =>
    obtain ⟨e, he, rfl⟩ := Option.map_eq_some_iff.mp hs
    simp only [Op.stored, List.lookup_nil, Option.or_none]
    rcases Nat.lt_trichotomy n (b.last + 1) with hlt | rfl | hgt
    · rw [entry_of_le hlt.le, entry_of_le (by omega), List.lookup_append,
        Option.or_of_isSome (h.lookup_isSome hn (by omega))]
    · have hold : b.entry (b.last + 1) = some e := (entry_of_lt (by omega)).trans he
      rw [hold, entry_of_le (Nat.le_refl (b.last + 1)), List.lookup_append,
        h.lookup_eq_none (by omega)]
      simp
    · rw [entry_of_lt hgt, entry_of_lt (by omega)]
      exact Function.update_of_ne (by omega) _ _

end Buffer

end Ufix.Reassembly
