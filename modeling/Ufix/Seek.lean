import Ufix.SkipSearch
import Ufix.Utils

/-!
What `seek` finds.

It keeps one position, and after a byte that does not match it starts again behind that byte, so
it misses an occurrence that begins inside a partial match.
-/

namespace Ufix.Seek

open Ufix.SkipSearch

/-- `r` is the least position of the pattern, or `-1` where there is none. -/
def IsFirst (pattern data : List Byte) (r : ℤ) : Prop :=
  (r = -1 ∧ ∀ i, ¬ Occurs pattern data i) ∨
    ∃ i : ℕ, r = i ∧ IsLeast {i | Occurs pattern data i} i

/-- `seek` does what it is for. -/
def FindsFirst (pattern data : List Byte) : Prop :=
  ∃ r, seek data data.length pattern = some r ∧ IsFirst pattern data r

/-- The first occurrence does not begin inside a partial match: the bytes in front of it are a
sequence of partial matches. -/
def FirstClear (pattern data : List Byte) : Prop :=
  ∀ i, IsLeast {i | Occurs pattern data i} i → Skips pattern (data.take i)

variable {pattern left u pre rest data : List Byte} {b : Byte} {dataLen : ℤ} {pos prevPos i : ℕ}

/-! ### The loops -/

lemma seekFrom_match (h : ((pos + left.length : ℕ) : ℤ) ≤ dataLen) :
    seekFrom pattern dataLen pos prevPos left (left ++ rest) = some prevPos := by
  induction left generalizing pos with
  | nil => cases rest <;> rfl
  | cons c left ih =>
    rw [List.length_cons] at h
    rw [List.cons_append, seekFrom, if_neg (by omega), if_pos rfl, ih (by omega)]

/-- A partial match is stepped over. -/
lemma seekFrom_skip (h : IsSkip left u b) (hpos : ((pos + u.length : ℕ) : ℤ) < dataLen) :
    seekFrom pattern dataLen pos prevPos left (u ++ b :: rest) =
      seekFrom pattern dataLen (pos + u.length + 1) (pos + u.length + 1) pattern rest := by
  induction u generalizing left pos with
  | nil =>
    rcases left with - | ⟨c, left⟩
    · exact absurd rfl h.proper
    have hbc : b ≠ c := by
      rintro rfl
      exact h.stops ⟨left, rfl⟩
    rw [List.length_nil] at hpos ⊢
    rw [List.nil_append, seekFrom, if_neg (by omega), if_neg hbc, Nat.add_zero]
  | cons a u ih =>
    rcases left with - | ⟨c, left⟩
    · exact absurd (List.prefix_nil.mp h.beginning) h.proper
    obtain ⟨rfl, hu⟩ := List.cons_prefix_cons.mp h.beginning
    have hskip : IsSkip left u b := by
      refine ⟨hu, fun he => h.proper (by rw [he]), fun hp => h.stops ?_⟩
      rw [List.cons_append]
      exact (List.prefix_cons_inj a).mpr hp
    rw [List.length_cons] at hpos ⊢
    rw [List.cons_append, seekFrom, if_neg (by omega), if_pos rfl, ih hskip (by omega),
      Nat.add_assoc pos 1, Nat.add_comm 1]

lemma seekFrom_skips (h : Skips pattern pre) (hpos : ((pos + pre.length : ℕ) : ℤ) ≤ dataLen) :
    seekFrom pattern dataLen pos pos pattern (pre ++ rest) =
      seekFrom pattern dataLen (pos + pre.length) (pos + pre.length) pattern rest := by
  induction h generalizing pos with
  | nil => rfl
  | @cons u b pre hskip h ih =>
    have hlen : (u ++ b :: pre).length = u.length + 1 + pre.length := by
      simp only [List.length_append, List.length_cons]
      omega
    rw [hlen] at hpos ⊢
    rw [List.append_assoc, List.cons_append, seekFrom_skip hskip (by omega), ih (by omega)]
    congr 1 <;> omega

/-- The data ends inside the pattern. -/
lemma seekFrom_end (hu : u <+: left) (hne : u ≠ left)
    (hpos : ((pos + u.length : ℕ) : ℤ) = dataLen) :
    seekFrom pattern dataLen pos prevPos left (u ++ rest) = some (-1) := by
  induction u generalizing left pos with
  | nil =>
    rcases left with - | ⟨c, left⟩
    · exact absurd rfl hne
    rw [List.length_nil, Nat.add_zero] at hpos
    rcases rest with - | ⟨d, rest⟩
    · rw [List.append_nil, seekFrom, if_pos hpos]
    · rw [List.nil_append, seekFrom, if_pos hpos]
  | cons a u ih =>
    rcases left with - | ⟨c, left⟩
    · exact absurd (List.prefix_nil.mp hu) hne
    obtain ⟨rfl, htail⟩ := List.cons_prefix_cons.mp hu
    rw [List.length_cons] at hpos
    rw [List.cons_append, seekFrom, if_neg (by omega), if_pos rfl,
      ih htail (fun he => hne (by rw [he])) (by omega)]

/-! ### What is found -/

/-- **`seek` finds the occurrence that its search meets**, and reads none of the bytes behind the
data. -/
theorem seek_of_met (h : Met pattern data i) (rest : List Byte) :
    seek (data ++ rest) data.length pattern = some (i : ℤ) := by
  obtain ⟨pre, post, rfl, rfl, hpre⟩ := h
  have hdata : pre ++ pattern ++ post ++ rest = pre ++ (pattern ++ (post ++ rest)) := by
    simp only [List.append_assoc]
  rw [seek, hdata, seekFrom_skips hpre, seekFrom_match]
  · rw [Nat.zero_add]
    rfl
  all_goals
    simp only [List.length_append]
    omega

theorem seek_of_not_met (h : ∀ i, ¬ Met pattern data i) (rest : List Byte) :
    seek (data ++ rest) data.length pattern = some (-1) := by
  rcases met_or_skips pattern data with ⟨i, hmet⟩ | ⟨pre, u, rfl, hpre, hu, hne⟩
  · exact absurd hmet (h i)
  · rw [seek, List.append_assoc, seekFrom_skips hpre, seekFrom_end hu hne]
    all_goals
      simp only [List.length_append]
      omega

lemma seek_cases (pattern data : List Byte) :
    (∃ i : ℕ, Met pattern data i ∧
        ∀ rest, seek (data ++ rest) data.length pattern = some (i : ℤ)) ∨
      ((∀ i, ¬ Met pattern data i) ∧
        ∀ rest, seek (data ++ rest) data.length pattern = some (-1)) := by
  by_cases h : ∃ i, Met pattern data i
  · obtain ⟨i, hi⟩ := h
    exact Or.inl ⟨i, hi, seek_of_met hi⟩
  · have hno : ∀ i, ¬ Met pattern data i := fun i hi => h ⟨i, hi⟩
    exact Or.inr ⟨hno, seek_of_not_met hno⟩

lemma seek_eq_natCast : seek data data.length pattern = some (i : ℤ) ↔ Met pattern data i := by
  constructor
  · intro h
    rcases seek_cases pattern data with ⟨j, hj, hseek⟩ | ⟨-, hseek⟩
    · have := hseek []
      rw [List.append_nil, h, Option.some.injEq, Int.natCast_inj] at this
      rwa [this]
    · have := hseek []
      rw [List.append_nil, h, Option.some.injEq] at this
      omega
  · intro h
    have := seek_of_met h []
    rwa [List.append_nil] at this

/-- **`seek` ends within the data for every pattern that is not empty, and finds the first
occurrence** if and only if that does not begin inside a partial match. -/
theorem seek_findsFirst_iff (data : List Byte) (c : Byte) (pattern : List Byte) :
    (∃ r, ∀ rest, seek (data ++ rest) data.length (c :: pattern) = some r) ∧
      (FindsFirst (c :: pattern) data ↔ FirstClear (c :: pattern) data) := by
  generalize c :: pattern = p
  rcases seek_cases p data with ⟨i, hmet, hseek⟩ | ⟨hno, hseek⟩
  · refine ⟨⟨i, hseek⟩, ?_⟩
    obtain ⟨j, hj⟩ := exists_isLeast hmet.occurs
    have hfirst : IsFirst p data i ↔ i = j := by
      constructor
      · rintro (⟨h, -⟩ | ⟨k, hk, hleast⟩)
        · omega
        · rw [hj.unique hleast]
          exact_mod_cast hk
      · rintro rfl
        exact Or.inr ⟨i, rfl, hj⟩
    have hfinds : FindsFirst p data ↔ IsFirst p data i := by
      have h := hseek []
      rw [List.append_nil] at h
      simp [FindsFirst, h]
    have hclear : FirstClear p data ↔ Met p data j := by
      rw [met_least_iff hj]
      exact ⟨fun h => h j hj, fun h k hk => by rwa [hk.unique hj]⟩
    rw [hfinds, hfirst, hclear]
    exact ⟨fun he => he ▸ hmet, fun hmet' => hmet.unique hmet'⟩
  · refine ⟨⟨-1, hseek⟩, ?_⟩
    have hseek := hseek []
    rw [List.append_nil] at hseek
    constructor
    · rintro ⟨r, hr, ⟨-, hnone⟩ | ⟨i, rfl, -⟩⟩ j hj
      · exact absurd hj.1 (hnone j)
      · exact absurd (seek_eq_natCast.mp hr) (hno i)
    · intro hclear
      refine ⟨-1, hseek, Or.inl ⟨rfl, fun i hi => ?_⟩⟩
      obtain ⟨j, hj⟩ := exists_isLeast hi
      exact hno j ((met_least_iff hj).mpr (hclear j hj))

/-- `34=` begins inside the partial match that ends at the second `3`. -/
theorem seek_misses : ¬ FindsFirst [51, 52, 61] [51, 51, 52, 61] := by
  rintro ⟨r, hr, hfirst⟩
  have hseek : seek [51, 51, 52, 61] ([51, 51, 52, 61] : List Byte).length [51, 52, 61] =
      some (-1) := by decide
  have hoccurs : Occurs ([51, 52, 61] : List Byte) [51, 51, 52, 61] 1 := ⟨[51], [], rfl, rfl⟩
  rw [hseek, Option.some.injEq] at hr
  subst hr
  rcases hfirst with ⟨-, hnone⟩ | ⟨i, hi, -⟩
  · exact hnone 1 hoccurs
  · omega

end Ufix.Seek
