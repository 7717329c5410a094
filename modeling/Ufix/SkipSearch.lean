import Mathlib.Data.List.Infix
import Mathlib.Data.Nat.Find
import Mathlib.Order.Bounds.Basic

/-!
A search for a pattern that keeps nothing of a partial match: after a letter that does not match it
starts again behind that letter.

What it steps over each time is a proper beginning of the pattern and a letter that does not go on
with it. A text can be cut into such pieces in one way only, so whether the search meets an
occurrence depends on the text in front of it alone.
-/

namespace Ufix.SkipSearch

variable {α : Type*}

/-- A partial match `u` of the pattern that ends at the letter `b`. -/
structure IsSkip (p u : List α) (b : α) : Prop where
  beginning : u <+: p
  proper : u ≠ p
  stops : ¬ u ++ [b] <+: p

/-- The text is a sequence of partial matches. -/
inductive Skips (p : List α) : List α → Prop
  | nil : Skips p []
  | cons {u : List α} {b : α} {rest : List α} (hskip : IsSkip p u b) (h : Skips p rest) :
      Skips p (u ++ b :: rest)

/-- The pattern stands at `i`. -/
def Occurs (p text : List α) (i : ℕ) : Prop :=
  ∃ pre post, text = pre ++ p ++ post ∧ pre.length = i

/-- The pattern stands at `i`, and the search comes to start there. -/
def Met (p text : List α) (i : ℕ) : Prop :=
  ∃ pre post, text = pre ++ p ++ post ∧ pre.length = i ∧ Skips p pre

variable {p text u v : List α} {b c : α} {i j : ℕ}

lemma Skips.append (h : Skips p u) (h' : Skips p v) : Skips p (u ++ v) := by
  induction h with
  | nil => exact h'
  | cons hskip h ih =>
    rw [List.append_assoc, List.cons_append]
    exact .cons hskip ih

lemma skips_singleton (h : IsSkip p u b) : Skips p (u ++ [b]) := .cons h .nil

lemma Met.occurs (h : Met p text i) : Occurs p text i :=
  let ⟨pre, post, htext, hi, _⟩ := h
  ⟨pre, post, htext, hi⟩

lemma Met.infix (h : Met p text i) : p <:+: text :=
  let ⟨pre, post, htext, _⟩ := h
  ⟨pre, post, htext.symm⟩

lemma Met.length_le (h : Met p text i) : i + p.length ≤ text.length := by
  obtain ⟨pre, post, rfl, rfl, -⟩ := h
  simp only [List.length_append]
  omega

lemma Met.append (h : Met p text i) (rest : List α) : Met p (text ++ rest) i := by
  obtain ⟨pre, post, rfl, hi, hpre⟩ := h
  exact ⟨pre, post ++ rest, by simp only [List.append_assoc], hi, hpre⟩

lemma Met.skips_append (hu : Skips p u) (h : Met p text i) : Met p (u ++ text) (u.length + i) := by
  obtain ⟨pre, post, rfl, hi, hpre⟩ := h
  exact ⟨u ++ pre, post, by simp only [List.append_assoc], by rw [List.length_append, hi],
    hu.append hpre⟩

lemma met_iff : Met p text i ↔ Occurs p text i ∧ Skips p (text.take i) := by
  constructor
  · rintro ⟨pre, post, rfl, rfl, hpre⟩
    exact ⟨⟨pre, post, rfl, rfl⟩, by rwa [List.append_assoc, List.take_left]⟩
  · rintro ⟨⟨pre, post, rfl, rfl⟩, hpre⟩
    rw [List.append_assoc, List.take_left] at hpre
    exact ⟨pre, post, rfl, rfl, hpre⟩

/-! ### One way to cut a text -/

lemma IsSkip.length_le {rest rest' : List α} (h : IsSkip p u b) (h' : IsSkip p v c)
    (heq : u ++ b :: rest = v ++ c :: rest') : v.length ≤ u.length := by
  by_contra hlt
  have hu : u ++ [b] <+: v ++ c :: rest' := by
    rw [← heq]
    exact ⟨rest, by simp⟩
  have hlen : (u ++ [b]).length ≤ v.length := by
    rw [List.length_append, List.length_singleton]
    omega
  have hv := List.prefix_of_prefix_length_le hu (List.prefix_append v (c :: rest')) hlen
  exact h.stops (hv.trans h'.beginning)

lemma IsSkip.eq {rest rest' : List α} (h : IsSkip p u b) (h' : IsSkip p v c)
    (heq : u ++ b :: rest = v ++ c :: rest') : u = v ∧ b = c ∧ rest = rest' := by
  have hlen : u.length = v.length :=
    le_antisymm (h'.length_le h heq.symm) (h.length_le h' heq)
  obtain ⟨rfl, hcons⟩ := List.append_inj heq hlen
  exact ⟨rfl, List.cons_eq_cons.mp hcons⟩

lemma IsSkip.not_prefix (h : IsSkip p u b) (rest : List α) : ¬ p <+: u ++ b :: rest := by
  intro hp
  have hlen : u.length < p.length := by
    by_contra hge
    exact h.proper (h.beginning.eq_of_length_le (by omega))
  have hu : u ++ [b] <+: u ++ b :: rest := ⟨rest, by simp⟩
  refine h.stops (List.prefix_of_prefix_length_le hu hp ?_)
  rw [List.length_append, List.length_singleton]
  omega

/-- **The search meets one occurrence at most.** -/
theorem Met.unique (h : Met p text i) (h' : Met p text j) : i = j := by
  obtain ⟨pre, post, rfl, rfl, hpre⟩ := h
  obtain ⟨pre', post', heq, rfl, hpre'⟩ := h'
  induction hpre generalizing pre' with
  | nil =>
    cases hpre' with
    | nil => rfl
    | @cons u b rest hskip h =>
      refine absurd ?_ (hskip.not_prefix (rest ++ p ++ post'))
      exact ⟨post, by simpa using heq⟩
  | @cons u b rest hskip h ih =>
    cases hpre' with
    | nil =>
      refine absurd ?_ (hskip.not_prefix (rest ++ p ++ post))
      exact ⟨post', by simpa using heq.symm⟩
    | @cons v c rest' hskip' h' =>
      have hcut : u ++ b :: (rest ++ p ++ post) = v ++ c :: (rest' ++ p ++ post') := by
        simpa using heq
      obtain ⟨rfl, rfl, hrest⟩ := hskip.eq hskip' hcut
      have hlen := ih rest' hrest h'
      simp only [List.length_append, List.length_cons, hlen]

/-! ### Every text can be cut -/

/-- A text is the beginning of the pattern, or goes on with it, or leaves it at some letter. -/
lemma prefix_cases [DecidableEq α] (p text : List α) :
    p <+: text ∨ (text <+: p ∧ text ≠ p) ∨
      ∃ u b rest, text = u ++ b :: rest ∧ IsSkip p u b := by
  induction p generalizing text with
  | nil => exact Or.inl List.nil_prefix
  | cons a p ih =>
    rcases text with - | ⟨b, text⟩
    · exact Or.inr (Or.inl ⟨List.nil_prefix, by simp⟩)
    by_cases hab : b = a
    · subst hab
      rcases ih text with h | ⟨h, hne⟩ | ⟨u, c, rest, rfl, hskip⟩
      · exact Or.inl ((List.prefix_cons_inj b).mpr h)
      · exact Or.inr (Or.inl ⟨(List.prefix_cons_inj b).mpr h, by simpa using hne⟩)
      · refine Or.inr (Or.inr ⟨b :: u, c, rest, rfl, ?_, ?_, ?_⟩)
        · exact (List.prefix_cons_inj b).mpr hskip.beginning
        · simpa using hskip.proper
        · rw [List.cons_append, List.prefix_cons_inj]
          exact hskip.stops
    · refine Or.inr (Or.inr ⟨[], b, text, rfl, List.nil_prefix, by simp, fun h => ?_⟩)
      rw [List.nil_append, List.cons_prefix_cons] at h
      exact hab h.1

/-- **The search meets an occurrence, or steps through the text** up to a beginning of the
pattern at its end. -/
theorem met_or_skips [DecidableEq α] (p text : List α) :
    (∃ i, Met p text i) ∨
      ∃ pre u, text = pre ++ u ∧ Skips p pre ∧ u <+: p ∧ u ≠ p := by
  induction hn : text.length using Nat.strong_induction_on generalizing text with
  | _ n ih =>
    rcases prefix_cases p text with ⟨post, rfl⟩ | ⟨h, hne⟩ | ⟨u, b, rest, rfl, hskip⟩
    · exact Or.inl ⟨0, [], post, rfl, rfl, .nil⟩
    · exact Or.inr ⟨[], text, rfl, .nil, h, hne⟩
    · have hone := skips_singleton hskip
      have hlt : rest.length < n := by
        rw [← hn, List.length_append, List.length_cons]
        omega
      rcases ih rest.length hlt rest rfl with ⟨i, hmet⟩ | ⟨pre, v, rfl, hpre, hv, hne⟩
      · refine Or.inl ⟨(u ++ [b]).length + i, ?_⟩
        simpa using hmet.skips_append hone
      · exact Or.inr ⟨(u ++ [b]) ++ pre, v, by simp, hone.append hpre, hv, hne⟩

/-- Where a text that ends inside the pattern has no occurrence met. -/
lemma not_met_of_skips {pre : List α} (hpre : Skips p pre) (hu : u <+: p) (hne : u ≠ p) :
    ¬ Met p (pre ++ u) i := by
  rintro ⟨pre', post, heq, -, hpre'⟩
  induction hpre generalizing pre' with
  | nil =>
    have hlt : u.length < p.length := by
      by_contra hge
      exact hne (hu.eq_of_length_le (by omega))
    have hlen := congrArg List.length heq
    simp only [List.nil_append, List.length_append] at hlen
    omega
  | @cons v b rest hskip h ih =>
    cases hpre' with
    | nil =>
      refine absurd ?_ (hskip.not_prefix (rest ++ u))
      exact ⟨post, by simpa using heq.symm⟩
    | @cons w c rest' hskip' h' =>
      have hcut : v ++ b :: (rest ++ u) = w ++ c :: (rest' ++ p ++ post) := by
        simpa using heq
      obtain ⟨rfl, rfl, hrest⟩ := hskip.eq hskip' hcut
      exact ih rest' hrest h'

/-! ### Texts in parts -/

lemma isSkip_of_not_mem (hu : u <+: p) (hne : u ≠ p) (hb : b ∉ p) : IsSkip p u b :=
  ⟨hu, hne, fun h => hb (h.subset (by simp))⟩

lemma skips_of_not_met [DecidableEq α] (hb : b ∉ p) (h : ∀ i, ¬ Met p text i) :
    Skips p (text ++ [b]) := by
  rcases met_or_skips p text with ⟨i, hmet⟩ | ⟨pre, u, rfl, hpre, hu, hne⟩
  · exact absurd hmet (h i)
  · rw [List.append_assoc]
    exact hpre.append (skips_singleton (isSkip_of_not_mem hu hne hb))

/-- **The search goes through a text part by part**, where the parts end with a letter that is not
in the pattern: the first part with a match decides. -/
theorem met_append_cons [DecidableEq α] (hb : b ∉ p) (part rest : List α) :
    Met p (part ++ b :: rest) i ↔
      Met p part i ∨
        (∀ k, ¬ Met p part k) ∧ ∃ j, Met p rest j ∧ i = part.length + 1 + j := by
  constructor
  · intro h
    by_cases hpart : ∃ k, Met p part k
    · obtain ⟨k, hk⟩ := hpart
      rw [h.unique (hk.append (b :: rest))]
      exact Or.inl hk
    · refine Or.inr ⟨fun k hk => hpart ⟨k, hk⟩, ?_⟩
      have hskips := skips_of_not_met hb fun k hk => hpart ⟨k, hk⟩
      have hsplit : part ++ b :: rest = (part ++ [b]) ++ rest := by simp
      have hlen : (part ++ [b]).length = part.length + 1 := by simp
      rcases met_or_skips p rest with ⟨j, hj⟩ | ⟨pre, u, rfl, hpre, hu, hne⟩
      · refine ⟨j, hj, ?_⟩
        rw [hsplit] at h
        rw [h.unique (hj.skips_append hskips), hlen]
      · rw [hsplit, ← List.append_assoc] at h
        exact absurd h (not_met_of_skips (hskips.append hpre) hu hne)
  · rintro (h | ⟨hno, j, hj, rfl⟩)
    · exact h.append _
    · have hmet := hj.skips_append (skips_of_not_met hb hno)
      simpa using hmet

lemma met_of_not_infix [DecidableEq α] (hb : b ∉ p) {part : List α} (hno : ¬ p <:+: part)
    (rest : List α) : Met p (part ++ b :: (p ++ rest)) (part.length + 1) := by
  rw [met_append_cons hb]
  exact Or.inr ⟨fun k hk => hno hk.infix, 0, ⟨[], rest, rfl, rfl, .nil⟩, rfl⟩

/-! ### Any number of parts -/

def ended (b : α) (parts : List (List α)) : List α := parts.flatMap (· ++ [b])

@[simp] lemma ended_nil (b : α) : ended b [] = [] := rfl

lemma ended_cons (b : α) (part : List α) (parts : List (List α)) :
    ended b (part :: parts) = part ++ b :: ended b parts := by
  rw [ended, List.flatMap_cons, List.append_assoc, List.singleton_append, ended]

lemma ended_append (b : α) (parts parts' : List (List α)) :
    ended b (parts ++ parts') = ended b parts ++ ended b parts' := List.flatMap_append

/-- The first part with a match, those in front of it, and where it is met there. -/
structure FirstMet (p : List α) (parts before : List (List α)) (part : List α) (k : ℕ) : Prop where
  split : ∃ after, parts = before ++ part :: after
  clear : ∀ q ∈ before, ∀ j, ¬ Met p q j
  met : Met p part k

lemma FirstMet.unique {parts before before' : List (List α)} {part part' : List α} {k k' : ℕ}
    (h : FirstMet p parts before part k) (h' : FirstMet p parts before' part' k') :
    before = before' ∧ part = part' ∧ k = k' := by
  obtain ⟨⟨after, hsplit⟩, hclear, hmet⟩ := h
  obtain ⟨⟨after', hsplit'⟩, hclear', hmet'⟩ := h'
  rw [hsplit] at hsplit'
  clear hsplit
  induction before generalizing before' with
  | nil =>
    rcases before' with - | ⟨r, before'⟩
    · obtain ⟨rfl, -⟩ := List.cons_eq_cons.mp hsplit'
      exact ⟨rfl, rfl, hmet.unique hmet'⟩
    · obtain ⟨rfl, -⟩ := List.cons_eq_cons.mp hsplit'
      exact absurd hmet (hclear' part (by simp) k)
  | cons q before ih =>
    rcases before' with - | ⟨r, before'⟩
    · obtain ⟨rfl, -⟩ := List.cons_eq_cons.mp hsplit'
      exact absurd hmet' (hclear q (by simp) k')
    · obtain ⟨rfl, htail⟩ := List.cons_eq_cons.mp hsplit'
      obtain ⟨rfl, hpart⟩ := ih (fun s hs => hclear s (by simp [hs]))
        (fun s hs => hclear' s (by simp [hs])) htail
      exact ⟨rfl, hpart⟩

/-- **In parts with ends the search meets the match of the first part that has one.** -/
theorem met_ended_iff [DecidableEq α] (hb : b ∉ p) (hp : p ≠ []) (parts : List (List α)) :
    Met p (ended b parts) i ↔
      ∃ before part k, FirstMet p parts before part k ∧ i = (ended b before).length + k := by
  induction parts generalizing i with
  | nil =>
    refine iff_of_false ?_ ?_
    · rintro ⟨pre, post, htext, -⟩
      have := congrArg List.length htext
      have := List.length_pos_iff.mpr hp
      simp only [ended_nil, List.length_nil, List.length_append] at *
      omega
    · rintro ⟨before, part, k, ⟨⟨after, hsplit⟩, -, -⟩, -⟩
      simp at hsplit
  | cons q parts ih =>
    rw [ended_cons, met_append_cons hb]
    constructor
    · rintro (h | ⟨hno, j, hj, rfl⟩)
      · exact ⟨[], q, i, ⟨⟨parts, rfl⟩, by simp, h⟩, by simp⟩
      · obtain ⟨before, part, k, ⟨⟨after, rfl⟩, hclear, hmet⟩, rfl⟩ := ih.mp hj
        refine ⟨q :: before, part, k, ⟨⟨after, rfl⟩, ?_, hmet⟩, ?_⟩
        · intro r hr
          rcases List.mem_cons.mp hr with rfl | hr
          · exact hno
          · exact hclear r hr
        · rw [ended_cons, List.length_append, List.length_cons]
          omega
    · rintro ⟨before, part, k, ⟨⟨after, hsplit⟩, hclear, hmet⟩, rfl⟩
      rcases before with - | ⟨r, before⟩
      · obtain ⟨rfl, rfl⟩ := List.cons_eq_cons.mp hsplit
        exact Or.inl (by simpa using hmet)
      · obtain ⟨rfl, rfl⟩ := List.cons_eq_cons.mp hsplit
        refine Or.inr ⟨hclear q (by simp), (ended b before).length + k, ?_, ?_⟩
        · exact ih.mpr ⟨before, part, k, ⟨⟨after, rfl⟩, fun r hr => hclear r (by simp [hr]), hmet⟩,
            rfl⟩
        · rw [ended_cons, List.length_append, List.length_cons]
          omega

/-- If one of the parts has a match, then there is a first one. -/
lemma exists_firstMet {parts : List (List α)} {q : List α} (hq : q ∈ parts) (h : Met p q j) :
    ∃ before part k, FirstMet p parts before part k := by
  classical
  induction parts with
  | nil => cases hq
  | cons r parts ih =>
    by_cases hr : ∃ k, Met p r k
    · obtain ⟨k, hk⟩ := hr
      exact ⟨[], r, k, ⟨parts, rfl⟩, by simp, hk⟩
    · have hq' : q ∈ parts := by
        rcases List.mem_cons.mp hq with rfl | hq'
        · exact absurd ⟨j, h⟩ hr
        · exact hq'
      obtain ⟨before, part, k, ⟨after, rfl⟩, hclear, hmet⟩ := ih hq'
      refine ⟨r :: before, part, k, ⟨after, rfl⟩, ?_, hmet⟩
      intro s hs
      rcases List.mem_cons.mp hs with rfl | hs
      · exact fun k hk => hr ⟨k, hk⟩
      · exact hclear s hs

/-! ### The first occurrence -/

/-- **The first occurrence is met** if and only if the text in front of it is a sequence of partial
matches. -/
theorem met_least_iff (h : IsLeast {i | Occurs p text i} i) :
    Met p text i ↔ Skips p (text.take i) := by
  rw [met_iff]
  exact and_iff_right h.1

lemma exists_isLeast (h : Occurs p text i) : ∃ j, IsLeast {i | Occurs p text i} j := by
  classical
  exact ⟨Nat.find ⟨i, h⟩, Nat.find_spec ⟨i, h⟩, fun k hk => Nat.find_min' ⟨i, h⟩ hk⟩

end Ufix.SkipSearch
