import Mathlib.Data.List.Basic

/-!
Runs of a machine whose steps can be blocked: what one step preserves, a run preserves.

A step is a partial function of a state and an action. A property of the states of a run is
proved once from what a step does to it, under a condition each step meets in the state it
starts from.
-/

namespace Ufix.Runs

variable {σ α : Type*} (step : σ → α → Option σ)

/-- The state after a list of actions, `none` when one of them is blocked. -/
def run : σ → List α → Option σ
  | s, [] => some s
  | s, a :: as => (step s a).bind fun t => run t as

@[simp] lemma run_nil (s : σ) : run step s [] = some s := rfl

@[simp] lemma run_cons (s : σ) (a : α) (as : List α) :
    run step s (a :: as) = (step s a).bind fun t => run step t as := rfl

lemma run_cons_eq_some {s u : σ} {a : α} {as : List α} :
    run step s (a :: as) = some u ↔ ∃ t, step s a = some t ∧ run step t as = some u := by
  simp [Option.bind_eq_some_iff]

lemma run_append (s : σ) (as bs : List α) :
    run step s (as ++ bs) = (run step s as).bind fun t => run step t bs := by
  induction as generalizing s with
  | nil => rfl
  | cons a as ih =>
    simp only [List.cons_append, run_cons, ih]
    cases step s a <;> rfl

/-- Every action of the run starts in a state where `ok` holds of it. -/
def Meets (ok : σ → α → Prop) : σ → List α → Prop
  | _, [] => True
  | s, a :: as => ∀ t, step s a = some t → ok s a ∧ Meets ok t as

/-- Along a given run the condition can be tested. -/
instance decidableMeets (ok : σ → α → Prop) [∀ s a, Decidable (ok s a)] :
    ∀ s as, Decidable (Meets step ok s as)
  | _, [] => isTrue trivial
  | s, a :: as =>
    match h : step s a with
    | none => isTrue fun t ht => by simp [h] at ht
    | some t =>
      haveI := decidableMeets ok t as
      decidable_of_iff (ok s a ∧ Meets step ok t as)
        ⟨fun hok u hu => Option.some.inj (h.symm.trans hu) ▸ hok, fun hm => hm t h⟩

/-- `P` holds in every state the run passes through. -/
def Always (P : σ → Prop) : σ → List α → Prop
  | s, [] => P s
  | s, a :: as => P s ∧ ∀ t, step s a = some t → Always P t as

variable {step}

lemma meets_of_forall {ok : σ → α → Prop} (h : ∀ s a, ok s a) (s : σ) (as : List α) :
    Meets step ok s as := by
  induction as generalizing s with
  | nil => trivial
  | cons a as ih => exact fun t _ => ⟨h s a, ih t⟩

lemma meets_of_mem {ok : α → Prop} {as : List α} (h : ∀ a ∈ as, ok a) (s : σ) :
    Meets step (fun _ a => ok a) s as := by
  induction as generalizing s with
  | nil => trivial
  | cons a as ih =>
    exact fun t _ => ⟨h a (by simp), ih (fun b hb => h b (by simp [hb])) t⟩

lemma Meets.mono {ok ok' : σ → α → Prop} (h : ∀ s a, ok s a → ok' s a) {s : σ} {as : List α}
    (hm : Meets step ok s as) : Meets step ok' s as := by
  induction as generalizing s with
  | nil => trivial
  | cons a as ih => exact fun t ht => ⟨h s a (hm t ht).1, ih (hm t ht).2⟩

lemma Meets.and {ok ok' : σ → α → Prop} {s : σ} {as : List α} (h : Meets step ok s as)
    (h' : Meets step ok' s as) : Meets step (fun s a => ok s a ∧ ok' s a) s as := by
  induction as generalizing s with
  | nil => trivial
  | cons a as ih =>
    intro t ht
    exact ⟨⟨(h t ht).1, (h' t ht).1⟩, ih (h t ht).2 (h' t ht).2⟩

lemma Meets.of_prefix {ok : σ → α → Prop} {s : σ} {as bs : List α} (h : Meets step ok s bs)
    (hpre : as <+: bs) : Meets step ok s as := by
  induction as generalizing s bs with
  | nil => trivial
  | cons a as ih =>
    obtain ⟨more, rfl⟩ := hpre
    exact fun t ht => ⟨(h t ht).1, ih (h t ht).2 ⟨more, rfl⟩⟩

lemma Meets.append {ok : σ → α → Prop} {s t : σ} {as bs : List α} (h : Meets step ok s as)
    (hr : run step s as = some t) (h' : Meets step ok t bs) : Meets step ok s (as ++ bs) := by
  induction as generalizing s with
  | nil =>
    cases hr
    exact h'
  | cons a as ih =>
    obtain ⟨u, hu, hr⟩ := (run_cons_eq_some step).mp hr
    intro v hv
    cases hu.symm.trans hv
    exact ⟨(h u hu).1, ih (h u hu).2 hr⟩

section Rules

variable {P : σ → Prop} {ok : σ → α → Prop}

/-- **The run rule**: what every step that meets `ok` preserves, a run of such steps does. -/
theorem run_induct (hstep : ∀ s a t, P s → ok s a → step s a = some t → P t)
    {s t : σ} {as : List α} (hs : P s) (hm : Meets step ok s as) (hr : run step s as = some t) :
    P t := by
  induction as generalizing s with
  | nil =>
    cases hr
    exact hs
  | cons a as ih =>
    obtain ⟨u, hu, hr⟩ := (run_cons_eq_some step).mp hr
    obtain ⟨hok, hm⟩ := hm u hu
    exact ih (hstep s a u hs hok hu) hm hr

theorem always_of_meets (hstep : ∀ s a t, P s → ok s a → step s a = some t → P t)
    {s : σ} {as : List α} (hs : P s) (hm : Meets step ok s as) : Always step P s as := by
  induction as generalizing s with
  | nil => exact hs
  | cons a as ih =>
    exact ⟨hs, fun t ht => ih (hstep s a t hs (hm t ht).1 ht) (hm t ht).2⟩

lemma Always.head {s : σ} {as : List α} (h : Always step P s as) : P s := by
  cases as with
  | nil => exact h
  | cons a as => exact h.1

lemma Always.last {s t : σ} {as : List α} (h : Always step P s as) (hr : run step s as = some t) :
    P t := by
  induction as generalizing s with
  | nil =>
    cases hr
    exact h
  | cons a as ih =>
    obtain ⟨u, hu, hr⟩ := (run_cons_eq_some step).mp hr
    exact ih (h.2 u hu) hr

lemma Always.mono {Q : σ → Prop} (h : ∀ s, P s → Q s) {s : σ} {as : List α}
    (ha : Always step P s as) : Always step Q s as := by
  induction as generalizing s with
  | nil => exact h s ha
  | cons a as ih => exact ⟨h s ha.1, fun t ht => ih (ha.2 t ht)⟩

end Rules

section Maps

variable {τ β : Type*} {step' : τ → β → Option τ} {f : σ → τ} {g : α → β}

/-- When a machine does on the images of its states and actions what another one does, the
properties of the runs of the one are those of the runs of the other. -/
theorem always_map (hstep : ∀ s a, step' (f s) (g a) = (step s a).map f) {P : τ → Prop} {s : σ}
    {as : List α} : Always step' P (f s) (as.map g) ↔ Always step (fun t => P (f t)) s as := by
  induction as generalizing s with
  | nil => exact Iff.rfl
  | cons a as ih =>
    refine and_congr Iff.rfl ⟨fun h t ht => ?_, fun h u hu => ?_⟩
    · exact ih.mp (h (f t) (by rw [hstep, ht]; rfl))
    · rw [hstep] at hu
      obtain ⟨t, ht, rfl⟩ := Option.map_eq_some_iff.mp hu
      exact ih.mpr (h t ht)

theorem run_map (hstep : ∀ s a, step' (f s) (g a) = (step s a).map f) (s : σ) (as : List α) :
    run step' (f s) (as.map g) = (run step s as).map f := by
  induction as generalizing s with
  | nil => rfl
  | cons a as ih =>
    rw [List.map_cons, run_cons, run_cons, hstep]
    cases step s a with
    | none => rfl
    | some t => exact ih t

theorem meets_map (hstep : ∀ s a, step' (f s) (g a) = (step s a).map f) {ok : τ → β → Prop}
    {s : σ} {as : List α} :
    Meets step' ok (f s) (as.map g) ↔ Meets step (fun t a => ok (f t) (g a)) s as := by
  induction as generalizing s with
  | nil => exact Iff.rfl
  | cons a as ih =>
    refine ⟨fun h t ht => ?_, fun h u hu => ?_⟩
    · obtain ⟨hok, hm⟩ := h (f t) (by rw [hstep, ht]; rfl)
      exact ⟨hok, ih.mp hm⟩
    · rw [hstep] at hu
      obtain ⟨t, ht, rfl⟩ := Option.map_eq_some_iff.mp hu
      obtain ⟨hok, hm⟩ := h t ht
      exact ⟨hok, ih.mpr hm⟩

end Maps

/-- **The simulation rule**: when each step that meets `ok` has a counterpart on the other machine
that keeps the states related, so has a run of such steps. -/
theorem run_sim {τ β : Type*} {step' : τ → β → Option τ} {f : α → β} {R : σ → τ → Prop}
    {ok : σ → α → Prop}
    (hstep : ∀ s u a t, R s u → ok s a → step s a = some t → ∃ v, step' u (f a) = some v ∧ R t v)
    {s t : σ} {u : τ} {as : List α} (hs : R s u) (hm : Meets step ok s as)
    (hr : run step s as = some t) : ∃ v, run step' u (as.map f) = some v ∧ R t v := by
  induction as generalizing s u with
  | nil =>
    cases hr
    exact ⟨u, rfl, hs⟩
  | cons a as ih =>
    obtain ⟨s', hs', hr⟩ := (run_cons_eq_some step).mp hr
    obtain ⟨hok, hm⟩ := hm s' hs'
    obtain ⟨u', hu', hR⟩ := hstep s u a s' hs hok hs'
    obtain ⟨v, hv, hR⟩ := ih hR hm hr
    exact ⟨v, by rw [List.map_cons, run_cons, hu']; exact hv, hR⟩

end Ufix.Runs
