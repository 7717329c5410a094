import Mathlib.Data.Nat.Find
import Ufix.Runs

/-!
Runs that do not end: what holds in all their states, and which states lead to which when the
actions that help are not put off for ever.
-/

namespace Ufix.Runs

variable {σ α : Type*}

/-- An endless run of a machine, with the state in front of every action. -/
structure Endless (step : σ → α → Option σ) where
  state : ℕ → σ
  act : ℕ → α
  next : ∀ n, step (state n) (act n) = some (state (n + 1))

namespace Endless

variable {step : σ → α → Option σ} (r : Endless step)

lemma always {P : σ → Prop} (hstep : ∀ n, P (r.state n) → P (r.state (n + 1)))
    (h : P (r.state 0)) (n : ℕ) : P (r.state n) := by
  induction n with
  | zero => exact h
  | succ n ih => exact hstep n ih

/-- From a state in `P` the run comes to one in `Q`. -/
def Leads (P Q : σ → Prop) : Prop := ∀ n, P (r.state n) → ∃ m, n ≤ m ∧ Q (r.state m)

variable {r} {P P' Q : σ → Prop}

lemma Leads.trans (h : r.Leads P fun s => Q s ∨ P' s) (h' : r.Leads P' Q) : r.Leads P Q := by
  intro n hP
  obtain ⟨m, hnm, hQ | hP'⟩ := h n hP
  · exact ⟨m, hnm, hQ⟩
  · obtain ⟨k, hmk, hQ⟩ := h' m hP'
    exact ⟨k, Nat.le_trans hnm hmk, hQ⟩

lemma leads_of_exists {ι : Sort*} {P : ι → σ → Prop} (h : ∀ i, r.Leads (P i) Q) :
    r.Leads (fun s => ∃ i, P i s) Q :=
  fun n ⟨i, hP⟩ => h i n hP

/-- **The fairness rule.** While `P` holds and `Q` has not been reached, some action that leads to
`Q` is still to come. -/
theorem leads_of_fair {H : α → Prop}
    (hstay : ∀ n, P (r.state n) → P (r.state (n + 1)) ∨ Q (r.state (n + 1)))
    (hhelp : ∀ n, P (r.state n) → H (r.act n) → Q (r.state (n + 1)))
    (hfair : ∀ n, P (r.state n) → ∃ m, n ≤ m ∧ H (r.act m)) : r.Leads P Q := by
  intro n hP
  obtain ⟨m, hnm, hm⟩ := hfair n hP
  have hreach : (∃ k, n ≤ k ∧ Q (r.state k)) ∨ P (r.state m) := by
    clear hm
    induction m, hnm using Nat.le_induction with
    | base => exact .inr hP
    | succ m hnm ih =>
      rcases ih with hQ | hPm
      · exact .inl hQ
      · rcases hstay m hPm with h | h
        · exact .inr h
        · exact .inl ⟨m + 1, by omega, h⟩
  rcases hreach with hQ | hPm
  · exact hQ
  · exact ⟨m + 1, by omega, hhelp m hPm hm⟩

lemma Leads.first (h : r.Leads P Q) {n : ℕ} (hP : P (r.state n)) :
    ∃ m, n ≤ m ∧ Q (r.state m) ∧ ∀ k, n ≤ k → k < m → ¬ Q (r.state k) := by
  classical
  have hex : ∃ m, n ≤ m ∧ Q (r.state m) := h n hP
  obtain ⟨hle, hQ⟩ := Nat.find_spec hex
  exact ⟨Nat.find hex, hle, hQ, fun k hnk hk hQk => Nat.find_min hex hk ⟨hnk, hQk⟩⟩

end Endless

end Ufix.Runs
