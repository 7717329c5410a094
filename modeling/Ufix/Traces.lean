import Mathlib.Data.List.Basic

/-!
Traces of events, the oldest first: what is said about an event by the ones before it.
-/

namespace Ufix.Traces

variable {ε : Type*}

/-- Every event of the trace has what `P` asks of the events before it. -/
def Guarded (P : List ε → ε → Prop) (tr : List ε) : Prop :=
  ∀ before e after, tr = before ++ e :: after → P before e

variable {P : List ε → ε → Prop} {tr : List ε} {e : ε}

lemma guarded_nil : Guarded P [] := fun before e after h => by simp at h

/-- **The rule of one event more.** -/
theorem guarded_concat : Guarded P (tr ++ [e]) ↔ Guarded P tr ∧ P tr e := by
  constructor
  · intro h
    exact ⟨fun before a after ha => h before a (after ++ [e]) (by simp [ha]), h tr e [] rfl⟩
  · rintro ⟨htr, he⟩ before a after h
    rcases List.eq_nil_or_concat after with rfl | ⟨after, b, rfl⟩
    · obtain ⟨rfl, hae⟩ := List.append_inj' h rfl
      cases hae
      exact he
    · have hcut : tr ++ [e] = (before ++ a :: after) ++ [b] := by
        rw [h]
        simp
      exact htr before a after (List.append_inj' hcut rfl).1

lemma Guarded.mono {Q : List ε → ε → Prop} (h : ∀ before e, P before e → Q before e)
    (hg : Guarded P tr) : Guarded Q tr :=
  fun before e after he => h before e (hg before e after he)

/-- `Q` has happened, and `R` not since then. -/
def Since (Q R : ε → Prop) (tr : List ε) : Prop :=
  ∃ before e after, tr = before ++ e :: after ∧ Q e ∧ ∀ a ∈ after, ¬ R a

lemma since_concat {Q R : ε → Prop} : Since Q R (tr ++ [e]) ↔ Q e ∨ Since Q R tr ∧ ¬ R e := by
  constructor
  · rintro ⟨before, a, after, h, hQ, hR⟩
    rcases List.eq_nil_or_concat after with rfl | ⟨after, b, rfl⟩
    · obtain ⟨rfl, hae⟩ := List.append_inj' h rfl
      cases hae
      exact .inl hQ
    · have hcut : tr ++ [e] = (before ++ a :: after) ++ [b] := by
        rw [h]
        simp
      obtain ⟨rfl, heb⟩ := List.append_inj' hcut rfl
      cases heb
      exact .inr ⟨⟨before, a, after, rfl, hQ, fun x hx => hR x (by simp [hx])⟩, hR e (by simp)⟩
  · rintro (hQ | ⟨⟨before, a, after, rfl, hQ, hR⟩, he⟩)
    · exact ⟨tr, e, [], rfl, hQ, by simp⟩
    · refine ⟨before, a, after ++ [e], by simp, hQ, fun x hx => ?_⟩
      rcases List.mem_append.mp hx with hx | hx
      · exact hR x hx
      · rw [List.mem_singleton.mp hx]
        exact he

end Ufix.Traces
