import Ufix.Sender

/-!
Whether a data message that is counted as sent owns its number.

The counter stands still when a send fails, and `send_data` marks the message as sent all the
same. So the next new message is given the number of the one that failed; the two numbers are
told apart only when both belong to session messages, which nobody will ask for again.
-/

namespace Ufix.OwnNumber

open Ufix.Runs Ufix.Sender

/-- Of two new messages with the same number none is a data message. Every data message passed
to the socket has left the pending part of its queue. -/
def OwnsNumber (p : SocketConnector) : Prop :=
  (news p.wire).Pairwise fun a b =>
    (a.msg.qIndex ≠ queueSession ∨ b.msg.qIndex ≠ queueSession) → a.msg.seq ≠ b.msg.seq

instance (p : SocketConnector) : Decidable (OwnsNumber p) :=
  inferInstanceAs (Decidable (List.Pairwise _ _))

/-- The new message an action passes to the socket: its queue and what the socket does. -/
def attempts : Act → List (ℕ × Bool)
  | .logon _ ok => [(queueSession, ok)]
  | .session _ ok => [(queueSession, ok)]
  | .data i ok => [(i, ok)]
  | _ => []

/-- A failed attempt is followed by no other, or both are session messages. -/
def Retried (a b : ℕ × Bool) : Prop := a.2 = true ∨ a.1 = queueSession ∧ b.1 = queueSession

instance : DecidableRel Retried := fun _ _ => inferInstanceAs (Decidable (_ ∨ _))

/-! ### The numbers of a list of attempts -/

/-- Queue and number of each attempt, from counter `c`. -/
def numbered : ℕ → List (ℕ × Bool) → List (ℕ × ℕ)
  | _, [] => []
  | c, (q, ok) :: rest => (q, c) :: numbered (if ok then c + 1 else c) rest

def counter : ℕ → List (ℕ × Bool) → ℕ
  | c, [] => c
  | c, (_, ok) :: rest => counter (if ok then c + 1 else c) rest

lemma numbered_append (c : ℕ) (l l' : List (ℕ × Bool)) :
    numbered c (l ++ l') = numbered c l ++ numbered (counter c l) l' := by
  induction l generalizing c with
  | nil => rfl
  | cons a l ih => simp [numbered, counter, ih]

lemma le_numbered {c : ℕ} {l : List (ℕ × Bool)} {x : ℕ × ℕ} (h : x ∈ numbered c l) :
    c ≤ x.2 := by
  induction l generalizing c with
  | nil => simp [numbered] at h
  | cons a l ih =>
    obtain ⟨q, ok⟩ := a
    rcases List.mem_cons.mp h with rfl | h
    · exact le_rfl
    · have := ih h
      split at this <;> omega

/-- While attempts fail, the number is only ever given to session messages. -/
lemma session_of_stuck {c : ℕ} {a : ℕ × Bool} {l : List (ℕ × Bool)} (ha : a.1 = queueSession)
    (hc : (a :: l).IsChain Retried) {x : ℕ × ℕ} (hx : x ∈ numbered c (a :: l)) (he : x.2 = c) :
    x.1 = queueSession := by
  induction l generalizing a with
  | nil =>
    simp only [numbered, List.mem_singleton] at hx
    rw [hx]
    exact ha
  | cons b l ih =>
    obtain ⟨hab, hc'⟩ := List.isChain_cons_cons.mp hc
    obtain ⟨q, ok⟩ := a
    rcases List.mem_cons.mp hx with rfl | hx
    · exact ha
    · cases ok with
      | true =>
        have := le_numbered hx
        simp only [if_true] at this
        omega
      | false =>
        rcases hab with h | h
        · cases h
        · exact ih h.2 hc' hx

/-- **Numbers are owned if and only if no failed attempt is followed by another, two session
messages apart.** -/
lemma numbered_pairwise_iff (c : ℕ) (l : List (ℕ × Bool)) :
    (numbered c l).Pairwise (fun a b => (a.1 ≠ queueSession ∨ b.1 ≠ queueSession) → a.2 ≠ b.2) ↔
      l.IsChain Retried := by
  induction l generalizing c with
  | nil => simp [numbered]
  | cons a l ih =>
    obtain ⟨q, ok⟩ := a
    simp only [numbered, List.pairwise_cons, ih]
    cases l with
    | nil => simp [numbered]
    | cons b l =>
      rw [List.isChain_cons_cons]
      cases ok with
      | true =>
        constructor
        · exact fun h => ⟨Or.inl rfl, h.2⟩
        · refine fun h => ⟨fun x hx _ => ?_, h.2⟩
          have := le_numbered hx
          simp only [if_true] at this
          omega
      | false =>
        constructor
        · rintro ⟨h, hc⟩
          refine ⟨Or.inr ?_, hc⟩
          have hb := h (b.1, c) (by simp [numbered])
          by_contra hne
          exact hb (by simp only [not_and_or] at hne; exact hne) rfl
        · rintro ⟨h, hc⟩
          rcases h with h | ⟨hq, hb⟩
          · cases h
          · refine ⟨fun x hx hne he => ?_, hc⟩
            have := session_of_stuck hb hc hx he.symm
            rcases hne with h | h
            · exact h hq
            · exact h this

/-! ### The numbers of a run -/

variable {o : SessionOption} {p p' : SocketConnector}

lemma step_numbers {a : Act} (h : step o p a = some p') :
    (news p'.wire).map (fun pk => (pk.msg.qIndex, pk.msg.seq)) =
        (news p.wire).map (fun pk => (pk.msg.qIndex, pk.msg.seq)) ++
          numbered p.session.msgSeq (attempts a) ∧
      p'.session.msgSeq = counter p.session.msgSeq (attempts a) := by
  obtain ⟨new, he, hw, -, -⟩ := step_effect h
  rw [hw, news_append, List.map_append, List.append_cancel_left_eq]
  generalize p'.session = s at he
  cases he with
  | addMsg _ _ => exact ⟨rfl, rfl⟩
  | reconnect => exact ⟨rfl, rfl⟩
  | poll _ _ => exact ⟨rfl, rfl⟩
  | logon => exact ⟨rfl, afterSend_msgSeq o _ _ _⟩
  | session _ => exact ⟨rfl, afterSend_msgSeq o _ _ _⟩
  | data _ _ _ => exact ⟨rfl, afterSend_msgSeq o _ _ _⟩
  | resend _ hr =>
    rw [news_resend]
    exact ⟨rfl, (Resend.resendLoop_same (UInt64.toNat_lt _) hr).msgSeq⟩

lemma run_numbers {acts : List Act} (h : run (step o) p acts = some p') :
    (news p'.wire).map (fun pk => (pk.msg.qIndex, pk.msg.seq)) =
      (news p.wire).map (fun pk => (pk.msg.qIndex, pk.msg.seq)) ++
        numbered p.session.msgSeq (acts.flatMap attempts) := by
  induction acts generalizing p with
  | nil =>
    cases h
    simp [numbered]
  | cons a acts ih =>
    obtain ⟨q, hq, h⟩ := (run_cons_eq_some _).mp h
    obtain ⟨h1, h2⟩ := step_numbers hq
    rw [ih h, h1, h2, List.flatMap_cons, numbered_append, List.append_assoc]

def firstProcess : SocketConnector :=
  ⟨Session.init SessionOption.oneQueue 8 PManager.empty 0, true, false, []⟩

/-- The message of queue `1` fails with number `2`, the connection is renewed. -/
def failedThenLogon : List Act :=
  [.logon 0 true, .addMsg 1 [], .data 1 false, .reconnect, .logon 0 true]

end Ufix.OwnNumber
