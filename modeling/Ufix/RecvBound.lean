import Ufix.RecvBuf

/-!
Whether the receiver writes behind its buffer.

`recv` may give a whole window, for which there is room only in front of `recv_buf_size`. The tail
is there whenever `recv` is called as long as the unread rest is never longer than the buffer, no
message is refused behind that place, and no hand-over reaches it.
-/

namespace Ufix.RecvBound

open Ufix.Runs Ufix.RecvBuf Ufix.RecvBuf.Connection

variable {c c' : Connection} {a : Act}

/-- Whenever `recv` is called the tail is in front of the end, and it never leaves the memory that
was allocated. -/
structure Bounded (c : Connection) : Prop where
  recv : c.phase = .receiving → c.recvBufTail ≤ c.recvBufSize
  allocated : c.recvBufTail ≤ c.recvBufSize + socketRecvWindows

/-- The condition on a step: behind `recv_buf_size` the rest that is left is no longer than the
buffer, an initiator refuses no message there, and what is handed over does not reach that far. -/
def Within (c : Connection) : Act → Prop
  | .round => c.phase = .cutting →
      (nextMsg c.fixVersionLen c.allocated c.recvBufHead c.recvBufTail = some .wait →
        c.recvBufTail ≤ c.recvBufSize ∨ c.recvBufTail - c.recvBufHead ≤ c.recvBufSize) ∧
      (nextMsg c.fixVersionLen c.allocated c.recvBufHead c.recvBufTail = some .noSeq →
        c.acceptor = false → c.recvBufHead ≤ c.recvBufSize)
  | .accept tempBuf => c.saved.2 + tempBuf.length ≤ c.recvBufSize
  | _ => True

instance (c : Connection) : DecidablePred (Within c)
  | .round => inferInstanceAs (Decidable (_ → _ ∧ (_ → _ → _)))
  | .accept _ => inferInstanceAs (Decidable (_ ≤ _))
  | .recv _ | .lost | .stop | .updateSeq _ _ | .wait _ | .get | .reset =>
    inferInstanceAs (Decidable True)

structure Inv (c : Connection) : Prop where
  order : c.recvBufHead ≤ c.recvBufTail
  saved : c.saved.1 ≤ c.saved.2
  recv : c.phase = .receiving ∨ c.phase = .starting → c.recvBufTail ≤ c.recvBufSize
  allocated : c.recvBufTail ≤ c.recvBufSize + socketRecvWindows

lemma Inv.bounded (h : Inv c) : Bounded c := ⟨fun hr => h.recv (Or.inl hr), h.allocated⟩

lemma Inv.of_sameBuf (h : Inv c) (hs : SameBuf c c') : Inv c' := by
  obtain ⟨-, -, h3, h4, h5, h6, h7, -⟩ := hs
  refine ⟨?_, ?_, ?_, ?_⟩
  · rw [h4, h5]
    exact h.order
  · rw [h6]
    exact h.saved
  · rw [h3, h5, h7]
    exact h.recv
  · rw [h3, h5]
    exact h.allocated

lemma allCut_spec (c : Connection) : c.allCut.phase = .receiving ∧ c.allCut.saved = c.saved ∧
    c.allCut.recvBufSize = c.recvBufSize ∧
    c.allCut.recvBufTail - c.allCut.recvBufHead = c.recvBufTail - c.recvBufHead ∧
    c.allCut.recvBufTail = if c.phase = .cutting ∧ c.recvBufTail > c.recvBufSize then
      c.recvBufTail - c.recvBufHead else c.recvBufTail := by
  unfold allCut
  split_ifs with h
  · refine ⟨rfl, rfl, rfl, ?_, rfl⟩
    simp only [moveToFront]
    omega
  · exact ⟨rfl, rfl, rfl, rfl, rfl⟩

lemma disconnect_spec (c : Connection) : c.disconnect.recvBufSize = c.recvBufSize ∧
    c.disconnect.recvBufHead = c.recvBufHead ∧ c.disconnect.recvBufTail = c.recvBufHead ∧
    c.disconnect.phase = (if c.acceptor then .down else .receiving) ∧
    c.disconnect.saved = if c.acceptor then (c.recvBufHead, c.recvBufHead) else c.saved := by
  unfold disconnect
  cases c.acceptor <;> exact ⟨rfl, rfl, rfl, rfl, rfl⟩

lemma Inv.disconnect (h : Inv c) (hhead : c.acceptor = false → c.recvBufHead ≤ c.recvBufSize) :
    Inv c.disconnect := by
  obtain ⟨h1, h2, h3, h4, h5⟩ := disconnect_spec c
  have horder := h.order
  have hsaved := h.saved
  have halloc := h.allocated
  refine ⟨by rw [h2, h3], ?_, ?_, by rw [h1, h3]; omega⟩
  · rw [h5]
    split_ifs
    · exact le_rfl
    · exact hsaved
  · rw [h1, h3, h4]
    intro hphase
    cases hacc : c.acceptor with
    | true => simp [hacc] at hphase
    | false => exact hhead hacc

lemma Inv.allCut (h : Inv c) (hphase : c.phase = .starting ∨ c.phase = .cutting)
    (hrest : c.phase = .cutting →
      c.recvBufTail ≤ c.recvBufSize ∨ c.recvBufTail - c.recvBufHead ≤ c.recvBufSize) :
    Inv c.allCut := by
  obtain ⟨h1, h2, h3, h4, h5⟩ := allCut_spec c
  have horder := h.order
  have htail : c.allCut.recvBufTail ≤ c.recvBufSize := by
    rw [h5]
    rcases hphase with hphase | hphase
    · have hne : ¬ c.phase = .cutting := by rw [hphase]; decide
      rw [if_neg fun hc => hne hc.1]
      exact h.recv (Or.inr hphase)
    · split_ifs with hc
      · rcases hrest hphase with hle | hle <;> omega
      · by_contra hgt
        exact hc ⟨hphase, by omega⟩
  refine ⟨by omega, by rw [h2]; exact h.saved, fun _ => by rw [h3]; exact htail, ?_⟩
  rw [h3]
  omega

lemma Inv.reject (h : Inv c) (hphase : c.phase = .starting ∨ c.phase = .cutting)
    (hhead : c.phase = .cutting → c.acceptor = false → c.recvBufHead ≤ c.recvBufSize) :
    Inv c.reject := by
  unfold Connection.reject
  split_ifs with hcut
  · exact h.disconnect (hhead hcut)
  · exact ⟨h.order, h.saved, fun _ => h.recv (Or.inr (hphase.resolve_right hcut)), h.allocated⟩

/-- A step that stays within keeps the invariant. -/
lemma Inv.step (h : Inv c) (hw : Within c a) (hs : c.step a = some c') : Inv c' := by
  have horder := h.order
  have halloc := h.allocated
  cases a with
  | recv chunk =>
    obtain ⟨⟨hphase, -, -, hlen⟩, rfl⟩ := recv_eq_some hs
    have htail := h.recv (Or.inl hphase)
    refine ⟨?_, h.saved, ?_, ?_⟩
    · simp only
      omega
    · simp
    · simp only
      omega
  | round =>
    obtain ⟨hphase, ⟨hnext, rfl⟩ | ⟨hnext, rfl⟩ | ⟨m, msgLen, hnext, hput⟩⟩ := round_cases hs
    · exact h.allCut hphase fun hcut => (hw hcut).1 hnext
    · exact h.reject hphase fun hcut => (hw hcut).2 hnext
    · have hlen := (nextMsg_msg hnext).1
      obtain ⟨d, -, rfl⟩ := putMsg_eq_some hput
      refine ⟨?_, h.saved, h.recv, halloc⟩
      simp only
      omega
  | lost =>
    change (if c.phase = .receiving then some c.disconnect else none) = some c' at hs
    split_ifs at hs with hphase
    cases hs
    have htail := h.recv (Or.inl hphase)
    exact h.disconnect fun _ => by omega
  | stop =>
    change (if c.acceptor ∧ c.phase = .receiving then some { c with phase := .down } else none) =
      some c' at hs
    split_ifs at hs with hphase
    cases hs
    exact ⟨horder, h.saved, by simp, halloc⟩
  | accept tempBuf =>
    obtain ⟨-, rfl⟩ := accept_eq_some hs
    have hsaved := h.saved
    have hle : c.saved.2 + tempBuf.length ≤ c.recvBufSize := hw
    refine ⟨?_, hsaved, fun _ => hle, ?_⟩
    · simp only
      omega
    · simp only
      omega
  | updateSeq cur n => exact h.of_sameBuf (consumer_sameBuf hs (Or.inl ⟨cur, n, rfl⟩))
  | wait ts => exact h.of_sameBuf (consumer_sameBuf hs (Or.inr (Or.inl ⟨ts, rfl⟩)))
  | get => exact h.of_sameBuf (consumer_sameBuf hs (Or.inr (Or.inr (Or.inl rfl))))
  | reset => exact h.of_sameBuf (consumer_sameBuf hs (Or.inr (Or.inr (Or.inr rfl))))

lemma inv_new (acceptor : Bool) (fixVersionLen size qSize : ℕ) (seq : UInt64) (mem : ℕ → Byte) :
    Inv (.new acceptor fixVersionLen size qSize seq mem) := by
  refine ⟨le_rfl, le_rfl, fun _ => ?_, ?_⟩
  · simp [Connection.new]
  · simp only [Connection.new]
    omega

/-! ### The condition is the weakest one -/

lemma step_acceptor (hs : c.step a = some c') : c'.acceptor = c.acceptor := by
  cases a with
  | recv chunk =>
    obtain ⟨-, rfl⟩ := recv_eq_some hs
    rfl
  | round =>
    obtain ⟨-, ⟨-, rfl⟩ | ⟨-, rfl⟩ | ⟨m, msgLen, -, hput⟩⟩ := round_cases hs
    · unfold allCut
      split_ifs <;> rfl
    · unfold reject disconnect
      split_ifs <;> rfl
    · obtain ⟨d, -, rfl⟩ := putMsg_eq_some hput
      rfl
  | lost =>
    change (if c.phase = .receiving then some c.disconnect else none) = some c' at hs
    split_ifs at hs
    cases hs
    unfold disconnect
    split_ifs <;> rfl
  | stop =>
    change (if c.acceptor ∧ c.phase = .receiving then some { c with phase := .down } else none) =
      some c' at hs
    split_ifs at hs
    cases hs
    rfl
  | accept tempBuf =>
    obtain ⟨-, rfl⟩ := accept_eq_some hs
    rfl
  | updateSeq cur n => exact (consumer_sameBuf hs (Or.inl ⟨cur, n, rfl⟩)).acceptor
  | wait ts => exact (consumer_sameBuf hs (Or.inr (Or.inl ⟨ts, rfl⟩))).acceptor
  | get => exact (consumer_sameBuf hs (Or.inr (Or.inr (Or.inl rfl)))).acceptor
  | reset => exact (consumer_sameBuf hs (Or.inr (Or.inr (Or.inr rfl)))).acceptor

/-- A step of an initiator after which the bound holds stayed within. -/
lemma within_of_bounded (hacc : c.acceptor = false) (hs : c.step a = some c')
    (hb : Bounded c') : Within c a := by
  cases a with
  | round =>
    intro hcut
    obtain ⟨-, ⟨hnext, rfl⟩ | ⟨hnext, rfl⟩ | ⟨m, msgLen, hnext, -⟩⟩ := round_cases hs
    · obtain ⟨h1, -, h3, -, h5⟩ := allCut_spec c
      have htail := hb.recv h1
      rw [h3, h5] at htail
      refine ⟨fun _ => ?_, fun h => by rw [hnext] at h; cases h⟩
      split_ifs at htail with hc
      · exact Or.inr htail
      · exact Or.inl htail
    · have hreject : c.reject = c.disconnect := if_pos hcut
      obtain ⟨h1, -, h3, h4, -⟩ := disconnect_spec c
      rw [hreject] at hb
      have htail := hb.recv (by rw [h4, hacc]; rfl)
      rw [h1, h3] at htail
      exact ⟨fun h => by rw [hnext] at h; (cases h), fun _ _ => htail⟩
    · exact ⟨fun h => by rw [hnext] at h; (cases h), fun h => by rw [hnext] at h; (cases h)⟩
  | accept tempBuf =>
    obtain ⟨⟨hacceptor, -⟩, -⟩ := accept_eq_some hs
    rw [hacc] at hacceptor
    cases hacceptor
  | _ => trivial

lemma meets_of_bounded {acts : List Act} (hacc : c.acceptor = false)
    (hb : Always step Bounded c acts) : Meets step Within c acts := by
  induction acts generalizing c with
  | nil => trivial
  | cons a acts ih =>
    intro c' hs
    have hnext := hb.2 c' hs
    exact ⟨within_of_bounded hacc hs hnext.head, ih (by rw [step_acceptor hs, hacc]) hnext⟩

/-- **Nothing is written behind the buffer as long as every step stays within**: then in every
state of every run, with any chunks, messages, disconnects and hand-overs, `recv` is called with
the tail in front of the end. For an initiator the condition is exact. -/
theorem always_bounded (acceptor : Bool) (fixVersionLen size qSize : ℕ) (seq : UInt64)
    (mem : ℕ → Byte) (acts : List Act) :
    (Meets step Within (.new acceptor fixVersionLen size qSize seq mem) acts →
        Always step Bounded (.new acceptor fixVersionLen size qSize seq mem) acts) ∧
      (acceptor = false →
        Always step Bounded (.new acceptor fixVersionLen size qSize seq mem) acts →
        Meets step Within (.new acceptor fixVersionLen size qSize seq mem) acts) := by
  refine ⟨fun hm => ?_, fun hacc hb => meets_of_bounded hacc hb⟩
  have hinv := always_of_meets (fun c a c' h hw hs => h.step hw hs)
    (inv_new acceptor fixVersionLen size qSize seq mem) hm
  exact hinv.mono fun c h => h.bounded

def unnumbered : List Byte :=
  [56, 61, 70, 73, 88, 46, 52, 46, 50, 1, 57, 61, 53, 1, 51, 53, 61, 48, 1, 49, 48, 61, 48, 48, 48,
    1]

/-- An acceptor gets a message with the connection and another one from `recv`, and loses the
connection. -/
def lostActs : List Act :=
  [.accept (numbered 49), .round, .round, .recv (numbered 50), .round, .round, .lost]

theorem always_bounded_lost :
    Always step Bounded (.new true 7 40 4 0 fun _ => 0) lostActs ∧
      (run step (.new true 7 40 4 0 fun _ => 0) lostActs).map (fun c => (c.phase, c.saved)) =
        some (.down, 0, 0) :=
  ⟨(always_bounded true 7 40 4 0 (fun _ => 0) lostActs).1 (by decide +kernel), by decide +kernel⟩

/-- A message is refused behind the end, and `recv` is called there. -/
theorem not_always_bounded_unnumbered :
    ¬ Always step Bounded (.new false 7 20 4 0 fun _ => 0)
      [.recv (numbered 49 ++ unnumbered), .round, .round] := by
  intro hb
  have hend : (run step (.new false 7 20 4 0 fun _ => 0)
      [.recv (numbered 49 ++ unnumbered), .round, .round]).map
        (fun c => (c.phase, c.recvBufTail, c.recvBufSize)) = some (.receiving, 32, 20) := by
    decide +kernel
  obtain ⟨c, hc, hval⟩ := Option.map_eq_some_iff.mp hend
  have htail := (hb.last hc).recv (congrArg Prod.fst hval)
  simp only [Prod.mk.injEq] at hval
  omega

end Ufix.RecvBound
