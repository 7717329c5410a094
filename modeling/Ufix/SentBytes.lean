import Ufix.Lookup
import Ufix.SlotsKept

/-!
What a lookup of a sent number returns, with its bytes.

The marks and the slots decide which message is found; whether its bytes are those that were sent
is for the buffer to say, where a later message may have been written over them.
-/

namespace Ufix.SentBytes

open Ufix.Runs Ufix.Sender Ufix.History Ufix.SingleProcess Ufix.InPlace Ufix.Lookup
open Ufix.SlotsKept Ufix.Compose
open Ufix.SlotBytes hiding Act step sendQueuedMsg

variable {o : SessionOption} {M : ℕ} {utc : ℕ → List Byte} {s s' t : State}

/-- The lookup reads through no null mark, and what it returns is the message that was sent with
the number, with the bytes that were passed to the socket for it last. -/
def Safe (s : State) (n : ℕ) : Prop :=
  ∃ t found, s.getSentMsg n = some (t, found) ∧ ∀ m, found = some m →
    ∃ pk ∈ news s.connector.wire, pk.msg.seq = n ∧
      pk.msg.content = .queued m.1.1 m.1.2.dataSeq ∧
      lastPassed s.passed m.1.1 m.1.2.dataSeq = some m.2

lemma Safe.findsOwn {n : ℕ} (h : Safe s n) : FindsOwn s.connector n := by
  obtain ⟨t, found, hget, hfound⟩ := h
  obtain ⟨r, hr, heq⟩ := Option.map_eq_some_iff.mp hget
  cases heq
  refine ⟨r.1, r.2, hr, fun q info hq => ?_⟩
  obtain ⟨pk, hpk, hn, hc, -⟩ := hfound _ (congrArg (Option.map _) hq)
  exact ⟨pk, hpk, hn, hc⟩

/-! ### Whatever was sent was passed to the socket -/

/-- Of every message that `send_data` passed to the socket there are bytes. -/
def AllPassed (s : State) : Prop :=
  ∀ i d, SentBefore s.connector.wire i d → lastPassed s.passed i d ≠ none

lemma lastPassed_concat_ne_none {passed : List Passed} {i d : ℕ} (m : Passed)
    (h : lastPassed passed i d ≠ none) : lastPassed (passed ++ [m]) i d ≠ none := by
  rw [lastPassed_concat]
  split
  · simp
  · exact h

lemma sendSequenceReset_passed {b e : ℕ} {ok : ℕ → Bool} {i d : ℕ} (hb : b < 2 ^ 64)
    (hr : SlotBytes.sendSequenceReset o utc s b e ok = some s')
    (h : lastPassed s.passed i d ≠ none) : lastPassed s'.passed i d ≠ none := by
  obtain ⟨⟨t, outs⟩, hloop, rfl⟩ := Option.map_eq_some_iff.mp hr
  refine resendInPlace_inv (P := fun t => lastPassed t.passed i d ≠ none)
    (fun k _ u v r hu hget => ?_) hb h hloop
  obtain ⟨x, -, heq⟩ := Option.map_eq_some_iff.mp hget
  cases heq
  refine ⟨hu, fun m _ j w y hy => ?_⟩
  obtain ⟨msg, -, heq⟩ := Option.map_eq_some_iff.mp hy
  cases heq
  exact lastPassed_concat_ne_none _ hu

lemma step_allPassed {a : SlotBytes.Act} (h : AllPassed s)
    (hs : SlotBytes.step o utc s a = some s') : AllPassed s' := by
  intro i d hsent
  cases step_bytes hs with
  | built he =>
    rw [he] at hsent ⊢
    exact h i d hsent
  | added _ _ _ _ hp hw =>
    rw [hp]
    exact h i d (hw ▸ hsent)
  | quiet _ _ _ hp hw hnew =>
    rw [hp]
    rw [hw, sentBefore_append] at hsent
    rcases hsent with hsent | ⟨pk, hpk, hc⟩
    · exact h i d hsent
    · rw [hnew pk (List.mem_of_mem_filter hpk)] at hc
      cases hc
  | sent _ _ _ _ _ hp hw =>
    rw [hp]
    rw [hw, sentBefore_append] at hsent
    rcases hsent with hsent | ⟨pk, hpk, hc⟩
    · exact lastPassed_concat_ne_none _ (h i d hsent)
    · rw [news_new, List.mem_singleton] at hpk
      rw [hpk] at hc
      cases hc
      rw [lastPassed_concat, if_pos ⟨rfl, rfl⟩]
      simp
  | @resent b e ok hr =>
    refine sendSequenceReset_passed b.toNat_lt hr (h i d ?_)
    obtain ⟨⟨t, outs⟩, -, rfl⟩ := Option.map_eq_some_iff.mp hr
    exact (sentBefore_append.mp hsent).resolve_right (not_sentBefore_resend _ i d)

/-! ### The lookup -/

/-- A message found is the one sent, with its bytes, if its number is right and no later message
lies over it. -/
lemma FoundWhole.safe {L : List Byte → Prop} (hk : Kept L s) (hp : AllPassed s) {n : ℕ}
    (hwhole : FoundWhole s n) (h : FindsOwn s.connector n) : Safe s n := by
  obtain ⟨t, found, hget, hfound⟩ := h
  refine ⟨s.setSession t, found.map fun m => (m, s.bytes m.1 m.2.dataSeq), ?_, fun m hm => ?_⟩
  · rw [State.getSentMsg, hget, Option.map_some]
  obtain ⟨⟨q, info⟩, rfl, rfl⟩ := Option.map_eq_some_iff.mp hm
  obtain ⟨pk, hpk, hn, hc⟩ := hfound q info rfl
  refine ⟨pk, hpk, hn, hc, ?_⟩
  -- where the lookup found it
  have hres : Session.resolve s.connector.session.sentMarks n = .data q info.dataSeq ∧
      ((s.queue q).msgsQueue (s.index q info.dataSeq)).dataSeq = info.dataSeq := by
    simp only [Session.getSentMsg] at hget
    cases hr : Session.resolve s.connector.session.sentMarks n with
    | null => rw [hr] at hget; cases hget
    | notData => rw [hr] at hget; cases hget
    | data q' d =>
      rw [hr] at hget
      simp only [Option.some.injEq, Prod.mk.injEq, Option.map_eq_some_iff] at hget
      obtain ⟨-, info', hslot, rfl, rfl⟩ := hget
      rw [SendQueue.getSentMsg_snd] at hslot
      split at hslot
      · next hd =>
        cases hslot
        rw [hd]
        exact ⟨rfl, hd⟩
      · cases hslot
  rw [FoundWhole, hres.1] at hwhole
  obtain ⟨h1, hw⟩ := hwhole hres.2
  obtain ⟨x, hx⟩ := Option.ne_none_iff_exists'.mp (hp q info.dataSeq ⟨pk, hpk, hc⟩)
  have hheld := hk.held q (s.index q info.dataSeq) (by omega) hw
  rw [hres.2] at hheld
  rw [hx, ← hheld.last x hx]
  rfl

lemma run_sentBytes (hW : 1 ≤ o.windowMarkSize) {lastQ : ℤ} {mem : ℕ → ℕ → Byte}
    {acts : List SlotBytes.Act} (htaken : ∀ a, .act a ∈ acts → Taken a)
    (hrun : run (SlotBytes.step o utc) (SlotBytes.boot o M PManager.empty lastQ mem) acts =
      some s) : Sent o M s.connector ∧ AllPassed s := by
  have hmem : ∀ a ∈ acts, ∀ b, a = .act b → Taken b := by
    rintro a ha b rfl
    exact htaken b ha
  refine run_induct (P := fun s => Sent o M s.connector ∧ AllPassed s) ?_
    ⟨boot_sent lastQ, fun i d hsent => absurd hsent (not_sentBefore_nil i d)⟩
    (meets_of_mem hmem _) hrun
  rintro s a s' ⟨h, hp⟩ ha hs
  refine ⟨?_, step_allPassed hp hs⟩
  rcases a with ⟨i, data⟩ | a
  · cases step_bytes hs with
    | built he => exact he ▸ h
  · exact step_sent hW h (ha a rfl) (step_sender hs)

/-- A Logon and three messages, of which all are sent and two are sent again. -/
def threeSentAgain : List SlotBytes.Act :=
  [.act (.logon 0 true), .act (.addMsg 1 order), .act (.addMsg 1 order), .build 1 order,
    .act (.addMsg 1 order), .act (.data 1 true), .act (.data 1 true), .act (.data 1 true),
    .act (.resend 1 3 fun _ => true)]

/-- The process that ran them. -/
def afterAgain : State :=
  (run (SlotBytes.step fourSlots noon) (fresh fourSlots) threeSentAgain).get (by decide +kernel)

lemma run_afterAgain :
    run (SlotBytes.step fourSlots noon) (fresh fourSlots) threeSentAgain = some afterAgain :=
  (Option.some_get _).symm

/-- The third message lies over the first one, whose number is answered with other bytes. -/
example :
    (run (SlotBytes.step shortSlots noon) (fresh shortSlots)
      [.act (.logon 0 true), .act (.addMsg 1 order), .act (.data 1 true), .act (.addMsg 1 order),
        .act (.addMsg 1 order)]).map (fun s => (s.getSentMsg 2).map fun r =>
          r.2.map fun m => (m.1.2.dataSeq, decide (lastPassed s.passed 1 1 = some m.2),
            decide (m.2 = order))) = some (some (some (1, false, true))) := by
  decide +kernel

end Ufix.SentBytes
