import Ufix.Marks

/-!
Histories of a session: processes one after the other, each ended by a crash.

A crash falls between two steps, or inside `send_msg`, after the mark of a new message was
written and before the socket was asked. What outlives a process are its files.
-/

namespace Ufix.History

open Ufix.Runs Ufix.Sender Ufix.Marks PManager

/-- The files, and every message that was ever passed to the socket. -/
structure World where
  files : PManager
  sent : List Packet

def World.empty : World := ⟨PManager.empty, []⟩

/-- The new message whose sending a crash interrupts. -/
inductive Cut
  | session (junk : ℕ)
  | data (i : ℕ)

/-- A process: what the memory of `last_q_index_sent` held, its actions, and how it ended. -/
structure Life where
  lastQ : ℤ
  acts : List Act
  cut : Option Cut

variable (o : SessionOption) (M : ℕ)

def boot (files : PManager) (lastQ : ℤ) : SocketConnector where
  session := Session.init o M files lastQ
  socketSendFlag := true
  logonSent := false
  wire := []

def Cut.msg (p : SocketConnector) : Cut → Option WMsg
  | .session junk => some (p.sessionMsg junk)
  | .data i => if p.logonSent ∧ IsQueue o i then p.queuedMsg i else none

def crash (p : SocketConnector) : Option Cut → Option PManager
  | none => some p.session.pManager
  | some cut => (cut.msg o p).map fun msg => (p.session.writeMsgSent o msg true).pManager

def lifeStep (w : World) (l : Life) : Option World :=
  (run (step o) (boot o M w.files l.lastQ) l.acts).bind fun p =>
    (crash o p l.cut).map fun files => ⟨files, w.sent ++ p.wire⟩

variable {o M}

lemma lifeStep_eq_some {w w' : World} {l : Life} :
    lifeStep o M w l = some w' ↔
      ∃ p files, run (step o) (boot o M w.files l.lastQ) l.acts = some p ∧
        crash o p l.cut = some files ∧ w' = ⟨files, w.sent ++ p.wire⟩ := by
  simp only [lifeStep, Option.bind_eq_some_iff, Option.map_eq_some_iff]
  constructor
  · rintro ⟨p, hp, files, hf, rfl⟩
    exact ⟨p, files, hp, hf, rfl⟩
  · rintro ⟨p, files, hp, hf, rfl⟩
    exact ⟨p, hp, files, hf, rfl⟩

/-- A crash leaves the files as they are, or with the mark of one message that would have been
the next. -/
lemma crash_cases {p : SocketConnector} {cut : Option Cut} {files : PManager}
    (h : crash o p cut = some files) :
    cut = none ∧ files = p.session.pManager ∨
      ∃ c msg, cut = some c ∧ c.msg o p = some msg ∧ msg.seq = p.session.msgSeq ∧
        (p.logonSent = true ∨ msg.qIndex = queueSession) ∧
        files = (afterSend o p.session msg false).pManager := by
  cases cut with
  | none => exact Or.inl ⟨rfl, (Option.some.inj h).symm⟩
  | some c =>
    obtain ⟨msg, hm, rfl⟩ := Option.map_eq_some_iff.mp h
    refine Or.inr ⟨c, msg, rfl, hm, ?_, ?_, rfl⟩
    · cases c with
      | session junk => cases hm; rfl
      | data i =>
        simp only [Cut.msg] at hm
        split at hm
        · obtain ⟨info, -, rfl⟩ := Option.map_eq_some_iff.mp hm
          rfl
        · cases hm
    · cases c with
      | session junk => cases hm; exact Or.inr rfl
      | data i =>
        simp only [Cut.msg] at hm
        split at hm
        · next hl => exact Or.inl hl.1
        · cases hm

lemma boot_numbering (files : PManager) (lastQ : ℤ) :
    Numbering o (Session.startSeq o M files) files.seqsSent (boot o M files lastQ) := by
  refine ⟨?_, le_rfl, fun _ => ⟨rfl, rfl, rfl⟩, nofun, nofun⟩
  change 1 ≤ Session.startSeq o M files
  simp only [Session.startSeq]
  split <;> omega

/-- Every new message had a number below the one the next process starts from. -/
def UsedBelow (o : SessionOption) (M : ℕ) (w : World) : Prop :=
  ∀ pk ∈ news w.sent, pk.msg.seq < Session.startSeq o M w.files

lemma lifeStep_usedBelow (hW : 1 ≤ o.windowMarkSize) {w w' : World} {l : Life}
    (h : UsedBelow o M w) (hl : lifeStep o M w l = some w') : UsedBelow o M w' := by
  obtain ⟨p, files, hp, hf, rfl⟩ := lifeStep_eq_some.mp hl
  have hn := run_numbering (boot_numbering w.files l.lastQ) hp
  -- with the marks in order, the counter is past every number and the next start past it
  have hmarked : ∀ s : Session, Marked o s → s.msgSeq = p.session.msgSeq →
      s.pManager = files → UsedBelow o M ⟨files, w.sent ++ p.wire⟩ := by
    intro s hs hc hfile pk hpk
    have hlt := hs.lt_startSeq hW (M := M)
    rw [hfile, hc] at hlt
    rw [news_append] at hpk
    rcases List.mem_append.mp hpk with hpk | hpk
    · exact (h pk hpk).trans_le (hn.start_le.trans hlt.le)
    · exact (hn.used pk hpk).trans_lt hlt
  rcases crash_cases hf with ⟨-, rfl⟩ | ⟨c, msg, -, -, hseq, hm, rfl⟩
  · cases hb : p.logonSent with
    | true => exact hmarked _ (hn.after hb) rfl rfl
    | false =>
      -- nothing was sent in this process
      obtain ⟨-, hrecs, hnews⟩ := hn.before hb
      intro pk hpk
      have hstart : Session.startSeq o M p.session.pManager = Session.startSeq o M w.files := by
        simp [Session.startSeq, hrecs]
      rw [news_append, hnews, List.append_nil] at hpk
      rw [hstart]
      exact h pk hpk
  · exact hmarked _ (afterSend_marked false hseq hn.pos (hm.imp_left hn.after)) (by simp) rfl

/-- **No number is given twice across restarts.** After any history of processes the number
`init_p_manager` starts from is greater than every number a new message was passed to the
socket with. -/
theorem startSeq_gt_used (hW : 1 ≤ o.windowMarkSize) {ls : List Life} {w : World}
    (h : run (lifeStep o M) World.empty ls = some w) :
    ∀ pk ∈ w.sent, pk.isNew = true → pk.msg.seq < Session.startSeq o M w.files := by
  have hw : UsedBelow o M w :=
    run_induct (fun _ _ _ hu _ hl => lifeStep_usedBelow hW hu hl) (s := World.empty) nofun
      (meets_of_forall (fun _ _ => trivial) _ ls) h
  intro pk hpk hnew
  exact hw pk (List.mem_filter.mpr ⟨hpk, hnew⟩)

/-- The first process loses its connection and crashes with a mark written ahead, the second
one sends its Logon. -/
def twoProcesses : List Life :=
  [⟨0, [.logon 0 true, .addMsg 1 [], .data 1 false, .reconnect, .logon 0 true],
    some (.session 0)⟩, ⟨0, [.logon 0 true], none⟩]

theorem startSeq_gt_used_twoProcesses :
    ∃ w, run (lifeStep .oneQueue 8) World.empty twoProcesses = some w ∧
      ∀ pk ∈ w.sent, pk.isNew = true → pk.msg.seq < Session.startSeq .oneQueue 8 w.files := by
  obtain ⟨w, hw⟩ := Option.isSome_iff_exists.mp
    (rfl : (run (lifeStep .oneQueue 8) World.empty twoProcesses).isSome = true)
  exact ⟨w, hw, startSeq_gt_used (by decide) hw⟩

end Ufix.History
