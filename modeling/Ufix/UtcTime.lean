import Mathlib.Logic.Function.Basic
import Ufix.Compose
import Ufix.Runs

/-!
The clock of a session: the timer thread writes the time, others copy it while it goes on.

There are eight buffers. An update fills the one behind the current one byte by byte and then makes
it the current one; a reader takes the number of the current one and copies from it, without a lock.
`gmtime` leaves its result in memory of its own, which the next call overwrites, from whatever
thread.
-/

namespace Ufix.UtcTime

open Decimal Runs Compose

/-! ### The time as text -/

/-- `struct tm`, with months from `0` on and years from `1900` on. -/
structure Tm where
  year : ℕ
  mon : ℕ
  mday : ℕ
  hour : ℕ
  min : ℕ
  sec : ℕ
  deriving DecidableEq

/-- A day of four hundred years that begin in March: the year, the month and the day of it. -/
def civil (dayOfEra : ℕ) : ℕ × ℕ × ℕ :=
  let century := min (dayOfEra / 36524) 3
  let dayOfCentury := dayOfEra - 36524 * century
  let dayOfFour := dayOfCentury % 1461
  let year := min (dayOfFour / 365) 3
  let dayOfYear := dayOfFour - 365 * year
  let month := (5 * dayOfYear + 2) / 153
  (100 * century + 4 * (dayOfCentury / 1461) + year, month,
    dayOfYear - (153 * month + 2) / 5 + 1)

/-- `gmtime`, for the seconds since 1970; it has no leap seconds. -/
def gmtime (ts : ℕ) : Tm :=
  let days := ts / 86400 + 719468
  let date := civil (days % 146097)
  { year := 400 * (days / 146097) + date.1 + date.2.1 / 10 - 1900
    mon := (date.2.1 + 2) % 12
    mday := date.2.2
    hour := ts % 86400 / 3600
    min := ts % 3600 / 60
    sec := ts % 60 }

/-- `%0wd`. -/
def zeroPadded (w n : ℕ) : List Byte := padded (max w (width n)) n

/-- `"%04d%02d%02d-%02d:%02d:%02d.%03d"`. -/
def utcText (tm : Tm) : List Byte :=
  zeroPadded 4 (tm.year + 1900) ++ zeroPadded 2 (tm.mon + 1) ++ zeroPadded 2 tm.mday ++
    45 :: zeroPadded 2 tm.hour ++ 58 :: zeroPadded 2 tm.min ++
    58 :: zeroPadded 2 (if tm.sec < 60 then tm.sec else 59) ++ 46 :: zeroPadded 3 0

/-- What `sprintf` writes. -/
def line (tm : Tm) : List Byte := utcText tm ++ [0]

/-- The first second of the year `10000`. -/
def year10000 : ℕ := 253402300800

lemma zeroPadded_of_lt {w n : ℕ} (hw : 1 ≤ w) (h : n < 10 ^ w) : zeroPadded w n = padded w n := by
  rw [zeroPadded, max_eq_left (width_le hw h)]

/-- The last months are those of the next year. -/
lemma civil_bounds {d : ℕ} (h : d < 146097) :
    ((civil d).1 + (civil d).2.1 / 10 ≤ 399 ∨ 146037 ≤ d) ∧ (civil d).1 ≤ 399 ∧
      (civil d).2.1 ≤ 11 ∧ (civil d).2.2 ≤ 31 := by
  simp only [civil]
  generalize hcentury : min (d / 36524) 3 = century
  generalize hday : d - 36524 * century = day
  generalize hfour : day % 1461 = four
  generalize hyear : min (four / 365) 3 = year
  generalize hdoy : four - 365 * year = doy
  generalize hmonth : (5 * doy + 2) / 153 = month
  have hday_le : day ≤ 36524 := by omega
  have hdoy_le : doy ≤ 365 := by omega
  have hfours : day / 1461 ≤ 24 := by omega
  have hmonth_le : month ≤ 11 := by omega
  refine ⟨?_, by omega, hmonth_le, by omega⟩
  by_contra hn
  -- only the last two months of the last year are too late
  have hlast : century = 3 ∧ day / 1461 = 24 ∧ year = 3 ∧ month / 10 = 1 := by omega
  omega

lemma days_lt {ts : ℕ} (h : ts < year10000) :
    (ts / 86400 + 719468) / 146097 < 24 ∨
      (ts / 86400 + 719468) / 146097 = 24 ∧ (ts / 86400 + 719468) % 146097 < 146037 := by
  unfold year10000 at h
  omega

lemma gmtime_date (ts : ℕ) :
    ∃ era day, era = (ts / 86400 + 719468) / 146097 ∧ day = (ts / 86400 + 719468) % 146097 ∧
      (gmtime ts).year = 400 * era + (civil day).1 + (civil day).2.1 / 10 - 1900 ∧
      (gmtime ts).mon = ((civil day).2.1 + 2) % 12 ∧ (gmtime ts).mday = (civil day).2.2 :=
  ⟨_, _, rfl, rfl, rfl, rfl, rfl⟩

lemma gmtime_bounds {ts : ℕ} (h : ts < year10000) :
    (gmtime ts).year + 1900 < 10 ^ 4 ∧ (gmtime ts).mon + 1 < 10 ^ 2 ∧ (gmtime ts).mday < 10 ^ 2 ∧
      (gmtime ts).hour < 10 ^ 2 ∧ (gmtime ts).min < 10 ^ 2 ∧ (gmtime ts).sec < 60 := by
  obtain ⟨era, day, hera, hday, hyear, hmon, hmday⟩ := gmtime_date ts
  have hlast := days_lt h
  have hlt : day < 146097 := hday ▸ Nat.mod_lt _ (by omega)
  rw [← hera, ← hday] at hlast
  obtain ⟨hcivil, hcivil', hmonth, hmday'⟩ := civil_bounds hlt
  have hhour : (gmtime ts).hour = ts % 86400 / 3600 := rfl
  have hmin : (gmtime ts).min = ts % 3600 / 60 := rfl
  have hsec : (gmtime ts).sec = ts % 60 := rfl
  rw [hyear, hmon, hmday, hhour, hmin, hsec]
  omega

lemma utcText_fits {ts : ℕ} (h : ts < year10000) :
    (utcText (gmtime ts)).length = sendingTimeSize ∧ soh ∉ utcText (gmtime ts) := by
  obtain ⟨hyear, hmon, hmday, hhour, hmin, hsec⟩ := gmtime_bounds h
  have hzero : (0 : ℕ) < 10 ^ 3 := by decide
  have hsoh : ∀ w n, soh ∉ padded w n := fun w n => soh_of_isDigit fun b => isDigit_of_mem_padded
  rw [utcText, if_pos hsec, zeroPadded_of_lt (by decide) hyear, zeroPadded_of_lt (by decide) hmon,
    zeroPadded_of_lt (by decide) hmday, zeroPadded_of_lt (by decide) hhour,
    zeroPadded_of_lt (by decide) hmin, zeroPadded_of_lt (by decide) (hsec.trans (by decide)),
    zeroPadded_of_lt (by decide) hzero]
  constructor
  · simp only [List.length_append, List.length_cons, padded_length]
    rfl
  · simp only [List.mem_append, List.mem_cons, hsoh, or_false, false_or]
    decide

/-! ### Two threads -/

def numTimestamp : ℕ := 8

/-- The buffers, each with what is behind it in the memory. -/
structure Clock where
  utcTime : ℕ → ℕ → Byte
  timestamp : ℕ → ℕ
  currentIndex : ℤ

def Clock.newIndex (c : Clock) : ℤ :=
  if c.currentIndex + 1 = numTimestamp then 0 else c.currentIndex + 1

/-- One that has read `current_index` and copies the text. -/
structure Reader where
  index : ℕ
  copied : List Byte
  /-- how many updates had been made -/
  seen : ℕ

/-- Where an update stands. -/
inductive Writing
  /-- `gmtime` has returned -/
  | called (ts : ℕ)
  /-- `sprintf` has written `n` bytes of the text -/
  | text (ts : ℕ) (text : List Byte) (n : ℕ)

structure State where
  clock : Clock
  /-- where the results of `gmtime` lie -/
  tm : Tm
  writing : Option Writing
  reader : Option Reader
  updates : List ℕ

inductive Act
  /-- `update_utc_time` begins, at time `ts`, and calls `gmtime` -/
  | begin (ts : ℕ)
  /-- `sprintf` is called with what the pointer leads to -/
  | readTm
  /-- `sprintf` writes one byte more -/
  | writeByte
  /-- the new index is set -/
  | publish
  | getUtcTime
  | copyByte
  /-- another thread formats the time of a line that it logs -/
  | formatTime (ts : ℕ)

def step (s : State) : Act → Option State
  | .begin ts =>
    match s.writing with
    | none => some { s with
        clock := { s.clock with
          timestamp := Function.update s.clock.timestamp s.clock.newIndex.toNat ts }
        tm := gmtime ts
        writing := some (.called ts) }
    | some _ => none
  | .readTm =>
    match s.writing with
    | some (.called ts) => some { s with writing := some (.text ts (line s.tm) 0) }
    | _ => none
  | .writeByte =>
    match s.writing with
    | some (.text ts text n) =>
      (text[n]?).map fun b => { s with
        clock := { s.clock with
          utcTime := Function.update s.clock.utcTime s.clock.newIndex.toNat
            (Function.update (s.clock.utcTime s.clock.newIndex.toNat) n b) }
        writing := some (.text ts text (n + 1)) }
    | _ => none
  | .publish =>
    match s.writing with
    | some (.text ts text n) =>
      if n = text.length then
        some { s with
          clock := { s.clock with currentIndex := s.clock.newIndex }
          writing := none
          updates := s.updates ++ [ts] }
      else none
    | _ => none
  | .getUtcTime =>
    -- the constructor of the session makes the first update
    if s.clock.currentIndex < 0 then none
    else some { s with
      reader := some ⟨s.clock.currentIndex.toNat, [], s.updates.length⟩ }
  | .copyByte =>
    match s.reader with
    | none => none
    | some r =>
      if r.copied.length < sendingTimeSize then
        some { s with reader := some { r with
          copied := r.copied ++ [s.clock.utcTime r.index r.copied.length] } }
      else none
  | .formatTime ts => some { s with tm := gmtime ts }

/-- The constructor of the clock. -/
def start (utcTime : ℕ → ℕ → Byte) (timestamp : ℕ → ℕ) (tm : Tm) : State where
  clock := ⟨utcTime, timestamp, -1⟩
  tm := tm
  writing := none
  reader := none
  updates := []

/-- No other thread calls `gmtime` between the call of an update and its `sprintf`. -/
def Orderly (s : State) : Act → Prop
  | .begin ts => ts < year10000
  | .formatTime _ =>
    match s.writing with
    | some (.called _) => False
    | _ => True
  | _ => True

instance (s : State) : DecidablePred (Orderly s)
  | .begin ts => inferInstanceAs (Decidable (ts < year10000))
  | .formatTime _ => by
    unfold Orderly
    rcases s.writing with _ | _ | _ <;> infer_instance
  | .readTm | .writeByte | .publish | .getUtcTime | .copyByte => inferInstanceAs (Decidable True)

/-! ### What the buffers hold -/

def Holds (buf : ℕ → Byte) (text : List Byte) : Prop := ∀ i b, text[i]? = some b → buf i = b

/-- Of the last updates, the text and the number are in the buffer of each; the one that is being
made is in the buffer of none of them. -/
structure Inv (s : State) : Prop where
  index : s.clock.currentIndex = if s.updates = [] then -1
    else (((s.updates.length - 1) % numTimestamp : ℕ) : ℤ)
  kept : ∀ i ts, s.updates[i]? = some ts → s.updates.length < i + numTimestamp →
    Holds (s.clock.utcTime (i % numTimestamp)) (line (gmtime ts)) ∧
      s.clock.timestamp (i % numTimestamp) = ts
  called : ∀ ts, s.writing = some (.called ts) → s.tm = gmtime ts ∧ ts < year10000 ∧
    s.clock.timestamp (s.updates.length % numTimestamp) = ts
  written : ∀ ts text n, s.writing = some (.text ts text n) →
    text = line (gmtime ts) ∧ ts < year10000 ∧ n ≤ text.length ∧
    Holds (s.clock.utcTime (s.updates.length % numTimestamp)) (text.take n) ∧
    s.clock.timestamp (s.updates.length % numTimestamp) = ts
  read : ∀ r, s.reader = some r → 0 < r.seen ∧ r.seen ≤ s.updates.length ∧
    r.index = (r.seen - 1) % numTimestamp ∧ r.copied.length ≤ sendingTimeSize ∧
    (s.updates.length < r.seen + (numTimestamp - 1) →
      ∃ ts, s.updates[r.seen - 1]? = some ts ∧
        r.copied = (line (gmtime ts)).take r.copied.length)
  times : ∀ ts ∈ s.updates, ts < year10000

variable {s t : State}

lemma Inv.newIndex (h : Inv s) :
    s.clock.newIndex = ((s.updates.length % numTimestamp : ℕ) : ℤ) := by
  have hindex := h.index
  unfold Clock.newIndex numTimestamp at *
  split at hindex
  · rename_i hnil
    rw [hindex, hnil]
    rfl
  · rename_i hne
    have := List.length_pos_iff.mpr hne
    rw [hindex]
    split <;> omega

lemma slot_ne {i n : ℕ} (h1 : i < n) (h2 : n < i + numTimestamp) :
    i % numTimestamp ≠ n % numTimestamp := by
  unfold numTimestamp at *
  omega

lemma Holds.write {buf : ℕ → Byte} {text : List Byte} {n : ℕ} {b : Byte}
    (h : Holds buf (text.take n)) (hb : text[n]? = some b) :
    Holds (Function.update buf n b) (text.take (n + 1)) := by
  intro i c hc
  rw [List.getElem?_take] at hc
  split at hc
  · rename_i hlt
    rcases Nat.lt_succ_iff_lt_or_eq.mp hlt with hlt | rfl
    · rw [Function.update_of_ne (Nat.ne_of_lt hlt)]
      exact h i c (by rw [List.getElem?_take, if_pos hlt, hc])
    · rw [Function.update_self]
      exact Option.some.inj (hb.symm.trans hc)
  · cases hc

lemma begin_inv (h : Inv s) {ts : ℕ} (hts : ts < year10000) :
    Inv { s with
      clock := { s.clock with
        timestamp := Function.update s.clock.timestamp s.clock.newIndex.toNat ts }
      tm := gmtime ts
      writing := some (.called ts) } where
  index := h.index
  kept := by
    intro i t hi hlate
    have hlt := (List.getElem?_eq_some_iff.mp hi).1
    obtain ⟨htext, hstamp⟩ := h.kept i t hi hlate
    refine ⟨htext, ?_⟩
    rw [h.newIndex, Int.toNat_natCast]
    exact (Function.update_of_ne (slot_ne hlt hlate) ..).trans hstamp
  called := by
    intro t hw
    cases hw
    refine ⟨rfl, hts, ?_⟩
    rw [h.newIndex, Int.toNat_natCast]
    exact Function.update_self ..
  written := by
    intro t text n hw
    cases hw
  read := h.read
  times := h.times

lemma readTm_inv (h : Inv s) {ts : ℕ} (hw : s.writing = some (.called ts)) :
    Inv { s with writing := some (.text ts (line s.tm) 0) } where
  index := h.index
  kept := h.kept
  called := by
    intro t hw'
    cases hw'
  written := by
    intro t text n hw'
    cases hw'
    obtain ⟨htm, hts, hstamp⟩ := h.called ts hw
    exact ⟨by rw [htm], hts, Nat.zero_le _, fun i b hb => by simp at hb, hstamp⟩
  read := h.read
  times := h.times

lemma writeByte_inv (h : Inv s) {ts n : ℕ} {text : List Byte} {b : Byte}
    (hw : s.writing = some (.text ts text n)) (hb : text[n]? = some b) :
    Inv { s with
      clock := { s.clock with
        utcTime := Function.update s.clock.utcTime s.clock.newIndex.toNat
          (Function.update (s.clock.utcTime s.clock.newIndex.toNat) n b) }
      writing := some (.text ts text (n + 1)) } where
  index := h.index
  kept := by
    intro i t hi hlate
    have hlt := (List.getElem?_eq_some_iff.mp hi).1
    obtain ⟨htext, hstamp⟩ := h.kept i t hi hlate
    refine ⟨?_, hstamp⟩
    rw [h.newIndex, Int.toNat_natCast]
    show Holds (Function.update s.clock.utcTime _ _ _) _
    rw [Function.update_of_ne (slot_ne hlt hlate)]
    exact htext
  called := by
    intro t hw'
    cases hw'
  written := by
    intro t text' k hw'
    cases hw'
    obtain ⟨hline, hts, -, htext, hstamp⟩ := h.written ts text n hw
    refine ⟨hline, hts, (List.getElem?_eq_some_iff.mp hb).1, ?_, hstamp⟩
    rw [h.newIndex, Int.toNat_natCast]
    show Holds (Function.update s.clock.utcTime _ _ _) _
    rw [Function.update_self]
    exact htext.write hb
  read := h.read
  times := h.times

lemma publish_inv (h : Inv s) {ts : ℕ} {text : List Byte}
    (hw : s.writing = some (.text ts text text.length)) :
    Inv { s with
      clock := { s.clock with currentIndex := s.clock.newIndex }
      writing := none
      updates := s.updates ++ [ts] } where
  index := by
    simp [h.newIndex]
  kept := by
    intro i t hi hlate
    rw [List.length_append, List.length_singleton] at hlate
    rcases lt_or_ge i s.updates.length with hlt | hge
    · rw [List.getElem?_append_left hlt] at hi
      exact h.kept i t hi (by omega)
    · obtain ⟨hline, -, -, htext, hstamp⟩ := h.written ts text _ hw
      rw [List.getElem?_append_right hge] at hi
      have hi0 : i - s.updates.length = 0 := by
        have := (List.getElem?_eq_some_iff.mp hi).1
        rw [List.length_singleton] at this
        omega
      rw [hi0] at hi
      cases hi
      have hi : i = s.updates.length := by omega
      subst hi
      rw [List.take_length, hline] at htext
      exact ⟨htext, hstamp⟩
  called := by
    intro t hw'
    cases hw'
  written := by
    intro t text n hw'
    cases hw'
  read := by
    intro r hr
    obtain ⟨hpos, hle, hindex, hlen, hcopied⟩ := h.read r hr
    rw [List.length_append, List.length_singleton]
    refine ⟨hpos, by omega, hindex, hlen, fun hlate => ?_⟩
    obtain ⟨t, ht, hc⟩ := hcopied (by omega)
    refine ⟨t, ?_, hc⟩
    rw [List.getElem?_append_left (by omega)]
    exact ht
  times := by
    intro t ht
    rcases List.mem_append.mp ht with ht | ht
    · exact h.times t ht
    · rw [List.mem_singleton.mp ht]
      exact (h.written _ _ _ hw).2.1

lemma getUtcTime_inv (h : Inv s) (hne : ¬ s.clock.currentIndex < 0) :
    Inv { s with reader := some ⟨s.clock.currentIndex.toNat, [], s.updates.length⟩ } where
  index := h.index
  kept := h.kept
  called := h.called
  written := h.written
  read := by
    intro r hr
    cases hr
    have hindex := h.index
    split at hindex
    · rw [hindex] at hne
      exact absurd (by decide) hne
    · rename_i hnil
      have hpos := List.length_pos_iff.mpr hnil
      refine ⟨hpos, le_rfl, by rw [hindex, Int.toNat_natCast], Nat.zero_le _, fun _ => ?_⟩
      have hlast : s.updates.length - 1 < s.updates.length := Nat.sub_lt hpos Nat.one_pos
      exact ⟨s.updates[s.updates.length - 1], List.getElem?_eq_getElem hlast, rfl⟩
  times := h.times

lemma copyByte_inv (h : Inv s) {r : Reader} (hr : s.reader = some r)
    (hlt : r.copied.length < sendingTimeSize) :
    Inv { s with reader := some { r with
      copied := r.copied ++ [s.clock.utcTime r.index r.copied.length] } } where
  index := h.index
  kept := h.kept
  called := h.called
  written := h.written
  read := by
    intro r' hr'
    cases hr'
    obtain ⟨hpos, hle, hindex, hlen, hcopied⟩ := h.read r hr
    rw [List.length_append, List.length_singleton]
    refine ⟨hpos, hle, hindex, hlt, fun hlate => ?_⟩
    replace hlate : s.updates.length < r.seen + (numTimestamp - 1) := hlate
    obtain ⟨ts, hts, hc⟩ := hcopied hlate
    refine ⟨ts, hts, ?_⟩
    have hkept : s.updates.length < r.seen - 1 + numTimestamp := by
      unfold numTimestamp at *
      omega
    obtain ⟨htext, -⟩ := h.kept _ ts hts hkept
    have hline : r.copied.length < (line (gmtime ts)).length := by
      have := (utcText_fits (h.times ts (List.mem_of_getElem? hts))).1
      rw [line, List.length_append]
      omega
    have hbyte := htext _ _ (List.getElem?_eq_getElem hline)
    rw [hindex, hbyte, List.take_add_one, List.getElem?_eq_getElem hline, Option.toList_some, ← hc]
  times := h.times

lemma formatTime_inv (h : Inv s) (ts : ℕ) (hno : ∀ t, s.writing ≠ some (.called t)) :
    Inv { s with tm := gmtime ts } :=
  ⟨h.index, h.kept, fun t hw => absurd hw (hno t), h.written, h.read, h.times⟩

lemma step_inv {a : Act} (h : Inv s) (hok : Orderly s a) (hs : step s a = some t) : Inv t := by
  cases a with
  | begin ts =>
    simp only [step] at hs
    split at hs
    · cases hs
      exact begin_inv h hok
    · cases hs
  | readTm =>
    simp only [step] at hs
    split at hs
    · rename_i ts hw
      cases hs
      exact readTm_inv h hw
    · cases hs
  | writeByte =>
    simp only [step] at hs
    split at hs
    · rename_i ts text n hw
      obtain ⟨b, hb, rfl⟩ := Option.map_eq_some_iff.mp hs
      exact writeByte_inv h hw hb
    · cases hs
  | publish =>
    simp only [step] at hs
    split at hs
    · rename_i ts text n hw
      split at hs
      · rename_i hn
        cases hs
        exact publish_inv h (hn ▸ hw)
      · cases hs
    · cases hs
  | formatTime ts =>
    cases hs
    refine formatTime_inv h ts fun t hw => ?_
    rw [Orderly, hw] at hok
    exact hok
  | getUtcTime =>
    simp only [step, Option.ite_none_left_eq_some, Option.some.injEq] at hs
    obtain ⟨hne, rfl⟩ := hs
    exact getUtcTime_inv h hne
  | copyByte =>
    simp only [step] at hs
    split at hs
    · cases hs
    · rename_i r hr
      simp only [Option.ite_none_right_eq_some, Option.some.injEq] at hs
      obtain ⟨hlt, rfl⟩ := hs
      exact copyByte_inv h hr hlt

lemma start_inv (utcTime : ℕ → ℕ → Byte) (timestamp : ℕ → ℕ) (tm : Tm) :
    Inv (start utcTime timestamp tm) where
  index := rfl
  kept := fun i ts hi => by simp [start] at hi
  called := fun ts hw => by simp [start] at hw
  written := fun ts text n hw => by simp [start] at hw
  read := fun r hr => by simp [start] at hr
  times := fun ts hts => by simp [start] at hts

/-- **A time is copied whole**, and it is the one that was the current one when the reader began, as
long as less than seven updates were made meanwhile and no other call of `gmtime` came into one. -/
theorem copied_whole {utcTime : ℕ → ℕ → Byte} {timestamp : ℕ → ℕ} {tm : Tm} {acts : List Act}
    (hm : Meets step Orderly (start utcTime timestamp tm) acts)
    (hr : run step (start utcTime timestamp tm) acts = some s) {r : Reader}
    (hreader : s.reader = some r) (hdone : r.copied.length = sendingTimeSize)
    (hlate : s.updates.length < r.seen + (numTimestamp - 1)) :
    ∃ ts, s.updates[r.seen - 1]? = some ts ∧ r.copied = utcText (gmtime ts) ∧ soh ∉ r.copied := by
  have h := run_induct (P := Inv) (fun _ _ _ hi hok hs => step_inv hi hok hs)
    (start_inv utcTime timestamp tm) hm hr
  obtain ⟨-, -, -, -, hcopied⟩ := h.read r hreader
  obtain ⟨ts, hts, hc⟩ := hcopied hlate
  obtain ⟨hlen, hsoh⟩ := utcText_fits (h.times ts (List.mem_of_getElem? hts))
  have heq : r.copied = utcText (gmtime ts) := by
    rw [hc, hdone, ← hlen, line, List.take_left]
  exact ⟨ts, hts, heq, heq ▸ hsoh⟩

/-- An update at the time `ts`. -/
def update (ts : ℕ) : List Act :=
  [.begin ts, .readTm] ++ List.replicate 22 .writeByte ++ [.publish]

def newClock : State := start (fun _ _ => 0) (fun _ => 0) ⟨0, 0, 0, 0, 0, 0⟩

/-- The reader is overtaken by one update, and lines are logged meanwhile. -/
def overtakenRun : List Act :=
  update 1704067199 ++ [.getUtcTime, .formatTime 1704067199] ++ List.replicate 10 .copyByte ++
    update 1704067200 ++ [.formatTime 1704067200] ++ List.replicate 11 .copyByte

lemma overtakenRun_ends :
    (run step newClock overtakenRun).map
      (fun s => (s.updates, s.reader.map fun r => (r.copied.length, r.seen))) =
        some ([1704067199, 1704067200], some (21, 1)) := by decide +kernel

lemma overtakenRun_orderly : Meets step Orderly newClock overtakenRun := by
  decide +kernel

/-- `20231231-23:59:59.000`, though the new year has begun. -/
theorem copied_whole_overtaken :
    ∃ s r, run step newClock overtakenRun = some s ∧ s.reader = some r ∧
      r.copied = [50, 48, 50, 51, 49, 50, 51, 49, 45, 50, 51, 58, 53, 57, 58, 53, 57, 46, 48, 48,
        48] := by
  obtain ⟨s, hr, hs⟩ := Option.map_eq_some_iff.mp overtakenRun_ends
  obtain ⟨hupdates, hreader⟩ := Prod.mk.inj hs
  obtain ⟨r, hreader, hr'⟩ := Option.map_eq_some_iff.mp hreader
  obtain ⟨hdone, hseen⟩ := Prod.mk.inj hr'
  obtain ⟨ts, hts, hcopied, -⟩ := copied_whole overtakenRun_orderly hr hreader hdone
    (by rw [hupdates, hseen]; decide)
  rw [hupdates, hseen] at hts
  cases hts
  exact ⟨s, r, hr, hreader, hcopied⟩

/-- A line logged within the update, with a time of its own, and that is the time of the clock. -/
example : (run step newClock ([.begin 1704067200, .formatTime 0, .readTm] ++
    List.replicate 22 .writeByte ++ [.publish])).map (fun s =>
      ((List.range 8).map (s.clock.utcTime 0), s.clock.timestamp 0)) =
    some ([49, 57, 55, 48, 48, 49, 48, 49], 1704067200) := by decide +kernel

end Ufix.UtcTime
