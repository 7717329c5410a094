import Ufix.ReceiverBounds
import Ufix.Seek

/-!
The two framers of the acceptor: `is_full_msg`, which waits for the first message, and
`process_new_data`, which the connector then starts with on the same bytes.

One looks for `9=` and goes on to the next `SOH` with an index that is moved before it is used, the
other steps over a version of known length. Both look at the byte behind those received.
-/

namespace Ufix.AcceptorFraming

open Ufix.Decimal Ufix.SkipSearch Ufix.ReceiverBounds

/-- `9=`. -/
def bodyLengthPattern : List Byte := [57, 61]

/-- The loop of `is_full_msg` at `pos`, over the bytes behind that position. -/
def skipToSoh (len : ℤ) : ℤ → List Byte → Option ℤ
  | pos, [] => if pos < len then none else some pos
  | pos, b :: buf =>
    if pos < len then if b = soh then some (pos + 1) else skipToSoh len (pos + 1) buf
    else some pos

def isFullMsg (buf : List Byte) (len : ℤ) : Option ℤ := do
  let found ← seek buf len bodyLengthPattern
  if found < 0 then some 0
  else do
    let msgBodyLengthPos := found + 2
    let pos ← skipToSoh len msgBodyLengthPos (buf.drop (msgBodyLengthPos.toNat + 1))
    if pos ≥ len then some 0
    else do
      let bodyLength ← convertAtoi (buf.drop msgBodyLengthPos.toNat)
      let msgLen := (pos + 1 + bodyLength + checksumSize).bmod (2 ^ 32)
      if len < msgLen then some 0 else some msgLen

/-- `process_new_data` at head `0` finds its first message complete, with length `len`. -/
def FirstComplete (fixVersionLen : ℕ) (mem : List Byte) (tail len : ℤ) : Prop :=
  ∃ pos n, header fixVersionLen mem 0 tail = some (some (pos, n)) ∧ len = wrappedLen 0 pos n ∧
    len ≤ tail

def front (version : List Byte) : List Byte := [56, 61] ++ version ++ soh :: bodyLengthPattern

variable {version digits received more stale ds : List Byte} {len pos : ℤ}

lemma front_length (version : List Byte) : (front version).length = version.length + 5 := by
  simp [front, bodyLengthPattern]

/-! ### Complete -/

lemma cutMsg_wait_iff {mem : List Byte} {head tail msgTypePos msgLen : ℤ} :
    cutMsg mem head tail msgTypePos msgLen = some .wait ↔ tail - head < msgLen := by
  constructor
  · intro h
    obtain ⟨hlt, -⟩ | ⟨-, hr | ⟨-, seq, hr⟩⟩ := cutMsg_some h
    · exact hlt
    · cases hr
    · cases hr
  · intro hlt
    rw [cutMsg, if_pos hlt]

lemma nextMsg_ne_wait_iff {v : ℕ} {mem : List Byte} {tail : ℤ} (hr : header v mem 0 tail ≠ none) :
    nextMsg v mem 0 tail ≠ some .wait ↔ ∃ len, FirstComplete v mem tail len := by
  rw [nextMsg_eq]
  rcases hhead : header v mem 0 tail with - | - | ⟨pos, n⟩
  · exact absurd hhead hr
  · refine iff_of_false (fun h => h rfl) ?_
    rintro ⟨len, pos, n, h, -⟩
    rw [hhead] at h
    cases h
  · rw [Option.bind_some, ne_eq, cutMsg_wait_iff, not_lt, sub_zero]
    constructor
    · exact fun hle => ⟨_, pos, n, hhead, rfl, hle⟩
    · rintro ⟨len, pos', n', h, rfl, hle⟩
      rw [hhead] at h
      cases h
      exact hle

lemma firstComplete_of_msg {v : ℕ} {mem : List Byte} {tail : ℤ} {m : RMessage}
    (h : nextMsg v mem 0 tail = some (.msg m len)) : FirstComplete v mem tail len := by
  obtain ⟨pos, n, hr, hlen, hle⟩ := nextMsg_msg h
  exact ⟨pos, n, hr, hlen, by omega⟩

/-! ### The search for the length -/

lemma not_infix_version (hno : ¬ bodyLengthPattern <:+: version) :
    ¬ bodyLengthPattern <:+: [56, 61] ++ version := by
  intro h
  rcases List.infix_cons_iff.mp h with h | h
  · exact absurd (List.cons_prefix_cons.mp h).1 (by decide)
  · rcases List.infix_cons_iff.mp h with h | h
    · exact absurd (List.cons_prefix_cons.mp h).1 (by decide)
    · exact hno h

lemma met_front (hno : ¬ bodyLengthPattern <:+: version) (rest : List Byte) :
    Met bodyLengthPattern (front version ++ rest) (version.length + 3) := by
  have hsplit : front version ++ rest =
      ([56, 61] ++ version) ++ soh :: (bodyLengthPattern ++ rest) := by simp [front]
  have hmet := met_of_not_infix (b := soh) (by decide) (not_infix_version hno) rest
  have hlen : ([56, 61] ++ version).length + 1 = version.length + 3 := by simp
  rwa [hlen, ← hsplit] at hmet

/-- Before all of its tag is there, it is not met. -/
lemma not_met_of_short (hno : ¬ bodyLengthPattern <:+: version)
    (hpre : received <+: front version ++ more) (hlen : received.length < version.length + 5)
    (i : ℕ) : ¬ Met bodyLengthPattern received i := by
  intro h
  have hfront : front version ++ more = ([56, 61] ++ version ++ soh :: [57]) ++ (61 :: more) := by
    simp [front, bodyLengthPattern]
  rw [hfront] at hpre
  obtain ⟨rest, hrest⟩ := List.prefix_of_prefix_length_le hpre (List.prefix_append _ _)
    (by simp only [List.length_append, List.length_cons, List.length_nil]; omega)
  have hmet := h.append rest
  rw [hrest, met_append_cons (by decide)] at hmet
  rcases hmet with hmet | ⟨-, j, hmet, -⟩
  · exact not_infix_version hno hmet.infix
  · have hlen := hmet.length_le
    simp only [List.length_cons, List.length_nil, bodyLengthPattern] at hlen
    omega

/-! ### The scans -/

lemma skipToSoh_found (hds : soh ∉ ds) (h : pos + 1 + ds.length < len) (rest : List Byte) :
    skipToSoh len pos (ds ++ soh :: rest) = some (pos + 1 + ds.length) := by
  induction ds generalizing pos with
  | nil =>
    simp only [List.length_nil, Nat.cast_zero, add_zero] at h ⊢
    rw [List.nil_append, skipToSoh, if_pos (by omega), if_pos rfl]
  | cons b ds ih =>
    have hb : b ≠ soh := fun he => hds (by simp [he])
    rw [List.length_cons] at h ⊢
    push_cast at h ⊢
    rw [List.cons_append, skipToSoh, if_pos (by omega), if_neg hb,
      ih (fun hm => hds (by simp [hm])) (by omega)]
    congr 1
    omega

/-- Without one among the bytes received, it ends behind them. -/
lemma skipToSoh_stale (hds : soh ∉ ds) (h : pos + 1 + ds.length = len) (hstale : stale ≠ []) :
    skipToSoh len pos (ds ++ stale) = some len := by
  induction ds generalizing pos with
  | nil =>
    obtain ⟨b, l, rfl⟩ := List.exists_cons_of_ne_nil hstale
    simp only [List.length_nil, Nat.cast_zero, add_zero] at h
    subst h
    rw [List.nil_append, skipToSoh, if_pos (by omega)]
    split
    · rfl
    · cases l with
      | nil => rw [skipToSoh, if_neg (by omega)]
      | cons c l => rw [skipToSoh, if_neg (by omega)]
  | cons b ds ih =>
    have hb : b ≠ soh := fun he => hds (by simp [he])
    rw [List.length_cons] at h
    push_cast at h
    rw [List.cons_append, skipToSoh, if_pos (by omega), if_neg hb]
    exact ih (fun hm => hds (by simp [hm])) (by omega)

/-! ### What each framer makes of the bytes received -/

lemma isFullMsg_front (hno : ¬ bodyLengthPattern <:+: version) (ds stale : List Byte) :
    isFullMsg (front version ++ ds ++ stale) (front version ++ ds).length =
      (skipToSoh (front version ++ ds).length (version.length + 5) ((ds ++ stale).drop 1)).bind
        fun pos =>
          if pos ≥ (front version ++ ds).length then some 0
          else (convertAtoi (ds ++ stale)).bind fun bodyLength =>
            let msgLen := (pos + 1 + bodyLength + checksumSize).bmod (2 ^ 32)
            if (front version ++ ds).length < msgLen then some 0 else some msgLen := by
  have hpos : ((version.length + 3 : ℕ) : ℤ) + 2 = version.length + 5 := by
    omega
  have hnat : ((version.length : ℤ) + 5).toNat = (front version).length := by
    rw [front_length]
    omega
  have hdrop : (front version ++ ds ++ stale).drop (front version).length = ds ++ stale := by
    rw [List.append_assoc, List.drop_left]
  rw [isFullMsg, Seek.seek_of_met (met_front hno ds) stale]
  simp only [Option.bind_eq_bind, Option.bind_some]
  rw [if_neg (by omega), hpos, hnat, ← List.drop_drop, hdrop]

lemma isFullMsg_short (hno : ¬ bodyLengthPattern <:+: version)
    (hpre : received <+: front version ++ more) (hlen : received.length < version.length + 5)
    (stale : List Byte) : isFullMsg (received ++ stale) received.length = some 0 := by
  rw [isFullMsg, Seek.seek_of_not_met (not_met_of_short hno hpre hlen) stale]
  rfl

/-- The number of the message, once the end of its body length is there. -/
lemma isFullMsg_closed (hno : ¬ bodyLengthPattern <:+: version) (hd : ∀ b ∈ digits, IsDigit b)
    (h1 : 1 ≤ digits.length) (more stale : List Byte) :
    isFullMsg (front version ++ (digits ++ soh :: more) ++ stale)
        (front version ++ (digits ++ soh :: more)).length =
      (let msgLen := wrappedLen 0 (version.length + 5 + digits.length) (value digits)
       if ((front version ++ (digits ++ soh :: more)).length : ℤ) < msgLen then some 0
       else some msgLen) := by
  have hnum : convertAtoi (digits ++ soh :: more ++ stale) =
      some ((value digits : ℤ).bmod (2 ^ 32)) := by
    rw [List.append_assoc, List.cons_append, convertAtoi, scanDigits_append hd (by decide),
      foldl_intDigit hd]
  have hlen : ((front version ++ (digits ++ soh :: more)).length : ℤ) =
      version.length + 5 + digits.length + 1 + more.length := by
    simp only [List.length_append, List.length_cons, front_length]
    omega
  rw [isFullMsg_front hno, hnum, hlen]
  obtain ⟨d, ds, rfl⟩ := List.exists_cons_of_length_pos h1
  have hds : soh ∉ ds := fun h => absurd (hd soh (by simp [h])) (by decide)
  have hsplit : ((d :: ds) ++ soh :: more ++ stale).drop 1 = ds ++ soh :: (more ++ stale) := by simp
  simp only [List.length_cons, Nat.cast_add, Nat.cast_one] at hlen ⊢
  rw [hsplit, skipToSoh_found hds (by omega)]
  simp only [Option.bind_some]
  have hpos : (version.length : ℤ) + 5 + 1 + ds.length + 1 =
      version.length + 5 + (ds.length + 1) + 1 - 0 := by omega
  rw [if_neg (by omega), ← wrappedLen_bmod, hpos]

/-- Before that it asks for more bytes. -/
lemma isFullMsg_open (hno : ¬ bodyLengthPattern <:+: version) (hds : soh ∉ ds)
    (hstale : stale ≠ []) :
    isFullMsg (front version ++ ds ++ stale) (front version ++ ds).length = some 0 := by
  have hlen : ((front version ++ ds).length : ℤ) = version.length + 5 + ds.length := by
    rw [List.length_append, front_length]
    push_cast
    rfl
  have hskip : skipToSoh (front version ++ ds).length (version.length + 5)
      ((ds ++ stale).drop 1) = some ((front version ++ ds).length : ℤ) := by
    rw [hlen]
    cases ds with
    | nil =>
      rw [List.length_nil, Nat.cast_zero, add_zero]
      cases ([] ++ stale).drop 1 <;> rw [skipToSoh, if_neg (lt_irrefl _)]
    | cons d ds =>
      rw [List.length_cons, List.cons_append, List.drop_one, List.tail_cons]
      push_cast
      exact skipToSoh_stale (fun hm => hds (by simp [hm])) (by omega) hstale
  rw [isFullMsg_front hno, hskip]
  simp

/-- `process_new_data` comes to the digits. -/
lemma header_front (version pre : List Byte) {tail : ℤ} (h12 : 12 ≤ tail - pre.length)
    (htail : (pre.length : ℤ) + version.length + 2 ≤ tail) (buf : List Byte) :
    header version.length (pre ++ (front version ++ buf)) pre.length tail =
      (scanSohFrom tail (pre.length + version.length + 5) buf).map fun r =>
        r.map fun pos => (pos, value (buf.takeWhile fun b => IsDigit b)) := by
  have hbytes : bytesFrom (pre ++ (front version ++ buf)) (pre.length + version.length + 2) =
      some ([] ++ soh :: (bodyLengthPattern ++ buf)) := by
    refine bytesFrom_append (pre ++ [56, 61] ++ version) (by simp [front]) ?_
    simp only [List.length_append, List.length_cons, List.length_nil]
    omega
  have hfirst : scanSoh (pre ++ (front version ++ buf)) tail (pre.length + version.length + 2) =
      some (some ((pre.length : ℤ) + version.length + 2)) := by
    rw [scanSoh, hbytes, Option.bind_some, scanSohFrom_found (by simp) (by simp; omega)]
    simp
  have hpos : (pre.length : ℤ) + version.length + 2 + 3 = pre.length + version.length + 5 := by
    omega
  have hlen : (pre.length : ℤ) + version.length + 5 = (pre ++ front version).length := by
    rw [List.length_append, front_length]
    omega
  have hrest : bytesFrom (pre ++ (front version ++ buf)) ((pre ++ front version).length : ℤ) =
      some buf := bytesFrom_append (pre ++ front version) (List.append_assoc _ _ _).symm rfl
  rw [header, if_neg (by omega), hfirst, Option.bind_some]
  simp only [hpos, numberAt, scanSoh]
  rw [hlen, hrest, Int.toNat_natCast, ← List.append_assoc, List.drop_left]
  rfl

lemma firstComplete_front {tail : ℤ} (htail : (version.length : ℤ) + 2 ≤ tail)
    (buf : List Byte) (L : ℤ) :
    FirstComplete version.length (front version ++ buf) tail L ↔
      12 ≤ tail ∧ ∃ pos, scanSohFrom tail (version.length + 5) buf = some (some pos) ∧
        L = wrappedLen 0 pos (value (buf.takeWhile fun b => IsDigit b)) ∧ L ≤ tail := by
  by_cases h12 : 12 ≤ tail
  · have h0 : 12 ≤ tail - ([] : List Byte).length := by simpa
    have hhead := header_front version [] h0 (by simpa) buf
    simp only [List.nil_append, List.length_nil, Nat.cast_zero, zero_add] at hhead
    unfold FirstComplete
    rw [hhead]
    constructor
    · rintro ⟨pos, n, hr, rfl, hle⟩
      obtain ⟨r, hscan, hr⟩ := Option.map_eq_some_iff.mp hr
      obtain ⟨pos', rfl, hpair⟩ := Option.map_eq_some_iff.mp hr
      cases hpair
      exact ⟨h12, pos, hscan, rfl, hle⟩
    · rintro ⟨-, pos, hscan, rfl, hle⟩
      exact ⟨pos, _, by rw [hscan]; rfl, rfl, hle⟩
  · constructor
    · rintro ⟨pos, n, hr, -⟩
      rw [header, if_pos (by omega)] at hr
      cases hr
    · rintro ⟨h, -⟩
      exact absurd h h12

/-! ### The two agree -/

lemma wrappedLen_of_digits (h9 : digits.length ≤ 9) (hd : ∀ b ∈ digits, IsDigit b) {pos : ℤ}
    (h0 : 0 ≤ pos) (hpos : pos < 2 ^ 30) :
    wrappedLen 0 pos (value digits) = pos + 1 + value digits + checksumSize := by
  have hvalue : value digits < 10 ^ 9 :=
    lt_of_lt_of_le (value_lt hd) (Nat.pow_le_pow_right (by decide) h9)
  have hc : (checksumSize : ℤ) = 7 := rfl
  rw [wrappedLen, sub_zero]
  exact Int.bmod_eq_of_le (by omega) (by omega)

lemma not_firstComplete_open (hd : ∀ b ∈ ds, IsDigit b) (h9 : ds.length ≤ 9)
    (hstale : stale ≠ []) (hsize : (front version ++ ds).length < 2 ^ 30) (L : ℤ) :
    ¬ FirstComplete version.length (front version ++ (ds ++ stale)) (front version ++ ds).length
      L := by
  have hlen : ((front version ++ ds).length : ℤ) = version.length + 5 + ds.length := by
    rw [List.length_append, front_length]
    push_cast
    rfl
  have hds : soh ∉ ds := fun h => absurd (hd soh h) (by decide)
  rw [firstComplete_front (by omega)]
  rintro ⟨-, pos, hscan, hL, hle⟩
  rcases scanSohFrom_stale hds hlen.symm hstale with
    hnone | ⟨hend, l, rfl⟩
  · rw [hnone] at hscan
    cases hscan
  · -- the stale byte ends the field one place behind the bytes received
    rw [hend] at hscan
    cases hscan
    rw [takeWhile_digits hd, wrappedLen_of_digits h9 hd (by omega) (by omega)] at hL
    omega

lemma firstComplete_closed (hd : ∀ b ∈ digits, IsDigit b) (h9 : digits.length ≤ 9)
    (h1 : 1 ≤ digits.length) {more : List Byte} (stale : List Byte)
    (hsize : (front version ++ (digits ++ soh :: more)).length < 2 ^ 30) (L : ℤ) :
    FirstComplete version.length (front version ++ (digits ++ soh :: more ++ stale))
        (front version ++ (digits ++ soh :: more)).length L ↔
      L = wrappedLen 0 (version.length + 5 + digits.length) (value digits) ∧
        L ≤ (front version ++ (digits ++ soh :: more)).length := by
  have hlen : ((front version ++ (digits ++ soh :: more)).length : ℤ) =
      version.length + 5 + digits.length + 1 + more.length := by
    simp only [List.length_append, List.length_cons, front_length]
    omega
  have hds : soh ∉ digits := fun h => absurd (hd soh h) (by decide)
  rw [firstComplete_front (by omega), List.append_assoc, List.cons_append,
    scanSohFrom_found hds (by omega), takeWhile_digits hd]
  constructor
  · rintro ⟨-, pos, hpos, hL, hle⟩
    cases hpos
    exact ⟨hL, hle⟩
  · rintro ⟨hL, hle⟩
    refine ⟨?_, _, rfl, hL, hle⟩
    rw [wrappedLen_of_digits h9 hd (by omega) (by omega)] at hL
    have hc : (checksumSize : ℤ) = 7 := rfl
    omega

lemma fill_cases (hpre : received <+: front version ++ (digits ++ soh :: more)) :
    received.length < version.length + 5 ∨ (∃ ds, ds <+: digits ∧ received = front version ++ ds) ∨
      ∃ more', received = front version ++ (digits ++ soh :: more') := by
  by_cases hshort : received.length < version.length + 5
  · exact Or.inl hshort
  obtain ⟨buf, rfl⟩ : ∃ buf, front version ++ buf = received :=
    List.prefix_of_prefix_length_le (List.prefix_append _ _) hpre (by rw [front_length]; omega)
  have hbuf : buf <+: digits ++ soh :: more := (List.prefix_append_right_inj _).mp hpre
  refine Or.inr ?_
  rcases Nat.lt_or_ge digits.length buf.length with hlt | hge
  · have hsplit : digits ++ soh :: more = (digits ++ [soh]) ++ more := by simp
    rw [hsplit] at hbuf
    obtain ⟨more', rfl⟩ := List.prefix_of_prefix_length_le (List.prefix_append _ _) hbuf
      (by rw [List.length_append]; exact hlt)
    exact Or.inr ⟨more', by simp⟩
  · exact Or.inl ⟨buf, List.prefix_of_prefix_length_le hbuf (List.prefix_append _ _) hge, rfl⟩

/-- **The two framers agree.** -/
theorem isFullMsg_iff_firstComplete (hno : ¬ bodyLengthPattern <:+: version)
    (hd : ∀ b ∈ digits, IsDigit b) (h1 : 1 ≤ digits.length) (h9 : digits.length ≤ 9)
    (hpre : received <+: front version ++ (digits ++ soh :: more)) (hstale : stale ≠ [])
    (hsize : received.length < 2 ^ 30) (L : ℤ) :
    (isFullMsg (received ++ stale) received.length = some L ∧ 0 < L) ↔
      FirstComplete version.length (received ++ stale) received.length L := by
  have hzero : ¬ (some 0 = some L ∧ 0 < L) := by
    rintro ⟨h, hL⟩
    rw [← Option.some.inj h] at hL
    exact absurd hL (lt_irrefl _)
  obtain hshort | ⟨ds, hds, rfl⟩ | ⟨more', rfl⟩ := fill_cases hpre
  · rw [isFullMsg_short hno hpre hshort]
    refine iff_of_false hzero ?_
    rintro ⟨pos, n, hr, -⟩
    have := header_spec hr
    omega
  · have hdigits : ∀ b ∈ ds, IsDigit b := fun b hb => hd b (hds.subset hb)
    rw [isFullMsg_open hno (fun h => absurd (hdigits soh h) (by decide)) hstale, List.append_assoc]
    exact iff_of_false hzero
      (not_firstComplete_open hdigits (hds.length_le.trans h9) hstale hsize L)
  · rw [isFullMsg_closed hno hd h1, List.append_assoc, firstComplete_closed hd h9 h1 stale hsize]
    have hlen : wrappedLen 0 (version.length + 5 + digits.length) (value digits) =
        version.length + 5 + digits.length + 1 + value digits + checksumSize := by
      refine wrappedLen_of_digits h9 hd (by omega) ?_
      simp only [List.length_append, List.length_cons, front_length] at hsize
      omega
    generalize wrappedLen 0 (version.length + 5 + digits.length) (value digits) = len at hlen ⊢
    simp only
    split
    · next hmore =>
      refine iff_of_false hzero ?_
      rintro ⟨rfl, hle⟩
      omega
    · next hmore =>
      rw [Option.some.injEq]
      constructor
      · rintro ⟨rfl, -⟩
        exact ⟨rfl, by omega⟩
      · rintro ⟨rfl, -⟩
        exact ⟨rfl, by omega⟩

/-- `8=F`, `9=10`, `35=0`, `34=1` and the trailer, with an `SOH` left behind it. -/
theorem isFullMsg_iff_firstComplete_heartbeat :
    (isFullMsg ([56, 61, 70, 1, 57, 61, 49, 48, 1, 51, 53, 61, 48, 1, 51, 52, 61, 49, 1, 49, 48, 61,
        48, 48, 48, 1] ++ [1]) 26 = some 26 ∧ 0 < (26 : ℤ)) ↔
      FirstComplete 1 ([56, 61, 70, 1, 57, 61, 49, 48, 1, 51, 53, 61, 48, 1, 51, 52, 61, 49, 1, 49,
        48, 61, 48, 48, 48, 1] ++ [1]) 26 26 :=
  @isFullMsg_iff_firstComplete [70] [49, 48] _
    [51, 53, 61, 48, 1, 51, 52, 61, 49, 1, 49, 48, 61, 48, 48, 48, 1] _
    (by decide) (by decide +kernel) (by decide) (by decide) ⟨[], rfl⟩ (by decide) (by decide) 26

end Ufix.AcceptorFraming
