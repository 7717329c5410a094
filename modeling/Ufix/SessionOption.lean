import Ufix.PManager

/-!
The options of a session, with the defaults of the constructor.
-/

namespace Ufix

def soh : Byte := 1

def isCharEnd (val : Byte) : Bool := val = 0 ∨ val = soh

/-- The length of a string up to the first `NUL` or `SOH`; the list is what stands before its
`NUL`. -/
def strSize (str : List Byte) : ℕ := (str.takeWhile fun b => !isCharEnd b).length

/-- `SessionOption`: an absent array is a `NULL` pointer, a string is given by its bytes. -/
structure SessionOption where
  fixVersion : List Byte
  senderCompId : List Byte
  targetCompId : List Byte
  maxBodyLengthSize : ℕ := 4
  maxMsgSeqSize : ℕ := 10
  heartBtIn : ℤ := 30
  defaultApplVerId : ℤ := -1
  recvQueueSize : ℕ := 2 ^ 20
  numSendQueues : ℕ := 1
  sendQueuesSize : Option (ℕ → ℕ) := none
  sendQueuesReserve : Option (ℕ → ℕ) := none
  sendQueuesFlag : Option (ℕ → ℤ) := none
  windowMarkSize : ℕ := 32
  fixMsgAvgLength : ℕ := 256
  fixMsgMaxLength : ℕ := 2 ^ 20
  headerOptions : List (ℤ × List Byte) := []
  logonOptions : List (ℤ × List Byte) := []

namespace SessionOption

/-- The value is copied up to its first `SOH`. -/
def addHeaderOption (o : SessionOption) (tag : ℤ) (val : List Byte) : SessionOption :=
  { o with headerOptions := o.headerOptions ++ [(tag, val.take (strSize val))] }

def addLogonOption (o : SessionOption) (tag : ℤ) (val : List Byte) : SessionOption :=
  { o with logonOptions := o.logonOptions ++ [(tag, val.take (strSize val))] }

def oneQueue : SessionOption := { fixVersion := [], senderCompId := [], targetCompId := [] }

end SessionOption

lemma strSize_eq {str : List Byte} (h : ∀ b ∈ str, b ≠ 0 ∧ b ≠ soh) :
    strSize str = str.length := by
  induction str with
  | nil => rfl
  | cons b str ih =>
    have hb : isCharEnd b = false := by simp [isCharEnd, h b (by simp)]
    have ih := ih fun c hc => h c (by simp [hc])
    simp only [strSize] at ih ⊢
    rw [List.takeWhile_cons_of_pos (by simp [hb])]
    simp [ih]

end Ufix
