import Mathlib.Logic.Function.Basic
import Ufix.TagValue
import Ufix.Utils

/-!
The parser of received messages: a table of fields by tag, and the values of repeating groups as
slices of the message that are parsed when they are asked for.

A position in the data is given by the bytes from there on. Pointers are offsets into the memory
the message lies in.
-/

namespace Ufix

open Ufix.TagValue (equal)

def maxFixTag : ℕ := 2 ^ 15

/-- For the count tag of a repeating group the tags that belong to it. -/
structure RGroupsDictionary where
  rgDef : ℤ → Option (ℤ → Bool)

namespace RGroupsDictionary

def new : RGroupsDictionary := ⟨fun _ => none⟩

/-- `add_rg` on an array of tags, the count tag first. -/
def addRg (d : RGroupsDictionary) (tag : ℤ) (fields : List ℤ) : RGroupsDictionary :=
  ⟨Function.update d.rgDef tag (some fun t => decide (t ∈ fields))⟩

def isNormal (d : RGroupsDictionary) (tag : ℤ) : Bool := (d.rgDef tag).isNone

def isTagInRg (d : RGroupsDictionary) (rgTag tag : ℤ) : Bool :=
  match d.rgDef rgTag with
  | none => false
  | some tags => tags tag

end RGroupsDictionary

structure FieldInfo where
  counter : ℕ
  tag : ℤ
  val : ℕ
  valLen : ℤ
  deriving DecidableEq, Repr

structure FieldsParser where
  rgDictionary : Option RGroupsDictionary
  fieldsSize : ℕ
  fields : ℤ → FieldInfo
  counter : ℕ

namespace FieldsParser

def new (size : ℕ) : FieldsParser := ⟨none, size, fun _ => ⟨0, 0, 0, 0⟩, 0⟩

def setRgDictionary (p : FieldsParser) (dictionary : Option RGroupsDictionary) : FieldsParser :=
  { p with rgDictionary := dictionary }

/-- `read_tag`: the tag, `0` for an error, and the position where it stopped. -/
def readTag (tag : ℤ) : List Byte → ℤ × List Byte
  | [] => (0, [])
  | b :: data =>
    if b = equal then (tag, b :: data)
    else if ctoi b > 9 ∨ ctoi b < 0 then (0, b :: data)
    else readTag (intDigit tag b) data

/-- `read_value`: the position of the end of the field, or of the data. -/
def readValue (data : List Byte) : List Byte := data.dropWhile (· ≠ soh)

/-- The loop of `read_rg_value`, `n` rounds at most, from the end of a field: `none` for an
error. The data may not end inside the group. -/
def readRgFields (inRg : ℤ → Bool) : ℕ → List Byte → Option (List Byte)
  | 0, _ => none
  | n + 1, last =>
    match last.tail with
    | [] => none
    | data =>
      let (tag, rest) := readTag 0 data
      if inRg tag then readRgFields inRg n (readValue rest) else some last

def readRgValue (d : RGroupsDictionary) (rgTag : ℤ) (data : List Byte) : Option (List Byte) :=
  readRgFields (d.isTagInRg rgTag) (data.length + 1) (readValue data)

/-- The value of a field, read as `parse`, `parse_groups` and `parse_group` do. -/
def readFieldValue (p : FieldsParser) (tag : ℤ) (data : List Byte) : Option (List Byte) :=
  match p.rgDictionary with
  | none => some (readValue data)
  | some d => if d.isNormal tag then some (readValue data) else readRgValue d tag data

def setField (p : FieldsParser) (index : ℤ) (info : FieldInfo) : FieldsParser :=
  { p with fields := Function.update p.fields index info }

/-- The loop of `parse` on data of length `dataLen`, `n` rounds at most. -/
def parseFields (dataLen : ℕ) : ℕ → FieldsParser → List Byte → FieldsParser × Bool
  | 0, p, _ => (p, false)
  | _ + 1, p, [] => (p, true)
  | n + 1, p, b :: data =>
    let (tag, rest) := readTag 0 (b :: data)
    if tag = 0 then (p, false)
    else
      let start := rest.tail
      let index := tag.tmod p.fieldsSize
      let info : FieldInfo :=
        { p.fields index with counter := p.counter, tag := tag, val := dataLen - start.length }
      match p.readFieldValue tag start with
      | none => (p.setField index info, false)
      | some rest =>
        parseFields dataLen n
          (p.setField index { info with valLen := start.length - rest.length }) rest.tail

def parse (p : FieldsParser) (data : List Byte) : FieldsParser × Bool :=
  parseFields data.length (data.length + 1) { p with counter := p.counter + 1 } data

def getField (p : FieldsParser) (tag : ℤ) : Option FieldInfo :=
  let info := p.fields (tag.tmod p.fieldsSize)
  if info.counter ≠ p.counter then none
  else if info.tag ≠ tag then none
  else some info

/-- The locals of `parse_groups`. `end_val_pos` is not set before the first field. -/
structure GroupsState where
  infos : ℤ → FieldInfo
  tagStart : ℤ
  numGroupsRead : ℕ
  endValPos : ℤ

/-- The length of the last group read, which held the position of its start. -/
def closeGroup (s : GroupsState) : ℤ → FieldInfo :=
  let last := (s.numGroupsRead : ℤ) - 1
  Function.update s.infos last
    { s.infos last with valLen := s.endValPos - (s.infos last).valLen }

/-- A group starts at `tagPos`. -/
def openGroup (s : GroupsState) (data tagPos : ℕ) : GroupsState :=
  let infos := Function.update s.infos s.numGroupsRead
    { s.infos s.numGroupsRead with valLen := tagPos, val := data + tagPos }
  { s with
    infos := if s.numGroupsRead > 0 then closeGroup { s with infos := infos } else infos
    numGroupsRead := s.numGroupsRead + 1 }

/-- A field starts at `tagPos`. The first tag of the slice is the one that starts a group. -/
def startField (s : GroupsState) (data tagPos : ℕ) (tag : ℤ) : GroupsState :=
  let s := if s.tagStart = 0 then { s with tagStart := tag } else s
  if tag = s.tagStart then openGroup s data tagPos else s

/-- The loop of `parse_groups` on the slice of length `dataLen` at `data`, with the position given
by the rest of the slice. -/
def parseGroupsFields (p : FieldsParser) (data dataLen : ℕ) (numGroups : ℤ) :
    ℕ → GroupsState → List Byte → (ℤ → FieldInfo) × ℤ
  | 0, s, _ => (s.infos, 0)
  | _ + 1, s, [] =>
    if s.numGroupsRead = numGroups then (closeGroup s, numGroups) else (s.infos, 0)
  | n + 1, s, b :: slice =>
    let tagPos := dataLen - (b :: slice).length
    let (tag, rest) := readTag 0 (b :: slice)
    if tag = 0 then (s.infos, 0)
    else
      let s := startField s data tagPos tag
      match p.readFieldValue tag rest.tail with
      | none => (s.infos, 0)
      | some rest =>
        parseGroupsFields p data dataLen numGroups n
          { s with endValPos := dataLen - rest.length } rest.tail

/-- `parse_groups`: the number of groups read, `0` for an error, and the slices of the groups.
`none` when the count runs out of the memory. -/
def parseGroups (p : FieldsParser) (mem : List Byte) (data dataLen : ℕ) (infos : ℤ → FieldInfo) :
    Option ((ℤ → FieldInfo) × ℤ) :=
  (convertAtoi (mem.drop data)).map fun numGroups =>
    let slice := (mem.drop data).take dataLen
    parseGroupsFields p data dataLen numGroups (dataLen + 1) ⟨infos, 0, 0, 0⟩ (readValue slice).tail

/-- The loop of `parse_group`. -/
def parseGroupFields (p : FieldsParser) (data dataLen : ℕ) :
    ℕ → (ℤ → FieldInfo) → ℕ → List Byte → (ℤ → FieldInfo) × ℤ
  | 0, infos, _, _ => (infos, 0)
  | _ + 1, infos, index, [] => (infos, index)
  | n + 1, infos, index, b :: slice =>
    let (tag, rest) := readTag 0 (b :: slice)
    if tag = 0 then (infos, 0)
    else
      let start := rest.tail
      let info : FieldInfo :=
        { infos index with tag := tag, val := data + (dataLen - start.length) }
      match p.readFieldValue tag start with
      | none => (Function.update infos index info, 0)
      | some rest =>
        parseGroupFields p data dataLen n
          (Function.update infos index { info with valLen := start.length - rest.length })
          (index + 1) rest.tail

def parseGroup (p : FieldsParser) (mem : List Byte) (data dataLen : ℕ) (infos : ℤ → FieldInfo) :
    (ℤ → FieldInfo) × ℤ :=
  parseGroupFields p data dataLen (dataLen + 1) infos 0 ((mem.drop data).take dataLen)

end FieldsParser

structure Group where
  fields : ℤ → FieldInfo
  numFields : ℤ

structure RGroups where
  fields : ℤ → FieldInfo
  numGroups : ℤ

namespace Group

def parse (g : Group) (p : FieldsParser) (mem : List Byte) (data : ℕ) (dataLen : ℤ) : Group :=
  let r := p.parseGroup mem data dataLen.toNat g.fields
  ⟨r.1, r.2⟩

def getField (g : Group) (index : ℤ) : Option FieldInfo :=
  if index ≥ g.numFields then none else some (g.fields index)

end Group

namespace RGroups

def parse (g : RGroups) (p : FieldsParser) (mem : List Byte) (data : ℕ) (dataLen : ℤ) :
    Option RGroups :=
  (p.parseGroups mem data dataLen.toNat g.fields).map fun r => ⟨r.1, r.2⟩

def getGroup (g : RGroups) (p : FieldsParser) (mem : List Byte) (index : ℤ) (group : Group) :
    Group :=
  group.parse p mem (g.fields index).val (g.fields index).valLen

end RGroups

/-- `Group::get_groups`. -/
def Group.getGroups (g : Group) (p : FieldsParser) (mem : List Byte) (index : ℤ)
    (groups : RGroups) : Option RGroups :=
  groups.parse p mem (g.fields index).val (g.fields index).valLen

/-- `RMessage::get_groups`: `none` when it reads through a null pointer, too. -/
def FieldsParser.getGroups (p : FieldsParser) (mem : List Byte) (tag : ℤ) (groups : RGroups) :
    Option RGroups :=
  (p.getField tag).bind fun info => groups.parse p mem info.val info.valLen

end Ufix
