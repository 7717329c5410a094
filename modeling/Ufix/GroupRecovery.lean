import Ufix.GroupTree

/-!
What `parse`, `parse_groups` and `parse_group` recover of a message with repeating groups.

Each of them walks over the items of one level. At the end of a slice there is no end of a field,
so a group that ends an instance is not read: everything but such instances comes back.
-/

namespace Ufix.GroupRecovery

open Ufix.Decimal Ufix.FieldsParser Ufix.FieldGrammar Ufix.GroupTree
open Ufix.TagValue (equal Field encode encodeAll)

def endsWithGroup (items : List Item) : Bool := (items.getLast?.map Item.isGroup).getD false

/-- A group object that was asked for instance `i` of the group in `info`. -/
def Opened (p : FieldsParser) (mem : List Byte) (info : FieldInfo) (i : ℕ) (g : Group) : Prop :=
  ∃ (groups groups' : RGroups) (group : Group),
    groups.parse p mem info.val info.valLen = some groups' ∧ g = groups'.getGroup p mem i group

lemma getGroups_of_getField {p : FieldsParser} {mem : List Byte} {tag : ℤ} {info : FieldInfo}
    (h : p.getField tag = some info) (groups : RGroups) :
    p.getGroups mem tag groups = groups.parse p mem info.val info.valLen := by
  rw [FieldsParser.getGroups, h, Option.bind_some]

/-- The item comes back from its field: the value, or every instance with every item. -/
inductive Recovered (p : FieldsParser) (mem : List Byte) : Item → FieldInfo → Prop
  | field {tag : ℕ} {val : List Byte} {info : FieldInfo} (hval : valueIn mem info = val) :
      Recovered p mem (.field tag val) info
  | group {tag : ℕ} {instances : List (List Item)} {info : FieldInfo}
      (hparse : ∀ groups : RGroups, ∃ groups', groups.parse p mem info.val info.valLen =
        some groups' ∧ groups'.numGroups = instances.length)
      (hgroup : ∀ (i : ℕ) items, instances[i]? = some items → ∀ g, Opened p mem info i g →
        g.numFields = items.length ∧ ∀ (j : ℕ) item, items[j]? = some item →
          (g.getField j).map FieldInfo.tag = some (item.tag : ℤ))
      (hitems : ∀ (i : ℕ) items, instances[i]? = some items → ∀ g, Opened p mem info i g →
        ∀ (j : ℕ) item, items[j]? = some item → Recovered p mem item (g.fields j)) :
      Recovered p mem (.group tag instances) info

/-- No instance, at any depth, ends with a group. -/
inductive Readable : Item → Prop
  | field {tag : ℕ} {val : List Byte} : Readable (.field tag val)
  | group {tag : ℕ} {instances : List (List Item)}
      (hends : ∀ items ∈ instances, endsWithGroup items = false)
      (hitems : ∀ items ∈ instances, ∀ item ∈ items, Readable item) :
      Readable (.group tag instances)

variable {d : RGroupsDictionary} {level : ℕ → ℕ} {k : ℕ} {item : Item} {items : List Item}
  {p : FieldsParser} {mem : List Byte} {data dataLen n : ℕ}

@[simp] lemma endsWithGroup_singleton (item : Item) : endsWithGroup [item] = item.isGroup := rfl

lemma endsWithGroup_append (items : List Item) {rest : List Item} (hne : rest ≠ []) :
    endsWithGroup (items ++ rest) = endsWithGroup rest := by
  have hsome : rest.getLast? = some (rest.getLast hne) := List.getLast?_eq_some_getLast hne
  simp [endsWithGroup, hsome]

lemma endsWithGroup_cons (item : Item) {rest : List Item} (hne : rest ≠ []) :
    endsWithGroup (item :: rest) = endsWithGroup rest := endsWithGroup_append [item] hne

lemma goesOn_cut (hne : items ≠ []) (hwf : ∀ item ∈ items, WellFormed d level k item) :
    GoesOn level k (cut items) := by
  rcases items with - | ⟨item, items⟩
  · exact absurd rfl hne
  have h := hwf item (by simp)
  by_cases hlast : items = []
  · subst hlast
    exact ⟨item.tag, item.value, cut_singleton item, h.isTag, h.level_tag⟩
  · exact ⟨item.tag, _, cut_cons item hlast, h.isTag, h.level_tag⟩

/-! ### The items of an instance -/

/-- The value of an item within a slice at `data`. -/
lemma slice_within (before start v rest : List Byte) {after : List Byte} {t : ℕ}
    (hmem : mem.drop data = before ++ (decimal t ++ equal :: start) ++ after)
    (hstart : start = v ++ rest) (counter : ℕ) (tag : ℤ) :
    Slice mem ⟨counter, tag,
      data + ((before ++ (decimal t ++ equal :: start)).length - start.length),
      (start.length : ℤ) - rest.length⟩ v := by
  refine ⟨?_, rest ++ after, ?_⟩
  · simp only [hstart, List.length_append]
    omega
  · have hsplit : before ++ (decimal t ++ equal :: start) =
        (before ++ decimal t ++ [equal]) ++ start := by simp
    have hpos : (before ++ (decimal t ++ equal :: start)).length - start.length =
        (before ++ decimal t ++ [equal]).length := by
      rw [hsplit, List.length_append, Nat.add_sub_cancel]
    simp only [hpos]
    calc mem.drop (data + (before ++ decimal t ++ [equal]).length)
        = ((before ++ decimal t ++ [equal]) ++ (start ++ after)).drop
            (before ++ decimal t ++ [equal]).length := by
          rw [← List.drop_drop, hmem, hsplit, List.append_assoc _ start after]
      _ = v ++ (rest ++ after) := by rw [List.drop_left, hstart, List.append_assoc]

lemma parseGroupFields_item {start rest : List Byte} {infos : ℤ → FieldInfo} {index : ℕ}
    (h : IsTag item.tag) (hread : p.readFieldValue item.tag start = some rest) :
    parseGroupFields p data dataLen (n + 1) infos index
        (decimal item.tag ++ equal :: start) =
      parseGroupFields p data dataLen n
        (Function.update infos index ⟨(infos index).counter, item.tag,
          data + (dataLen - start.length), start.length - rest.length⟩)
        (index + 1) rest.tail := by
  obtain ⟨b, slice, hslice⟩ := decimal_cons h (equal :: start)
  have h0 := h.1
  rw [hslice, parseGroupFields, ← hslice, readTag_decimal h]
  simp only [List.tail_cons]
  rw [if_neg (by omega), hread]

lemma parseGroupFields_none {start : List Byte} {infos : ℤ → FieldInfo} {index : ℕ}
    (h : IsTag item.tag) (hread : p.readFieldValue item.tag start = none) :
    (parseGroupFields p data dataLen (n + 1) infos index
      (decimal item.tag ++ equal :: start)).2 = 0 := by
  obtain ⟨b, slice, hslice⟩ := decimal_cons h (equal :: start)
  have h0 := h.1
  rw [hslice, parseGroupFields, ← hslice, readTag_decimal h]
  simp only [List.tail_cons]
  rw [if_neg (by omega), hread]

/-- The fields from `index` on designate the items. -/
def Holds (mem : List Byte) (infos : ℤ → FieldInfo) (index : ℕ) (items : List Item) : Prop :=
  ∀ (j : ℕ) item, items[j]? = some item → (infos ((index + j : ℕ) : ℤ)).tag = item.tag ∧
    Slice mem (infos ((index + j : ℕ) : ℤ)) item.value

lemma Holds.cons {infos : ℤ → FieldInfo} {index : ℕ} (h : Holds mem infos (index + 1) items)
    (htag : (infos index).tag = item.tag) (hslice : Slice mem (infos index) item.value) :
    Holds mem infos index (item :: items) := by
  intro j it hj
  rcases j with - | j
  · cases hj
    exact ⟨htag, hslice⟩
  · have := h j it hj
    rwa [Nat.add_right_comm, Nat.add_assoc] at this

/-- The items of an instance are read one by one, when a field is the last. -/
lemma parseGroupFields_cut {before after : List Byte} {infos : ℤ → FieldInfo} {index : ℕ}
    (hp : p.rgDictionary = some d) (hne : items ≠ [])
    (hwf : ∀ item ∈ items, WellFormed d level k item) (hends : endsWithGroup items = false)
    (hmem : mem.drop data = before ++ cut items ++ after) (hn : (cut items).length < n) :
    ∃ infos' : ℤ → FieldInfo,
      parseGroupFields p data (before ++ cut items).length n infos index (cut items) =
        (infos', ((index + items.length : ℕ) : ℤ)) ∧
      (∀ i : ℕ, i < index → infos' i = infos i) ∧ Holds mem infos' index items := by
  induction items generalizing before infos index n with
  | nil => exact absurd rfl hne
  | cons item items ih =>
    have h := hwf item (by simp)
    by_cases hlast : items = []
    · subst hlast
      have hread := readFieldValue_last h hp
      rw [endsWithGroup_singleton] at hends
      rw [hends, if_neg (by simp)] at hread
      rw [cut_singleton] at hmem hn ⊢
      obtain ⟨n, rfl⟩ : ∃ m, n = m + 1 + 1 := ⟨n - 2, by simp at hn; omega⟩
      have hslice := slice_within before item.value item.value [] hmem (by simp)
        (infos index).counter item.tag
      rw [parseGroupFields_item h.isTag hread]
      refine ⟨_, rfl, fun i hi => ?_, Holds.cons (fun j it hj => by simp at hj) ?_ ?_⟩
      · rw [Function.update_of_ne (by omega)]
      · rw [Function.update_self]
      · rw [Function.update_self]
        exact hslice
    · have hgo := goesOn_cut hlast fun it hit => hwf it (by simp [hit])
      have hread := readFieldValue_item h hp fun _ => hgo
      rw [endsWithGroup_cons item hlast] at hends
      rw [cut_cons item hlast] at hmem hn ⊢
      obtain ⟨n, rfl⟩ : ∃ m, n = m + 1 := ⟨n - 1, by simp at hn; omega⟩
      have hslice := slice_within before (item.value ++ soh :: cut items) item.value
        (soh :: cut items) hmem rfl (infos index).counter item.tag
      have hsplit : before ++ (decimal item.tag ++ equal :: (item.value ++ soh :: cut items)) =
          (before ++ decimal item.tag ++ equal :: item.value ++ [soh]) ++ cut items := by simp
      rw [parseGroupFields_item h.isTag hread, List.tail_cons]
      rw [hsplit] at hmem hslice ⊢
      obtain ⟨infos', hinfos, hbelow, hholds⟩ := ih (n := n) hlast
        (fun it hit => hwf it (by simp [hit])) hends hmem (by simp at hn; omega)
      refine ⟨infos', ?_, fun i hi => ?_, hholds.cons ?_ ?_⟩
      · rw [hinfos, List.length_cons]
        simp only [Nat.add_assoc, Nat.add_comm 1]
      · rw [hbelow i (by omega), Function.update_of_ne (by omega)]
      · rw [hbelow index (by omega), Function.update_self]
      · rw [hbelow index (by omega), Function.update_self]
        exact hslice

/-- When a group is the last item, `parse_group` fails. -/
lemma parseGroupFields_cut_group {infos : ℤ → FieldInfo} {index : ℕ}
    (hp : p.rgDictionary = some d) (hwf : ∀ item ∈ items, WellFormed d level k item)
    (hends : endsWithGroup items = true) :
    (parseGroupFields p data dataLen n infos index (cut items)).2 = 0 := by
  induction items generalizing infos index n with
  | nil => cases hends
  | cons item items ih =>
    have h := hwf item (by simp)
    rcases n with - | n
    · rfl
    by_cases hlast : items = []
    · subst hlast
      have hread := readFieldValue_last h hp
      rw [endsWithGroup_singleton] at hends
      rw [hends, if_pos rfl] at hread
      rw [cut_singleton]
      exact parseGroupFields_none h.isTag hread
    · have hgo := goesOn_cut hlast fun it hit => hwf it (by simp [hit])
      have hread := readFieldValue_item h hp fun _ => hgo
      rw [endsWithGroup_cons item hlast] at hends
      rw [cut_cons item hlast, parseGroupFields_item h.isTag hread, List.tail_cons]
      exact ih (fun it hit => hwf it (by simp [hit])) hends

/-! ### The instances of a group -/

/-- The position in front of the items, behind the last value: an end of a field, or the end of
the slice. -/
def endPos (dataLen : ℕ) (items : List Item) : ℤ :=
  dataLen - if items = [] then 0 else ((cut items).length : ℤ) + 1

/-- What `parse_groups` notes of the items. -/
def walk (data dataLen : ℕ) : GroupsState → List Item → GroupsState
  | s, [] => s
  | s, item :: items =>
    walk data dataLen
      { startField s data (dataLen - (cut (item :: items)).length) item.tag with
        endValPos := endPos dataLen items } items

lemma parseGroupsFields_item {numGroups : ℤ} {s : GroupsState} {start rest : List Byte}
    (h : IsTag item.tag) (hread : p.readFieldValue item.tag start = some rest) :
    parseGroupsFields p data dataLen numGroups (n + 1) s (decimal item.tag ++ equal :: start) =
      parseGroupsFields p data dataLen numGroups n
        { startField s data (dataLen - (decimal item.tag ++ equal :: start).length) item.tag with
          endValPos := dataLen - rest.length } rest.tail := by
  obtain ⟨b, slice, hslice⟩ := decimal_cons h (equal :: start)
  have h0 := h.1
  rw [hslice, parseGroupsFields, ← hslice, readTag_decimal h]
  simp only [List.tail_cons]
  rw [if_neg (by omega), hread]

lemma parseGroupsFields_none {numGroups : ℤ} {s : GroupsState} {start : List Byte}
    (h : IsTag item.tag) (hread : p.readFieldValue item.tag start = none) :
    (parseGroupsFields p data dataLen numGroups (n + 1) s
      (decimal item.tag ++ equal :: start)).2 = 0 := by
  obtain ⟨b, slice, hslice⟩ := decimal_cons h (equal :: start)
  have h0 := h.1
  rw [hslice, parseGroupsFields, ← hslice, readTag_decimal h]
  simp only [List.tail_cons]
  rw [if_neg (by omega), hread]

/-- `parse_groups` walks over the items, when a field is the last. -/
lemma parseGroupsFields_cut {numGroups : ℤ} {s : GroupsState} (hp : p.rgDictionary = some d)
    (hne : items ≠ []) (hwf : ∀ item ∈ items, WellFormed d level k item)
    (hends : endsWithGroup items = false) (hn : (cut items).length < n) :
    parseGroupsFields p data dataLen numGroups n s (cut items) =
      if (walk data dataLen s items).numGroupsRead = numGroups then
        (closeGroup (walk data dataLen s items), numGroups)
      else ((walk data dataLen s items).infos, 0) := by
  induction items generalizing s n with
  | nil => exact absurd rfl hne
  | cons item items ih =>
    have h := hwf item (by simp)
    by_cases hlast : items = []
    · subst hlast
      have hread := readFieldValue_last h hp
      rw [endsWithGroup_singleton] at hends
      rw [hends, if_neg (by simp)] at hread
      rw [cut_singleton] at hn ⊢
      obtain ⟨n, rfl⟩ : ∃ m, n = m + 1 + 1 := ⟨n - 2, by simp at hn; omega⟩
      rw [parseGroupsFields_item h.isTag hread]
      simp only [walk, endPos, cut_singleton, if_true, List.length_nil, List.tail_nil,
        parseGroupsFields]
      rfl
    · have hgo := goesOn_cut hlast fun it hit => hwf it (by simp [hit])
      have hread := readFieldValue_item h hp fun _ => hgo
      rw [endsWithGroup_cons item hlast] at hends
      rw [cut_cons item hlast] at hn ⊢
      obtain ⟨n, rfl⟩ : ∃ m, n = m + 1 := ⟨n - 1, by simp at hn; omega⟩
      rw [parseGroupsFields_item h.isTag hread]
      simp only [List.tail_cons, List.length_cons]
      rw [ih hlast (fun it hit => hwf it (by simp [hit])) hends (by simp at hn; omega)]
      simp only [walk, endPos, if_neg hlast, cut_cons item hlast]
      rfl

/-- When a group is the last item of the last instance, `parse_groups` fails. -/
lemma parseGroupsFields_cut_group {numGroups : ℤ} {s : GroupsState}
    (hp : p.rgDictionary = some d) (hwf : ∀ item ∈ items, WellFormed d level k item)
    (hends : endsWithGroup items = true) :
    (parseGroupsFields p data dataLen numGroups n s (cut items)).2 = 0 := by
  induction items generalizing s n with
  | nil => cases hends
  | cons item items ih =>
    have h := hwf item (by simp)
    rcases n with - | n
    · rfl
    by_cases hlast : items = []
    · subst hlast
      have hread := readFieldValue_last h hp
      rw [endsWithGroup_singleton] at hends
      rw [hends, if_pos rfl] at hread
      rw [cut_singleton]
      exact parseGroupsFields_none h.isTag hread
    · have hgo := goesOn_cut hlast fun it hit => hwf it (by simp [hit])
      have hread := readFieldValue_item h hp fun _ => hgo
      rw [endsWithGroup_cons item hlast] at hends
      rw [cut_cons item hlast, parseGroupsFields_item h.isTag hread, List.tail_cons]
      exact ih (fun it hit => hwf it (by simp [hit])) hends

def closed (s : GroupsState) : ℤ → FieldInfo :=
  if s.numGroupsRead > 0 then closeGroup s else s.infos

lemma startField_other {s : GroupsState} {pos : ℕ} {tag : ℤ} (h : s.tagStart ≠ 0)
    (hne : tag ≠ s.tagStart) : startField s data pos tag = s := by
  simp [startField, h, hne]

lemma startField_first {s : GroupsState} {pos : ℕ} {tag : ℤ}
    (h : s.tagStart = 0 ∨ s.tagStart = tag) :
    startField s data pos tag = openGroup { s with tagStart := tag } data pos := by
  rcases h with h | h
  · simp [startField, h]
  · obtain ⟨infos, tagStart, num, endVal⟩ := s
    simp only at h
    subst h
    simp [startField]

lemma openGroup_infos (s : GroupsState) (data pos : ℕ) :
    (openGroup s data pos).infos = Function.update (closed s) s.numGroupsRead
      { closed s s.numGroupsRead with valLen := pos, val := data + pos } := by
  by_cases hm : s.numGroupsRead > 0
  · have hne : (s.numGroupsRead : ℤ) - 1 ≠ s.numGroupsRead := by omega
    simp only [openGroup, closed, closeGroup, if_pos hm, Function.update_of_ne hne,
      Function.update_of_ne hne.symm]
    rw [Function.update_comm hne]
  · simp only [openGroup, closed, if_neg hm]

lemma closed_openGroup (s : GroupsState) (data pos : ℕ) (e : ℤ) :
    closed { openGroup s data pos with endValPos := e } =
      Function.update (closed s) s.numGroupsRead
        { closed s s.numGroupsRead with valLen := e - pos, val := data + pos } := by
  have hnum : (openGroup s data pos).numGroupsRead = s.numGroupsRead + 1 := rfl
  have hlast : ((s.numGroupsRead + 1 : ℕ) : ℤ) - 1 = s.numGroupsRead := by omega
  simp only [closed, hnum, if_pos (Nat.succ_pos _), closeGroup, hlast]
  rw [openGroup_infos]
  simp only [Function.update_self, Function.update_idem]
  rfl

lemma walk_rest {first : ℕ} {s : GroupsState} {rest : List Item} (more : List Item)
    (hfirst : first ≠ 0) (hstart : s.tagStart = first) (hrest : ∀ item ∈ rest, item.tag ≠ first)
    (hend : s.endValPos = endPos dataLen (rest ++ more)) :
    walk data dataLen s (rest ++ more) =
      walk data dataLen { s with endValPos := endPos dataLen more } more := by
  induction rest generalizing s with
  | nil =>
    rw [List.nil_append] at hend ⊢
    rw [← hend]
  | cons item rest ih =>
    have hne := hrest item (by simp)
    rw [List.cons_append, walk, startField_other (by omega) (by omega)]
    exact ih (s := { s with endValPos := endPos dataLen (rest ++ more) }) hstart
      (fun it hit => hrest it (by simp [hit])) rfl

/-- What `walk` gives for the instances of a group: the slice of each. -/
lemma walk_instances {first : ℕ} {s : GroupsState} {instances : List (List Item)}
    (hpos : first ≠ 0) (hstart : s.tagStart = 0 ∨ s.tagStart = first)
    (hfirst : ∀ items ∈ instances, ∃ val rest, items = .field first val :: rest ∧
      ∀ item ∈ rest, item.tag ≠ first) :
    (walk data dataLen s instances.flatten).numGroupsRead = s.numGroupsRead + instances.length ∧
      (∀ i : ℕ, i < s.numGroupsRead →
        closed (walk data dataLen s instances.flatten) i = closed s i) ∧
      ∀ (i : ℕ) items, instances[i]? = some items →
        (closed (walk data dataLen s instances.flatten) ((s.numGroupsRead + i : ℕ) : ℤ)).val =
            data + (dataLen - (cut (instances.drop i).flatten).length) ∧
          (closed (walk data dataLen s instances.flatten) ((s.numGroupsRead + i : ℕ) : ℤ)).valLen =
            endPos dataLen (instances.drop (i + 1)).flatten -
              ((dataLen - (cut (instances.drop i).flatten).length : ℕ) : ℤ) := by
  induction instances generalizing s with
  | nil => exact ⟨rfl, fun _ _ => rfl, fun i items hi => by simp at hi⟩
  | cons items instances ih =>
    obtain ⟨val, rest, hitems, hrest⟩ := hfirst items (by simp)
    set pos := dataLen - (cut (items :: instances).flatten).length with hposdef
    -- the state after the items of this instance
    set s' : GroupsState := { openGroup { s with tagStart := first } data pos with
      endValPos := endPos dataLen instances.flatten } with hs'
    have hwalk : walk data dataLen s (items :: instances).flatten =
        walk data dataLen s' instances.flatten := by
      rw [List.flatten_cons, hitems, List.cons_append, walk,
        startField_first (by simpa [Item.tag] using hstart)]
      have hpos' : dataLen - (cut (.field first val :: (rest ++ instances.flatten))).length =
          pos := by
        rw [hposdef, List.flatten_cons, hitems]
        rfl
      rw [hpos']
      exact walk_rest instances.flatten hpos rfl hrest rfl
    obtain ⟨hnum, hbelow, hslices⟩ := ih (s := s') (Or.inr rfl)
      fun its hits => hfirst its (by simp [hits])
    have hnum' : s'.numGroupsRead = s.numGroupsRead + 1 := rfl
    have hclosed : closed s' = Function.update (closed s) s.numGroupsRead
        { closed s s.numGroupsRead with
          valLen := endPos dataLen instances.flatten - pos, val := data + pos } :=
      closed_openGroup { s with tagStart := first } data pos _
    rw [hwalk]
    refine ⟨?_, fun i hi => ?_, fun i its hi => ?_⟩
    · rw [hnum, hnum', List.length_cons]
      omega
    · rw [hbelow i (by omega), hclosed, Function.update_of_ne (by omega)]
    · rcases i with - | i
      · rw [Nat.add_zero, hbelow _ (by omega), hclosed, Function.update_self]
        exact ⟨rfl, rfl⟩
      · have h := hslices i its hi
        rw [hnum', Nat.add_right_comm, Nat.add_assoc] at h
        exact h

/-! ### A group from its field -/

lemma cut_suffix (items rest : List Item) (hne : rest ≠ []) :
    ∃ w, cut (items ++ rest) = w ++ cut rest := by
  by_cases hnil : items = []
  · exact ⟨[], by rw [hnil]; rfl⟩
  · exact ⟨cut items ++ [soh], by rw [cut_append hnil hne]; simp⟩

lemma cut_take (hne : items ≠ []) (rest : List Item) (dataLen : ℕ) :
    ∃ w, cut (items ++ rest) = cut items ++ w ∧ endPos dataLen rest = (dataLen : ℤ) - w.length := by
  by_cases hnil : rest = []
  · exact ⟨[], by rw [hnil]; simp, by simp [endPos, hnil]⟩
  · exact ⟨soh :: cut rest, cut_append hne hnil, by simp [endPos, hnil]⟩

/-- Where the slice of instance `i` lies in that of the group. -/
lemma instance_slice {instances : List (List Item)} {i : ℕ} {before after : List Byte}
    {info : FieldInfo} (hne : items ≠ []) (hi : instances[i]? = some items)
    (hmem : mem.drop data = before ++ cut instances.flatten ++ after)
    (hlen : dataLen = (before ++ cut instances.flatten).length)
    (hval : info.val = data + (dataLen - (cut (instances.drop i).flatten).length))
    (hvalLen : info.valLen = endPos dataLen (instances.drop (i + 1)).flatten -
      ((dataLen - (cut (instances.drop i).flatten).length : ℕ) : ℤ)) :
    Slice mem info (cut items) := by
  obtain ⟨hlt, hget⟩ := List.getElem?_eq_some_iff.mp hi
  have hdrop : (instances.drop i).flatten = items ++ (instances.drop (i + 1)).flatten := by
    rw [List.drop_eq_getElem_cons hlt, hget, List.flatten_cons]
  have hsplit : instances.flatten = (instances.take i).flatten ++ (instances.drop i).flatten := by
    rw [← List.flatten_append, List.take_append_drop]
  obtain ⟨w, hw⟩ := cut_suffix (instances.take i).flatten (instances.drop i).flatten
    (by rw [hdrop]; simp [hne])
  obtain ⟨w', hw', hend⟩ := cut_take hne (instances.drop (i + 1)).flatten dataLen
  rw [← hsplit] at hw
  rw [← hdrop] at hw'
  rw [hw, ← List.append_assoc] at hmem hlen
  have hpos : dataLen - (cut (instances.drop i).flatten).length = (before ++ w).length := by
    rw [hlen, List.length_append, Nat.add_sub_cancel]
  have hlen' := congrArg List.length hw'
  rw [List.length_append] at hlen' hlen
  refine ⟨?_, w' ++ after, ?_⟩
  · rw [hvalLen, hend, hpos]
    omega
  · rw [hval, hpos, ← List.drop_drop, hmem, List.append_assoc _ _ after, List.drop_left, hw',
      List.append_assoc]

/-- The slice of a group: its count, and its items. -/
lemma parse_group {tag : ℕ} {instances : List (List Item)} {info : FieldInfo} (groups : RGroups)
    (hne : instances.flatten ≠ []) (hcount : instances.length < 2 ^ 31)
    (hslice : Slice mem info (Item.group tag instances).value) :
    ∃ after, mem.drop info.val =
        (decimal instances.length ++ [soh]) ++ cut instances.flatten ++ after ∧
      groups.parse p mem info.val info.valLen = some
        ⟨(parseGroupsFields p info.val info.valLen.toNat instances.length (info.valLen.toNat + 1)
            ⟨groups.fields, 0, 0, 0⟩ (cut instances.flatten)).1,
          (parseGroupsFields p info.val info.valLen.toNat instances.length (info.valLen.toNat + 1)
            ⟨groups.fields, 0, 0, 0⟩ (cut instances.flatten)).2⟩ := by
  obtain ⟨hlen, after, hmem⟩ := hslice
  have htoNat : info.valLen.toNat = (Item.group tag instances).value.length := by omega
  have htake : (mem.drop info.val).take info.valLen.toNat = (Item.group tag instances).value := by
    rw [hmem, htoNat, List.take_left]
  rw [value_group hne] at hmem htake
  have hdigits : ∀ b ∈ decimal instances.length, IsDigit b := fun b hb =>
    isDigit_of_mem_decimal hb
  have hatoi : convertAtoi (mem.drop info.val) = some (instances.length : ℤ) := by
    rw [hmem, List.append_assoc, List.cons_append, convertAtoi,
      scanDigits_append hdigits (by decide), foldl_intDigit hdigits, value_decimal,
      bmod_of_lt (by omega)]
  refine ⟨after, by rw [hmem]; simp, ?_⟩
  rw [RGroups.parse, parseGroups, hatoi]
  simp only [Option.map_some, htake, readValue_append (soh_not_mem_decimal _), List.tail_cons]

lemma endsWithGroup_flatten {instances : List (List Item)} (hne : instances ≠ [])
    (hitems : ∀ items ∈ instances, items ≠ []) :
    ∃ items ∈ instances, endsWithGroup instances.flatten = endsWithGroup items := by
  have hmem := List.getLast_mem hne
  refine ⟨instances.getLast hne, hmem, ?_⟩
  have hsplit : instances.flatten = instances.dropLast.flatten ++ instances.getLast hne := by
    have h := congrArg List.flatten (List.dropLast_concat_getLast hne)
    rw [List.flatten_append] at h
    simpa using h.symm
  rw [hsplit, endsWithGroup_append _ (hitems _ hmem)]

/-- A group whose last instance ends with a field gives all its slices. -/
lemma parse_group_slices {tag first : ℕ} {instances : List (List Item)} {info : FieldInfo}
    (groups : RGroups) (hp : p.rgDictionary = some d) (hne : instances ≠ [])
    (hpos : first ≠ 0) (hcount : instances.length < 2 ^ 31)
    (hslice : Slice mem info (Item.group tag instances).value)
    (hfirst : ∀ items ∈ instances, ∃ val rest, items = .field first val :: rest ∧
      ∀ item ∈ rest, item.tag ≠ first)
    (hwf : ∀ items ∈ instances, ∀ item ∈ items, WellFormed d level k item)
    (hends : endsWithGroup instances.flatten = false) :
    ∃ groups', groups.parse p mem info.val info.valLen = some groups' ∧
      groups'.numGroups = instances.length ∧
      ∀ (i : ℕ) items, instances[i]? = some items → Slice mem (groups'.fields i) (cut items) := by
  have hitems : ∀ items ∈ instances, items ≠ [] := by
    intro items hmem
    obtain ⟨val, rest, rfl, -⟩ := hfirst items hmem
    simp
  have hflat : instances.flatten ≠ [] := by
    obtain ⟨items, hmem⟩ := List.exists_mem_of_ne_nil _ hne
    obtain ⟨item, hitem⟩ := List.exists_mem_of_ne_nil _ (hitems items hmem)
    exact List.ne_nil_of_mem (List.mem_flatten_of_mem hmem hitem)
  obtain ⟨after, hmem, hparse⟩ := parse_group (p := p) groups hflat hcount hslice
  have hlen : info.valLen.toNat =
      (decimal instances.length ++ [soh] ++ cut instances.flatten).length := by
    rw [hslice.1, value_group hflat, Int.toNat_natCast]
    simp
  have hwfall : ∀ item ∈ instances.flatten, WellFormed d level k item := by
    intro item hitem
    obtain ⟨items, hits, hitem⟩ := List.mem_flatten.mp hitem
    exact hwf items hits item hitem
  have hread := fun n hn => @parseGroupsFields_cut d level k instances.flatten p info.val
    info.valLen.toNat n instances.length ⟨groups.fields, 0, 0, 0⟩ hp hflat hwfall hends hn
  obtain ⟨hnum, -, hslices⟩ := @walk_instances info.val info.valLen.toNat first
    ⟨groups.fields, 0, 0, 0⟩ instances hpos (Or.inl rfl) hfirst
  have hsome : 0 < instances.length := List.length_pos_iff.mpr hne
  simp only [Nat.zero_add] at hnum hslices
  rw [hread _ (by rw [hlen, List.length_append]; omega), if_pos (by rw [hnum])] at hparse
  refine ⟨_, hparse, rfl, fun i items hi => ?_⟩
  obtain ⟨hval, hvalLen⟩ := hslices i items hi
  rw [closed, if_pos (by rw [hnum]; exact hsome)] at hval hvalLen
  exact instance_slice (hitems items (List.mem_of_getElem? hi)) hi hmem hlen hval hvalLen

lemma parse_group_fails {tag : ℕ} {instances : List (List Item)} {info : FieldInfo}
    (groups : RGroups) (hp : p.rgDictionary = some d) (hflat : instances.flatten ≠ [])
    (hcount : instances.length < 2 ^ 31)
    (hslice : Slice mem info (Item.group tag instances).value)
    (hwf : ∀ items ∈ instances, ∀ item ∈ items, WellFormed d level k item)
    (hends : endsWithGroup instances.flatten = true) :
    ∃ groups', groups.parse p mem info.val info.valLen = some groups' ∧
      groups'.numGroups = 0 := by
  obtain ⟨after, hmem, hparse⟩ := parse_group (p := p) groups hflat hcount hslice
  have hwfall : ∀ item ∈ instances.flatten, WellFormed d level k item := by
    intro item hitem
    obtain ⟨items, hits, hitem⟩ := List.mem_flatten.mp hitem
    exact hwf items hits item hitem
  exact ⟨_, hparse, parseGroupsFields_cut_group hp hwfall hends⟩

lemma group_parse_holds {info : FieldInfo} (group : Group) (hp : p.rgDictionary = some d)
    (hne : items ≠ []) (hwf : ∀ item ∈ items, WellFormed d level k item)
    (hslice : Slice mem info (cut items)) (hends : endsWithGroup items = false) :
    (group.parse p mem info.val info.valLen).numFields = items.length ∧
      Holds mem (group.parse p mem info.val info.valLen).fields 0 items := by
  obtain ⟨hlen, after, hmem⟩ := hslice
  have htoNat : info.valLen.toNat = (cut items).length := by omega
  have htake : (mem.drop info.val).take info.valLen.toNat = cut items := by
    rw [hmem, htoNat, List.take_left]
  obtain ⟨infos, hinfos, -, hholds⟩ := @parseGroupFields_cut d level k items p mem info.val
    ((cut items).length + 1) [] after group.fields 0 hp hne hwf hends (by rw [hmem]; rfl)
    (Nat.lt_succ_self _)
  rw [List.nil_append, Nat.zero_add] at hinfos
  unfold Group.parse parseGroup
  simp only [htake]
  rw [htoNat, hinfos]
  exact ⟨rfl, hholds⟩

lemma group_parse_fails {info : FieldInfo} (group : Group) (hp : p.rgDictionary = some d)
    (hwf : ∀ item ∈ items, WellFormed d level k item) (hslice : Slice mem info (cut items))
    (hends : endsWithGroup items = true) :
    (group.parse p mem info.val info.valLen).numFields = 0 := by
  obtain ⟨hlen, after, hmem⟩ := hslice
  have htoNat : info.valLen.toNat = (cut items).length := by omega
  unfold Group.parse parseGroup
  simp only [htoNat]
  rw [hmem, List.take_left]
  exact parseGroupFields_cut_group hp hwf hends

lemma length_le_flatten {instances : List (List Item)} (h : ∀ items ∈ instances, items ≠ []) :
    instances.length ≤ instances.flatten.length := by
  induction instances with
  | nil => simp
  | cons items instances ih =>
    have hpos := List.length_pos_iff.mpr (h items (by simp))
    have := ih fun its hits => h its (by simp [hits])
    rw [List.flatten_cons, List.length_append, List.length_cons]
    omega

lemma length_le_text (items : List Item) : items.length ≤ (text items).length := by
  induction items with
  | nil => simp
  | cons item items ih =>
    rw [text_cons]
    simp only [List.length_append, List.length_cons]
    omega

lemma length_le_of_slice {info : FieldInfo} {v : List Byte} (h : Slice mem info v) :
    v.length ≤ mem.length := by
  obtain ⟨-, rest, hdrop⟩ := h
  have := congrArg List.length hdrop
  rw [List.length_append, List.length_drop] at this
  omega

structure Parts (d : RGroupsDictionary) (level : ℕ → ℕ) (k first : ℕ)
    (instances : List (List Item)) : Prop where
  tag : first ≠ 0
  ne : instances ≠ []
  items : ∀ items ∈ instances, items ≠ []
  flat : instances.flatten ≠ []
  count : instances.length < 2 ^ 31
  starts : ∀ items ∈ instances, ∃ val rest, items = .field first val :: rest ∧
    ∀ item ∈ rest, item.tag ≠ first
  wellFormed : ∀ items ∈ instances, ∀ item ∈ items, WellFormed d level (k + 1) item

lemma WellFormed.parts {tag first : ℕ} {instances : List (List Item)} {info : FieldInfo}
    (hne : instances ≠ [])
    (hfirst : ∀ items ∈ instances, ∃ val rest, items = .field first val :: rest ∧
      ∀ item ∈ rest, item.tag ≠ first)
    (hwf : ∀ items ∈ instances, ∀ item ∈ items, WellFormed d level (k + 1) item)
    (hmem : mem.length < 2 ^ 31) (hslice : Slice mem info (Item.group tag instances).value) :
    Parts d level k first instances := by
  have hitems : ∀ items ∈ instances, items ≠ [] := by
    intro items hits
    obtain ⟨val, rest, rfl, -⟩ := hfirst items hits
    simp
  obtain ⟨items, hits⟩ := List.exists_mem_of_ne_nil _ hne
  obtain ⟨val, rest, hcons, -⟩ := hfirst items hits
  have hfield : .field first val ∈ items := by rw [hcons]; simp
  have hflat : instances.flatten ≠ [] := List.ne_nil_of_mem (List.mem_flatten_of_mem hits hfield)
  refine ⟨(hwf items hits _ hfield).isTag.1.ne', hne, hitems, hflat, ?_, hfirst, hwf⟩
  have h1 := length_le_flatten hitems
  have h2 := length_le_text instances.flatten
  have h3 := length_le_of_slice hslice
  have h4 := congrArg List.length (text_eq_cut hflat)
  rw [value_group hflat] at h3
  simp only [List.length_append, List.length_cons, List.length_nil] at h3 h4
  omega

def emptyGroup : Group := ⟨fun _ => ⟨0, 0, 0, 0⟩, 0⟩
def emptyGroups : RGroups := ⟨fun _ => ⟨0, 0, 0, 0⟩, 0⟩

/-- What comes back has no instance that ends with a group. -/
lemma readable_of_recovered {info : FieldInfo} (h : WellFormed d level k item)
    (hp : p.rgDictionary = some d) (hmem : mem.length < 2 ^ 31)
    (hslice : Slice mem info item.value) (hrec : Recovered p mem item info) : Readable item := by
  induction h generalizing info with
  | field => exact .field
  | @group k tag first instances tags htag hlevel hne hdef hall houter hfirst hwf ih =>
    have hparts := WellFormed.parts hne hfirst hwf hmem hslice
    cases hrec with
    | group hparse hgroup hsub =>
      have hends : endsWithGroup instances.flatten = false := by
        by_contra hend
        obtain ⟨groups', hread, hzero⟩ := parse_group_fails (p := p) emptyGroups hp hparts.flat
          hparts.count hslice hwf (by simpa using hend)
        obtain ⟨groups'', hread', hnum⟩ := hparse emptyGroups
        rw [hread] at hread'
        cases hread'
        have := List.length_pos_iff.mpr hne
        omega
      obtain ⟨groups', hread, -, hslices⟩ := parse_group_slices emptyGroups hp hne hparts.tag
        hparts.count hslice hfirst hwf hends
      have hopened : ∀ i : ℕ, Opened p mem info i (groups'.getGroup p mem i emptyGroup) :=
        fun i => ⟨_, _, _, hread, rfl⟩
      have hend : ∀ items ∈ instances, endsWithGroup items = false := by
        intro items hits
        obtain ⟨i, hi⟩ := List.mem_iff_getElem?.mp hits
        have hnum := (hgroup i items hi _ (hopened i)).1
        by_contra hend
        have hzero := group_parse_fails emptyGroup hp (hwf items hits) (hslices i items hi)
          (by simpa using hend)
        rw [RGroups.getGroup, hzero] at hnum
        have := List.length_pos_iff.mpr (hparts.items items hits)
        omega
      refine .group hend fun items hits item hitem => ?_
      obtain ⟨i, hi⟩ := List.mem_iff_getElem?.mp hits
      obtain ⟨j, hj⟩ := List.mem_iff_getElem?.mp hitem
      have hholds := (group_parse_holds emptyGroup hp (hparts.items items hits) (hwf items hits)
        (hslices i items hi) (hend items hits)).2 j item hj
      rw [Nat.zero_add] at hholds
      exact ih items hits item hitem hholds.2 (hsub i items hi _ (hopened i) j item hj)

/-- Without an instance that ends with a group everything comes back. -/
lemma recovered_of_readable {info : FieldInfo} (h : WellFormed d level k item)
    (hp : p.rgDictionary = some d) (hmem : mem.length < 2 ^ 31)
    (hslice : Slice mem info item.value) (hread : Readable item) : Recovered p mem item info := by
  induction h generalizing info with
  | field => exact .field hslice.valueIn
  | @group k tag first instances tags htag hlevel hne hdef hall houter hfirst hwf ih =>
    have hparts := WellFormed.parts hne hfirst hwf hmem hslice
    cases hread with
    | group hinst hsub =>
      have hends : endsWithGroup instances.flatten = false := by
        obtain ⟨items, hits, heq⟩ := endsWithGroup_flatten hne hparts.items
        rw [heq]
        exact hinst items hits
      have hslices := fun groups => parse_group_slices groups hp hne hparts.tag hparts.count
        hslice hfirst hwf hends
      have hopened : ∀ (i : ℕ) items, instances[i]? = some items → ∀ g, Opened p mem info i g →
          g.numFields = items.length ∧ Holds mem g.fields 0 items := by
        rintro i items hi g ⟨groups, groups', group, hparse, rfl⟩
        obtain ⟨groups'', hparse', -, hsl⟩ := hslices groups
        rw [hparse] at hparse'
        cases hparse'
        have hits := List.mem_of_getElem? hi
        exact group_parse_holds group hp (hparts.items items hits) (hwf items hits)
          (hsl i items hi) (hinst items hits)
      refine .group (fun groups => ?_) (fun i items hi g hg => ?_)
        fun i items hi g hg j item hj => ?_
      · obtain ⟨groups', hparse, hnum, -⟩ := hslices groups
        exact ⟨groups', hparse, hnum⟩
      · obtain ⟨hnum, hholds⟩ := hopened i items hi g hg
        refine ⟨hnum, fun j item hj => ?_⟩
        have hlt := (List.getElem?_eq_some_iff.mp hj).1
        have htag := (hholds j item hj).1
        rw [Nat.zero_add] at htag
        rw [Group.getField, if_neg (by omega), Option.map_some, htag]
      · obtain ⟨-, hholds⟩ := hopened i items hi g hg
        have hslice' := (hholds j item hj).2
        rw [Nat.zero_add] at hslice'
        have hits := List.mem_of_getElem? hi
        have hitem := List.mem_of_getElem? hj
        exact ih items hits item hitem hslice' (hsub items hits item hitem)

/-! ### The message -/

/-- `parse` reads the items of a message one by one. -/
lemma parseFields_text {before : List Byte} {done : List Field}
    (hrec : Recorded p (before ++ text items) done) (hp : p.rgDictionary = some d)
    (hsize : p.fieldsSize = maxFixTag) (hwf : ∀ item ∈ items, WellFormed d level k item)
    (hends : endsWithGroup items = false) (hn : (text items).length < n) :
    ∃ q, parseFields (before ++ text items).length n p (text items) = (q, true) ∧
      q.rgDictionary = some d ∧
      Recorded q (before ++ text items) (done ++ items.map fun item => (item.tag, item.value)) := by
  induction items generalizing p before done n with
  | nil =>
    obtain ⟨n, rfl⟩ := Nat.exists_eq_add_of_lt hn
    exact ⟨p, rfl, hp, by simpa using hrec⟩
  | cons item items ih =>
    have h := hwf item (by simp)
    obtain ⟨n, rfl⟩ : ∃ m, n = m + 1 := ⟨n - 1, by omega⟩
    have hread : p.readFieldValue item.tag (item.value ++ soh :: text items) =
        some (soh :: text items) := readFieldValue_item h hp fun hgroup => by
      rcases items with - | ⟨next, items⟩
      · rw [endsWithGroup_singleton, hgroup] at hends
        cases hends
      · have hnext := hwf next (by simp)
        exact ⟨next.tag, _, text_cons next items, hnext.isTag, hnext.level_tag⟩
    have hends' : endsWithGroup items = false := by
      rcases items with - | ⟨next, items⟩
      · rfl
      · rwa [endsWithGroup_cons item (by simp)] at hends
    have hdigits : ∀ b ∈ decimal item.tag, IsDigit b := fun b hb => isDigit_of_mem_decimal hb
    have h0 := h.isTag.1
    have hround := fun L m => @parseFields_field p (decimal item.tag)
      (item.value ++ soh :: text items) (soh :: text items) L m hsize hdigits
      (by rw [value_decimal]; omega) (by rw [value_decimal]; exact h.isTag.2)
      (by rw [value_decimal]; exact hread)
    have hslice := slice_from_end (before ++ decimal item.tag ++ [equal]) item.value
      (soh :: text items) p.counter item.tag
    simp only [value_decimal] at hround
    simp only [List.append_assoc, List.singleton_append] at hslice
    rw [text_cons] at hrec hn ⊢
    rw [hround, List.tail_cons]
    have hrec' := hrec.field hsize h.isTag.2 rfl rfl hslice
    have hwhole : before ++ (decimal item.tag ++ equal :: (item.value ++ soh :: text items)) =
        before ++ decimal item.tag ++ equal :: item.value ++ [soh] ++ text items := by simp
    rw [hwhole] at hrec' ⊢
    obtain ⟨q, hq, hqp, hqrec⟩ := ih (n := n) hrec' hp hsize
      (fun it hit => hwf it (by simp [hit])) hends' (by simp at hn; omega)
    exact ⟨q, hq, hqp, by simpa using hqrec⟩

/-- The item that a tag of the message stands for: the last one with it. -/
def IsLast (items : List Item) (item : Item) : Prop :=
  (items.filter fun it => it.tag = item.tag).getLast? = some item

lemma IsLast.isItem (h : IsLast items item) : item ∈ items :=
  (List.mem_filter.mp (List.mem_of_getLast? h)).1

lemma IsLast.lastOf (h : IsLast items item) :
    lastOf (items.map fun it => (it.tag, it.value)) item.tag = some item.value := by
  unfold IsLast at h
  unfold FieldGrammar.lastOf
  rw [List.filter_map, List.getLast?_map, Option.map_map]
  exact congrArg (Option.map _) h

def checkSumTag : ℕ := 10

/-- `parse` succeeds, and every item that can be asked for comes back. -/
def RecoversAll (p : FieldsParser) (items : List Item) : Prop :=
  (p.parse (text items)).2 = true ∧ ∀ item, IsLast items item →
    ∃ info, (p.parse (text items)).1.getField item.tag = some info ∧
      Recovered (p.parse (text items)).1 (text items) item info

/-- **Repeating groups round-trip if and only if no instance ends with a group.** Whatever was
parsed before, a message of fields and repeating groups nested to any depth, with CheckSum at its
end, comes back from the parser exactly when in the groups that can be asked for no instance has a
nested group at its end. -/
theorem recoversAll_iff (earlier : List (Option RGroupsDictionary × List Byte))
    {items : List Item} {checkSum : List Byte}
    (hwf : ∀ item ∈ items ++ [.field checkSumTag checkSum], WellFormed d level 0 item)
    (hlen : (text (items ++ [.field checkSumTag checkSum])).length < 2 ^ 31) :
    RecoversAll ((after earlier).setRgDictionary (some d))
        (items ++ [.field checkSumTag checkSum]) ↔
      ∀ item, IsLast (items ++ [.field checkSumTag checkSum]) item → Readable item := by
  have hpast := (after_past earlier).setRgDictionary (some d)
  have hdict : ((after earlier).setRgDictionary (some d)).rgDictionary = some d := rfl
  generalize (after earlier).setRgDictionary (some d) = p at hpast hdict ⊢
  have hends : endsWithGroup (items ++ [.field checkSumTag checkSum]) = false := by
    rw [endsWithGroup_append _ (by simp)]
    rfl
  generalize items ++ [Item.field checkSumTag checkSum] = message at hwf hlen hends ⊢
  obtain ⟨q, hq, hqp, hqrec⟩ := parseFields_text (n := (text message).length + 1)
    (hpast.recorded ([] ++ text message)) hdict hpast.size hwf hends (Nat.lt_succ_self _)
  have hparse : p.parse (text message) = (q, true) := hq
  unfold RecoversAll
  rw [hparse]
  have hfound : ∀ item, IsLast message item → ∃ info, q.getField item.tag = some info ∧
      Slice (text message) info item.value := by
    intro item hlast
    have htag := (hwf item hlast.isItem).isTag
    exact (hqrec item.tag htag.1 htag.2).2 _ hlast.lastOf
  constructor
  · rintro ⟨-, hall⟩ item hlast
    obtain ⟨info, hinfo, hrec⟩ := hall item hlast
    obtain ⟨info', hinfo', hslice⟩ := hfound item hlast
    rw [hinfo] at hinfo'
    cases hinfo'
    exact readable_of_recovered (hwf item hlast.isItem) hqp hlen hslice hrec
  · intro hread
    refine ⟨rfl, fun item hlast => ?_⟩
    obtain ⟨info, hinfo, hslice⟩ := hfound item hlast
    exact ⟨info, hinfo, recovered_of_readable (hwf item hlast.isItem) hqp hlen hslice
      (hread item hlast)⟩

def legsDictionary : RGroupsDictionary :=
  (RGroupsDictionary.new.addRg 100 [101, 102, 103, 104]).addRg 102 [103]

def legsLevel (t : ℕ) : ℕ := if t = 103 then 2 else if 100 < t ∧ t < 103 ∨ t = 104 then 1 else 0

/-- One leg with one allocation, which `rest` follows in the leg. -/
def leg (rest : List Item) : Item :=
  .group 100 [.field 101 [97] :: .group 102 [[.field 103 [98]]] :: rest]

lemma wellFormed_leg {rest : List Item}
    (hrest : ∀ item ∈ rest, ∃ val, item = .field 104 val ∧ soh ∉ val) :
    ∀ item ∈ [leg rest] ++ [.field checkSumTag [48, 48, 48]],
      WellFormed legsDictionary legsLevel 0 item := by
  have hallocation : WellFormed legsDictionary legsLevel 1 (.group 102 [[.field 103 [98]]]) := by
    refine @WellFormed.group _ _ 1 102 103 _ _ (by decide) rfl (by simp) rfl (by decide)
      (fun u hu => ?_) (fun items hits => ?_) fun items hits item hitem => ?_
    · simp only [List.mem_singleton, decide_eq_true_eq] at hu
      rw [show u = 103 by omega]
      decide
    · rw [List.mem_singleton.mp hits]
      exact ⟨[98], [], rfl, by simp⟩
    · rw [List.mem_singleton.mp hits, List.mem_singleton] at hitem
      rw [hitem]
      exact .field (by decide) rfl rfl (by decide)
  have hfield : ∀ item ∈ rest, WellFormed legsDictionary legsLevel 1 item := by
    intro item hitem
    obtain ⟨val, rfl, hval⟩ := hrest item hitem
    exact .field (by decide) rfl rfl hval
  intro item hitem
  rcases List.mem_append.mp hitem with hitem | hitem
  · rw [List.mem_singleton.mp hitem]
    refine @WellFormed.group _ _ 0 100 101 _ _ (by decide) rfl (by simp) rfl (fun f hf => ?_)
      (fun u hu => ?_) (fun items hits => ?_) fun items hits item hitem => ?_
    · obtain ⟨items, hits, item, hitem, hf⟩ := mem_flatInstances.mp hf
      rw [List.mem_singleton.mp hits] at hitem
      rcases List.mem_cons.mp hitem with rfl | hitem
      · rw [Item.flat, List.mem_singleton] at hf
        rw [hf]
        rfl
      rcases List.mem_cons.mp hitem with rfl | hitem
      · rcases List.mem_cons.mp hf with rfl | hf
        · rfl
        · rw [List.mem_singleton.mp hf]
          rfl
      · obtain ⟨val, rfl, -⟩ := hrest item hitem
        rw [Item.flat, List.mem_singleton] at hf
        rw [hf]
        rfl
    · simp only [List.mem_cons, List.not_mem_nil, or_false, decide_eq_true_eq] at hu
      obtain h | h | h | h : u = 101 ∨ u = 102 ∨ u = 103 ∨ u = 104 := by omega
      all_goals rw [h]; decide
    · rw [List.mem_singleton.mp hits]
      refine ⟨[97], _, rfl, fun item hitem => ?_⟩
      rcases List.mem_cons.mp hitem with rfl | hitem
      · decide
      · obtain ⟨val, rfl, -⟩ := hrest item hitem
        simp [Item.tag]
    · rw [List.mem_singleton.mp hits] at hitem
      rcases List.mem_cons.mp hitem with rfl | hitem
      · exact .field (by decide) rfl rfl (by decide)
      rcases List.mem_cons.mp hitem with rfl | hitem
      · exact hallocation
      · exact hfield item hitem
  · rw [List.mem_singleton.mp hitem]
    exact .field (by decide) rfl rfl (by decide)

/-- The allocation stands inside the leg. -/
theorem recoversAll_iff_leg :
    RecoversAll ((after []).setRgDictionary (some legsDictionary))
        ([leg [.field 104 [99]]] ++ [.field checkSumTag [48, 48, 48]]) ↔
      ∀ item, IsLast ([leg [.field 104 [99]]] ++ [.field checkSumTag [48, 48, 48]]) item →
        Readable item :=
  recoversAll_iff [] (wellFormed_leg (by simp [soh])) (by decide +kernel)

/-- The allocation ends the leg: the leg is not read. -/
theorem not_recoversAll_leg :
    (∀ item ∈ [leg []] ++ [.field checkSumTag [48, 48, 48]],
      WellFormed legsDictionary legsLevel 0 item) ∧
    ¬ RecoversAll ((after []).setRgDictionary (some legsDictionary))
        ([leg []] ++ [.field checkSumTag [48, 48, 48]]) := by
  refine ⟨wellFormed_leg (by simp), fun h => ?_⟩
  obtain ⟨info, hinfo, hrec⟩ := h.2 (leg []) (by rfl)
  have hnum : ((((after []).setRgDictionary (some legsDictionary)).parse
      (text ([leg []] ++ [.field checkSumTag [48, 48, 48]]))).1.getGroups
        (text ([leg []] ++ [.field checkSumTag [48, 48, 48]])) (leg []).tag emptyGroups).map
          RGroups.numGroups = some 0 := by
    decide +kernel
  cases hrec with
  | group hparse =>
    obtain ⟨groups', hread, hone⟩ := hparse emptyGroups
    rw [getGroups_of_getField hinfo, hread, Option.map_some, hone] at hnum
    cases hnum

end Ufix.GroupRecovery
