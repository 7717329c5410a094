import Ufix.FieldGrammar

/-!
Messages with repeating groups nested to any depth: what they look like in the data, and how one
field or group of them is read.

Written out, a tree is a flat list of fields. The end of a group is where the first tag comes that
does not belong to it, and inside the slice of an enclosing group there may be none.
-/

namespace Ufix.GroupTree

open Ufix.Decimal Ufix.FieldsParser Ufix.FieldGrammar
open Ufix.TagValue (equal Field encode encodeAll)

/-- A field, or a repeating group with its count tag and its instances. -/
inductive Item
  | field (tag : ℕ) (val : List Byte)
  | group (tag : ℕ) (instances : List (List Item))

def Item.tag : Item → ℕ
  | .field tag _ => tag
  | .group tag _ => tag

def Item.isGroup : Item → Bool
  | .field _ _ => false
  | .group _ _ => true

mutual

def Item.flat : Item → List Field
  | .field tag val => [(tag, val)]
  | .group tag instances => (tag, decimal instances.length) :: flatInstances instances

def flatInstances : List (List Item) → List Field
  | [] => []
  | items :: instances => flatItems items ++ flatInstances instances

def flatItems : List Item → List Field
  | [] => []
  | item :: items => item.flat ++ flatItems items

end

/-- The items as they are written, with the end of the last field. -/
def text (items : List Item) : List Byte := encodeAll (flatItems items)

/-- What stands between `=` and the end of the item. -/
def Item.value : Item → List Byte
  | .field _ val => val
  | .group _ instances => (decimal instances.length ++ soh :: text instances.flatten).dropLast

def IsTag (t : ℕ) : Prop := 0 < t ∧ t < maxFixTag

instance : DecidablePred IsTag := fun _ => inferInstanceAs (Decidable (_ ∧ _))

/-- A tree whose root stands at level `k`: tags of different levels differ, an instance starts
with the first tag of its group, which it has once, and the dictionary lists for a count tag all
tags inside its group and none of its own level or an enclosing one. -/
inductive WellFormed (d : RGroupsDictionary) (level : ℕ → ℕ) : ℕ → Item → Prop
  | field {k tag : ℕ} {val : List Byte} (htag : IsTag tag) (hlevel : level tag = k)
      (hnormal : d.isNormal tag = true) (hval : soh ∉ val) : WellFormed d level k (.field tag val)
  | group {k tag first : ℕ} {instances : List (List Item)} {tags : ℤ → Bool} (htag : IsTag tag)
      (hlevel : level tag = k) (hne : instances ≠ []) (hdef : d.rgDef tag = some tags)
      (hall : ∀ f ∈ flatInstances instances, tags f.1 = true)
      (houter : ∀ u : ℕ, tags u = true → k < level u)
      (hfirst : ∀ items ∈ instances, ∃ val rest, items = .field first val :: rest ∧
        ∀ item ∈ rest, item.tag ≠ first)
      (hitems : ∀ items ∈ instances, ∀ item ∈ items, WellFormed d level (k + 1) item) :
      WellFormed d level k (.group tag instances)

/-! ### Trees as text -/

lemma flatItems_append (items items' : List Item) :
    flatItems (items ++ items') = flatItems items ++ flatItems items' := by
  induction items with
  | nil => rfl
  | cons item items ih => simp [flatItems, ih]

lemma flatInstances_eq (instances : List (List Item)) :
    flatInstances instances = flatItems instances.flatten := by
  induction instances with
  | nil => rfl
  | cons items instances ih => rw [flatInstances, List.flatten_cons, flatItems_append, ih]

lemma text_append (items items' : List Item) :
    text (items ++ items') = text items ++ text items' := by
  rw [text, flatItems_append, TagValue.encodeAll_append]
  rfl

lemma dropLast_text (l : List Byte) (fs : List Field) :
    (l ++ soh :: encodeAll fs).dropLast ++ [soh] = l ++ soh :: encodeAll fs := by
  have hend : ∃ m, soh :: encodeAll fs = m ++ [soh] := by
    induction fs using List.reverseRecOn with
    | nil => exact ⟨[], rfl⟩
    | append_singleton fs f ih =>
      refine ⟨soh :: (encodeAll fs ++ decimal f.1 ++ equal :: f.2), ?_⟩
      simp [encodeAll, encode, TagValue.endOfField, soh]
  obtain ⟨m, hm⟩ := hend
  rw [hm, ← List.append_assoc, List.dropLast_concat]

/-- **An item is written as one field**, whose value may hold others. -/
lemma text_cons (item : Item) (items : List Item) :
    text (item :: items) = decimal item.tag ++ equal :: (item.value ++ soh :: text items) := by
  rw [← List.singleton_append, text_append]
  cases item with
  | field tag val => simp [text, flatItems, Item.flat, Item.tag, Item.value, encodeAll, encode,
      TagValue.endOfField, soh]
  | group tag instances =>
    have hvalue := dropLast_text (decimal instances.length) (flatItems instances.flatten)
    have hflat : text [.group tag instances] = decimal tag ++ equal ::
        (decimal instances.length ++ soh :: encodeAll (flatItems instances.flatten)) := by
      simp [text, flatItems, Item.flat, flatInstances_eq, encodeAll, encode, TagValue.endOfField,
        soh]
    rw [hflat, ← hvalue]
    simp [Item.tag, Item.value, text]

/-- The items as they stand in a slice: the end of the last field is left out. -/
def cut (items : List Item) : List Byte := (text items).dropLast

lemma cut_singleton (item : Item) : cut [item] = decimal item.tag ++ equal :: item.value := by
  have htext : text [item] = decimal item.tag ++ equal :: item.value ++ [soh] := by
    rw [text_cons]
    simp [text, flatItems]
  rw [cut, htext, List.dropLast_concat]

lemma cut_cons (item : Item) {items : List Item} (hne : items ≠ []) :
    cut (item :: items) = decimal item.tag ++ equal :: (item.value ++ soh :: cut items) := by
  have hrest : text items ≠ [] := by
    cases items with
    | nil => exact absurd rfl hne
    | cons item' items => rw [text_cons]; simp
  rw [cut, text_cons, List.dropLast_append_of_ne_nil (by simp), List.dropLast_cons_of_ne_nil
    (by simp), List.dropLast_append_of_ne_nil (by simp), List.dropLast_cons_of_ne_nil hrest]
  rfl

lemma cut_ne_nil {items : List Item} (hne : items ≠ []) : cut items ≠ [] := by
  cases items with
  | nil => exact absurd rfl hne
  | cons item items =>
    cases items with
    | nil => simp [cut_singleton]
    | cons item' items => simp [cut_cons]

lemma text_eq_cut {items : List Item} (hne : items ≠ []) : text items = cut items ++ [soh] := by
  obtain ⟨item, rest, rfl⟩ := List.exists_cons_of_ne_nil hne
  have h := dropLast_text (decimal item.tag ++ equal :: item.value) (flatItems rest)
  have htext : text (item :: rest) =
      (decimal item.tag ++ equal :: item.value) ++ soh :: encodeAll (flatItems rest) := by
    rw [text_cons]
    simp [text]
  rw [cut, htext, h]

lemma cut_append {items items' : List Item} (hne : items ≠ []) (hne' : items' ≠ []) :
    cut (items ++ items') = cut items ++ soh :: cut items' := by
  have htext : text (items ++ items') = (cut items ++ soh :: cut items') ++ [soh] := by
    rw [text_append, text_eq_cut hne, text_eq_cut hne']
    simp
  rw [cut, htext, List.dropLast_concat]

lemma value_group {tag : ℕ} {instances : List (List Item)} (hne : instances.flatten ≠ []) :
    (Item.group tag instances).value =
      decimal instances.length ++ soh :: cut instances.flatten := by
  have hrest : text instances.flatten ≠ [] := by
    intro h
    exact cut_ne_nil hne (by rw [cut, h]; rfl)
  rw [Item.value, List.dropLast_append_of_ne_nil (by simp), List.dropLast_cons_of_ne_nil hrest]
  rfl

/-! ### The fields of a tree -/

lemma mem_flatItems {items : List Item} {f : Field} :
    f ∈ flatItems items ↔ ∃ item ∈ items, f ∈ item.flat := by
  induction items with
  | nil => simp [flatItems]
  | cons item items ih => simp [flatItems, ih]

lemma mem_flatInstances {instances : List (List Item)} {f : Field} :
    f ∈ flatInstances instances ↔ ∃ items ∈ instances, ∃ item ∈ items, f ∈ item.flat := by
  rw [flatInstances_eq, mem_flatItems]
  constructor
  · rintro ⟨item, hitem, hf⟩
    obtain ⟨items, hitems, hitem⟩ := List.mem_flatten.mp hitem
    exact ⟨items, hitems, item, hitem, hf⟩
  · rintro ⟨items, hitems, item, hitem, hf⟩
    exact ⟨item, List.mem_flatten.mpr ⟨items, hitems, hitem⟩, hf⟩

lemma soh_not_mem_decimal (n : ℕ) : soh ∉ decimal n := by
  intro h
  have hdigit : IsDigit soh := isDigit_of_mem_decimal h
  exact absurd hdigit (by decide)

variable {d : RGroupsDictionary} {level : ℕ → ℕ} {k : ℕ} {item : Item}

lemma WellFormed.isTag (h : WellFormed d level k item) : IsTag item.tag := by
  cases h <;> assumption

lemma WellFormed.level_tag (h : WellFormed d level k item) : level item.tag = k := by
  cases h <;> assumption

lemma WellFormed.flat (h : WellFormed d level k item) :
    ∀ f ∈ item.flat, IsTag f.1 ∧ soh ∉ f.2 := by
  induction h with
  | field htag hlevel hnormal hval =>
    intro f hf
    rw [Item.flat, List.mem_singleton] at hf
    rw [hf]
    exact ⟨htag, hval⟩
  | group htag hlevel hne hdef hall houter hfirst hitems ih =>
    intro f hf
    rw [Item.flat] at hf
    rcases List.mem_cons.mp hf with rfl | hf
    · exact ⟨htag, soh_not_mem_decimal _⟩
    · obtain ⟨items, hmem, item, hitem, hf⟩ := mem_flatInstances.mp hf
      exact ih items hmem item hitem f hf

/-! ### Reading one item -/

lemma readTag_decimal {t : ℕ} (ht : IsTag t) (rest : List Byte) :
    readTag 0 (decimal t ++ equal :: rest) = ((t : ℤ), equal :: rest) := by
  have hds : ∀ b ∈ decimal t, IsDigit b := fun b hb => isDigit_of_mem_decimal hb
  rw [readTag_digits hds, foldl_intDigit_of_lt hds (by rw [value_decimal]; exact ht.2),
    value_decimal]

lemma readValue_equal {val rest : List Byte} (hval : soh ∉ val) :
    readValue (equal :: (val ++ soh :: rest)) = soh :: rest := by
  have hne : soh ∉ equal :: val := by
    intro h
    rcases List.mem_cons.mp h with h | h
    · exact absurd h (by decide)
    · exact hval h
  exact @readValue_append (equal :: val) rest hne

lemma decimal_cons {t : ℕ} (ht : IsTag t) (rest : List Byte) :
    ∃ b data, decimal t ++ rest = b :: data :=
  exists_cons (by rw [value_decimal]; exact ht.1.ne') rest

def EndsGroup (tags : ℤ → Bool) (next : List Byte) : Prop :=
  ∃ t rest, next = decimal t ++ equal :: rest ∧ IsTag t ∧ tags t = false

/-- The fields of a group are passed over up to the first one outside. -/
lemma readRgFields_end {tags : ℤ → Bool} {fs : List Field} {next : List Byte} {n : ℕ}
    (hfs : ∀ f ∈ fs, IsTag f.1 ∧ soh ∉ f.2) (hall : ∀ f ∈ fs, tags f.1 = true)
    (hnext : EndsGroup tags next) (hn : fs.length < n) :
    readRgFields tags n (soh :: (encodeAll fs ++ next)) = some (soh :: next) := by
  induction fs generalizing n with
  | nil =>
    obtain ⟨n, rfl⟩ := Nat.exists_eq_add_of_lt hn
    obtain ⟨t, rest, rfl, ht, hout⟩ := hnext
    obtain ⟨b, data, hdata⟩ := decimal_cons ht (equal :: rest)
    rw [encodeAll, List.flatMap_nil, List.nil_append, readRgFields, List.tail_cons, hdata]
    simp only
    rw [← hdata, readTag_decimal ht, if_neg (by simp [hout])]
  | cons f fs ih =>
    obtain ⟨n, rfl⟩ : ∃ m, n = m + 1 := ⟨n - 1, by simp at hn; omega⟩
    obtain ⟨ht, hval⟩ := hfs f (by simp)
    obtain ⟨b, data, hdata⟩ := decimal_cons ht (equal :: (f.2 ++ soh :: (encodeAll fs ++ next)))
    have htext : encodeAll (f :: fs) ++ next =
        decimal f.1 ++ equal :: (f.2 ++ soh :: (encodeAll fs ++ next)) := by
      simp [TagValue.encodeAll_cons, encode, TagValue.endOfField, soh]
    rw [htext, readRgFields, List.tail_cons, hdata]
    simp only
    rw [← hdata, readTag_decimal ht, if_pos (hall f (by simp)), readValue_equal hval]
    exact ih (fun g hg => hfs g (by simp [hg])) (fun g hg => hall g (by simp [hg]))
      (by simp at hn; omega)

/-- Where the data ends inside the group, the value is not read. -/
lemma readRgFields_cut {tags : ℤ → Bool} {fs : List Field} {n : ℕ} (hne : fs ≠ [])
    (hfs : ∀ f ∈ fs, IsTag f.1 ∧ soh ∉ f.2) (hall : ∀ f ∈ fs, tags f.1 = true) :
    readRgFields tags n (soh :: (encodeAll fs).dropLast) = none := by
  induction fs generalizing n with
  | nil => exact absurd rfl hne
  | cons f fs ih =>
    rcases n with - | n
    · rfl
    obtain ⟨ht, hval⟩ := hfs f (by simp)
    by_cases hlast : fs = []
    · subst hlast
      have htext : (encodeAll [f]).dropLast = decimal f.1 ++ equal :: f.2 := by
        have hone : encodeAll [f] = decimal f.1 ++ equal :: f.2 ++ [soh] := by
          simp [encodeAll, encode, TagValue.endOfField, soh]
        rw [hone, List.dropLast_concat]
      have hend : readValue (equal :: f.2) = [] := by
        refine readValue_all fun h => ?_
        rcases List.mem_cons.mp h with h | h
        · exact absurd h (by decide)
        · exact hval h
      obtain ⟨b, data, hdata⟩ := decimal_cons ht (equal :: f.2)
      rw [htext, readRgFields, List.tail_cons, hdata]
      simp only
      rw [← hdata, readTag_decimal ht, if_pos (hall f (by simp)), hend]
      cases n <;> rfl
    · have hrest : encodeAll fs ≠ [] := by
        cases fs with
        | nil => exact absurd rfl hlast
        | cons g fs => simp [TagValue.encodeAll_cons, encode]
      have htext : (encodeAll (f :: fs)).dropLast =
          decimal f.1 ++ equal :: (f.2 ++ soh :: (encodeAll fs).dropLast) := by
        rw [TagValue.encodeAll_cons, List.dropLast_append_of_ne_nil hrest]
        simp [encode, TagValue.endOfField, soh]
      obtain ⟨b, data, hdata⟩ := decimal_cons ht
        (equal :: (f.2 ++ soh :: (encodeAll fs).dropLast))
      rw [htext, readRgFields, List.tail_cons, hdata]
      simp only
      rw [← hdata, readTag_decimal ht, if_pos (hall f (by simp)), readValue_equal hval]
      exact ih hlast (fun g hg => hfs g (by simp [hg])) fun g hg => hall g (by simp [hg])

variable {p : FieldsParser}

/-- The data goes on with an item of level `k`. -/
def GoesOn (level : ℕ → ℕ) (k : ℕ) (next : List Byte) : Prop :=
  ∃ t rest, next = decimal t ++ equal :: rest ∧ IsTag t ∧ level t = k

lemma readFieldValue_normal {t : ℤ} (hp : p.rgDictionary = some d) (h : d.isNormal t = true)
    (data : List Byte) : p.readFieldValue t data = some (readValue data) := by
  simp [readFieldValue, hp, h]

lemma readFieldValue_rg {t : ℤ} {tags : ℤ → Bool} (hp : p.rgDictionary = some d)
    (h : d.rgDef t = some tags) (data : List Byte) :
    p.readFieldValue t data = readRgFields tags (data.length + 1) (readValue data) := by
  have hin : d.isTagInRg t = tags := by
    funext u
    simp [RGroupsDictionary.isTagInRg, h]
  simp [readFieldValue, hp, RGroupsDictionary.isNormal, h, readRgValue, hin]

lemma length_le_encodeAll (fs : List Field) : fs.length ≤ (encodeAll fs).length := by
  induction fs with
  | nil => simp
  | cons f fs ih =>
    rw [TagValue.encodeAll_cons, List.length_append, List.length_cons]
    simp only [encode, List.length_append, List.length_cons]
    omega

/-- The value of an item is read up to its end: that of a field always, that of a group when the
data goes on at its level. -/
lemma readFieldValue_item (h : WellFormed d level k item) (hp : p.rgDictionary = some d)
    {next : List Byte} (hnext : item.isGroup = true → GoesOn level k next) :
    p.readFieldValue item.tag (item.value ++ soh :: next) = some (soh :: next) := by
  have hflat := h.flat
  cases h with
  | @field _ tag val htag hlevel hnormal hval =>
    change p.readFieldValue tag (val ++ soh :: next) = _
    rw [readFieldValue_normal hp hnormal, readValue_append hval]
  | @group _ tag first instances tags htag hlevel hne hdef hall houter hfirst hitems =>
    obtain ⟨t, rest, hgo, ht, hk⟩ := hnext rfl
    have hout : tags t = false := by
      by_contra hin
      have := houter t (by simpa using hin)
      omega
    have hvalue := dropLast_text (decimal instances.length) (flatItems instances.flatten)
    have htext : (Item.group tag instances).value ++ soh :: next =
        decimal instances.length ++ soh :: (encodeAll (flatItems instances.flatten) ++ next) := by
      have hsplit : (Item.group tag instances).value ++ soh :: next =
          ((Item.group tag instances).value ++ [soh]) ++ next := by simp
      rw [hsplit, Item.value, text, hvalue]
      simp
    change p.readFieldValue tag _ = _
    rw [htext, readFieldValue_rg hp hdef, readValue_append (soh_not_mem_decimal _)]
    refine readRgFields_end (fun f hf => hflat f ?_) (fun f hf => hall f ?_)
      ⟨t, rest, hgo, ht, hout⟩ ?_
    · rw [Item.flat, flatInstances_eq]
      exact List.mem_cons_of_mem _ hf
    · rw [flatInstances_eq]
      exact hf
    · have := length_le_encodeAll (flatItems instances.flatten)
      simp only [List.length_append, List.length_cons]
      omega

/-- At the end of a slice a field is read, a group is not. -/
lemma readFieldValue_last (h : WellFormed d level k item) (hp : p.rgDictionary = some d) :
    p.readFieldValue item.tag item.value = if item.isGroup then none else some [] := by
  have hflat := h.flat
  cases h with
  | @field _ tag val htag hlevel hnormal hval =>
    change p.readFieldValue tag val = _
    rw [readFieldValue_normal hp hnormal, readValue_all hval]
    rfl
  | @group _ tag first instances tags htag hlevel hne hdef hall houter hfirst hitems =>
    have hsome : instances.flatten ≠ [] := by
      intro hnil
      obtain ⟨items, hitems'⟩ := List.exists_mem_of_ne_nil _ hne
      obtain ⟨val, rest, hcons, -⟩ := hfirst items hitems'
      have hmem : Item.field first val ∈ instances.flatten :=
        List.mem_flatten.mpr ⟨items, hitems', by rw [hcons]; simp⟩
      rw [hnil] at hmem
      cases hmem
    change p.readFieldValue tag _ = none
    rw [value_group hsome, readFieldValue_rg hp hdef, readValue_append (soh_not_mem_decimal _)]
    refine readRgFields_cut ?_ (fun f hf => hflat f ?_) fun f hf => hall f ?_
    · obtain ⟨item, hitem⟩ := List.exists_mem_of_ne_nil _ hsome
      intro hnil
      cases item with
      | field t v =>
        have hmem := mem_flatItems.mpr ⟨_, hitem, List.mem_singleton.mpr rfl⟩
        rw [hnil] at hmem
        cases hmem
      | group t is =>
        have hmem := mem_flatItems.mpr ⟨_, hitem, List.mem_cons_self⟩
        rw [hnil] at hmem
        cases hmem
    · rw [Item.flat, flatInstances_eq]
      exact List.mem_cons_of_mem _ hf
    · rw [flatInstances_eq]
      exact hf

end Ufix.GroupTree
