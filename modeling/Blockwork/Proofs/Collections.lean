import Blockwork.Ordered

/-!
# Ordered collections, as they are used

An ordered collection is told by what is found in it: the item of a key is the one that was put in
last. So putting in what is there already changes nothing, and putting in a row of items twice is
putting it in once.

## Main statements

* `Ordered.ext`: collections in which the same is found are the same.
* `Ordered.ofList_items`: a collection is the collection of its items.
* `Ordered.foldl_insert_twice`: a row of items need not be put in again.
* `Table.get?_ofList`: of several values under a name the last one is found.
-/

namespace Blockwork

namespace Ordered

variable {α : Type} {key : α → String}

theorem mem_of_find? {o : Ordered α key} {k : String} {a : α} (h : o.find? k = some a) :
    a ∈ o.items :=
  List.mem_of_find?_eq_some h

theorem mem_insert {o : Ordered α key} {a b : α} (h : b ∈ (o.insert a).items) :
    b = a ∨ b ∈ o.items :=
  mem_place h

theorem mem_of_mem_foldl {items : List α} {o : Ordered α key} {a : α}
    (h : a ∈ (items.foldl insert o).items) : a ∈ o.items ∨ a ∈ items := by
  induction items generalizing o with
  | nil => exact Or.inl h
  | cons b rest ih =>
    rcases ih h with h | h
    · rcases mem_insert h with rfl | h
      · exact Or.inr List.mem_cons_self
      · exact Or.inl h
    · exact Or.inr (List.mem_cons_of_mem _ h)

/-- What is in a collection was put in. -/
theorem mem_of_mem_ofList {items : List α} {a : α} (h : a ∈ (ofList items : Ordered α key).items) :
    a ∈ items := by
  rcases mem_of_mem_foldl h with h | h
  · cases h
  · exact h

/-- What is in a collection is found by its key. -/
theorem find?_of_mem {o : Ordered α key} {a : α} (h : a ∈ o.items) :
    o.find? (key a) = some a := by
  obtain ⟨items, ascending⟩ := o
  unfold find?
  induction items with
  | nil => cases h
  | cons b rest ih =>
    obtain ⟨before, ascending⟩ := List.pairwise_cons.mp ascending
    rcases List.mem_cons.mp h with rfl | h
    · exact List.find?_cons_of_pos (by simp)
    · have other : key b ≠ key a := String.ne_of_lt (before a h)
      rw [List.find?_cons_of_neg (by simpa using other)]
      exact ih ascending h

theorem key_of_find? {o : Ordered α key} {k : String} {a : α} (h : o.find? k = some a) :
    key a = k := by
  simpa using List.find?_some h

theorem mem_iff {o : Ordered α key} {a : α} : a ∈ o.items ↔ o.find? (key a) = some a :=
  ⟨find?_of_mem, mem_of_find?⟩

/-- Collections in which the same is found are the same. -/
theorem ext {o o' : Ordered α key} (h : ∀ k, o.find? k = o'.find? k) : o = o' := by
  have nodup (o : Ordered α key) : o.items.Nodup := by
    refine o.ascending.imp fun {a b} hab => ?_
    rintro rfl
    exact String.lt_irrefl (key a) hab
  have same : o.items.Perm o'.items :=
    (List.perm_ext_iff_of_nodup (nodup o) (nodup o')).2 fun a => by rw [mem_iff, mem_iff, h]
  -- the keys are in strict order, so there is nothing to show for two that are in both orders
  have antisymm (a b : α) (_ : a ∈ o.items) (_ : b ∈ o'.items) (hab : key a < key b)
      (hba : key b < key a) : a = b := absurd (String.lt_trans hab hba) (String.lt_irrefl _)
  obtain ⟨items, ascending⟩ := o
  obtain ⟨items', ascending'⟩ := o'
  obtain rfl : items = items' := List.Perm.eq_of_pairwise antisymm ascending ascending' same
  rfl

/-! ## What is found after an item is put in -/

theorem mem_place_self (a : α) (items : List α) : a ∈ place key a items := by
  induction items with
  | nil => exact List.mem_cons_self
  | cons b rest ih =>
    unfold place
    split
    · exact List.mem_cons_self
    · split
      · exact List.mem_cons_self
      · exact List.mem_cons_of_mem b ih

/-- An item with another key stays. -/
theorem mem_place_of_ne {a b : α} {items : List α} (h : b ∈ items) (hne : key b ≠ key a) :
    b ∈ place key a items := by
  induction items with
  | nil => cases h
  | cons c rest ih =>
    unfold place
    split
    · exact List.mem_cons_of_mem a h
    · split
      · rename_i heq
        rcases List.mem_cons.1 h with rfl | h
        · exact absurd heq.symm hne
        · exact List.mem_cons_of_mem a h
      · rcases List.mem_cons.1 h with rfl | h
        · exact List.mem_cons_self
        · exact List.mem_cons_of_mem c (ih h)

theorem find?_insert (o : Ordered α key) (a : α) (k : String) :
    (o.insert a).find? k = if key a = k then some a else o.find? k := by
  split
  · rename_i heq
    exact heq ▸ find?_of_mem (mem_place_self a o.items)
  · rename_i hne
    cases found : o.find? k with
    | some b =>
      have hb : key b = k := key_of_find? found
      have stays : b ∈ (o.insert a).items :=
        mem_place_of_ne (mem_of_find? found) fun h => hne (h ▸ hb)
      exact hb ▸ find?_of_mem stays
    | none =>
      cases after : (o.insert a).find? k with
      | none => rfl
      | some b =>
        have hb : key b = k := key_of_find? after
        rcases mem_insert (mem_of_find? after) with rfl | before
        · exact absurd hb hne
        · rw [← hb, find?_of_mem before] at found
          cases found

theorem find?_erase (o : Ordered α key) (k k' : String) :
    (o.erase k).find? k' = if k' = k then none else o.find? k' := by
  unfold erase find?
  rw [List.find?_filter]
  split
  · next same =>
    subst same
    simp
  · next other =>
    congr 1
    funext a
    by_cases h : key a = k' <;> simp [h, other]

theorem find?_foldl_insert (items : List α) (o : Ordered α key) (k : String) :
    (items.foldl insert o).find? k =
      (items.reverse.find? fun a => key a = k).or (o.find? k) := by
  induction items generalizing o with
  | nil => rfl
  | cons a rest ih =>
    rw [List.foldl_cons, ih, find?_insert, List.reverse_cons, List.find?_append, Option.or_assoc,
      List.find?_singleton]
    by_cases h : key a = k
    · simp [h]
    · simp [h]

/-- A row of items need not be put in again. -/
theorem foldl_insert_twice (items : List α) (o : Ordered α key) :
    items.foldl insert (items.foldl insert o) = items.foldl insert o := by
  refine ext fun k => ?_
  rw [find?_foldl_insert, find?_foldl_insert, ← Option.or_assoc, Option.or_self]

/-- A collection is the collection of its items. -/
theorem ofList_items (o : Ordered α key) : ofList o.items = o := by
  refine ext fun k => ?_
  rw [ofList, find?_foldl_insert]
  cases last : o.items.reverse.find? fun a => key a = k with
  | some a =>
    have ha : key a = k := by simpa using List.find?_some last
    have mem : a ∈ o.items := List.mem_reverse.1 (List.mem_of_find?_eq_some last)
    rw [← ha, find?_of_mem mem]
    rfl
  | none =>
    cases found : o.find? k with
    | none => rfl
    | some a =>
      -- an item that is found was put in
      have absent := List.find?_eq_none.1 last a (List.mem_reverse.2 (mem_of_find? found))
      exact absurd (decide_eq_true (key_of_find? found)) absent

end Ordered

theorem Table.get?_set {α : Type} (t : Table α) (name : String) (a : α) (name' : String) :
    (t.set name a).get? name' = if name = name' then some a else t.get? name' := by
  unfold Table.get? Table.set
  rw [Ordered.find?_insert]
  split <;> rfl

/-- A value of a table with one more is that one, or was there before. -/
theorem Table.get?_of_set {α : Type} {t : Table α} {name name' : String} {a a' : α}
    (h : (t.set name' a').get? name = some a) : a = a' ∨ t.get? name = some a := by
  obtain ⟨entry, found, rfl⟩ := Option.map_eq_some_iff.mp h
  have named : entry.1 = name := by simpa using List.find?_some found
  rcases Ordered.mem_insert (Ordered.mem_of_find? found) with rfl | mem
  · exact Or.inl rfl
  · rw [Table.get?, ← named, Ordered.find?_of_mem mem]
    exact Or.inr rfl

/-- A value under a name was put there. -/
theorem Table.mem_of_get?_ofList {α : Type} {entries : List (String × α)} {name : String} {a : α}
    (h : Table.get? (Ordered.ofList entries) name = some a) : (name, a) ∈ entries := by
  obtain ⟨entry, found, rfl⟩ := Option.map_eq_some_iff.mp h
  have named : entry.1 = name := by simpa using List.find?_some found
  have mem := Ordered.mem_of_mem_ofList (List.mem_of_find?_eq_some found)
  rwa [← named]

/-- An item of a list is found if it is the last one with its key. -/
theorem Ordered.find?_ofList {α : Type} {key : α → String} {items : List α} {k : String} {a : α} :
    (ofList items : Ordered α key).find? k = some a ↔
      ∃ before later, items = before ++ a :: later ∧ key a = k ∧ ∀ b ∈ later, key b ≠ k := by
  rw [ofList, find?_foldl_insert, show (empty : Ordered α key).find? k = none from rfl,
    Option.or_none, List.find?_eq_some_iff_append]
  constructor
  · rintro ⟨same, later, before, split, others⟩
    refine ⟨before.reverse, later.reverse, ?_, by simpa using same, ?_⟩
    · rw [← List.reverse_reverse items, split]
      simp
    · intro b among
      simpa using others b (List.mem_reverse.mp among)
  · rintro ⟨before, later, rfl, same, others⟩
    refine ⟨by simpa using same, later.reverse, before.reverse, by simp, ?_⟩
    intro b among
    simpa using others b (List.mem_reverse.mp among)

/-- A value of a list is found if it is the last one under its name. -/
theorem Table.get?_ofList {α : Type} {entries : List (String × α)} {name : String} {a : α} :
    Table.get? (Ordered.ofList entries) name = some a ↔
      ∃ i : Nat, entries[i]? = some (name, a) ∧
        ∀ j entry, i < j → entries[j]? = some entry → entry.1 ≠ name := by
  have found : Table.get? (Ordered.ofList entries) name = some a ↔
      (Ordered.ofList entries : Table α).find? name = some (name, a) := by
    rw [Table.get?, Option.map_eq_some_iff]
    constructor
    · rintro ⟨entry, found, rfl⟩
      rw [found, ← Ordered.key_of_find? found]
    · intro found
      exact ⟨_, found, rfl⟩
  rw [found, Ordered.find?_ofList]
  constructor
  · rintro ⟨before, later, rfl, -, others⟩
    refine ⟨before.length, by simp, fun j entry after is => ?_⟩
    obtain ⟨i, rfl⟩ := Nat.exists_eq_add_of_lt after
    refine others entry (List.mem_of_getElem? (i := i) ?_)
    rw [List.getElem?_append_right (by omega)] at is
    rwa [show before.length + i + 1 - before.length = i + 1 by omega] at is
  · rintro ⟨i, is, others⟩
    obtain ⟨lt, here⟩ := List.getElem?_eq_some_iff.mp is
    refine ⟨entries.take i, entries.drop (i + 1), ?_, rfl, ?_⟩
    · rw [← here, ← List.drop_eq_getElem_cons lt, List.take_append_drop]
    · intro entry among
      obtain ⟨j, later⟩ := List.getElem?_of_mem among
      rw [List.getElem?_drop] at later
      exact others (i + 1 + j) entry (by omega) later

end Blockwork
