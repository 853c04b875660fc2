/-!
# Ordered collections

Items kept in strictly ascending order of a key, so that there is at most one item of each key and
the order of iteration does not depend on how the collection came about. An item put in takes the
place of the item with its key.
-/

namespace Blockwork

/-- Items in strictly ascending order of their keys. -/
structure Ordered (α : Type) (key : α → String) where
  items : List α
  ascending : items.Pairwise fun a b => key a < key b

namespace Ordered

variable {α : Type} {key : α → String}

/-- No items. -/
def empty : Ordered α key := ⟨[], .nil⟩

instance : Inhabited (Ordered α key) := ⟨empty⟩

/-- The item with the given key. -/
def find? (o : Ordered α key) (k : String) : Option α := o.items.find? fun a => key a = k

/-- Puts an item in its place among items in order. -/
def place (key : α → String) (a : α) : List α → List α
  | [] => [a]
  | b :: rest =>
    if key a < key b then a :: b :: rest
    else if key a = key b then a :: rest
    else b :: place key a rest

/-- What is in a list after an item is placed was there before, or is the item. -/
theorem mem_place {a b : α} {items : List α} (h : b ∈ place key a items) : b = a ∨ b ∈ items := by
  induction items with
  | nil => simpa [place] using h
  | cons c rest ih =>
    unfold place at h
    split at h
    · simpa using h
    · split at h
      · simp only [List.mem_cons] at h ⊢
        exact h.imp_right .inr
      · simp only [List.mem_cons] at h ⊢
        rcases h with h | h
        · exact .inr (.inl h)
        · exact (ih h).imp_right .inr

/-- Placing an item keeps the order. -/
theorem ascending_place (a : α) {items : List α} (h : items.Pairwise fun a b => key a < key b) :
    (place key a items).Pairwise fun a b => key a < key b := by
  induction items with
  | nil => simp [place]
  | cons b rest ih =>
    obtain ⟨hb, hrest⟩ := List.pairwise_cons.1 h
    unfold place
    split
    · rename_i hab
      refine List.Pairwise.cons (fun c hc => ?_) h
      rcases List.mem_cons.1 hc with rfl | hc
      · exact hab
      · exact String.lt_trans hab (hb c hc)
    · rename_i hab
      split
      · rename_i heq
        exact List.Pairwise.cons (fun c hc => heq ▸ hb c hc) hrest
      · rename_i hne
        have hba : key b < key a := by
          rcases Std.lt_trichotomy (key a) (key b) with h | h | h
          · exact absurd h hab
          · exact absurd h hne
          · exact h
        refine List.Pairwise.cons (fun c hc => ?_) (ih hrest)
        rcases mem_place hc with rfl | hc
        · exact hba
        · exact hb c hc

/-- Puts an item in, in place of the one with its key. -/
def insert (o : Ordered α key) (a : α) : Ordered α key :=
  ⟨place key a o.items, ascending_place a o.ascending⟩

/-- Takes out the item with the given key. -/
def erase (o : Ordered α key) (k : String) : Ordered α key :=
  ⟨o.items.filter fun a => key a ≠ k, o.ascending.filter _⟩

/-- All items of a list; of several with one key the last. -/
def ofList (items : List α) : Ordered α key := items.foldl insert empty

/-- How many items there are. -/
def size (o : Ordered α key) : Nat := o.items.length

/-- Whether there are no items. -/
def isEmpty (o : Ordered α key) : Bool := o.items.isEmpty

end Ordered

/-- Values under names. -/
abbrev Table (α : Type) : Type := Ordered (String × α) Prod.fst

namespace Table

variable {α : Type}

/-- The value under a name. -/
def get? (t : Table α) (name : String) : Option α := (t.find? name).map Prod.snd

/-- Puts a value under a name. -/
def set (t : Table α) (name : String) (a : α) : Table α := t.insert (name, a)

end Table

end Blockwork
