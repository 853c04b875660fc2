import Blockwork.Proofs.JsonLimits
import Blockwork.Proofs.ProgramFormat
import Blockwork.Proofs.Resolution

/-!
# How deep loaded programs are written

Everything is written with all its fields, so what was read from a text that left some out may be
written deeper than it was read. Only the arguments of a block matter: where they are left out, the
block is written one level deeper. Blocks, their arguments and what the arguments hold take turns,
so it depends on the level whether that can happen at the limit. It cannot: blocks stand at every
third level only, and none of these is the last one.

## Main statements

* `Block.depth_of_ofJson`: a block is written at most one level deeper than it was read, and only
  if its levels leave the remainder one by three.
* `Program.depth_of_read`: a program that was read from a text is not written too deep to be read.
-/

namespace Blockwork

/-! ## What was read -/

theorem JsonDocument.read_eq_ok {α : Type} {d : JsonDocument} {f : Json → Except Fault α} {a : α} :
    d.read f = .ok a ↔ f d.value = .ok a ∧ d.trailing = false := by
  unfold JsonDocument.read
  cases f d.value with
  | error fault => simp
  | ok b => cases d.trailing <;> simp

namespace Part

variable {α β : Type}

theorem ok_of_seq {f : Part (α → β)} {x : Part α} {b : β} (h : f <*> x = pure b) :
    ∃ g a, f = pure g ∧ x = pure a ∧ g a = b := by
  cases f with
  | error e => cases x <;> cases h
  | ok g =>
    cases x with
    | error e => cases h
    | ok a => exact ⟨g, a, rfl, rfl, Except.ok.inj h⟩

theorem ok_of_map {g : α → β} {x : Part α} {b : β} (h : g <$> x = pure b) :
    ∃ a, x = pure a ∧ g a = b := by
  cases x with
  | error e => cases h
  | ok a => exact ⟨a, rfl, Except.ok.inj h⟩

theorem ok_of_seqLeft {x : Part α} {y : Part β} {a : α} (h : x <* y = pure a) : x = pure a := by
  cases x with
  | error e => cases y <;> cases h
  | ok a' =>
    cases y with
    | error e => cases h
    | ok b => exact h

end Part

namespace Members

variable {α : Type} {m : Members} {name : String} {read : Json → Except Fault α} {a : α}

theorem mem_of_field? (h : m.field? name read = pure (some a)) :
    ∃ e ∈ m.entries, read e.2 = .ok a := by
  unfold field? at h
  split at h
  · cases h
  · rename_i value i again found
    have named : (value, i) ∈ m.named name := found ▸ List.mem_cons_self
    obtain ⟨⟨e, k⟩, he, hv⟩ := List.mem_filterMap.1 named
    have same : e.2 = value := by
      dsimp only at hv
      split at hv
      · cases hv
        rfl
      · cases hv
    refine ⟨e, List.fst_mem_of_mem_zipIdx he, ?_⟩
    rw [same]
    cases hread : read value with
    | error fault => rw [hread] at h; cases h
    | ok b =>
      rw [hread] at h
      cases again with
      | nil => exact congrArg Except.ok (Option.some.inj (Except.ok.inj h))
      | cons other rest => cases h

/-- A field that must be there was read from one of the members. -/
theorem mem_of_required (h : m.required name read = pure a) :
    ∃ e ∈ m.entries, read e.2 = .ok a := by
  unfold required at h
  split at h
  · rename_i found
    exact mem_of_field? (Except.ok.inj h ▸ found)
  · cases h
  · cases h

/-- A field with a default has the default, or was read from one of the members. -/
theorem mem_of_field {default : α} (h : m.field name default read = pure a) :
    a = default ∨ ∃ e ∈ m.entries, read e.2 = .ok a := by
  obtain ⟨found, hfound, rfl⟩ := Part.ok_of_map h
  cases found with
  | none => exact .inl rfl
  | some a => exact .inr (mem_of_field? hfound)

theorem parts_of_read {names : List String} {parts : Members → Part α}
    (h : m.read names parts = .ok a) : parts m = pure a := by
  unfold read at h
  split at h
  · rename_i found
    exact Part.ok_of_seqLeft (Except.ok.inj h ▸ found)
  · cases h

end Members

namespace Json

variable {α : Type} {a : α} {j : Json}

/-- A record that was read has members, which are less deep. -/
theorem parts_of_readRecord {names : List String} {parts : Members → Part α}
    (h : readRecord names parts j = .ok a) :
    ∃ m : Members, (∀ e ∈ m.entries, e.2.depth < j.depth) ∧ parts m = pure a := by
  obtain ⟨m, hm, h⟩ := ok_of_bind h
  refine ⟨m, fun e he => ?_, Members.parts_of_read h⟩
  unfold members at hm
  split at hm
  · cases hm
    exact Nat.lt_succ_of_le (depth_le_depthMembers he)
  · cases hm
    exact Nat.lt_succ_of_le (depth_le_depthItems (List.of_mem_zip he).2)
  · cases hm
  · cases hm

/-- A record of one of several kinds that was read has members, which are less deep. -/
theorem parts_of_readTagged {tag : String} {kinds : List (Kind α)}
    (h : readTagged tag kinds j = .ok a) :
    0 < j.depth ∧ ∃ kind ∈ kinds, ∃ m : Members,
      (∀ e ∈ m.entries, e.2.depth < j.depth) ∧ kind.parts m = pure a := by
  have known {j : Json} {kind : Kind α} (h : asKind kinds j = .ok kind) : kind ∈ kinds := by
    obtain ⟨name, -, h⟩ := ok_of_bind h
    split at h
    · rename_i found
      cases h
      exact List.mem_of_find?_eq_some found
    · cases h
  unfold readTagged at h
  split at h
  · rename_i entries cut
    dsimp only at h
    split at h
    · cases h
    · rename_i kind told
      refine ⟨Nat.succ_pos _, ?_⟩
      obtain ⟨e, -, he⟩ := Members.mem_of_required (Part.ok_of_seqLeft told)
      refine ⟨kind, known he, _, fun e he => ?_, Members.parts_of_read h⟩
      exact Nat.lt_succ_of_le (depth_le_depthMembers (List.mem_filter.1 he).1)
  · cases h
  · rename_i first items cut
    obtain ⟨kind, hkind, h⟩ := ok_of_bind h
    obtain ⟨u, -, h⟩ := ok_of_bind h
    refine ⟨Nat.succ_pos _, kind, known hkind, _, fun e he => ?_, Members.parts_of_read h⟩
    exact Nat.lt_succ_of_le
      (depth_le_depthItems (List.mem_cons_of_mem first (List.of_mem_zip he).2))
  · cases h
  · cases h

/-- A list that was read has items, which are less deep. -/
theorem items_of_asList {read : Json → Except Fault α} {as : List α}
    (h : asList read j = .ok as) :
    0 < j.depth ∧ ∀ a ∈ as, ∃ item, item.depth < j.depth ∧ read item = .ok a := by
  have all {items : List Json} {as : List α} (h : items.mapM read = .ok as) :
      ∀ a ∈ as, ∃ item ∈ items, read item = .ok a := by
    induction items generalizing as with
    | nil =>
      cases h
      nofun
    | cons item rest ih =>
      rw [List.mapM_cons] at h
      obtain ⟨first, hfirst, h⟩ := ok_of_bind h
      obtain ⟨others, hothers, h⟩ := ok_of_bind h
      cases h
      intro a ha
      rcases List.mem_cons.1 ha with rfl | ha
      · exact ⟨item, List.mem_cons_self, hfirst⟩
      · obtain ⟨found, mem, hread⟩ := ih hothers a ha
        exact ⟨found, List.mem_cons_of_mem item mem, hread⟩
  unfold asList at h
  split at h
  · rename_i items cut
    obtain ⟨as', has, h⟩ := ok_of_bind h
    have same : as' = as := by
      unfold unlessFault at h
      split at h
      · exact Except.ok.inj h
      · cases h
    refine ⟨Nat.succ_pos _, fun a ha => ?_⟩
    obtain ⟨item, mem, hread⟩ := all has a (same ▸ ha)
    exact ⟨item, Nat.lt_succ_of_le (depth_le_depthItems mem), hread⟩
  · cases h
  · cases h

/-! ## The depth of what is written -/

@[simp] theorem depth_text (s : String) : (text s).depth = 0 := rfl

@[simp] theorem depth_number (n : JsonNumber) : (number n).depth = 0 := rfl

theorem depth_list_le {items : List Json} {n : Nat} (h : ∀ j ∈ items, j.depth < n) (pos : 0 < n) :
    (list items).depth ≤ n := by
  have content : depthItems items ≤ n - 1 := depthItems_le fun j hj => by
    have := h j hj
    omega
  rw [list, depth]
  omega

theorem depth_record_le {members : List (String × Json)} {n : Nat}
    (h : ∀ m ∈ members, m.2.depth < n) (pos : 0 < n) : (record members).depth ≤ n := by
  have content : depthMembers members ≤ n - 1 := depthMembers_le fun m hm => by
    have := h m hm
    omega
  rw [record, depth]
  omega

end Json

/-! ## Definitions -/

theorem Value.depth_toJson (v : Value) : v.toJson.depth = 0 := by
  cases v <;> simp [toJson, Json.depth]

theorem Color.depth_toJson (c : Color) : c.toJson.depth = 1 := by
  simp [toJson, Json.record, Json.depth, Json.depthMembers, Json.nat]

theorem Behavior.depth_toJson (b : Behavior) : b.toJson.depth = 1 := by
  cases b with
  | control flow => simp [toJson, Json.record, Json.depth, Json.depthMembers]
  | native name => simp [toJson, Json.record, Json.depth, Json.depthMembers]
  | procedure body =>
    cases body <;> simp [toJson, Json.record, Json.depth, Json.depthMembers, Json.nat]

theorem Slot.depth_choices (choices : List String) {n : Nat} (pos : 0 < n) :
    (Json.list (choices.map .text)).depth ≤ n := by
  refine Json.depth_list_le (fun j hj => ?_) pos
  obtain ⟨choice, -, rfl⟩ := List.mem_map.1 hj
  exact pos

/-- A slot is not written deeper than it was read. -/
theorem Slot.depth_of_ofJson {j : Json} {s : Slot} (h : ofJson j = .ok s) :
    s.toJson.depth ≤ j.depth := by
  obtain ⟨pos, kind, hkind, m, shallow, parts⟩ := Json.parts_of_readTagged h
  simp only [kinds, List.mem_cons, List.not_mem_nil, or_false] at hkind
  rcases hkind with rfl | rfl | rfl | rfl | rfl
  · obtain ⟨label, -, rfl⟩ := Part.ok_of_map parts
    exact Json.depth_record_le (by simp [pos]) pos
  · obtain ⟨asset, -, rfl⟩ := Part.ok_of_map parts
    exact Json.depth_record_le (by simp [pos]) pos
  · obtain ⟨name, -, rfl⟩ := Part.ok_of_map parts
    exact Json.depth_record_le (by simp [pos]) pos
  · obtain ⟨dropdown, choices, named, listed, rfl⟩ := Part.ok_of_seq parts
    obtain ⟨name, -, rfl⟩ := Part.ok_of_map named
    -- the choices were read from a list inside the slot
    obtain ⟨e, he, hread⟩ := Members.mem_of_required listed
    have inner := (Json.items_of_asList hread).1
    have outer := shallow e he
    have choicesFit : (Json.list (choices.map .text)).depth < j.depth :=
      Nat.lt_of_le_of_lt (depth_choices choices inner) outer
    exact Json.depth_record_le (by simp [pos, choicesFit]) pos
  · cases parts
    exact Json.depth_record_le (by simp [pos]) pos

/-- A definition is not written deeper than it was read. -/
theorem Definition.depth_of_ofJson {j : Json} {d : Definition} (h : ofJson j = .ok d) :
    d.toJson.depth ≤ j.depth := by
  obtain ⟨m, shallow, read⟩ := Json.parts_of_readRecord h
  obtain ⟨_, behavior, read₄, -, rfl⟩ := Part.ok_of_seq read
  obtain ⟨_, slots, read₃, hslots, rfl⟩ := Part.ok_of_seq read₄
  obtain ⟨_, color, read₂, -, rfl⟩ := Part.ok_of_seq read₃
  obtain ⟨_, category, read₁, -, rfl⟩ := Part.ok_of_seq read₂
  obtain ⟨id, -, rfl⟩ := Part.ok_of_map read₁
  -- the slots were read from a list inside the definition
  obtain ⟨e, he, hread⟩ := Members.mem_of_required hslots
  have outer := shallow e he
  obtain ⟨inner, items⟩ := Json.items_of_asList hread
  have slotsFit : (Json.list (slots.map Slot.toJson)).depth ≤ e.2.depth := by
    refine Json.depth_list_le (fun j hj => ?_) inner
    obtain ⟨s, hs, rfl⟩ := List.mem_map.1 hj
    obtain ⟨item, hitem, hs⟩ := items s hs
    exact Nat.lt_of_le_of_lt (Slot.depth_of_ofJson hs) hitem
  have slotsLt : (Json.list (slots.map Slot.toJson)).depth < j.depth :=
    Nat.lt_of_le_of_lt slotsFit outer
  exact Json.depth_record_le (by
    simp [Color.depth_toJson, Behavior.depth_toJson, slotsLt]; omega) (by omega)

/-- No definition is written deep. -/
theorem Definition.depth_toJson_le (d : Definition) : d.toJson.depth ≤ 4 := by
  have slotFits (s : Slot) : s.toJson.depth ≤ 2 := by
    cases s with
    | dropdown name choices =>
      have choicesFit := Slot.depth_choices choices Nat.one_pos
      exact Json.depth_record_le (by simp; omega) (by omega)
    | _ => exact Json.depth_record_le (by simp) (by omega)
  have slotsFit : (Json.list (d.slots.map Slot.toJson)).depth ≤ 3 := by
    refine Json.depth_list_le (fun j hj => ?_) (by omega)
    obtain ⟨s, -, rfl⟩ := List.mem_map.1 hj
    exact Nat.lt_succ_of_le (slotFits s)
  exact Json.depth_record_le (by
    simp [Color.depth_toJson, Behavior.depth_toJson]; omega) (by omega)

/-! ## Blocks -/

theorem Argument.items_of_readItems {items : List Json} {arguments : List Argument}
    (h : readItems items = .ok arguments) :
    ∀ a ∈ arguments, ∃ item ∈ items, ofJson item = .ok a := by
  induction items generalizing arguments with
  | nil =>
    rw [readItems] at h
    cases h
    nofun
  | cons item rest ih =>
    rw [readItems] at h
    obtain ⟨first, hfirst, h⟩ := ok_of_bind h
    obtain ⟨others, hothers, h⟩ := ok_of_bind h
    cases h
    intro a ha
    rcases List.mem_cons.1 ha with rfl | ha
    · exact ⟨item, List.mem_cons_self, hfirst⟩
    · obtain ⟨found, mem, hread⟩ := ih hothers a ha
      exact ⟨found, List.mem_cons_of_mem item mem, hread⟩

theorem Json.of_unlessFault {α : Type} {fault : Option Fault} {a b : α}
    (h : unlessFault fault a = .ok b) : a = b := by
  unfold unlessFault at h
  split at h
  · exact Except.ok.inj h
  · cases h

/-- Arguments that were read are items of a list. -/
theorem Argument.items_of_listOfJson {j : Json} {arguments : List Argument}
    (h : listOfJson j = .ok arguments) :
    ∀ a ∈ arguments, ∃ item, item.depth < j.depth ∧ ofJson item = .ok a := by
  unfold listOfJson at h
  split at h
  · rename_i items cut
    obtain ⟨read, hread, h⟩ := ok_of_bind h
    obtain rfl := Json.of_unlessFault h
    intro a ha
    obtain ⟨item, mem, hitem⟩ := items_of_readItems hread a ha
    exact ⟨item, Nat.lt_succ_of_le (Json.depth_le_depthItems mem), hitem⟩
  · cases h
  · cases h

/-- The arguments of a block are those it had, or were read from a member. -/
theorem Block.arguments_of_readMembers {members : List (String × Json)} {d d' : Draft}
    (h : readMembers d members = .ok d') :
    d'.arguments = d.arguments ∨
      ∃ m ∈ members, ∃ arguments, d'.arguments = some arguments ∧
        Argument.listOfJson m.2 = .ok arguments := by
  induction members generalizing d with
  | nil =>
    rw [readMembers] at h
    cases h
    exact .inl rfl
  | cons m rest ih =>
    obtain ⟨name, value⟩ := m
    have later {d : Draft} (h : readMembers d rest = .ok d') : d'.arguments = d.arguments ∨
        ∃ m ∈ (name, value) :: rest, ∃ arguments, d'.arguments = some arguments ∧
          Argument.listOfJson m.2 = .ok arguments := by
      rcases ih h with same | ⟨m, mem, found⟩
      · exact .inl same
      · exact .inr ⟨m, List.mem_cons_of_mem (name, value) mem, found⟩
    rw [readMembers] at h
    dsimp only at h
    split at h
    · split at h
      · cases h
      · obtain ⟨id, -, h⟩ := ok_of_bind h
        have found := later h
        exact found
    · split at h
      · split at h
        · cases h
        · obtain ⟨arguments, hread, h⟩ := ok_of_bind h
          rcases later h with same | found
          · exact .inr ⟨(name, value), List.mem_cons_self, arguments, same, hread⟩
          · exact .inr found
      · obtain ⟨-, -, h⟩ := ok_of_bind h
        exact later h

theorem Block.arguments_of_finish {d : Draft} {cut : Option Fault} {b : Block}
    (h : d.finish cut = .ok b) : b.arguments = d.arguments.getD [] := by
  unfold Draft.finish at h
  split at h
  · cases h
  · cases h
  · cases h
    rfl

/-- A block that was read has no arguments, or those of a list inside it. -/
theorem Block.arguments_of_ofJson {j : Json} {b : Block} (h : ofJson j = .ok b) :
    0 < j.depth ∧ (b.arguments = [] ∨
      ∃ list, list.depth < j.depth ∧ Argument.listOfJson list = .ok b.arguments) := by
  unfold ofJson at h
  split at h
  · rename_i members cut
    obtain ⟨d, hd, h⟩ := ok_of_bind h
    have finished := arguments_of_finish h
    refine ⟨Nat.succ_pos _, ?_⟩
    rcases arguments_of_readMembers hd with none | ⟨m, mem, arguments, same, hread⟩
    · exact .inl (by rw [finished, none]; rfl)
    · rw [same] at finished
      exact .inr ⟨m.2, Nat.lt_succ_of_le (Json.depth_le_depthMembers mem), finished ▸ hread⟩
  · cases h
  · obtain ⟨id, -, h⟩ := ok_of_bind h
    exact ⟨Nat.succ_pos _, .inl (arguments_of_finish h)⟩
  · rename_i definition list rest cut
    obtain ⟨id, -, h⟩ := ok_of_bind h
    obtain ⟨arguments, hread, h⟩ := ok_of_bind h
    have finished : b.arguments = arguments := arguments_of_finish h
    have inside : list.depth ≤ Json.depthItems (definition :: list :: rest) :=
      Json.depth_le_depthItems (List.mem_cons_of_mem _ List.mem_cons_self)
    exact ⟨Nat.succ_pos _, .inr ⟨list, Nat.lt_succ_of_le inside, finished ▸ hread⟩⟩
  · cases h
  · cases h

/-- What was read as an argument holds what was read inside it. -/
theorem Argument.content_of_ofJson {j : Json} {a : Argument} (h : ofJson j = .ok a) :
    ∃ value, value.depth < j.depth ∧
      ((∃ b, a = Block.nested b ∧ Block.ofJson value = .ok b) ∨
        ∃ kind, ofMember kind value = .ok a) := by
  unfold ofJson at h
  split at h
  · cases h
  · rename_i kind value rest cut
    have inside : value.depth ≤ Json.depthMembers ((kind, value) :: rest) :=
      Json.depth_le_depthMembers (m := (kind, value)) List.mem_cons_self
    refine ⟨value, Nat.lt_succ_of_le inside, ?_⟩
    dsimp only at h
    split at h
    · obtain ⟨read, hread, h⟩ := ok_of_bind h
      obtain rfl := Json.of_unlessFault h
      obtain ⟨b, hb, rfl⟩ := ok_of_map hread
      exact .inl ⟨b, rfl, hb⟩
    · obtain ⟨read, hread, h⟩ := ok_of_bind h
      obtain rfl := Json.of_unlessFault h
      exact .inr ⟨kind, hread⟩
  · cases h
  · cases h
  · cases h

/-- How many levels a block is written with that was read from so many: at a level where arguments
can be left out for the lack of another one, that one is added. -/
def stretched (n : Nat) : Nat := if n % 3 = 1 then n + 1 else n

theorem stretched_mono {m n : Nat} (h : m ≤ n) : stretched m ≤ stretched n := by
  unfold stretched
  split <;> split <;> omega

theorem stretched_add (n : Nat) : stretched (n + 3) = stretched n + 3 := by
  unfold stretched
  split <;> split <;> omega

theorem le_stretched (n : Nat) : n ≤ stretched n := by
  unfold stretched
  split <;> omega

theorem two_le_stretched {n : Nat} (h : 0 < n) : 2 ≤ stretched n := by
  unfold stretched
  split <;> omega

/-- A block is written as deep as its arguments ask for. -/
theorem Block.depth_of_arguments {j : Json} {b : Block} (h : ofJson j = .ok b)
    (arguments : ∀ item a, item.depth + 1 < j.depth → Argument.ofJson item = .ok a →
      a.toJson.depth + 2 ≤ stretched (item.depth + 2)) :
    b.toJson.depth ≤ stretched j.depth := by
  obtain ⟨pos, read⟩ := arguments_of_ofJson h
  -- the list of arguments is written even when there was none to be read
  have room := two_le_stretched pos
  have listFits : (Json.list (Argument.listToJson b.arguments)).depth < stretched j.depth := by
    have fits : (Json.list (Argument.listToJson b.arguments)).depth ≤ stretched j.depth - 1 := by
      refine Json.depth_list_le (fun item hitem => ?_) (by omega)
      rw [Argument.listToJson_eq] at hitem
      obtain ⟨a, ha, rfl⟩ := List.mem_map.1 hitem
      rcases read with none | ⟨list, inside, hlist⟩
      · rw [none] at ha
        cases ha
      · obtain ⟨item, hitem, hread⟩ := Argument.items_of_listOfJson hlist a ha
        have bound := arguments item a (by omega) hread
        have more : stretched (item.depth + 2) ≤ stretched j.depth := stretched_mono (by omega)
        omega
    omega
  exact Json.depth_record_le (by simp [listFits]; omega) (by omega)

/-- What is not a block is not written deeper than it was read. -/
theorem Argument.depth_of_ofMember {kind : String} {value : Json} {a : Argument}
    (h : ofMember kind value = .ok a) : a.toJson.depth ≤ value.depth + 1 := by
  unfold ofMember at h
  split at h
  · obtain ⟨v, -, rfl⟩ := ok_of_map h
    rw [toJson]
    exact Json.depth_record_le (by simp [Value.depth_toJson]) (by omega)
  · split at h
    · obtain ⟨name, -, rfl⟩ := ok_of_map h
      rw [toJson]
      exact Json.depth_record_le (by simp) (by omega)
    · split at h
      · obtain ⟨d, hd, rfl⟩ := ok_of_map h
        have inner := Definition.depth_of_ofJson hd
        rw [toJson]
        exact Json.depth_record_le (by simp; omega) (by omega)
      · cases h

theorem Argument.toJson_nested (b : Block) : b.nested.toJson = .record [("block", b.toJson)] := by
  rw [Block.nested, toJson, Block.toJson]

/-- An argument that holds a block is written deeper than it was read only if the block is. -/
theorem Argument.depth_of_ofJson {j : Json} {a : Argument} (h : ofJson j = .ok a) :
    a.toJson.depth + 2 ≤ stretched (j.depth + 2) := by
  induction hn : j.depth using Nat.strongRecOn generalizing j a with
  | ind n ih =>
    subst hn
    obtain ⟨value, inside, ⟨b, rfl, hb⟩ | ⟨kind, hkind⟩⟩ := content_of_ofJson h
    · -- the argument, the block and the list of its arguments are three levels
      have block := Block.depth_of_arguments hb fun item a hitem hread =>
        ih item.depth (by omega) hread rfl
      have up : stretched (value.depth + 3) ≤ stretched (j.depth + 2) := stretched_mono (by omega)
      rw [stretched_add] at up
      have wrapped : b.nested.toJson.depth ≤ b.toJson.depth + 1 := by
        rw [toJson_nested]
        exact Json.depth_record_le (by simp) (by omega)
      omega
    · have inner := depth_of_ofMember hkind
      have wide := le_stretched (j.depth + 2)
      omega

/-- A block is written at most one level deeper than it was read. -/
theorem Block.depth_of_ofJson {j : Json} {b : Block} (h : ofJson j = .ok b) :
    b.toJson.depth ≤ stretched j.depth :=
  depth_of_arguments h fun _ _ _ hread => Argument.depth_of_ofJson hread

/-! ## Programs -/

/-- A chain that was read four levels above the limit is not written deeper than the limit. -/
theorem Chain.depth_of_ofJson {j : Json} {c : Chain} (h : ofJson j = .ok c)
    (fits : j.depth + 2 ≤ Json.depthLimit) : c.toJson.depth + 2 ≤ Json.depthLimit := by
  obtain ⟨m, shallow, read⟩ := Json.parts_of_readRecord h
  obtain ⟨_, blocks, read₂, hblocks, rfl⟩ := Part.ok_of_seq read
  obtain ⟨_, position, read₁, -, rfl⟩ := Part.ok_of_seq read₂
  obtain ⟨id, -, rfl⟩ := Part.ok_of_map read₁
  obtain ⟨e, he, hread⟩ := Members.mem_of_required hblocks
  have outer := shallow e he
  obtain ⟨-, items⟩ := Json.items_of_asList hread
  -- 123 leaves no remainder by three, so no block is written deeper than that
  have blockFits (b : Block) (hb : b ∈ blocks) : b.toJson.depth ≤ 123 := by
    obtain ⟨item, hitem, hread⟩ := items b hb
    have read := Block.depth_of_ofJson hread
    have limit : stretched item.depth ≤ stretched 123 := stretched_mono (by
      unfold Json.depthLimit at fits
      omega)
    exact Nat.le_trans read limit
  have blocksFit : (Json.list (blocks.map Block.toJson)).depth ≤ 124 := by
    refine Json.depth_list_le (fun j hj => ?_) (by omega)
    obtain ⟨b, hb, rfl⟩ := List.mem_map.1 hj
    exact Nat.lt_succ_of_le (blockFits b hb)
  have positionFits : position.toJson.depth ≤ 1 :=
    Json.depth_record_le (by simp) (by omega)
  have written : (Chain.mk id position blocks).toJson.depth ≤ 125 :=
    Json.depth_record_le (by simp [Json.nat]; omega) (by omega)
  exact Nat.add_le_add_right written 2

namespace Program

theorem depth_le {p : Program}
    (chains : ∀ c ∈ p.chains, c.toJson.depth + 2 ≤ Json.depthLimit) :
    p.toJson.depth ≤ Json.depthLimit := by
  have definitionsFit : p.definitions.toJson.depth ≤ 5 := by
    refine Json.depth_list_le (fun j hj => ?_) (by omega)
    obtain ⟨d, -, rfl⟩ := List.mem_map.1 hj
    exact Nat.lt_succ_of_le d.depth_toJson_le
  have globalsFit : (variablesToJson p.globals).depth ≤ 1 := by
    refine Json.depth_record_le (fun m hm => ?_) (by omega)
    obtain ⟨e, -, rfl⟩ := List.mem_map.1 hm
    simp [Value.depth_toJson]
  have chainsFit : (Json.list (p.chains.map Chain.toJson)).depth ≤ 126 := by
    refine Json.depth_list_le (fun j hj => ?_) (by omega)
    obtain ⟨c, hc, rfl⟩ := List.mem_map.1 hj
    have := chains c hc
    unfold Json.depthLimit at this
    omega
  have written : p.toJson.depth ≤ 127 := Json.depth_record_le (by simp; omega) (by omega)
  exact written

/-- The chains of a program that was read from a text are not written too deep. -/
theorem chains_of_read {text : String} {p : Program}
    (h : (Json.parse text).read ofJson = .ok p) :
    ∀ c ∈ p.chains, c.toJson.depth + 2 ≤ Json.depthLimit := by
  have limit := Json.depth_parse text
  obtain ⟨m, shallow, parts⟩ := Json.parts_of_readRecord (JsonDocument.read_eq_ok.1 h).1
  obtain ⟨_, chains, parts₂, hchains, rfl⟩ := Part.ok_of_seq parts
  obtain ⟨_, globals, parts₁, -, rfl⟩ := Part.ok_of_seq parts₂
  obtain ⟨definitions, -, rfl⟩ := Part.ok_of_map parts₁
  intro c hc
  rcases Members.mem_of_field hchains with rfl | ⟨e, he, hread⟩
  · cases hc
  · obtain ⟨item, hitem, hc⟩ := (Json.items_of_asList hread).2 c hc
    have outer := shallow e he
    exact Chain.depth_of_ofJson hc (by omega)

end Program

end Blockwork
