import Blockwork.Proofs.JsonTrees

/-!
# Reading what was written

A format is a way to write values of a type as JSON and a way to read them. It is faithful if what
is written is read back as the value it was written from, as long as the numbers in it come back
from their texts. Lists, tables and records of faithful formats are faithful. For a record it is
enough that each field is found under its name and that there are no other names.

## Main statements

* `Json.Faithful.list`, `Json.Faithful.table`: lists and tables are read back.
* `Json.readRecord_of_complete`, `Json.readTagged_of_complete`: how a record is read that has been
  written with all its fields.
-/

namespace Blockwork

namespace Json

/-- What is written is read back. -/
structure Faithful {α : Type} (write : α → Json) (read : Json → Except Fault α) : Prop where
  plain : ∀ a, (write a).Plain
  reads : ∀ a, (write a).Kept → read (write a).reread = .ok a

variable {α : Type} {write : α → Json} {read : Json → Except Fault α}

/-! ## Lists and tables -/

/-- Items are read in order, each on its own. -/
theorem mapM_eq_ok {β ε : Type} {items : List α} {put : α → β} {get : β → Except ε α}
    (h : ∀ a ∈ items, get (put a) = .ok a) : (items.map put).mapM get = .ok items := by
  induction items with
  | nil => rfl
  | cons a rest ih =>
    have first := h a List.mem_cons_self
    have others := ih fun b hb => h b (List.mem_cons_of_mem a hb)
    rw [List.map_cons, List.mapM_cons, first, others]
    rfl

/-- A list is read back if its items are. -/
theorem Faithful.list (h : Faithful write read) :
    Faithful (fun items : List α => Json.list (items.map write)) (asList read) where
  plain items := .list fun j hj => by
    obtain ⟨a, -, rfl⟩ := List.mem_map.1 hj
    exact h.plain a
  reads items kept := by
    rw [kept_list] at kept
    have itemsRead : (items.map (reread ∘ write)).mapM read = .ok items :=
      mapM_eq_ok fun a ha => h.reads a (kept _ (List.mem_map_of_mem ha))
    rw [reread_list, List.map_map, Json.list, asList, itemsRead]
    rfl

/-- A table is read back if its values are. -/
theorem Faithful.table (h : Faithful write read) :
    Faithful (fun entries : List (String × α) => Json.record (entries.map fun (name, a) =>
      (name, write a))) (asTable read) where
  plain entries := .record fun m hm => by
    obtain ⟨e, -, rfl⟩ := List.mem_map.1 hm
    exact h.plain e.2
  reads entries kept := by
    rw [kept_record] at kept
    rw [reread_record, List.map_map, Json.record, asTable, mapM_eq_ok fun e he => ?_]
    · rfl
    · have value := h.reads e.2 (kept _ (List.mem_map_of_mem he))
      simp only [Function.comp_apply, value]
      rfl

theorem asText_reread (s : String) : (text s).reread.asText = .ok s := by
  rw [reread_text]
  rfl

theorem faithful_text : Faithful text asText := ⟨.text, fun s _ => asText_reread s⟩

/-- A natural number below a limit is read back. -/
theorem asNat_reread {n limit : Nat} (h : n < limit) (h' : limit ≤ UInt64.size) :
    (nat n).reread.asNat limit = .ok n := by
  rw [reread_nat (Nat.lt_of_lt_of_le h h'), nat, asNat]
  simp [h]

end Json

/-! ## Fields -/

namespace Members

/-- The members of a record that was written with the given fields, as they are read. -/
def ofFields (fields : List (String × Json)) : Members :=
  ⟨fields.map fun m => (m.1, m.2.reread), none⟩

variable {α : Type} {fields : List (String × Json)} {name : String} {j : Json}
  {read : Json → Except Fault α} {a : α}

theorem named_eq_nil {entries : List (String × Json)} (h : name ∉ entries.map Prod.fst)
    (start : Nat) :
    (entries.zipIdx start).filterMap (fun (e, i) =>
      if e.1 = name then some (e.2, i) else none) = [] := by
  induction entries generalizing start with
  | nil => rfl
  | cons e rest ih =>
    rw [List.map_cons, List.mem_cons, not_or] at h
    simp only [List.zipIdx_cons, List.filterMap_cons, if_neg (Ne.symm h.1)]
    exact ih h.2 (start + 1)

/-- A name that occurs once has one value. -/
theorem named_of_mem {entries : List (String × Json)} (distinct : (entries.map Prod.fst).Nodup)
    (h : (name, j) ∈ entries) (start : Nat) :
    ∃ i, (entries.zipIdx start).filterMap (fun (e, i) =>
      if e.1 = name then some (e.2, i) else none) = [(j, i)] := by
  induction entries generalizing start with
  | nil => cases h
  | cons e rest ih =>
    rw [List.map_cons, List.nodup_cons] at distinct
    simp only [List.zipIdx_cons, List.filterMap_cons]
    rcases List.mem_cons.1 h with rfl | h
    · exact ⟨start, by simp only [if_true, named_eq_nil distinct.1]⟩
    · -- the name stands further on, so not here as well
      have other : e.1 ≠ name := fun he => distinct.1 (he ▸ List.mem_map_of_mem h)
      simp only [if_neg other]
      exact ih distinct.2 h (start + 1)

/-- A field is read from the value under its name. -/
theorem field?_ofFields (distinct : (fields.map Prod.fst).Nodup) (h : (name, j) ∈ fields)
    (hread : read j.reread = .ok a) : (ofFields fields).field? name read = pure (some a) := by
  have names : (ofFields fields).entries.map Prod.fst = fields.map Prod.fst := by
    rw [ofFields, List.map_map]
    rfl
  have entry : (name, j.reread) ∈ (ofFields fields).entries :=
    List.mem_map_of_mem (f := fun m : String × Json => (m.1, m.2.reread)) h
  obtain ⟨i, hi⟩ := named_of_mem (names ▸ distinct) entry 0
  have found : (ofFields fields).named name = [(j.reread, i)] := hi
  rw [field?, found]
  simp only [hread]
  rfl

theorem required_ofFields (distinct : (fields.map Prod.fst).Nodup) (h : (name, j) ∈ fields)
    (hread : read j.reread = .ok a) : (ofFields fields).required name read = pure a := by
  rw [required, field?_ofFields distinct h hread]
  rfl

theorem field_ofFields (distinct : (fields.map Prod.fst).Nodup) (h : (name, j) ∈ fields)
    {default : α} (hread : read j.reread = .ok a) :
    (ofFields fields).field name default read = pure a := by
  rw [field, field?_ofFields distinct h hread]
  rfl

/-- There is no fault where every field is either named or passes the check. -/
theorem others_ofFields {names : List String} {check : Json → Option Fault}
    (h : ∀ m ∈ fields, m.1 ∈ names ∨ check m.2.reread = none) :
    (ofFields fields).others names check = pure () := by
  have faults : (ofFields fields).entries.zipIdx.filterMap (fun (e, i) =>
      if names.contains e.1 then none else (check e.2).map fun fault => (i, fault)) = [] := by
    rw [List.filterMap_eq_nil_iff]
    rintro ⟨e, i⟩ he
    obtain ⟨m, hm, rfl⟩ := List.mem_map.1 (List.fst_mem_of_mem_zipIdx he)
    rcases h m hm with known | passes
    · simp [known]
    · simp [passes]
  rw [others, faults]
  rfl

/-- A record is read from its fields. -/
theorem read_ofFields {parts : Members → Part α} (h : parts (ofFields fields) = pure a) :
    (ofFields fields).read (fields.map Prod.fst) parts = .ok a := by
  have rest : (ofFields fields).others (fields.map Prod.fst) Json.skipped = pure () :=
    others_ofFields fun m hm => .inl (List.mem_map_of_mem hm)
  rw [read, h, rest]
  rfl

end Members

namespace Json

variable {α : Type} {fields : List (String × Json)} {a : α}

/-- A record that was written with all its fields is read from them. -/
theorem readRecord_reread {parts : Members → Part α}
    (h : parts (Members.ofFields fields) = pure a) :
    readRecord (fields.map Prod.fst) parts (record fields).reread = .ok a := by
  rw [reread_record]
  exact Members.read_ofFields h

/-- A record that was written with its kind and all fields of the kind is read from them. -/
theorem readTagged_reread {tag name : String} {kinds : List (Kind α)} {kind : Kind α}
    (hkind : kinds.find? (fun k => k.name = name) = some kind)
    (hfields : fields.map Prod.fst = kind.fields)
    (distinct : (tag :: kind.fields).Nodup) (plain : ∀ m ∈ fields, m.2.Plain)
    (h : kind.parts (Members.ofFields fields) = pure a) :
    readTagged tag kinds (record ((tag, .text name) :: fields)).reread = .ok a := by
  have kindRead : asKind kinds (text name).reread = .ok kind := by
    rw [asKind, asText_reread]
    simp only [bind, Except.bind, hkind]
  have told : (Members.ofFields ((tag, .text name) :: fields)).required tag (asKind kinds) =
      pure kind :=
    Members.required_ofFields (by rwa [List.map_cons, hfields]) List.mem_cons_self kindRead
  have rest : (Members.ofFields ((tag, .text name) :: fields)).others [tag] Json.settled =
      pure () := by
    refine Members.others_ofFields fun m hm => ?_
    rcases List.mem_cons.1 hm with rfl | hm
    · exact .inl List.mem_cons_self
    · exact .inr (settled_reread (plain m hm))
  -- the member that tells the kind is taken out before the others are read
  have untagged : (Members.ofFields ((tag, .text name) :: fields)).entries.filter
      (fun e => e.1 ≠ tag) = (Members.ofFields fields).entries := by
    rw [Members.ofFields, List.map_cons, List.filter_cons_of_neg (by simp)]
    refine List.filter_eq_self.2 fun e he => ?_
    obtain ⟨m, hm, rfl⟩ := List.mem_map.1 he
    have other : m.1 ≠ tag := fun heq =>
      (List.nodup_cons.1 distinct).1 (heq ▸ hfields ▸ List.mem_map_of_mem hm)
    simpa using other
  have content := Members.read_ofFields h
  rw [hfields] at content
  unfold Members.ofFields at told rest untagged content
  rw [reread_record, record]
  simp only [readTagged, told, rest, untagged]
  exact content

/-- A record whose kind has one field is read from that field. -/
theorem readTagged_single {β : Type} {tag name field : String} {kinds : List (Kind α)}
    {make : β → α} {read : Json → Except Fault β} {j : Json} {b : β}
    (hkind : kinds.find? (fun k => k.name = name) =
      some ⟨name, [field], fun m => make <$> m.required field read⟩)
    (fresh : tag ≠ field) (plain : j.Plain) (hread : read j.reread = .ok b) :
    readTagged tag kinds (record [(tag, .text name), (field, j)]).reread = .ok (make b) := by
  refine readTagged_reread hkind rfl (by simp [fresh]) (by simp [plain]) ?_
  dsimp only
  rw [Members.required_ofFields (by simp) (by simp) hread]
  rfl

end Json

end Blockwork
