import Blockwork.Json.Reading
import Blockwork.Proofs.JsonTokens

/-!
# Putting a written text together again

The tokens of a value are put together to the value, whatever is open around it and whatever
follows. A container is only entered while fewer than `Json.depthLimit` are open, so the statement
counts the containers around the value together with those in it.

## Main statements

* `JsonDocument.build_tokens`: the tokens of a value are put together to the value.
* `Json.parse_pretty`: a written text is read as the value, as its numbers are read.
-/

namespace Blockwork

/-! ## Nesting -/

namespace Json

mutual

/-- How many containers are nested in each other, as far as they can be entered. -/
def depth : Json → Nat
  | .array items _ => depthItems items + 1
  | .object members _ => depthMembers members + 1
  | _ => 0

/-- How many containers are nested in each other in items. -/
def depthItems : List Json → Nat
  | [] => 0
  | item :: rest => max (depth item) (depthItems rest)

/-- How many containers are nested in each other in members. -/
def depthMembers : List (String × Json) → Nat
  | [] => 0
  | (_, value) :: rest => max (depth value) (depthMembers rest)

end

theorem depth_le_depthItems {items : List Json} {j : Json} (h : j ∈ items) :
    j.depth ≤ depthItems items := by
  induction items with
  | nil => cases h
  | cons item rest ih =>
    rw [depthItems]
    rcases List.mem_cons.1 h with rfl | h
    · exact Nat.le_max_left _ _
    · exact Nat.le_trans (ih h) (Nat.le_max_right _ _)

theorem depth_le_depthMembers {members : List (String × Json)} {m : String × Json}
    (h : m ∈ members) : m.2.depth ≤ depthMembers members := by
  induction members with
  | nil => cases h
  | cons n rest ih =>
    rw [depthMembers]
    rcases List.mem_cons.1 h with rfl | h
    · exact Nat.le_max_left _ _
    · exact Nat.le_trans (ih h) (Nat.le_max_right _ _)

end Json

/-! ## From tokens to trees -/

namespace JsonDocument

open Json

/-- What becomes of a text when a value has been put together. -/
def resume (value : Json) (stack : List OpenJson) (rest : List JsonToken) : JsonDocument :=
  match finish value stack !rest.isEmpty with
  | .inl document => document
  | .inr (stack, at_) => build stack at_ rest

theorem nested_of_lt {depth : Nat} (h : depth < depthLimit) (j : Json) : nested depth j = j :=
  if_pos h

variable (stack : List OpenJson) (rest : List JsonToken)

theorem build_scalar (orEnd : Bool) (value : Json) :
    build stack (.value orEnd) (.scalar value :: rest) = resume value stack rest := rfl

theorem build_text (orEnd : Bool) (s : String) :
    build stack (.value orEnd) (.text (some s) :: rest) = resume (.text s) stack rest := rfl

theorem build_emptyArray :
    build (.array [] :: stack) (.value true) (.endArray :: rest) =
      resume (nested stack.length (.list [])) stack rest := rfl

theorem build_endArray (items : List Json) :
    build (.array items :: stack) .separator (.endArray :: rest) =
      resume (nested stack.length (.list items.reverse)) stack rest := rfl

theorem build_emptyObject (key : String) :
    build (.object [] key :: stack) (.key true) (.endObject :: rest) =
      resume (nested stack.length (.record [])) stack rest := rfl

theorem build_endObject (members : List (String × Json)) (key : String) :
    build (.object members key :: stack) .separator (.endObject :: rest) =
      resume (nested stack.length (.record members.reverse)) stack rest := rfl

/-- A value is put together wherever it may stand. -/
def Builds (j : Json) : Prop :=
  ∀ (stack : List OpenJson) (orEnd : Bool) (rest : List JsonToken),
    stack.length + j.depth ≤ depthLimit →
    build stack (.value orEnd) (j.reread.tokens ++ rest) = resume j.reread stack rest

theorem build_items {items : List Json} (h : ∀ j ∈ items, Builds j)
    (fits : stack.length + depthItems items < depthLimit) (before : List Json) :
    build (.array before :: stack) .separator
        (tokensItems (items.map reread) ++ .endArray :: rest) =
      resume (.list (before.reverse ++ items.map reread)) stack rest := by
  induction items generalizing before with
  | nil =>
    have room : stack.length < depthLimit := by omega
    rw [List.map_nil, tokensItems, List.nil_append, List.append_nil, build_endArray,
      nested_of_lt room]
  | cons item more ih =>
    rw [depthItems] at fits
    have first := h item List.mem_cons_self (.array before :: stack) false
      (tokensItems (more.map reread) ++ .endArray :: rest)
      (by rw [List.length_cons]; omega)
    have others := ih (fun j hj => h j (List.mem_cons_of_mem item hj)) (by omega)
      (item.reread :: before)
    rw [List.map_cons, tokensItems, List.cons_append, List.append_assoc]
    calc
      _ = build (.array before :: stack) (.value false) (item.reread.tokens ++
            (tokensItems (more.map reread) ++ .endArray :: rest)) := rfl
      _ = build (.array (item.reread :: before) :: stack) .separator
            (tokensItems (more.map reread) ++ .endArray :: rest) := first
      _ = _ := by rw [others, List.reverse_cons, List.append_assoc, List.singleton_append]

theorem build_members {members : List (String × Json)} (h : ∀ m ∈ members, Builds m.2)
    (fits : stack.length + depthMembers members < depthLimit) (before : List (String × Json))
    (key : String) :
    build (.object before key :: stack) .separator
        (tokensMembers (members.map fun m => (m.1, m.2.reread)) ++ .endObject :: rest) =
      resume (.record (before.reverse ++ members.map fun m => (m.1, m.2.reread))) stack rest := by
  induction members generalizing before key with
  | nil =>
    have room : stack.length < depthLimit := by omega
    rw [List.map_nil, tokensMembers, List.nil_append, List.append_nil, build_endObject,
      nested_of_lt room]
  | cons m more ih =>
    rw [depthMembers] at fits
    have first := h m List.mem_cons_self (.object before m.1 :: stack) false
      (tokensMembers (more.map fun m => (m.1, m.2.reread)) ++ .endObject :: rest)
      (by rw [List.length_cons]; omega)
    have others := ih (fun n hn => h n (List.mem_cons_of_mem m hn)) (by omega)
      ((m.1, m.2.reread) :: before) m.1
    rw [List.map_cons, tokensMembers, List.cons_append, List.cons_append, List.cons_append,
      List.append_assoc]
    calc
      _ = build (.object before m.1 :: stack) (.value false) (m.2.reread.tokens ++
            (tokensMembers (more.map fun m => (m.1, m.2.reread)) ++ .endObject :: rest)) := rfl
      _ = build (.object ((m.1, m.2.reread) :: before) m.1 :: stack) .separator
            (tokensMembers (more.map fun m => (m.1, m.2.reread)) ++ .endObject :: rest) := first
      _ = _ := by rw [others, List.reverse_cons, List.append_assoc, List.singleton_append]

/-- An array is put together if its items are. -/
theorem builds_list {items : List Json} (h : ∀ j ∈ items, Builds j) : Builds (.list items) := by
  intro stack orEnd rest fits
  rw [list, depth] at fits
  rw [reread_list]
  cases items with
  | nil =>
    have room : stack.length < depthLimit := by omega
    calc
      _ = build (.array [] :: stack) (.value true) (.endArray :: rest) := rfl
      _ = _ := by rw [build_emptyArray, nested_of_lt room]; rfl
  | cons item more =>
    rw [depthItems] at fits
    have first := h item List.mem_cons_self (.array [] :: stack) true
      (tokensItems (more.map reread) ++ .endArray :: rest) (by rw [List.length_cons]; omega)
    have others := build_items stack rest (fun j hj => h j (List.mem_cons_of_mem item hj))
      (by omega) [item.reread]
    rw [List.map_cons, list, tokens, List.cons_append, List.append_assoc, List.append_assoc]
    calc
      _ = build (.array [] :: stack) (.value true) (item.reread.tokens ++
            (tokensItems (more.map reread) ++ .endArray :: rest)) := rfl
      _ = build (.array [item.reread] :: stack) .separator
            (tokensItems (more.map reread) ++ .endArray :: rest) := first
      _ = _ := others

/-- An object is put together if its values are. -/
theorem builds_record {members : List (String × Json)} (h : ∀ m ∈ members, Builds m.2) :
    Builds (.record members) := by
  intro stack orEnd rest fits
  rw [record, depth] at fits
  rw [reread_record]
  cases members with
  | nil =>
    have room : stack.length < depthLimit := by omega
    calc
      _ = build (.object [] "" :: stack) (.key true) (.endObject :: rest) := rfl
      _ = _ := by rw [build_emptyObject, nested_of_lt room]; rfl
  | cons m more =>
    rw [depthMembers] at fits
    have first := h m List.mem_cons_self (.object [] m.1 :: stack) false
      (tokensMembers (more.map fun m => (m.1, m.2.reread)) ++ .endObject :: rest)
      (by rw [List.length_cons]; omega)
    have others := build_members stack rest (fun n hn => h n (List.mem_cons_of_mem m hn))
      (by omega) [(m.1, m.2.reread)] m.1
    rw [List.map_cons, record, tokens, List.cons_append, List.cons_append, List.cons_append,
      List.append_assoc, List.append_assoc]
    calc
      _ = build (.object [] m.1 :: stack) (.value false) (m.2.reread.tokens ++
            (tokensMembers (more.map fun m => (m.1, m.2.reread)) ++ .endObject :: rest)) := rfl
      _ = build (.object [(m.1, m.2.reread)] m.1 :: stack) .separator
            (tokensMembers (more.map fun m => (m.1, m.2.reread)) ++ .endObject :: rest) := first
      _ = _ := others

/-- **The tokens of a value are put together to the value.** -/
theorem build_tokens {j : Json} (plain : j.Plain) : Builds j := by
  induction plain with
  | null => exact fun stack orEnd rest _ => build_scalar stack rest orEnd .null
  | boolean b => exact fun stack orEnd rest _ => build_scalar stack rest orEnd (.boolean b)
  | nat h =>
    intro stack orEnd rest _
    rw [nat, reread_number]
    exact build_scalar stack rest orEnd _
  | double x =>
    intro stack orEnd rest _
    rw [reread_number]
    exact build_scalar stack rest orEnd _
  | single x =>
    intro stack orEnd rest _
    rw [reread_number]
    exact build_scalar stack rest orEnd _
  | text s => exact fun stack orEnd rest _ => build_text stack rest orEnd s
  | list _ ih => exact builds_list ih
  | record _ ih => exact builds_record ih

end JsonDocument

/-! ## What a written text is read as -/

namespace Json

/-- **A written text is read as the value**, with its numbers as they are read. -/
theorem parse_pretty {j : Json} (plain : j.Plain) (kept : j.Kept) (fits : j.depth ≤ depthLimit)
    (level : Nat) : parse (pretty level j) = ⟨j.reread, false⟩ := by
  have built := JsonDocument.build_tokens plain [] false [] (by rwa [List.length_nil, Nat.zero_add])
  rw [parse, jsonTokens_pretty plain kept, ← List.append_nil j.reread.tokens, built]
  rfl

theorem settledItems_eq_none {items : List Json} (h : ∀ j ∈ items, j.settled = none) :
    settledItems items = none := by
  induction items with
  | nil => rfl
  | cons item rest ih =>
    rw [settledItems, h item List.mem_cons_self, Option.none_or]
    exact ih fun j hj => h j (List.mem_cons_of_mem item hj)

theorem settledMembers_eq_none {members : List (String × Json)}
    (h : ∀ m ∈ members, m.2.settled = none) : settledMembers members = none := by
  induction members with
  | nil => rfl
  | cons m rest ih =>
    rw [settledMembers, h m List.mem_cons_self, Option.none_or]
    exact ih fun n hn => h n (List.mem_cons_of_mem m hn)

/-- A written value has a meaning as a whole. -/
theorem settled_reread {j : Json} (plain : j.Plain) : j.reread.settled = none := by
  induction plain with
  | null => rfl
  | boolean b => rfl
  | nat h => rfl
  | double x => rfl
  | single x => rfl
  | text s => rfl
  | @list items _ ih =>
    rw [reread_list, list, settled, Option.or_none]
    exact settledItems_eq_none fun j hj => by
      obtain ⟨item, hitem, rfl⟩ := List.mem_map.1 hj
      exact ih item hitem
  | @record members _ ih =>
    rw [reread_record, record, settled, Option.or_none]
    exact settledMembers_eq_none fun n hn => by
      obtain ⟨m, hm, rfl⟩ := List.mem_map.1 hn
      exact ih m hm

end Json

end Blockwork
