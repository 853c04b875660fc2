import Blockwork.Program.Format
import Blockwork.Proofs.Collections
import Blockwork.Proofs.JsonRecords

/-!
# The format of programs

Everything a program is made of is written with all its fields and read back from them.

## Main statements

* `Program.faithful`: a program is read back from the value it is written as.
* `Program.read_save`: a program is read back from the text it is saved as.
-/

namespace Blockwork

open Json (Faithful)

/-! ## Values -/

theorem Value.faithful : Faithful Value.toJson Value.ofJson where
  plain v := by
    cases v with
    | number x => exact .double x
    | text s => exact .text s
    | boolean b => exact .boolean b
  reads v kept := by
    cases v with
    | number x =>
      have double := JsonNumber.asDouble_reread (Json.kept_double.1 kept)
      rw [toJson, Json.reread_number]
      show (Json.number _).asDouble.map Value.number = _
      rw [double]
      rfl
    | text s => rw [toJson, Json.reread_text]; rfl
    | boolean b => rw [toJson, Json.reread_boolean]; rfl

/-! ## Definitions -/

namespace Color

theorem component_reread (b : UInt8) : component (Json.nat b.toNat).reread = .ok b := by
  rw [component, Json.asNat_reread b.toNat_lt (by decide)]
  exact congrArg Except.ok UInt8.ofNat_toNat

theorem plain_component (b : UInt8) : (Json.nat b.toNat).Plain :=
  .nat (Nat.lt_trans b.toNat_lt (by decide))

theorem faithful : Faithful toJson ofJson where
  plain c := .record (by simp [plain_component])
  reads c _ := by
    refine Json.readRecord_reread ?_
    rw [Members.required_ofFields (by simp) (by simp) (component_reread c.red),
      Members.required_ofFields (by simp) (by simp) (component_reread c.green),
      Members.required_ofFields (by simp) (by simp) (component_reread c.blue),
      Members.field_ofFields (by simp) (by simp) (component_reread c.alpha)]
    rfl

end Color

namespace Slot

theorem faithful : Faithful toJson ofJson where
  plain s := by
    cases s with
    | text label => exact .record (by simp [Json.Plain.text])
    | image asset => exact .record (by simp [Json.Plain.text])
    | argument name => exact .record (by simp [Json.Plain.text])
    | dropdown name choices =>
      have listed := Json.faithful_text.list.plain choices
      exact .record (by simp [Json.Plain.text, listed])
    | definitionEditor => exact .record (by simp [Json.Plain.text])
  reads s kept := by
    cases s with
    | text label => exact Json.readTagged_single rfl (by simp) (.text _) (Json.asText_reread label)
    | image asset => exact Json.readTagged_single rfl (by simp) (.text _) (Json.asText_reread asset)
    | argument name =>
      exact Json.readTagged_single rfl (by simp) (.text _) (Json.asText_reread name)
    | dropdown name choices =>
      have listed := Json.faithful_text.list
      have choicesRead := listed.reads choices
        (Json.kept_record.1 kept ("choices", Json.list (choices.map .text)) (by simp))
      refine Json.readTagged_reread rfl rfl (by simp)
        (by simp [Json.Plain.text, listed.plain choices]) ?_
      dsimp only
      rw [Members.required_ofFields (by simp) (by simp) (Json.asText_reread name),
        Members.required_ofFields (by simp) (by simp) choicesRead]
      rfl
    | definitionEditor => exact Json.readTagged_reread rfl rfl (by simp) (by simp) rfl

end Slot

theorem Flow.ofJson_reread (flow : Flow) : ofJson (Json.text flow.name).reread = .ok flow := by
  rw [Json.reread_text]
  cases flow <;> rfl

namespace Behavior

theorem plain_chainId (id : ChainId) : (Json.nat id.toNat).Plain :=
  .nat (Nat.lt_trans id.toNat_lt (by decide))

theorem chainId_reread (id : ChainId) : chainId (Json.nat id.toNat).reread = .ok id := by
  rw [chainId, Json.asNat_reread id.toNat_lt (by decide)]
  exact congrArg Except.ok UInt32.ofNat_toNat

/-- The body of a procedure is read back, also when there is none. -/
theorem body_reread (body : Option ChainId) :
    Json.asOption chainId ((body.map fun id => Json.nat id.toNat).getD .null).reread =
      .ok body := by
  cases body with
  | none => rw [Option.map_none, Option.getD_none, Json.reread_null]; rfl
  | some id =>
    have number : (Json.nat id.toNat).reread = Json.nat id.toNat :=
      Json.reread_nat (Nat.lt_trans id.toNat_lt (by decide))
    have same := chainId_reread id
    rw [number] at same
    rw [Option.map_some, Option.getD_some, number]
    show (chainId (Json.nat id.toNat)).map some = _
    rw [same]
    rfl

theorem plain_body (body : Option ChainId) :
    ((body.map fun id => Json.nat id.toNat).getD .null).Plain := by
  cases body with
  | none => exact .null
  | some id => exact plain_chainId id

theorem faithful : Faithful toJson ofJson where
  plain b := by
    cases b with
    | control flow => exact .record (by simp [Json.Plain.text])
    | native name => exact .record (by simp [Json.Plain.text])
    | procedure body => exact .record (by simp [Json.Plain.text, plain_body])
  reads b _ := by
    cases b with
    | control flow => exact Json.readTagged_single rfl (by simp) (.text _) (Flow.ofJson_reread flow)
    | native name => exact Json.readTagged_single rfl (by simp) (.text _) (Json.asText_reread name)
    | procedure body =>
      refine Json.readTagged_reread rfl rfl (by simp) (by simp [plain_body]) ?_
      dsimp only
      rw [Members.field_ofFields (by simp) (by simp) (body_reread body)]
      rfl

end Behavior

theorem Definition.faithful : Faithful Definition.toJson Definition.ofJson where
  plain d := .record (by
    simp [Json.Plain.text, Color.faithful.plain, Slot.faithful.list.plain d.slots,
      Behavior.faithful.plain])
  reads d kept := by
    have parts := Json.kept_record.1 kept
    have color := Color.faithful.reads d.color (parts ("color", d.color.toJson) (by simp))
    have slots := Slot.faithful.list.reads d.slots
      (parts ("slots", Json.list (d.slots.map Slot.toJson)) (by simp))
    have behavior := Behavior.faithful.reads d.behavior
      (parts ("behavior", d.behavior.toJson) (by simp))
    refine Json.readRecord_reread ?_
    rw [Members.required_ofFields (by simp) (by simp) (Json.asText_reread d.id),
      Members.field_ofFields (by simp) (by simp) (Json.asText_reread d.category),
      Members.field_ofFields (by simp) (by simp) color,
      Members.required_ofFields (by simp) (by simp) slots,
      Members.required_ofFields (by simp) (by simp) behavior]
    rfl

/-! ## Blocks -/

/-- The arguments of a block are a list of what each of them is written as. -/
theorem Argument.listToJson_eq (arguments : List Argument) :
    listToJson arguments = arguments.map toJson := by
  induction arguments with
  | nil => simp [listToJson]
  | cons a rest ih => rw [listToJson, ih, List.map_cons]

mutual

theorem Argument.plain_toJson (a : Argument) : a.toJson.Plain := by
  match a with
  | .literal value =>
    rw [toJson]
    exact .record (by simp [Value.faithful.plain])
  | .choice name =>
    rw [toJson]
    exact .record (by simp [Json.Plain.text])
  | .block id arguments =>
    have nested : (Json.list (listToJson arguments)).Plain :=
      .list (Argument.plain_listToJson arguments)
    have block : (Json.record [("definition", .text id),
        ("arguments", .list (listToJson arguments))]).Plain :=
      .record (by simp [Json.Plain.text, nested])
    rw [toJson]
    exact .record (by simp [block])
  | .definition d =>
    rw [toJson]
    exact .record (by simp [Definition.faithful.plain])

theorem Argument.plain_listToJson (arguments : List Argument) :
    ∀ j ∈ Argument.listToJson arguments, j.Plain := by
  match arguments with
  | [] => simp [Argument.listToJson]
  | a :: rest =>
    rw [Argument.listToJson]
    intro j hj
    rcases List.mem_cons.1 hj with rfl | hj
    · exact a.plain_toJson
    · exact Argument.plain_listToJson rest j hj

end

theorem Block.readMembers_of_fields {name list : Json} {id : String} {arguments : List Argument}
    (hname : name.asText = .ok id) (hlist : Argument.listOfJson list = .ok arguments) :
    readMembers ⟨none, none⟩ [("definition", name), ("arguments", list)] =
      .ok ⟨some id, some arguments⟩ := by
  simp [readMembers, hname, hlist, bind, Except.bind]

/-- A block is read from the members it is written with, if its arguments are read. -/
theorem Block.ofJson_reread (id : String) {items : List Json} {arguments : List Argument}
    (h : Argument.readItems (items.map Json.reread) = .ok arguments) :
    ofJson (Json.record [("definition", .text id), ("arguments", .list items)]).reread =
      .ok ⟨id, arguments⟩ := by
  have argumentsRead : Argument.listOfJson (Json.list items).reread = .ok arguments := by
    rw [Json.reread_list, Json.list, Argument.listOfJson, h]
    rfl
  have members := readMembers_of_fields (Json.asText_reread id) argumentsRead
  rw [Json.reread_record, Json.record, List.map_cons, List.map_cons, List.map_nil, ofJson, members]
  rfl

/-- An argument is an object with its kind as the only name. -/
theorem Argument.ofJson_member {kind : String} (h : kind ≠ "block") {value : Json} {a : Argument}
    (hread : ofMember kind value.reread = .ok a) :
    ofJson (Json.record [(kind, value)]).reread = .ok a := by
  rw [Json.reread_record, Json.record, List.map_cons, List.map_nil, ofJson, if_neg h, hread]
  rfl

mutual

theorem Argument.ofJson_reread (a : Argument) (kept : a.toJson.Kept) :
    Argument.ofJson a.toJson.reread = .ok a := by
  match a with
  | .literal value =>
    rw [toJson] at kept ⊢
    have read := Value.faithful.reads value (Json.kept_record.1 kept _ List.mem_cons_self)
    exact ofJson_member (by decide) (by simp [ofMember, read, Except.map])
  | .choice name =>
    rw [toJson]
    have read := Json.asText_reread name
    exact ofJson_member (by decide) (by simp only [ofMember, read]; rfl)
  | .block id arguments =>
    rw [toJson] at kept ⊢
    have block := Json.kept_record.1 kept _ List.mem_cons_self
    have items := Json.kept_list.1
      (Json.kept_record.1 block ("arguments", .list (listToJson arguments)) (by simp))
    have read := Block.ofJson_reread id (Argument.readItems_reread arguments items)
    rw [Json.reread_record, Json.record, List.map_cons, List.map_nil, Argument.ofJson, if_pos rfl,
      read]
    rfl
  | .definition d =>
    rw [toJson] at kept ⊢
    have read := Definition.faithful.reads d (Json.kept_record.1 kept _ List.mem_cons_self)
    exact ofJson_member (by decide) (by simp [ofMember, read, Except.map])

theorem Argument.readItems_reread (arguments : List Argument)
    (kept : ∀ j ∈ Argument.listToJson arguments, j.Kept) :
    Argument.readItems ((Argument.listToJson arguments).map Json.reread) = .ok arguments := by
  match arguments with
  | [] => simp [Argument.listToJson, Argument.readItems]
  | a :: rest =>
    rw [Argument.listToJson] at kept ⊢
    have first := a.ofJson_reread (kept _ List.mem_cons_self)
    have others := Argument.readItems_reread rest fun j hj => kept j (List.mem_cons_of_mem _ hj)
    rw [List.map_cons, Argument.readItems, first, others]
    rfl

end

theorem Block.faithful : Faithful Block.toJson Block.ofJson where
  plain b := by
    have arguments : (Json.list (Argument.listToJson b.arguments)).Plain :=
      .list (Argument.plain_listToJson b.arguments)
    exact .record (by simp [Json.Plain.text, arguments])
  reads b kept := by
    have arguments := Json.kept_list.1 (Json.kept_record.1 kept
      ("arguments", .list (Argument.listToJson b.arguments)) (by simp))
    exact ofJson_reread b.definition (Argument.readItems_reread b.arguments arguments)

/-! ## Chains -/

theorem Position.faithful : Faithful Position.toJson Position.ofJson where
  plain p := .record (by simp [Json.Plain.single])
  reads p kept := by
    have coordinates := Json.kept_record.1 kept
    have x : (Json.number (.single p.x)).reread.asSingle = .ok p.x := by
      rw [Json.reread_number]
      exact JsonNumber.asSingle_reread
        (Json.kept_single.1 (coordinates ("x", .number (.single p.x)) (by simp)))
    have y : (Json.number (.single p.y)).reread.asSingle = .ok p.y := by
      rw [Json.reread_number]
      exact JsonNumber.asSingle_reread
        (Json.kept_single.1 (coordinates ("y", .number (.single p.y)) (by simp)))
    refine Json.readRecord_reread ?_
    rw [Members.required_ofFields (by simp) (by simp) x,
      Members.required_ofFields (by simp) (by simp) y]
    rfl

theorem Chain.faithful : Faithful Chain.toJson Chain.ofJson where
  plain c := .record (by
    simp [Behavior.plain_chainId, Position.faithful.plain, Block.faithful.list.plain c.blocks])
  reads c kept := by
    have parts := Json.kept_record.1 kept
    have position := Position.faithful.reads c.position
      (parts ("position", c.position.toJson) (by simp))
    have blocks := Block.faithful.list.reads c.blocks
      (parts ("blocks", Json.list (c.blocks.map Block.toJson)) (by simp))
    refine Json.readRecord_reread ?_
    rw [Members.required_ofFields (by simp) (by simp) (Behavior.chainId_reread c.id),
      Members.field_ofFields (by simp) (by simp) position,
      Members.required_ofFields (by simp) (by simp) blocks]
    rfl

/-! ## Programs -/

theorem Registry.faithful : Faithful Registry.toJson Registry.ofJson where
  plain r := Definition.faithful.list.plain r.items
  reads r kept := by
    have items := Definition.faithful.list.reads r.items kept
    rw [ofJson, toJson, items]
    exact congrArg Except.ok (Ordered.ofList_items r)

theorem faithful_variables : Faithful variablesToJson variablesOfJson where
  plain t := Value.faithful.table.plain t.items
  reads t kept := by
    have items := Value.faithful.table.reads t.items kept
    rw [variablesOfJson, variablesToJson, items]
    exact congrArg Except.ok (Ordered.ofList_items t)

namespace Program

theorem faithful : Faithful toJson ofJson where
  plain p := .record (by
    simp [Registry.faithful.plain, faithful_variables.plain, Chain.faithful.list.plain p.chains])
  reads p kept := by
    have parts := Json.kept_record.1 kept
    have definitions := Registry.faithful.reads p.definitions
      (parts ("definitions", p.definitions.toJson) (by simp))
    have globals := faithful_variables.reads p.globals
      (parts ("variables", variablesToJson p.globals) (by simp))
    have chains := Chain.faithful.list.reads p.chains
      (parts ("chains", Json.list (p.chains.map Chain.toJson)) (by simp))
    refine Json.readRecord_reread ?_
    rw [Members.field_ofFields (by simp) (by simp) definitions,
      Members.field_ofFields (by simp) (by simp) globals,
      Members.field_ofFields (by simp) (by simp) chains]
    rfl

/-- What a program is saved as is read as the program, with its numbers as they come back. -/
theorem read_of_kept (p : Program) (kept : p.toJson.Kept)
    (fits : p.toJson.depth ≤ Json.depthLimit) : (Json.parse p.save).read ofJson = .ok p := by
  rw [save, Json.parse_pretty (faithful.plain p) kept fits, JsonDocument.read]
  simp only [faithful.reads p kept]
  rfl

/-- **A program is read back from the text it is saved as**, when its numbers are finite, its text
is not nested too deep, and each of its numbers comes back from its own text. -/
theorem read_save (p : Program) (finite : ∀ n ∈ p.toJson.floats, n.isFinite = true)
    (kept : ∀ n ∈ p.toJson.floats, n.isFinite = true → n.readsBack = true)
    (fits : p.toJson.depth ≤ Json.depthLimit) : (Json.parse p.save).read ofJson = .ok p :=
  p.read_of_kept (fun n hn => kept n hn (finite n hn)) fits

/-- A program with every kind of slot, behavior, value and argument. -/
def sketch : Program where
  definitions := .ofList
    [⟨"shout", "voice", ⟨255, 128, 0, 64⟩,
        [.text "shout", .image "horn.png", .argument "what", .dropdown "how" ["loud", "long"],
          .definitionEditor],
        .native "shout"⟩,
      ⟨"rest", "", .gray, [], .procedure none⟩, ⟨"nap", "", .gray, [], .procedure (some 7)⟩,
      ⟨"else", "control", .gray, [], .control .otherwise⟩]
  globals := .ofList [("half", .number 0.5), ("word", .text "0.5\n\"\t"), ("on", .boolean true)]
  chains :=
    [⟨7, ⟨-12.25, 1e10⟩,
        [⟨"define", [.definition ⟨"nap", "", .gray, [], .procedure none⟩]⟩,
          ⟨"shout", [.block "add" [.literal (.number (-3e-7)), .literal (.boolean false)],
            .choice "loud", .literal (.text "false")]⟩]⟩]

/-- Its numbers come back from their texts, and so does all of it. -/
theorem read_save_sketch :
    (∀ n ∈ sketch.toJson.floats, n.isFinite = true) ∧
      (∀ n ∈ sketch.toJson.floats, n.readsBack = true) ∧
      (Json.parse sketch.save).read ofJson = .ok sketch := by
  have finite : ∀ n ∈ sketch.toJson.floats, n.isFinite = true := by decide +kernel
  have kept : ∀ n ∈ sketch.toJson.floats, n.readsBack = true := by decide +kernel
  exact ⟨finite, kept, read_save sketch finite (fun n hn _ => kept n hn) (by decide +kernel)⟩

end Program

end Blockwork
