import Blockwork.Proofs.Registries

/-!
# The numbers of chains

A chain that is added gets the number after the highest one in use. So it is never confused with a
chain of the program, nor with one that was there before, unless the chain of the highest number has
been taken out in between: then its number is given out again, and a procedure whose body it was
runs another chain.

## Main statements

* `Program.lt_of_addChain`: a chain that is added has a number above all others.
* `Program.Spares.lt_of_addChain`: as long as the last chain stays, no number comes back.
* `Program.nextId_of_removeChain`: the number of the last chain comes back once it is taken out.
* `Program.addChain_redirects`: a procedure then runs a chain that it was not recorded from.
-/

namespace Blockwork

/-- The greater of two numbers is one of them, and no less than either. -/
instance lawfulMaxUInt32 : Std.LawfulOrderMax UInt32 where
  max_eq_or a b := by
    show (if a ≤ b then b else a) = a ∨ (if a ≤ b then b else a) = b
    split
    · exact Or.inr rfl
    · exact Or.inl rfl
  max_le_iff a b c := by
    show (if a ≤ b then b else a) ≤ c ↔ _
    simp only [UInt32.le_iff_toNat_le]
    split <;> omega

namespace Program

/-- There is a number after each number in use. -/
def HasRoom (p : Program) : Prop := ∀ c ∈ p.chains, c.id.toNat + 1 < UInt32.size

variable {p q r : Program} {c : Chain} {blocks : List Block} {id : ChainId}

/-! ## The next number -/

theorem toNat_succ (room : p.HasRoom) (h : c ∈ p.chains) : (c.id + 1).toNat = c.id.toNat + 1 := by
  rw [UInt32.toNat_add]
  exact Nat.mod_eq_of_lt (room c h)

/-- The next number is above all numbers in use. -/
theorem lt_nextId (room : p.HasRoom) (h : c ∈ p.chains) : c.id.toNat < p.nextId.toNat := by
  have mem : c.id + 1 ∈ p.chains.map fun c => c.id + 1 := List.mem_map_of_mem h
  unfold nextId
  cases highest : (p.chains.map fun c => c.id + 1).max? with
  | none => simp [List.max?_eq_none_iff.mp highest] at mem
  | some top =>
    have le := (List.max?_eq_some_iff.mp highest).2 _ mem
    rw [UInt32.le_iff_toNat_le, toNat_succ room h] at le
    exact le

/-- The next number is the one after a number in use, unless none is in use. -/
theorem exists_last (room : p.HasRoom) (used : p.nextId ≠ 0) :
    ∃ c ∈ p.chains, p.nextId.toNat = c.id.toNat + 1 := by
  unfold nextId at used ⊢
  cases highest : (p.chains.map fun c => c.id + 1).max? with
  | none => exact absurd (by rw [highest]; rfl) used
  | some top =>
    obtain ⟨c, mem, rfl⟩ := List.mem_map.mp (List.max?_eq_some_iff.mp highest).1
    exact ⟨c, mem, toNat_succ room mem⟩

/-! ## Adding and taking out -/

/-- What adding a chain does: it stands last, under the next number. -/
theorem addChain_ok (h : p.addChain blocks = .ok (id, q)) :
    id = p.nextId ∧ q.chains = p.chains ++ [⟨p.nextId, Chain.origin, blocks⟩] := by
  unfold addChain at h
  simp only at h
  split at h
  · cases h
    exact ⟨rfl, rfl⟩
  · split at h
    · cases h
    · cases h
      exact ⟨rfl, rfl⟩

/-- What taking out a chain does: the others stay. -/
theorem removeChain_some (h : p.removeChain id = some (c, q)) :
    q.chains = p.chains.eraseP (fun c => c.id = id) ∧ q.definitions = p.definitions := by
  unfold removeChain at h
  obtain ⟨_, -, same⟩ := Option.map_eq_some_iff.mp h
  cases same
  exact ⟨rfl, rfl⟩

/-- **A chain that is added has a number above all others.** -/
theorem lt_of_addChain (room : p.HasRoom) (h : p.addChain blocks = .ok (id, q)) :
    ∀ c ∈ p.chains, c.id.toNat < id.toNat := by
  intro c mem
  rw [(addChain_ok h).1]
  exact lt_nextId room mem

/-! ## Histories -/

/-- The chains of a program are edited, but the one of the highest number is never taken out. -/
inductive Spares (p : Program) : Program → Prop where
  | refl : Spares p p
  | add {q r : Program} {blocks : List Block} {id : ChainId} (before : Spares p q)
      (added : q.addChain blocks = .ok (id, r)) (room : r.HasRoom) : Spares p r
  | remove {q r : Program} {c : Chain} {id : ChainId} (before : Spares p q)
      (removed : q.removeChain id = some (c, r)) (last : id.toNat + 1 < q.nextId.toNat) : Spares p r

/-- Such edits leave room. -/
theorem Spares.hasRoom (h : p.Spares q) (room : p.HasRoom) : q.HasRoom := by
  induction h with
  | refl => exact room
  | add _ _ room _ => exact room
  | remove _ removed _ ih =>
    intro c mem
    rw [(removeChain_some removed).1] at mem
    exact ih c (List.mem_of_mem_eraseP mem)

/-- The next number does not fall. -/
theorem Spares.nextId_le (h : p.Spares q) (room : p.HasRoom) : p.nextId.toNat ≤ q.nextId.toNat := by
  induction h with
  | refl => exact Nat.le_refl _
  | @add q r blocks id before added room' ih =>
    have mem : (⟨q.nextId, Chain.origin, blocks⟩ : Chain) ∈ r.chains := by
      rw [(addChain_ok added).2]
      exact List.mem_append_right _ List.mem_cons_self
    exact Nat.le_trans ih (Nat.le_of_lt (lt_nextId room' mem))
  | @remove q r c id before removed last ih =>
    have used : q.nextId ≠ 0 := by
      rintro none
      rw [none] at last
      exact Nat.not_lt_zero _ last
    obtain ⟨d, mem, next⟩ := exists_last (before.hasRoom room) used
    -- the chain of the highest number is another one, so it is still there
    have other : d.id ≠ id := by
      rintro rfl
      exact Nat.lt_irrefl _ (next ▸ last)
    have stays : d ∈ r.chains := by
      rw [(removeChain_some removed).1]
      exact (List.mem_eraseP_of_neg (by simpa using other)).mpr mem
    have above := lt_nextId ((before.remove removed last).hasRoom room) stays
    omega

/-- **As long as the chain of the highest number stays, no number comes back:** a chain that is
added has a number that no chain of the program has had since. -/
theorem Spares.lt_of_addChain (h : p.Spares q) (room : p.HasRoom)
    (added : q.addChain blocks = .ok (id, r)) : ∀ c ∈ p.chains, c.id.toNat < id.toNat := by
  intro c mem
  rw [(addChain_ok added).1]
  exact Nat.lt_of_lt_of_le (lt_nextId room mem) (h.nextId_le room)

/-! ## The last chain taken out -/

/-- **The number of the last chain comes back** once it is taken out, and so it is the next one to
be given out. The definitions stay as they are. -/
theorem nextId_of_removeChain (room : p.HasRoom) (added : p.addChain blocks = .ok (id, q)) :
    ∃ r, q.removeChain id = some (⟨id, Chain.origin, blocks⟩, r) ∧ r.chains = p.chains ∧
      r.nextId = id ∧ r.definitions = q.definitions := by
  obtain ⟨rfl, chains⟩ := addChain_ok added
  have others : ∀ c ∈ p.chains, ¬(decide (c.id = p.nextId)) := by
    intro c mem same
    have := lt_nextId room mem
    rw [of_decide_eq_true same] at this
    exact Nat.lt_irrefl _ this
  have found : q.chain? p.nextId = some ⟨p.nextId, Chain.origin, blocks⟩ := by
    unfold chain?
    rw [chains, List.find?_append, List.find?_eq_none.mpr others]
    simp
  have erased : q.chains.eraseP (fun c => c.id = p.nextId) = p.chains := by
    rw [chains, List.eraseP_append_right _ others]
    simp
  refine ⟨{ q with chains := p.chains }, ?_, rfl, rfl, rfl⟩
  unfold removeChain
  rw [found, erased]
  rfl

/-- **A procedure whose body was taken out runs the next chain that is added.** -/
theorem addChain_redirects {blocks' : List Block} {d : Definition} (room : p.HasRoom)
    (added : p.addChain blocks = .ok (id, q))
    (defines : procedureOf ⟨id, Chain.origin, blocks⟩ = some d)
    (plain : procedureOf ⟨id, Chain.origin, blocks'⟩ = none) :
    ∃ r s, q.removeChain id = some (⟨id, Chain.origin, blocks⟩, r) ∧
      r.addChain blocks' = .ok (id, s) ∧ d.behavior = .procedure (some id) ∧
      s.definitions.find? d.id = some d ∧ s.chain? id = some ⟨id, Chain.origin, blocks'⟩ := by
  obtain ⟨r, removed, chains, next, definitions⟩ := nextId_of_removeChain room added
  have body : d.behavior = .procedure (some id) := behavior_of_procedureOf defines
  have recorded : q.definitions.find? d.id = some d := by
    obtain ⟨rfl, -⟩ := addChain_ok added
    unfold addChain at added
    simp only [defines] at added
    split at added
    · cases added
    · next registered =>
      cases added
      rw [(Registry.insert_of_register registered).1, Ordered.find?_insert, if_pos rfl]
  refine ⟨r, { r with chains := r.chains ++ [⟨id, Chain.origin, blocks'⟩] }, removed, ?_, body,
    definitions ▸ recorded, ?_⟩
  · unfold addChain
    simp only [next, plain]
  · -- under its number the new chain is found, as none of those before it has that number
    have others : ∀ c ∈ r.chains, ¬(decide (c.id = id)) := by
      intro c mem same
      have := lt_of_addChain room added c (chains ▸ mem)
      rw [of_decide_eq_true same] at this
      exact Nat.lt_irrefl _ this
    unfold chain?
    rw [List.find?_append, List.find?_eq_none.mpr others]
    simp

/-- The chain that is added last is the body of a procedure that it does not define. -/
example :
    let f : Definition := ⟨"f", "", .gray, [.text "f"], .procedure none⟩
    (do
      let (first, p) ← (addChain ⟨.builtins, .empty, []⟩ [⟨"define", [.definition f]⟩]).toOption
      let (_, p) ← p.removeChain first
      let (second, p) ← (p.addChain [⟨"on_start", []⟩]).toOption
      return (first, second, (p.definitions.find? "f").map Definition.behavior)) =
    some (0, 0, some (.procedure (some 0))) := by
  decide +kernel

end Program

end Blockwork
