import Blockwork.Proofs.JsonTrees

/-!
# How deep a text is read

Whatever a text says, its tree is not deeper than `Json.depthLimit`: a container that would be is
marked as one that cannot be entered. While the text is read, what is in an open container is
bounded by what the containers around it leave.

## Main statements

* `Json.depth_parse`: the tree of a text is not deeper than the limit.
-/

namespace Blockwork

/-! ## Tokens carry no containers -/

/-- A token that stands for a value without parts, or for none. -/
def JsonToken.Flat : JsonToken → Prop
  | .scalar value => value.depth = 0
  | _ => True

namespace JsonNumber

theorem depth_ofLexeme (negative : Bool) (whole : List Char) (fraction : Option (List Char))
    (exponent : Option Int) : (ofLexeme negative whole fraction exponent).depth = 0 := by
  unfold ofLexeme
  dsimp only
  split
  · split
    · rfl
    · split <;> rfl
  · split <;> rfl

theorem depth_of_readTail {negative : Bool} {whole cs rest : List Char} {value : Json}
    (h : readTail negative whole cs = .ok (value, rest)) : value.depth = 0 := by
  have exponents (fraction : Option (List Char)) (cs : List Char)
      (h : (readExponent cs).map (fun p => (ofLexeme negative whole fraction (some p.1), p.2)) =
        .ok (value, rest)) : value.depth = 0 := by
    cases read : readExponent cs with
    | error left => rw [read] at h; cases h
    | ok found =>
      rw [read] at h
      cases h
      exact depth_ofLexeme ..
  unfold readTail at h
  dsimp only at h
  split at h
  · split at h
    · cases h
    · split at h
      · split at h
        · exact exponents _ _ h
        · cases h
          exact depth_ofLexeme ..
      · cases h
        exact depth_ofLexeme ..
  · split at h
    · split at h
      · exact exponents _ _ h
      · cases h
        exact depth_ofLexeme ..
    · cases h
      exact depth_ofLexeme ..

theorem depth_of_read {cs rest : List Char} {value : Json} (h : read cs = .ok (value, rest)) :
    value.depth = 0 := by
  unfold read at h
  dsimp only at h
  split at h
  · split at h
    · split at h
      · cases h
      · exact depth_of_readTail h
    · exact depth_of_readTail h
  · split at h
    · cases h
    · exact depth_of_readTail h

end JsonNumber

namespace JsonLexer

/-- The word being read stands for a value without parts. -/
def Flat : JsonLexer → Prop
  | .word _ value => value.depth = 0
  | _ => True

theorem flat_numberTokens (read : List Char) (ended : Bool) :
    ∀ t ∈ (numberTokens read ended).1, t.Flat := by
  unfold numberTokens
  split
  · rename_i value found
    have flat : value.depth = 0 := JsonNumber.depth_of_read found
    simpa [JsonToken.Flat] using flat
  · rename_i value _ _ found
    have flat : value.depth = 0 := JsonNumber.depth_of_read found
    simpa [JsonToken.Flat] using flat
  · simp [JsonToken.Flat]

theorem flat_start {c : Char} {tokens : List JsonToken} {next : JsonLexer}
    (h : start c = some (tokens, next)) : (∀ t ∈ tokens, t.Flat) ∧ next.Flat := by
  unfold start at h
  split at h
  all_goals first
    | (cases h; exact ⟨by simp [JsonToken.Flat], by simp [Flat, Json.depth]⟩)
    | skip
  split at h
  · cases h
    exact ⟨by simp, trivial⟩
  · cases h

theorem flat_takeUnit (read : List Char) (half : Option Nat) (sound : Bool) (unit : Nat) :
    (takeUnit read half sound unit).Flat := by
  unfold takeUnit
  dsimp only
  split
  · split <;> trivial
  · split
    · trivial
    · split <;> trivial

/-- Inside a quoted text there are no tokens but the text itself. -/
theorem flat_insideText {read : List Char} {half : Option Nat} {sound : Bool} {c : Char}
    {escape : JsonEscape} {tokens : List JsonToken} {next : JsonLexer}
    (h : insideText read half sound c escape = .ok (tokens, next)) :
    (∀ t ∈ tokens, t.Flat) ∧ next.Flat := by
  unfold insideText at h
  cases escape with
  | outside =>
    dsimp only at h
    split at h
    · cases h
      exact ⟨by simp [JsonToken.Flat], trivial⟩
    · split at h
      · cases h
        exact ⟨by simp, trivial⟩
      · split at h
        · cases h
        · cases h
          exact ⟨by simp, trivial⟩
  | backslash =>
    dsimp only at h
    split at h
    · cases h
      exact ⟨by simp, trivial⟩
    · split at h
      · cases h
        exact ⟨by simp, trivial⟩
      · cases h
  | unicode missing value =>
    dsimp only at h
    split at h
    · cases h
    · split at h
      · cases h
        exact ⟨by simp, flat_takeUnit ..⟩
      · cases h
        exact ⟨by simp, trivial⟩

theorem flat_of_insideText_error {read : List Char} {half : Option Nat} {sound : Bool} {c : Char}
    {escape : JsonEscape} {token : JsonToken}
    (h : insideText read half sound c escape = .error token) : token.Flat := by
  unfold insideText at h
  cases escape with
  | outside =>
    dsimp only at h
    split at h
    · cases h
    · split at h
      · cases h
      · split at h
        · cases h
          trivial
        · cases h
  | backslash =>
    dsimp only at h
    split at h
    · cases h
    · split at h
      · cases h
      · cases h
        trivial
  | unicode missing value =>
    dsimp only at h
    split at h
    · cases h
      trivial
    · split at h <;> cases h

theorem flat_step_number (c : Char) (read : List Char) :
    (∀ t ∈ (step c (.number read)).1, t.Flat) ∧
      ∀ next ∈ (step c (.number read)).2, next.Flat := by
  have before := flat_numberTokens read false
  rw [step]
  split
  · exact ⟨by simp, by rintro _ ⟨⟩; trivial⟩
  · split
    · rename_i tokens found
      rw [found] at before
      exact ⟨before, by simp⟩
    · -- the number ends, and the character is read as one that follows it
      rename_i tokens found
      rw [found] at before
      cases started : start c with
      | none => exact ⟨List.forall_mem_cons.2 ⟨trivial, before⟩, by simp⟩
      | some result =>
        obtain ⟨more, next⟩ := result
        obtain ⟨flatMore, flatNext⟩ := flat_start started
        exact ⟨List.forall_mem_append.2 ⟨flatMore, before⟩, by rintro _ ⟨⟩; exact flatNext⟩

/-- No character gives a token with parts. -/
theorem flat_step {c : Char} {lexer : JsonLexer} (flat : lexer.Flat) :
    (∀ t ∈ (lexer.step c).1, t.Flat) ∧ ∀ next ∈ (lexer.step c).2, next.Flat := by
  cases lexer with
  | ready =>
    rw [step]
    cases started : start c with
    | none => exact ⟨by simp [JsonToken.Flat], by simp⟩
    | some result =>
      obtain ⟨tokens, next⟩ := result
      obtain ⟨flatTokens, flatNext⟩ := flat_start started
      exact ⟨flatTokens, by rintro _ ⟨⟩; exact flatNext⟩
  | word left value =>
    cases left with
    | nil => exact ⟨by simp [step, JsonToken.Flat], by simp [step]⟩
    | cons d left =>
      rw [step]
      split
      · exact ⟨by simp [JsonToken.Flat], by simp⟩
      · split
        · have scalar : (JsonToken.scalar value).Flat := flat
          exact ⟨by simpa using scalar, by rintro _ ⟨⟩; trivial⟩
        · exact ⟨by simp, by rintro _ ⟨⟩; exact flat⟩
  | number read => exact flat_step_number c read
  | text read escape half sound =>
    rw [step]
    cases inside : insideText read half sound c escape with
    | ok result =>
      obtain ⟨tokens, next⟩ := result
      obtain ⟨flatTokens, flatNext⟩ := flat_insideText inside
      exact ⟨flatTokens, by rintro _ ⟨⟩; exact flatNext⟩
    | error token =>
      have flatToken := flat_of_insideText_error inside
      exact ⟨by simpa using flatToken, by simp⟩

theorem flat_finish {lexer : JsonLexer} : ∀ t ∈ lexer.finish, t.Flat := by
  cases lexer with
  | ready => simp [finish]
  | word left value => simp [finish, JsonToken.Flat]
  | number read => exact flat_numberTokens read true
  | text read escape half sound => simp [finish, JsonToken.Flat]

/-- No text gives a token with parts. -/
theorem flat_run (cs : List Char) {done : List JsonToken} {lexer : JsonLexer}
    (before : ∀ t ∈ done, t.Flat) (flat : lexer.Flat) : ∀ t ∈ run done lexer cs, t.Flat := by
  induction cs generalizing done lexer with
  | nil =>
    intro t ht
    exact List.forall_mem_append.2 ⟨flat_finish, before⟩ t (List.mem_reverse.1 ht)
  | cons c rest ih =>
    obtain ⟨flatTokens, flatNext⟩ := flat_step flat
    rw [run]
    split
    · rename_i tokens next stepped
      rw [stepped] at flatTokens flatNext
      exact ih (List.forall_mem_append.2 ⟨flatTokens, before⟩) (flatNext next rfl)
    · rename_i tokens stepped
      rw [stepped] at flatTokens
      intro t ht
      exact List.forall_mem_append.2 ⟨flatTokens, before⟩ t (List.mem_reverse.1 ht)

end JsonLexer

theorem flat_jsonTokens (text : String) : ∀ t ∈ jsonTokens text, t.Flat :=
  JsonLexer.flat_run text.toList (by simp) trivial

/-! ## Trees stay within the limit -/

namespace Json

theorem depthItems_le {items : List Json} {n : Nat} (h : ∀ j ∈ items, j.depth ≤ n) :
    depthItems items ≤ n := by
  induction items with
  | nil => exact Nat.zero_le n
  | cons item rest ih =>
    rw [List.forall_mem_cons] at h
    exact Nat.max_le.2 ⟨h.1, ih h.2⟩

theorem depthMembers_le {members : List (String × Json)} {n : Nat}
    (h : ∀ m ∈ members, m.2.depth ≤ n) : depthMembers members ≤ n := by
  induction members with
  | nil => exact Nat.zero_le n
  | cons m rest ih =>
    rw [List.forall_mem_cons] at h
    exact Nat.max_le.2 ⟨h.1, ih h.2⟩

end Json

namespace JsonDocument

open Json

/-- What open containers hold leaves room for the containers around it. -/
def Fits : List OpenJson → Prop
  | [] => True
  | .array items :: outer =>
    (∀ j ∈ items, j.depth ≤ depthLimit - (outer.length + 1)) ∧ Fits outer
  | .object members _ :: outer =>
    (∀ m ∈ members, m.2.depth ≤ depthLimit - (outer.length + 1)) ∧ Fits outer

/-- A text that has ended has a tree within the limit, and any other fits. -/
def Bounded : JsonDocument ⊕ (List OpenJson × JsonPlace) → Prop
  | .inl document => document.value.depth ≤ depthLimit
  | .inr (stack, _) => Fits stack

variable {stack outer : List OpenJson} {items : List Json} {members : List (String × Json)}
  {key : String} {value : Json}

theorem Fits.item (fits : Fits (.array items :: outer))
    (room : value.depth ≤ depthLimit - (outer.length + 1)) :
    Fits (.array (value :: items) :: outer) := by
  refine ⟨fun j hj => ?_, fits.2⟩
  rcases List.mem_cons.1 hj with rfl | hj
  · exact room
  · exact fits.1 j hj

theorem Fits.member (fits : Fits (.object members key :: outer)) (name : String)
    (room : value.depth ≤ depthLimit - (outer.length + 1)) :
    Fits (.object ((name, value) :: members) key :: outer) := by
  refine ⟨fun m hm => ?_, fits.2⟩
  rcases List.mem_cons.1 hm with rfl | hm
  · exact room
  · exact fits.1 m hm

/-- An array that is closed leaves room for the containers around it. -/
theorem Fits.closed_array (fits : Fits (.array items :: outer)) (cut : Option Fault) :
    (nested outer.length (.array items.reverse cut)).depth ≤ depthLimit - outer.length := by
  have content : depthItems items.reverse ≤ depthLimit - (outer.length + 1) :=
    depthItems_le fun j hj => fits.1 j (List.mem_reverse.1 hj)
  unfold nested
  split
  · rw [depth]
    omega
  · -- a container beyond the limit is not entered
    exact Nat.zero_le _

/-- An object that is closed leaves room for the containers around it. -/
theorem Fits.closed_object (fits : Fits (.object members key :: outer)) (cut : Option Fault) :
    (nested outer.length (.object members.reverse cut)).depth ≤ depthLimit - outer.length := by
  have content : depthMembers members.reverse ≤ depthLimit - (outer.length + 1) :=
    depthMembers_le fun m hm => fits.1 m (List.mem_reverse.1 hm)
  unfold nested
  split
  · rw [depth]
    omega
  · exact Nat.zero_le _

theorem depth_closeAll (fault : Fault) (room : value.depth ≤ depthLimit - stack.length)
    (fits : Fits stack) : (closeAll fault value stack).depth ≤ depthLimit := by
  induction stack generalizing value with
  | nil => exact room
  | cons o outer ih =>
    cases o with
    | array items => exact ih ((fits.item room).closed_array _) fits.2
    | object members key => exact ih ((fits.member key room).closed_object _) fits.2

/-- Also a text that goes wrong has a tree within the limit. -/
theorem depth_cutShort (fault : Fault) (at_ : JsonPlace) (fits : Fits stack) :
    (cutShort fault at_ stack).value.depth ≤ depthLimit := by
  have room : (Json.broken fault).depth ≤ depthLimit - stack.length := Nat.zero_le _
  unfold cutShort
  split
  · exact room
  · dsimp only
    split
    · exact depth_closeAll _ ((fits.item room).closed_array _) fits.2
    · exact depth_closeAll _ (fits.closed_array _) fits.2
  · dsimp only
    split
    · exact depth_closeAll _ ((fits.member _ room).closed_object _) fits.2
    · exact depth_closeAll _ ((fits.member _ room).closed_object _) fits.2
    · exact depth_closeAll _ ((fits.member _ room).closed_object _) fits.2
    · exact depth_closeAll _ (fits.closed_object _) fits.2

theorem bounded_finish (more : Bool) (room : value.depth ≤ depthLimit - stack.length)
    (fits : Fits stack) : Bounded (finish value stack more) := by
  cases stack with
  | nil => exact room
  | cons o outer =>
    cases o with
    | array items => exact fits.item room
    | object members key => exact fits.member key room

/-- A token keeps what has been read within the limit. -/
theorem bounded_take (at_ : JsonPlace) {token : JsonToken} (more : Bool) (flat : token.Flat)
    (fits : Fits stack) : Bounded (take stack at_ token more) := by
  unfold take
  split
  · rename_i value
    have scalar : value.depth = 0 := flat
    exact bounded_finish more (by omega) fits
  · rename_i content
    refine bounded_finish more ?_ fits
    cases content <;> exact Nat.zero_le _
  · exact ⟨by simp, fits⟩
  · exact ⟨by simp, fits⟩
  · exact bounded_finish more (fits.closed_array none) fits.2
  · exact fits
  · exact bounded_finish more (fits.closed_array none) fits.2
  · exact fits
  · exact bounded_finish more (fits.closed_object none) fits.2
  · exact fits
  · exact bounded_finish more (fits.closed_object none) fits.2
  · exact fits
  · exact depth_cutShort _ _ fits

theorem depth_build {tokens : List JsonToken} (at_ : JsonPlace) (flat : ∀ t ∈ tokens, t.Flat)
    (fits : Fits stack) : (build stack at_ tokens).value.depth ≤ depthLimit := by
  induction tokens generalizing stack at_ with
  | nil => exact depth_cutShort _ _ fits
  | cons token rest ih =>
    rw [List.forall_mem_cons] at flat
    have next := bounded_take at_ (!rest.isEmpty) flat.1 fits
    rw [build]
    split
    · rename_i document ends
      rw [ends] at next
      exact next
    · rename_i stack at_ goesOn
      rw [goesOn] at next
      exact ih at_ flat.2 next

end JsonDocument

/-- **The tree of a text is not deeper than the limit.** -/
theorem Json.depth_parse (text : String) : (parse text).value.depth ≤ depthLimit :=
  JsonDocument.depth_build (.value false) (flat_jsonTokens text) trivial

end Blockwork
