import Blockwork.Proofs.JsonNumbers

/-!
# Cutting a written text

The text of a value is cut back into the tokens it was written from. The only part of it that does
not show where it ends is a number: it ends where a character follows that cannot go on with it. So
there are two ways to say that a text gives certain tokens, with and without a condition on what
follows (`JsonLexer.Lexes` and `JsonLexer.Cuts`).

A number is written as text and read from it again, so the tokens are those of the value with every
number in place of which its text is read (`Json.reread`).

## Main statements

* `JsonLexer.lexes_quote`: a quoted text is one token.
* `Json.jsonTokens_pretty`: the tokens of a written text.
-/

namespace Blockwork

/-! ## Written values -/

/-- The values that are written: whole, and with natural numbers of 64 bits. -/
inductive Json.Plain : Json → Prop where
  | null : Plain .null
  | boolean (b : Bool) : Plain (.boolean b)
  | nat {n : Nat} : n < UInt64.size → Plain (.nat n)
  | double (x : Float) : Plain (.number (.double x))
  | single (x : Float32) : Plain (.number (.single x))
  | text (s : String) : Plain (.text s)
  | list {items : List Json} : (∀ j ∈ items, Plain j) → Plain (.list items)
  | record {members : List (String × Json)} : (∀ m ∈ members, Plain m.2) → Plain (.record members)

namespace Json

mutual

/-- The numbers of a value that are not whole by their kind. -/
def floats : Json → List JsonNumber
  | .number (.integer _) => []
  | .number n => [n]
  | .array items _ => floatsItems items
  | .object members _ => floatsMembers members
  | .tooDeep inner => floats inner
  | _ => []

/-- The numbers of items. -/
def floatsItems : List Json → List JsonNumber
  | [] => []
  | item :: rest => floats item ++ floatsItems rest

/-- The numbers of members. -/
def floatsMembers : List (String × Json) → List JsonNumber
  | [] => []
  | (_, value) :: rest => floats value ++ floatsMembers rest

end

mutual

/-- The value with every number as its text is read. -/
def reread : Json → Json
  | .number n => .number n.reread
  | .array items cut => .array (rereadItems items) cut
  | .object members cut => .object (rereadMembers members) cut
  | .tooDeep inner => .tooDeep (reread inner)
  | j => j

/-- Items with every number as its text is read. -/
def rereadItems : List Json → List Json
  | [] => []
  | item :: rest => reread item :: rereadItems rest

/-- Members with every number as its text is read. -/
def rereadMembers : List (String × Json) → List (String × Json)
  | [] => []
  | (key, value) :: rest => (key, reread value) :: rereadMembers rest

end

theorem rereadItems_eq (items : List Json) : rereadItems items = items.map reread := by
  induction items with
  | nil => rfl
  | cons item rest ih => exact congrArg (item.reread :: ·) ih

theorem rereadMembers_eq (members : List (String × Json)) :
    rereadMembers members = members.map fun m => (m.1, m.2.reread) := by
  induction members with
  | nil => rfl
  | cons m rest ih => exact congrArg ((m.1, m.2.reread) :: ·) ih

theorem floatsItems_eq (items : List Json) : floatsItems items = items.flatMap floats := by
  induction items with
  | nil => rfl
  | cons item rest ih => exact congrArg (item.floats ++ ·) ih

theorem floatsMembers_eq (members : List (String × Json)) :
    floatsMembers members = members.flatMap fun m => m.2.floats := by
  induction members with
  | nil => rfl
  | cons m rest ih => exact congrArg (m.2.floats ++ ·) ih

@[simp] theorem reread_null : null.reread = null := rfl

@[simp] theorem reread_boolean (b : Bool) : (boolean b).reread = boolean b := rfl

@[simp] theorem reread_text (s : String) : (text s).reread = text s := rfl

@[simp] theorem reread_number (n : JsonNumber) : (number n).reread = number n.reread := rfl

@[simp] theorem reread_list (items : List Json) : (list items).reread = list (items.map reread) :=
  congrArg list (rereadItems_eq items)

@[simp] theorem reread_record (members : List (String × Json)) :
    (record members).reread = record (members.map fun m => (m.1, m.2.reread)) :=
  congrArg record (rereadMembers_eq members)

theorem reread_nat {n : Nat} (h : n < UInt64.size) : (nat n).reread = nat n := by
  rw [nat, reread_number, JsonNumber.reread_nat h]

/-- Every number of the value comes back from its text. -/
def Kept (j : Json) : Prop := ∀ n ∈ j.floats, n.readsBack = true

@[simp] theorem kept_list {items : List Json} : (list items).Kept ↔ ∀ j ∈ items, j.Kept := by
  show (∀ n ∈ floatsItems items, n.readsBack = true) ↔ _
  rw [floatsItems_eq]
  exact List.forall_mem_flatMap

@[simp] theorem kept_record {members : List (String × Json)} :
    (record members).Kept ↔ ∀ m ∈ members, m.2.Kept := by
  show (∀ n ∈ floatsMembers members, n.readsBack = true) ↔ _
  rw [floatsMembers_eq]
  exact List.forall_mem_flatMap

@[simp] theorem kept_double {x : Float} :
    (number (.double x)).Kept ↔ (JsonNumber.double x).readsBack = true :=
  List.forall_mem_singleton

@[simp] theorem kept_single {x : Float32} :
    (number (.single x)).Kept ↔ (JsonNumber.single x).readsBack = true :=
  List.forall_mem_singleton

mutual

/-- The tokens of a value. -/
def tokens : Json → List JsonToken
  | .array [] _ => [.beginArray, .endArray]
  | .array (item :: rest) _ => .beginArray :: (tokens item ++ (tokensItems rest ++ [.endArray]))
  | .object [] _ => [.beginObject, .endObject]
  | .object ((key, value) :: rest) _ =>
    .beginObject :: .text (some key) :: .colon ::
      (tokens value ++ (tokensMembers rest ++ [.endObject]))
  | .text s => [.text (some s)]
  | j => [.scalar j]

/-- The tokens of the items after the first one. -/
def tokensItems : List Json → List JsonToken
  | [] => []
  | item :: rest => .comma :: (tokens item ++ tokensItems rest)

/-- The tokens of the members after the first one. -/
def tokensMembers : List (String × Json) → List JsonToken
  | [] => []
  | (key, value) :: rest =>
    .comma :: .text (some key) :: .colon :: (tokens value ++ tokensMembers rest)

end

end Json

/-! ## Texts and their tokens -/

namespace JsonLexer

/-- A text gives the tokens, whatever follows it. -/
def Lexes (cs : List Char) (tokens : List JsonToken) : Prop :=
  ∀ (done : List JsonToken) (rest : List Char),
    run done .ready (cs ++ rest) = run (tokens.reverse ++ done) .ready rest

/-- No number goes on with the text. -/
def Sealed (cs : List Char) : Prop := ∀ c ∈ cs.head?, inNumber c = false

/-- A text gives the tokens, if no number goes on after it. -/
def Cuts (cs : List Char) (tokens : List JsonToken) : Prop :=
  ∀ (done : List JsonToken) (rest : List Char), Sealed rest →
    run done .ready (cs ++ rest) = run (tokens.reverse ++ done) .ready rest

variable {cs ds : List Char} {s t : List JsonToken}

theorem Lexes.cuts (h : Lexes cs s) : Cuts cs s := fun done rest _ => h done rest

theorem Lexes.append (hc : Lexes cs s) (hd : Lexes ds t) : Lexes (cs ++ ds) (s ++ t) := by
  intro done rest
  rw [List.append_assoc, hc, hd, List.reverse_append, List.append_assoc]

theorem Lexes.append_cuts (hc : Lexes cs s) (hd : Cuts ds t) : Cuts (cs ++ ds) (s ++ t) := by
  intro done rest hrest
  rw [List.append_assoc, hc, hd _ _ hrest, List.reverse_append, List.append_assoc]

theorem Cuts.append (hc : Cuts cs s) (hd : Cuts ds t) (between : Sealed ds) :
    Cuts (cs ++ ds) (s ++ t) := by
  intro done rest hrest
  -- if the second text is empty, what follows it follows the first
  have next : Sealed (ds ++ rest) := by
    cases ds with
    | nil => exact hrest
    | cons d ds => exact between
  rw [List.append_assoc, hc _ _ next, hd _ _ hrest, List.reverse_append, List.append_assoc]

theorem Sealed.append (hc : Sealed cs) (hd : Sealed ds) : Sealed (cs ++ ds) := by
  cases cs with
  | nil => exact hd
  | cons c cs => exact hc

theorem lexes_nil : Lexes [] [] := fun _ _ => rfl

/-- The indentation gives no token. -/
theorem lexes_indent (level : Nat) : Lexes (Json.indent level).toList [] := by
  rw [Json.indent, String.toList_ofList]
  induction 2 * level with
  | zero => exact lexes_nil
  | succ k ih =>
    intro done rest
    rw [List.replicate_succ, List.cons_append]
    exact ih done rest

/-! ## Numbers -/

theorem start_of_opens {c : Char} (h : c.isDigit = true ∨ c = '-') :
    start c = some ([], .number [c]) := by
  unfold start
  split
  all_goals first
    | rcases h with h | h <;> cases h
    | skip
  rw [if_pos (by simpa using h)]

theorem run_number (done : List JsonToken) (read cs rest : List Char)
    (h : ∀ c ∈ cs, inNumber c = true) :
    run done (.number read) (cs ++ rest) = run done (.number (cs.reverse ++ read)) rest := by
  induction cs generalizing read with
  | nil => rfl
  | cons c cs ih =>
    rw [List.cons_append, run, step, if_pos (h c List.mem_cons_self)]
    rw [List.reverse_cons, List.append_assoc]
    exact ih (c :: read) fun d hd => h d (List.mem_cons_of_mem c hd)

/-- A number that has been read to its end is a token. -/
theorem run_numberEnd {read : List Char} {value : Json}
    (h : JsonNumber.read read.reverse = .ok (value, [])) (done : List JsonToken)
    {rest : List Char} (hrest : Sealed rest) :
    run done (.number read) rest = run (.scalar value :: done) .ready rest := by
  have tokens (ended : Bool) : numberTokens read ended = ([.scalar value], true) := by
    rw [numberTokens, h]
  cases rest with
  | nil => rw [run, finish, tokens]; rfl
  | cons c rest =>
    have hc : inNumber c = false := hrest c rfl
    -- the character that ends the number is read as if nothing were before it
    rw [run, run, step, step, hc, tokens]
    cases hs : start c with
    | none => rfl
    | some next => simp

/-- What is spelled like a number, and is read as one, is one token. -/
theorem cuts_number (h : Spelled cs) {value : Json} (hv : JsonNumber.read cs = .ok (value, [])) :
    Cuts cs [.scalar value] := by
  intro done rest hrest
  obtain ⟨c, more, rfl, hc⟩ := h.opens
  have goesOn : ∀ d ∈ more, inNumber d = true := fun d hd => h.goesOn d (List.mem_cons_of_mem c hd)
  have first : run done .ready (c :: more ++ rest) = run done (.number [c]) (more ++ rest) := by
    rw [List.cons_append, run, step, start_of_opens hc]
    rfl
  rw [first, run_number done [c] more rest goesOn, run_numberEnd (by simpa using hv) done hrest]
  rfl

/-! ## Quoted texts -/

theorem hexDigit_digitChar : ∀ n < 16, hexDigit? (Nat.digitChar n) = some n := by decide

/-- A control character is read back from the number it is written as. -/
theorem run_control {n : Nat} (h : n < 0x20) (done : List JsonToken) (read rest : List Char) :
    run done (.text read .outside none true)
        ('\\' :: 'u' :: '0' :: '0' :: Nat.digitChar (n / 16) :: Nat.digitChar (n % 16) :: rest) =
      run done (.text (Char.ofNat n :: read) .outside none true) rest := by
  have high : hexDigit? (Nat.digitChar (n / 16)) = some (n / 16) :=
    hexDigit_digitChar _ (by omega)
  have low : hexDigit? (Nat.digitChar (n % 16)) = some (n % 16) := hexDigit_digitChar _ (by omega)
  have value : 16 * (n / 16) + n % 16 = n := Nat.div_add_mod n 16
  have unit : takeUnit read none true n = .text (Char.ofNat n :: read) .outside none true := by
    simp [takeUnit, show ¬ 0xDC00 ≤ n by omega, show ¬ 0xD800 ≤ n by omega]
  have zeros : run done (.text read .outside none true)
        ('\\' :: 'u' :: '0' :: '0' :: Nat.digitChar (n / 16) :: Nat.digitChar (n % 16) :: rest) =
      run done (.text read (.unicode 2 0) none true)
        (Nat.digitChar (n / 16) :: Nat.digitChar (n % 16) :: rest) := rfl
  rw [zeros]
  simp [run, step, insideText, high, low, value, unit]

/-- A character is read back from its escape. -/
theorem run_escapeChar (c : Char) (done : List JsonToken) (read rest : List Char) :
    run done (.text read .outside none true) (Json.escapeChar c ++ rest) =
      run done (.text (c :: read) .outside none true) rest := by
  unfold Json.escapeChar
  split
  case h_8 quote backslash _ _ _ _ _ =>
    have notQuote : c ≠ '"' := quote
    have notBackslash : c ≠ '\\' := backslash
    split
    · rename_i control
      have same : Char.ofNat c.toNat = c := Char.ofNat_toNat c
      simpa only [List.cons_append, List.nil_append, same] using
        run_control control done read rest
    · rename_i control
      simp [run, step, insideText, notQuote, notBackslash, control]
  all_goals rfl

/-- The inside of a quoted text is read back. -/
theorem run_escaped (cs : List Char) (done : List JsonToken) (read rest : List Char) :
    run done (.text read .outside none true) (cs.flatMap Json.escapeChar ++ rest) =
      run done (.text (cs.reverse ++ read) .outside none true) rest := by
  induction cs generalizing read with
  | nil => rfl
  | cons c cs ih =>
    rw [List.flatMap_cons, List.append_assoc, run_escapeChar, ih, List.reverse_cons,
      List.append_assoc]
    rfl

/-- A quoted text is one token. -/
theorem lexes_quote (text : String) : Lexes (Json.quote text).toList [.text (some text)] := by
  intro done rest
  have quoted : (Json.quote text).toList ++ rest =
      '"' :: (text.toList.flatMap Json.escapeChar ++ '"' :: rest) := by
    simp [Json.quote]
  have opened : run done .ready ('"' :: (text.toList.flatMap Json.escapeChar ++ '"' :: rest)) =
      run done (.text [] .outside none true) (text.toList.flatMap Json.escapeChar ++ '"' :: rest) :=
    rfl
  rw [quoted, opened, run_escaped]
  simp [run, step, insideText]

end JsonLexer

/-! ## Whole values -/

namespace Json

open JsonLexer

theorem sealed_prettyItems (level : Nat) (items : List Json) :
    Sealed (prettyItems level items).toList := by
  cases items with
  | nil => intro c hc; cases hc
  | cons item rest =>
    simp only [prettyItems, String.toList_append]
    rintro c ⟨⟩
    rfl

theorem sealed_prettyMembers (level : Nat) (members : List (String × Json)) :
    Sealed (prettyMembers level members).toList := by
  cases members with
  | nil => intro c hc; cases hc
  | cons m rest =>
    simp only [prettyMembers, String.toList_append]
    rintro c ⟨⟩
    rfl

theorem lexes_colon : Lexes ": ".toList [.colon] := fun _ _ => rfl

/-- A number that comes back is one token. -/
theorem cuts_number {n : JsonNumber} (h : n.readsBack = true) :
    Cuts n.write.toList (number n).reread.tokens := by
  rw [reread_number]
  exact JsonLexer.cuts_number (n.spelled_write (n.isFinite_of_readsBack h)) (n.read_of_readsBack h)

/-- The items after the first one, given that each item is cut. -/
theorem cuts_prettyItems (level : Nat) {items : List Json}
    (h : ∀ j ∈ items, Cuts (pretty level j).toList j.reread.tokens) :
    Cuts (prettyItems level items).toList (tokensItems (items.map reread)) := by
  induction items with
  | nil => exact lexes_nil.cuts
  | cons item rest ih =>
    have comma : Lexes ",\n".toList [.comma] := fun _ _ => rfl
    have first := h item List.mem_cons_self
    have others := ih fun j hj => h j (List.mem_cons_of_mem item hj)
    simp only [prettyItems, String.toList_append, List.append_assoc]
    exact comma.append_cuts
      ((lexes_indent level).append_cuts (first.append others (sealed_prettyItems level rest)))

/-- The members after the first one, given that each value is cut. -/
theorem cuts_prettyMembers (level : Nat) {members : List (String × Json)}
    (h : ∀ m ∈ members, Cuts (pretty level m.2).toList m.2.reread.tokens) :
    Cuts (prettyMembers level members).toList
      (tokensMembers (members.map fun m => (m.1, m.2.reread))) := by
  induction members with
  | nil => exact lexes_nil.cuts
  | cons m rest ih =>
    have comma : Lexes ",\n".toList [.comma] := fun _ _ => rfl
    have first := h m List.mem_cons_self
    have others := ih fun j hj => h j (List.mem_cons_of_mem m hj)
    simp only [prettyMembers, String.toList_append, List.append_assoc]
    exact comma.append_cuts ((lexes_indent level).append_cuts ((lexes_quote m.1).append_cuts
      (lexes_colon.append_cuts (first.append others (sealed_prettyMembers level rest)))))

/-- The end of a container on a line of its own. -/
theorem cuts_close (level : Nat) {bracket : List Char} {token : JsonToken}
    (h : Lexes bracket [token]) :
    Cuts ("\n".toList ++ ((indent level).toList ++ bracket)) [token] :=
  have newline : Lexes "\n".toList [] := fun _ _ => rfl
  (newline.append ((lexes_indent level).append h)).cuts

theorem sealed_newline (cs : List Char) : Sealed ("\n".toList ++ cs) := by
  rintro c ⟨⟩
  rfl

/-- An array is cut if its items are. -/
theorem cuts_list (level : Nat) {items : List Json}
    (h : ∀ j ∈ items, Cuts (pretty (level + 1) j).toList j.reread.tokens) :
    Cuts (pretty level (list items)).toList (list items).reread.tokens := by
  rw [reread_list]
  cases items with
  | nil =>
    have empty : Lexes "[]".toList [.beginArray, .endArray] := fun _ _ => rfl
    exact empty.cuts
  | cons item rest =>
    have begins : Lexes "[\n".toList [.beginArray] := fun _ _ => rfl
    have ends : Lexes "]".toList [.endArray] := fun _ _ => rfl
    have first := h item List.mem_cons_self
    have others := cuts_prettyItems (level + 1) fun j hj => h j (List.mem_cons_of_mem item hj)
    simp only [list, pretty, String.toList_append, List.append_assoc]
    exact begins.append_cuts ((lexes_indent (level + 1)).append_cuts
      (first.append (others.append (cuts_close level ends) (sealed_newline _))
        ((sealed_prettyItems _ rest).append (sealed_newline _))))

/-- An object is cut if its values are. -/
theorem cuts_record (level : Nat) {members : List (String × Json)}
    (h : ∀ m ∈ members, Cuts (pretty (level + 1) m.2).toList m.2.reread.tokens) :
    Cuts (pretty level (record members)).toList (record members).reread.tokens := by
  rw [reread_record]
  cases members with
  | nil =>
    have empty : Lexes "\x7b\x7d".toList [.beginObject, .endObject] := fun _ _ => rfl
    exact empty.cuts
  | cons m rest =>
    have begins : Lexes "\x7b\n".toList [.beginObject] := fun _ _ => rfl
    have ends : Lexes "\x7d".toList [.endObject] := fun _ _ => rfl
    have first := h m List.mem_cons_self
    have others := cuts_prettyMembers (level + 1) fun n hn => h n (List.mem_cons_of_mem m hn)
    simp only [record, pretty, String.toList_append, List.append_assoc]
    exact begins.append_cuts ((lexes_indent (level + 1)).append_cuts
      ((lexes_quote m.1).append_cuts (lexes_colon.append_cuts
        (first.append (others.append (cuts_close level ends) (sealed_newline _))
          ((sealed_prettyMembers _ rest).append (sealed_newline _))))))

/-- **A written value is cut into its tokens**, as its numbers are read. -/
theorem cuts_pretty {j : Json} (plain : j.Plain) (level : Nat) (kept : j.Kept) :
    Cuts (pretty level j).toList j.reread.tokens := by
  induction plain generalizing level with
  | null =>
    have word : Lexes "null".toList [.scalar .null] := fun _ _ => rfl
    simpa only [pretty, compact, reread_null, tokens] using word.cuts
  | boolean b =>
    have word (b : Bool) : Lexes (if b then "true" else "false").toList [.scalar (.boolean b)] := by
      cases b <;> exact fun _ _ => rfl
    simpa only [pretty, compact, reread_boolean, tokens] using (word b).cuts
  | nat h => exact cuts_number (JsonNumber.readsBack_nat h)
  | double x => exact cuts_number (kept_double.1 kept)
  | single x => exact cuts_number (kept_single.1 kept)
  | text s => simpa only [pretty, compact, reread_text, tokens] using (lexes_quote s).cuts
  | list _ ih =>
    rw [kept_list] at kept
    exact cuts_list level fun j hj => ih j hj (level + 1) (kept j hj)
  | record _ ih =>
    rw [kept_record] at kept
    exact cuts_record level fun m hm => ih m hm (level + 1) (kept m hm)

/-- The tokens of a written text are those of the value, as its numbers are read. -/
theorem jsonTokens_pretty {j : Json} (plain : j.Plain) (kept : j.Kept) (level : Nat) :
    jsonTokens (pretty level j) = j.reread.tokens := by
  have cut := cuts_pretty plain level kept [] [] (by rintro c ⟨⟩)
  rw [List.append_nil] at cut
  rw [jsonTokens, cut, run, finish, List.append_nil, List.nil_append, List.reverse_reverse]

end Json

end Blockwork
