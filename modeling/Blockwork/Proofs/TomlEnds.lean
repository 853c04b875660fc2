import Blockwork.Toml.Reading

/-!
# The end of a TOML text

A carriage return stands only before a line feed in a TOML text, so it is never the last character.
Each reader is given a row of characters and leaves the rest of it: if the row ends with a carriage
return, so does the rest. A text that is read to its end has nothing left, and ends otherwise.

## Main statements

* `Toml.spares_readQuoted`, `Toml.spares_readWord`, `Toml.spares_value`: the readers of scalars and
  of values leave a carriage return at the end.
* `Toml.not_returns_of_parse`: a TOML text does not end with a carriage return.
-/

namespace Blockwork

namespace Toml

/-- A row of characters ends with a carriage return. -/
def Returns (cs : List Char) : Prop := cs.getLast? = some '\r'

/-- A carriage return at the end of a row is not read: it is also at the end of the rest. -/
def Spares (cs rest : List Char) : Prop := Returns cs → Returns rest

theorem not_returns_nil : ¬Returns [] := nofun

namespace Spares

variable {c : Char} {cs rest rest' : List Char}

theorem refl (cs : List Char) : Spares cs cs := id

theorem trans (h : Spares cs rest) (next : Spares rest rest') : Spares cs rest' := next ∘ h

theorem cons (other : c ≠ '\r') (rest : List Char) : Spares (c :: rest) rest := by
  intro h
  cases rest with
  | nil => exact absurd (Option.some.inj h) other
  | cons d rest => exact h

theorem append (front : List Char) (other : '\r' ∉ front) (rest : List Char) :
    Spares (front ++ rest) rest := by
  induction front with
  | nil => exact refl rest
  | cons c front ih =>
    rw [List.mem_cons, not_or] at other
    exact (cons (Ne.symm other.1) _).trans (ih other.2)

/-- A character that is not the last one may be any. -/
theorem cons_of_ne_nil (more : rest ≠ []) : Spares (c :: rest) rest := by
  intro h
  cases rest with
  | nil => exact absurd rfl more
  | cons d rest => exact h

theorem dropWhile {p : Char → Bool} (stops : p '\r' = false) (cs : List Char) :
    Spares cs (cs.dropWhile p) := by
  induction cs with
  | nil => exact refl []
  | cons c cs ih =>
    by_cases h : p c
    · rw [List.dropWhile_cons_of_pos h]
      exact (cons (by rintro rfl; simp [stops] at h) cs).trans ih
    · rw [List.dropWhile_cons_of_neg h]
      exact refl _

end Spares

/-! ## Blanks, line ends and single characters -/

theorem spares_skipBlanks (cs : List Char) : Spares cs (skipBlanks cs) := .dropWhile rfl cs

theorem spares_skipLines {comment : Bool} {cs rest : List Char}
    (h : skipLines comment cs = some rest) : Spares cs rest := by
  fun_induction skipLines comment cs with
  | case1 => cases h; exact .refl _
  | case2 comment cs follows ih =>
    refine .trans (.cons_of_ne_nil ?_) (ih h)
    rintro rfl
    cases follows
  | case3 | case5 => cases h
  | case4 comment cs ih => exact .trans (.cons (by decide) cs) (ih h)
  | case6 c cs other _ _ ih | case7 comment c cs other _ _ _ ih =>
    exact .trans (.cons other cs) (ih h)
  | case8 comment cs _ other _ _ ih => exact .trans (.cons other cs) (ih h)
  | case9 => cases h; exact .refl _

theorem spares_expect {c : Char} (other : c ≠ '\r') {cs rest : List Char}
    (h : expect c cs = some rest) : Spares cs rest := by
  cases cs with
  | nil => cases h
  | cons d cs =>
    obtain ⟨same, rfl⟩ : d = c ∧ cs = rest := by simpa [expect] using h
    exact .cons (same ▸ other) cs

theorem spares_endLine {cs rest : List Char} (h : endLine cs = some rest) : Spares cs rest := by
  have blanks := spares_skipBlanks cs
  unfold endLine at h
  split at h
  · next done => cases h; rwa [done] at blanks
  · next here => cases h; rwa [here] at blanks
  · next here =>
    cases h
    rw [here] at blanks
    exact blanks.trans (.cons_of_ne_nil (List.cons_ne_nil _ _))
  · next here => cases h; rwa [here] at blanks
  · cases h

/-! ## Texts -/

theorem spares_closeTriple {mark : Char} (other : mark ≠ '\r') (read cs : List Char) :
    Spares cs (closeTriple mark read cs).2 := by
  unfold closeTriple
  split
  · next a b rest =>
    have first : a = mark → Spares (a :: b :: rest) (b :: rest) := fun h => .cons (h ▸ other) _
    split
    · next both =>
      obtain ⟨ha, hb⟩ : a = mark ∧ b = mark := by simpa using both
      exact (first ha).trans (.cons (hb ▸ other) rest)
    · split
      · next ha => exact first ha
      · exact .refl _
  · next a =>
    split
    · next ha => exact .cons (ha ▸ other) []
    · exact .refl _
  · exact .refl _

/-- The reading of a text goes on behind a character, or this is a mark and closes the text. -/
theorem readQuoted_cases {q : Quotes} {read : List Char} {state : QuoteState} {c : Char}
    {rest text out : List Char} (h : readQuoted q read state (c :: rest) = some (text, out)) :
    (∃ read' state', readQuoted q read' state' rest = some (text, out)) ∨
      c = q.mark ∧ (out = rest ∨
        ∃ after, rest = q.mark :: q.mark :: after ∧ out = (closeTriple q.mark read after).2) := by
  have plain (h : readQuoted q read .plain (c :: rest) = some (text, out)) :
      (∃ read' state', readQuoted q read' state' rest = some (text, out)) ∨
        c = q.mark ∧ (out = rest ∨
          ∃ after, rest = q.mark :: q.mark :: after ∧ out = (closeTriple q.mark read after).2) := by
    unfold readQuoted at h
    simp only at h
    split at h
    · next mark =>
      split at h
      · cases h
        exact .inr ⟨mark, .inl rfl⟩
      · split at h
        · next a b after _ =>
          split at h
          · next both =>
            obtain ⟨ha, hb⟩ : a = q.mark ∧ b = q.mark := by simpa using both
            refine .inr ⟨mark, .inr ⟨after, by rw [ha, hb], ?_⟩⟩
            exact (congrArg Prod.snd (Option.some.inj h)).symm
          · exact .inl ⟨_, _, h⟩
        · cases h
    · repeat' split at h
      all_goals first | exact .inl ⟨_, _, h⟩ | cases h
  cases state with
  | plain => exact plain h
  | backslash | number missing value =>
    unfold readQuoted at h
    simp only at h
    repeat' split at h
    all_goals first | exact .inl ⟨_, _, h⟩ | cases h
  | gap ended =>
    have opened : readQuoted q read (.gap ended) (c :: rest) =
        if c = '\n' then readQuoted q read (.gap true) rest
        else if c = ' ' || c = '\t' then readQuoted q read (.gap ended) rest
        else if c = '\r' && rest.head? = some '\n' then readQuoted q read (.gap ended) rest
        else if ended then readQuoted q read .plain (c :: rest)
        else none := rfl
    rw [opened] at h
    repeat' split at h
    all_goals first | exact .inl ⟨_, _, h⟩ | exact plain h | cases h

theorem spares_readQuoted {q : Quotes} (other : q.mark ≠ '\r') {read : List Char}
    {state : QuoteState} {cs text rest : List Char}
    (h : readQuoted q read state cs = some (text, rest)) : Spares cs rest := by
  induction cs generalizing read state with
  | nil =>
    unfold readQuoted at h
    cases h
  | cons c cs ih =>
    rcases readQuoted_cases h with ⟨read', state', later⟩ | ⟨mark, rfl | ⟨after, rfl, rfl⟩⟩
    · -- there is a closing mark further on
      refine .trans (.cons_of_ne_nil ?_) (ih later)
      rintro rfl
      unfold readQuoted at later
      cases later
    · exact .cons (mark ▸ other) rest
    · have marks : '\r' ∉ [c, q.mark, q.mark] := by simp [mark, Ne.symm other]
      exact .trans (.append _ marks after) (spares_closeTriple other read after)

theorem spares_dropFirstLineEnd (cs : List Char) : Spares cs (dropFirstLineEnd cs) := by
  unfold dropFirstLineEnd
  split
  · exact .cons (by decide) _
  · exact .trans (.cons_of_ne_nil (List.cons_ne_nil _ _)) (.cons (by decide) _)
  · exact .refl _

theorem spares_readText {cs rest : List Char} {s : String} (h : readText cs = some (s, rest)) :
    Spares cs rest := by
  unfold readText at h
  obtain ⟨⟨text, rest⟩, read, same⟩ := Option.map_eq_some_iff.mp h
  cases same
  split at read
  · exact .trans (.append ['"', '"', '"'] (by decide) _)
      (.trans (spares_dropFirstLineEnd _) (spares_readQuoted (by decide) read))
  · exact .trans (.append ['\'', '\'', '\''] (by decide) _)
      (.trans (spares_dropFirstLineEnd _) (spares_readQuoted (by decide) read))
  · exact .trans (.cons (by decide) _) (spares_readQuoted (by decide) read)
  · exact .trans (.cons (by decide) _) (spares_readQuoted (by decide) read)
  · cases read

/-! ## Words -/

theorem spares_readWord {cs rest : List Char} {v : Toml} (h : readWord cs = some (v, rest)) :
    Spares cs rest := by
  have word : Spares cs (cs.dropWhile inWord) := .dropWhile rfl cs
  unfold readWord at h
  simp only at h
  split at h
  · next d after _ here =>
    rw [here] at word
    split at h
    · obtain ⟨_, -, same⟩ := Option.map_eq_some_iff.mp h
      cases same
      exact word.trans (.trans (.cons (by decide) _) (.dropWhile rfl _))
    · obtain ⟨_, -, same⟩ := Option.map_eq_some_iff.mp h
      cases same
      rwa [← here] at word
  · obtain ⟨_, -, same⟩ := Option.map_eq_some_iff.mp h
    cases same
    exact word

/-! ## Keys -/

theorem spares_readName {cs rest : List Char} {s : String} (h : readName cs = some (s, rest)) :
    Spares cs rest := by
  unfold readName at h
  split at h
  · cases h
  · cases h
  · exact spares_readText h
  · exact spares_readText h
  · simp only at h
    split at h
    · cases h
    · cases h
      exact .dropWhile rfl _

theorem spares_readNames {count : Nat} {cs rest : List Char} {names : List String}
    (h : readNames count cs = some (names, rest)) : Spares cs rest := by
  induction count generalizing cs names with
  | zero => cases h
  | succ count ih =>
    obtain ⟨⟨name, behind⟩, first, h⟩ := Option.bind_eq_some_iff.mp h
    have one : Spares cs (skipBlanks behind) :=
      (spares_skipBlanks cs).trans ((spares_readName first).trans (spares_skipBlanks behind))
    simp only at h
    split at h
    · next behind' dot =>
      obtain ⟨⟨more, _⟩, later, same⟩ := Option.map_eq_some_iff.mp h
      cases same
      rw [dot] at one
      exact one.trans (.trans (.cons (by decide) _) (ih later))
    · cases h
      exact one

theorem spares_readKey {cs rest : List Char} {names : List String}
    (h : readKey cs = some (names, rest)) : Spares cs rest :=
  spares_readNames h

/-! ## Values and lines -/

/-- A value, and what stands between the brackets of an array and the braces of a table. -/
theorem spares_value (fuel : Nat) :
    (∀ {room : Nat} {cs rest : List Char} {v : Toml},
      readValue fuel room cs = some (v, rest) → Spares cs rest) ∧
    (∀ {room : Nat} {read items : List Toml} {cs rest : List Char},
      readItems fuel room read cs = some (items, rest) → Spares cs rest) ∧
    ∀ {room : Nat} {read members : Members} {cs rest : List Char},
      readMembers fuel room read cs = some (members, rest) → Spares cs rest := by
  induction fuel with
  | zero => exact ⟨nofun, nofun, nofun⟩
  | succ fuel ih =>
    obtain ⟨value, items, members⟩ := ih
    refine ⟨?_, ?_, ?_⟩
    · intro room cs rest v h
      unfold readValue at h
      split at h
      · obtain ⟨_, read, same⟩ := Option.map_eq_some_iff.mp h
        cases same
        exact spares_readText read
      · obtain ⟨_, read, same⟩ := Option.map_eq_some_iff.mp h
        cases same
        exact spares_readText read
      · obtain ⟨_, read, same⟩ := Option.map_eq_some_iff.mp h
        cases same
        exact .trans (.cons (by decide) _) (items read)
      · next inside room =>
        have blanks : Spares ('\x7b' :: inside) (skipBlanks inside) :=
          .trans (.cons (by decide) _) (spares_skipBlanks inside)
        split at h
        · next closed =>
          cases h
          rw [closed] at blanks
          exact blanks.trans (.cons (by decide) _)
        · obtain ⟨_, read, same⟩ := Option.map_eq_some_iff.mp h
          cases same
          exact blanks.trans (members read)
      · exact spares_readWord h
    · intro room read list cs rest h
      obtain ⟨start, skipped, h⟩ := Option.bind_eq_some_iff.mp h
      have before := spares_skipLines skipped
      split at h
      · cases h
        exact before.trans (.cons (by decide) _)
      · obtain ⟨⟨item, behind⟩, first, h⟩ := Option.bind_eq_some_iff.mp h
        obtain ⟨next, skipped, h⟩ := Option.bind_eq_some_iff.mp h
        have one := before.trans ((value first).trans (spares_skipLines skipped))
        split at h
        · exact one.trans (.trans (.cons (by decide) _) (items h))
        · cases h
          exact one.trans (.cons (by decide) _)
        · cases h
    · intro room read list cs rest h
      obtain ⟨⟨names, behind⟩, key, h⟩ := Option.bind_eq_some_iff.mp h
      obtain ⟨right, equals, h⟩ := Option.bind_eq_some_iff.mp h
      obtain ⟨⟨v, next⟩, first, h⟩ := Option.bind_eq_some_iff.mp h
      obtain ⟨read', -, h⟩ := Option.bind_eq_some_iff.mp h
      have one := (spares_readKey key).trans ((spares_expect (by decide) equals).trans
        ((spares_skipBlanks right).trans ((value first).trans (spares_skipBlanks next))))
      split at h
      · next comma =>
        rw [comma] at one
        exact one.trans (.trans (.cons (by decide) _) (members h))
      · next closed =>
        cases h
        rw [closed] at one
        exact one.trans (.cons (by decide) _)
      · cases h

theorem not_returns_of_readLines {fuel : Nat} {header : List String} {members result : Members}
    {cs : List Char} (h : readLines fuel header members cs = some result) : ¬Returns cs := by
  induction fuel generalizing header members cs with
  | zero => cases h
  | succ fuel ih =>
    obtain ⟨start, skipped, h⟩ := Option.bind_eq_some_iff.mp h
    suffices done : ¬Returns start from fun ends => done (spares_skipLines skipped ends)
    split at h
    · exact not_returns_nil
    · next inside =>
      -- the header of an item of an array
      obtain ⟨⟨names, behind⟩, key, h⟩ := Option.bind_eq_some_iff.mp h
      obtain ⟨next, first, h⟩ := Option.bind_eq_some_iff.mp h
      obtain ⟨right, second, h⟩ := Option.bind_eq_some_iff.mp h
      obtain ⟨line, ended, h⟩ := Option.bind_eq_some_iff.mp h
      obtain ⟨_, -, h⟩ := Option.bind_eq_some_iff.mp h
      have header : Spares inside line := (spares_readKey key).trans
        ((spares_expect (by decide) first).trans
          ((spares_expect (by decide) second).trans (spares_endLine ended)))
      have whole : Spares ('[' :: '[' :: inside) line :=
        .trans (.append ['[', '['] (by decide) _) header
      exact fun ends => ih h (whole ends)
    · next inside _ =>
      -- the header of a table
      obtain ⟨⟨names, behind⟩, key, h⟩ := Option.bind_eq_some_iff.mp h
      obtain ⟨right, bracket, h⟩ := Option.bind_eq_some_iff.mp h
      obtain ⟨line, ended, h⟩ := Option.bind_eq_some_iff.mp h
      obtain ⟨_, -, h⟩ := Option.bind_eq_some_iff.mp h
      have header : Spares inside line := (spares_readKey key).trans
        ((spares_expect (by decide) bracket).trans (spares_endLine ended))
      have whole : Spares ('[' :: inside) line := .trans (.cons (by decide) _) header
      exact fun ends => ih h (whole ends)
    · -- a key and its value
      obtain ⟨⟨names, behind⟩, key, h⟩ := Option.bind_eq_some_iff.mp h
      obtain ⟨right, equals, h⟩ := Option.bind_eq_some_iff.mp h
      obtain ⟨⟨v, next⟩, read, h⟩ := Option.bind_eq_some_iff.mp h
      obtain ⟨line, ended, h⟩ := Option.bind_eq_some_iff.mp h
      obtain ⟨_, -, h⟩ := Option.bind_eq_some_iff.mp h
      have whole : Spares start line := (spares_readKey key).trans
        ((spares_expect (by decide) equals).trans ((spares_skipBlanks right).trans
          (((spares_value fuel).1 read).trans (spares_endLine ended))))
      exact fun ends => ih h (whole ends)

/-- **A TOML text does not end with a carriage return.** -/
theorem not_returns_of_parse {text : String} {members : Members}
    (h : parse text = some members) : ¬Returns text.toList := by
  unfold parse at h
  split at h
  · next rest here =>
    rw [here]
    exact fun ends => not_returns_of_readLines h (Spares.cons (by decide) rest ends)
  · exact not_returns_of_readLines h

end Toml

end Blockwork
