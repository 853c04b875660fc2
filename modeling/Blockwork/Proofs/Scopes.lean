import Blockwork.Environment
import Blockwork.Proofs.Collections
import Mathlib.Data.List.Induction

/-!
# The scopes of the variables

From a scope being entered to its being left, the variables may be read and written, and further
scopes entered and left, in any order. What was there before is then as it was, but for the globals
that have been set past a scope without such a local variable. While a scope is the innermost one,
only what has been written in it hides the globals.

## Main statements

* `Environment.exists_split`: a scope that is not yet left has been entered at some point, and all
  that has been entered since then has been left.
* `Environment.globals_after`: a global is what it was last set to past a scope.
* `Environment.local?_after`: a local variable is what was last written in its scope.
* `Environment.disciplined`: both together, from a scope being entered to its being left.
-/

namespace Blockwork

namespace Environment

/-! ## Histories -/

/-- An operation on the variables. -/
inductive Act where
  | push (scope : Scope)
  | pop
  | set (name : String) (value : Value)
  | declare (name : String) (value : Value)
  | lookup (name : String)
  | get (name : String)

/-- The variables after an operation. To read one changes nothing. -/
def act (env : Environment) : Act → Environment
  | .push scope => env.push scope
  | .pop => env.pop
  | .set name value => env.set name value
  | .declare name value => env.declare name value
  | .lookup _ | .get _ => env

/-- The variables after some operations. -/
def after (env : Environment) (acts : List Act) : Environment := acts.foldl act env

/-- The number of scopes that are open after an operation, if it leaves none but these. -/
def Act.open? : Nat → Act → Option Nat
  | n, .push _ => some (n + 1)
  | 0, .pop => none
  | n + 1, .pop => some n
  | n, _ => some n

/-- The number of scopes that are open after some operations, if they leave none but these. -/
def open? (n : Nat) (acts : List Act) : Option Nat := acts.foldlM Act.open? n

/-- Each scope that is entered is left, and no other. -/
def Balanced (acts : List Act) : Prop := open? 0 acts = some 0

instance (acts : List Act) : Decidable (Balanced acts) := decEq (open? 0 acts) (some 0)

/-- A variable of the innermost scope. -/
def local? (env : Environment) (name : String) : Option Value :=
  env.scopes.head?.bind fun scope => Table.get? scope name

/-- The value that an operation sets a variable to which the innermost scope does not have. -/
def passed? (env : Environment) (name : String) : Act → Option Value
  | .set name' value => if name' = name ∧ env.local? name = none then some value else none
  | _ => none

/-- The value that an operation writes to a variable in the innermost scope: it declares it there,
or sets it where the scope has it already or nothing else does. -/
def written? (env : Environment) (name : String) : Act → Option Value
  | .declare name' value => if name' = name then some value else none
  | .set name' value =>
    if name' = name ∧ (env.local? name ≠ none ∨ env.globals.get? name = none) then some value
    else none
  | _ => none

/-- What an operation at a position of a history amounts to, among the variables as they then
are. -/
def valueAt? (amounts : Environment → Act → Option Value) (env : Environment) (acts : List Act)
    (i : Nat) : Option Value :=
  acts[i]?.bind (amounts (env.after (acts.take i)))

/-- At a position of a history a variable is set past the scope that is then the innermost one. -/
def PassedAt (env : Environment) (acts : List Act) (name : String) (i : Nat) (value : Value) :
    Prop :=
  valueAt? (passed? · name) env acts i = some value

/-- At a position of a history a variable is written in the scope that is the innermost one where
the history begins: all that has been entered since then has been left. -/
def WrittenAt (env : Environment) (acts : List Act) (name : String) (i : Nat) (value : Value) :
    Prop :=
  Balanced (acts.take i) ∧ valueAt? (written? · name) env acts i = some value

/-- The value at the last of the positions that have one, or else the value before. -/
inductive LastOf (P : Nat → Value → Prop) (before : Option Value) : Option Value → Prop where
  | found {i : Nat} {value : Value} (here : P i value) (latest : ∀ j other, P j other → j ≤ i) :
    LastOf P before (some value)
  | never (absent : ∀ i value, ¬ P i value) : LastOf P before before

/-! ## Which scopes are open -/

/-- Whether an operation neither enters nor leaves a scope. -/
def Act.isPlain : Act → Bool
  | .push _ | .pop => false
  | _ => true

/-- An operation opens a scope, closes one, or leaves them as they are. -/
theorem Act.open?_cases {a : Act} {n m : Nat} (h : a.open? n = some m) :
    (∃ scope, a = .push scope ∧ m = n + 1) ∨ a = .pop ∧ n = m + 1 ∨ a.isPlain ∧ m = n := by
  cases a with
  | push scope => exact .inl ⟨scope, rfl, by simpa [Act.open?] using h.symm⟩
  | pop =>
    cases n with
    | zero => cases h
    | succ n => exact .inr (.inl ⟨rfl, by simpa [Act.open?] using h⟩)
  | set name value | declare name value | lookup name | get name =>
    exact .inr (.inr ⟨rfl, by simpa [Act.open?] using h.symm⟩)

theorem open?_append (n : Nat) (acts rest : List Act) :
    open? n (acts ++ rest) = (open? n acts).bind fun m => open? m rest :=
  List.foldlM_append

theorem open?_singleton (n : Nat) (a : Act) : open? n [a] = a.open? n := by
  cases h : a.open? n <;> simp [open?, h]

/-- The scopes that are open after all but the last operation. -/
theorem open?_of_snoc {acts : List Act} {a : Act} {n m : Nat}
    (h : open? n (acts ++ [a]) = some m) : ∃ k, open? n acts = some k ∧ a.open? k = some m := by
  rw [open?_append] at h
  obtain ⟨k, before, last⟩ := Option.bind_eq_some_iff.mp h
  exact ⟨k, before, by rwa [open?_singleton] at last⟩

theorem open?_of_prefix {done acts : List Act} {n m : Nat} (sofar : done <+: acts)
    (h : open? n acts = some m) : ∃ k, open? n done = some k := by
  obtain ⟨rest, rfl⟩ := sofar
  rw [open?_append] at h
  obtain ⟨k, before, -⟩ := Option.bind_eq_some_iff.mp h
  exact ⟨k, before⟩

theorem Act.open?_of_isPlain {a : Act} (plain : a.isPlain) (n : Nat) : a.open? n = some n := by
  cases a with
  | push scope => cases plain
  | pop => cases plain
  | set name value | declare name value | lookup name | get name => cases n <;> rfl

theorem open?_snoc {acts : List Act} {a : Act} {n k m : Nat} (h : open? n acts = some k)
    (last : a.open? k = some m) : open? n (acts ++ [a]) = some m := by
  rw [open?_append, h, Option.bind_some, open?_singleton, last]

/-- More scopes that are open before stay open. -/
theorem open?_succ {acts : List Act} {n m : Nat} (h : open? n acts = some m) :
    open? (n + 1) acts = some (m + 1) := by
  induction acts using List.reverseRecOn generalizing m with
  | nil => cases h; rfl
  | append_singleton acts a ih =>
    obtain ⟨k, before, last⟩ := open?_of_snoc h
    refine open?_snoc (ih before) ?_
    rcases Act.open?_cases last with ⟨scope, rfl, rfl⟩ | ⟨rfl, rfl⟩ | ⟨plain, rfl⟩
    · rfl
    · rfl
    · exact Act.open?_of_isPlain plain _

/-- Each scope that is open has been entered at some point; those that are open within it have been
entered after that. -/
theorem exists_split (acts : List Act) {n k : Nat} (h : open? 0 acts = some (n + 1 + k)) :
    ∃ before scope during, acts = before ++ .push scope :: during ∧ open? 0 before = some n ∧
      open? 0 during = some k := by
  induction acts using List.reverseRecOn generalizing k with
  | nil =>
    have none : 0 = n + 1 + k := Option.some.inj h
    omega
  | append_singleton acts a ih =>
    obtain ⟨l, before, last⟩ := open?_of_snoc h
    -- unless it is entered just now, it was open before
    have go_on (j : Nat) (h' : l = n + 1 + j) (after : a.open? j = some k) :
        ∃ start scope during, acts ++ [a] = start ++ .push scope :: during ∧
          open? 0 start = some n ∧ open? 0 during = some k := by
      obtain ⟨start, scope, during, rfl, opened, inner⟩ := ih (h' ▸ before)
      exact ⟨start, scope, during ++ [a], by simp, opened, open?_snoc inner after⟩
    rcases Act.open?_cases last with ⟨scope, rfl, more⟩ | ⟨rfl, more⟩ | ⟨plain, rfl⟩
    · cases k with
      | zero =>
        obtain rfl : n = l := by omega
        exact ⟨acts, scope, [], rfl, before, rfl⟩
      | succ k => exact go_on k (by omega) rfl
    · exact go_on (k + 1) (by omega) rfl
    · exact go_on k rfl (Act.open?_of_isPlain plain k)

/-- Operations of which each scope that is entered is left are plain ones, with such operations
between a scope being entered and left. -/
@[elab_as_elim]
theorem Balanced.induction {motive : List Act → Prop} {acts : List Act} (balanced : Balanced acts)
    (nil : motive [])
    (plain : ∀ acts a, Balanced acts → a.isPlain → motive acts → motive (acts ++ [a]))
    (nested : ∀ acts scope inner, Balanced acts → Balanced inner → motive acts →
      motive (acts ++ (.push scope :: inner ++ [.pop]))) :
    motive acts := by
  induction length : acts.length using Nat.strongRecOn generalizing acts with
  | ind _ ih =>
    subst length
    cases acts using List.reverseRecOn with
    | nil => exact nil
    | append_singleton acts a =>
      obtain ⟨k, before, last⟩ := open?_of_snoc balanced
      rcases Act.open?_cases last with ⟨scope, -, more⟩ | ⟨rfl, rfl⟩ | ⟨isPlain, rfl⟩
      · omega
      · obtain ⟨start, scope, inner, rfl, outside, inside⟩ := exists_split acts (k := 0) before
        rw [List.append_assoc]
        refine nested start scope inner outside inside (ih _ ?_ outside rfl)
        simp only [List.length_append, List.length_cons]
        omega
      · exact plain acts a before isPlain (ih _ (by simp) before rfl)

/-! ## What an operation does -/

section

variable {env : Environment} {scope : Scope} {outer : List Scope}

theorem after_append (acts rest : List Act) :
    env.after (acts ++ rest) = (env.after acts).after rest := List.foldl_append

theorem local?_of_scopes (scopes : env.scopes = scope :: outer) (name : String) :
    env.local? name = Table.get? scope name := by
  rw [local?, scopes]
  rfl

theorem lookup_eq (name : String) :
    env.lookup name = (env.local? name).or (env.globals.get? name) := rfl

theorem declare_of_scopes (scopes : env.scopes = scope :: outer) (name : String) (value : Value) :
    env.declare name value = { env with scopes := Table.set scope name value :: outer } := by
  rw [declare, scopes]

/-- A variable is set in the innermost scope if that has it already or nothing else does. -/
theorem set_eq (name : String) (value : Value) :
    env.set name value =
      if env.local? name ≠ none ∨ env.globals.get? name = none then env.declare name value
      else { env with globals := env.globals.set name value } := by
  have isLocal : env.scopes.head?.any (fun scope => (Table.get? scope name).isSome) =
      (env.local? name).isSome := by
    unfold local?
    cases env.scopes.head? <;> rfl
  unfold set
  rw [isLocal]
  cases env.local? name <;> cases env.globals.get? name <;> simp

/-- An operation that enters and leaves no scope changes the innermost one by what it writes. -/
theorem scopes_act (scopes : env.scopes = scope :: outer) {a : Act} (plain : a.isPlain) :
    ∃ scope', (env.act a).scopes = scope' :: outer ∧
      ∀ name, Table.get? scope' name = (env.written? name a).or (Table.get? scope name) := by
  cases a with
  | push scope => cases plain
  | pop => cases plain
  | lookup name | get name => exact ⟨scope, scopes, fun _ => rfl⟩
  | declare name value =>
    refine ⟨Table.set scope name value, by rw [act, declare_of_scopes scopes], fun name' => ?_⟩
    rw [Table.get?_set, written?]
    split <;> rfl
  | set name value =>
    rw [act, set_eq]
    by_cases here : env.local? name ≠ none ∨ env.globals.get? name = none
    · refine ⟨Table.set scope name value, by rw [if_pos here, declare_of_scopes scopes],
        fun name' => ?_⟩
      rw [Table.get?_set, written?]
      by_cases same : name = name'
      · subst same
        simp [here]
      · simp [same]
    · refine ⟨scope, by rw [if_neg here, scopes], fun name' => ?_⟩
      rw [written?]
      by_cases same : name = name'
      · subst same
        simp [here]
      · simp [same]

/-- Within a scope an operation changes a global only by setting it past the scope. -/
theorem globals_act (scopes : env.scopes = scope :: outer) (a : Act) (name : String) :
    (env.act a).globals.get? name =
      (env.globals.get? name).map fun value => (env.passed? name a).getD value := by
  cases a with
  | push scope | pop | lookup name | get name => simp [act, push, pop, passed?]
  | declare name' value => simp [act, declare_of_scopes scopes, passed?]
  | set name' value =>
    rw [act, set_eq, passed?]
    by_cases here : env.local? name' ≠ none ∨ env.globals.get? name' = none
    · rw [if_pos here, declare_of_scopes scopes]
      by_cases same : name' = name
      · subst same
        rcases here with here | here <;> simp [here]
      · simp [same]
    · rw [if_neg here, Table.get?_set]
      obtain ⟨notLocal, isGlobal⟩ : env.local? name' = none ∧ env.globals.get? name' ≠ none := by
        simpa using here
      by_cases same : name' = name
      · subst same
        obtain ⟨old, isGlobal⟩ := Option.ne_none_iff_exists'.mp isGlobal
        simp [notLocal, isGlobal]
      · simp [same]

end

/-! ## What the operations of a history do -/

section

variable {amounts : Environment → Act → Option Value} {env : Environment} {acts : List Act}

theorem lt_length_of_valueAt? {i : Nat} {value : Value}
    (h : valueAt? amounts env acts i = some value) : i < acts.length := by
  obtain ⟨a, here, -⟩ := Option.bind_eq_some_iff.mp h
  exact (List.getElem?_eq_some_iff.mp here).1

theorem valueAt?_append {i : Nat} (before : i < acts.length) (rest : List Act) :
    valueAt? amounts env (acts ++ rest) i = valueAt? amounts env acts i := by
  rw [valueAt?, List.getElem?_append_left before,
    List.take_append_of_le_length (Nat.le_of_lt before)]
  rfl

theorem valueAt?_snoc (a : Act) {i : Nat} {value : Value} :
    valueAt? amounts env (acts ++ [a]) i = some value ↔
      valueAt? amounts env acts i = some value ∨
        i = acts.length ∧ amounts (env.after acts) a = some value := by
  constructor
  · intro h
    have bound : i < acts.length + 1 := by simpa using lt_length_of_valueAt? h
    rcases Nat.lt_succ_iff_lt_or_eq.mp bound with before | rfl
    · exact .inl (valueAt?_append before [a] ▸ h)
    · rw [valueAt?, List.getElem?_concat_length, List.take_left] at h
      exact .inr ⟨rfl, h⟩
  · rintro (h | ⟨rfl, h⟩)
    · exact (valueAt?_append (lt_length_of_valueAt? h) [a]).trans h
    · rw [valueAt?, List.getElem?_concat_length, List.take_left]
      exact h

theorem writtenAt_snoc (balanced : Balanced acts) (a : Act) {name : String} {i : Nat}
    {value : Value} :
    WrittenAt env (acts ++ [a]) name i value ↔
      WrittenAt env acts name i value ∨
        i = acts.length ∧ (env.after acts).written? name a = some value := by
  unfold WrittenAt
  rw [valueAt?_snoc]
  constructor
  · rintro ⟨balanced, h | h⟩
    · rw [List.take_append_of_le_length (Nat.le_of_lt (lt_length_of_valueAt? h))] at balanced
      exact .inl ⟨balanced, h⟩
    · exact .inr h
  · rintro (⟨balanced, h⟩ | ⟨rfl, h⟩)
    · rw [List.take_append_of_le_length (Nat.le_of_lt (lt_length_of_valueAt? h))]
      exact ⟨balanced, .inl h⟩
    · rw [List.take_left]
      exact ⟨balanced, .inr ⟨rfl, h⟩⟩

/-- While a scope is open that has been entered since, there is no balance. -/
theorem not_balanced_of_push {inner sofar : List Act} (scope : Scope) (outside : Balanced acts)
    (inside : Balanced inner) (prefix_ : sofar <+: inner) :
    ¬ Balanced (acts ++ .push scope :: sofar) := by
  obtain ⟨n, opened⟩ := open?_of_prefix prefix_ inside
  have within : open? 0 (acts ++ .push scope :: sofar) = some (n + 1) := by
    rw [open?_append, outside]
    exact open?_succ opened
  intro balanced
  rw [Balanced, within] at balanced
  cases balanced

/-- What is written between another scope being entered and left is written there. -/
theorem writtenAt_nested {inner : List Act} (scope : Scope) (outside : Balanced acts)
    (inside : Balanced inner) {name : String} {i : Nat} {value : Value} :
    WrittenAt env (acts ++ (.push scope :: inner ++ [.pop])) name i value ↔
      WrittenAt env acts name i value := by
  rcases Nat.lt_or_ge i acts.length with before | behind
  · rw [WrittenAt, valueAt?_append before, List.take_append_of_le_length (Nat.le_of_lt before)]
    rfl
  · constructor
    · rintro ⟨balanced, h⟩
      have bound := lt_length_of_valueAt? h
      obtain ⟨j, rfl⟩ := Nat.exists_eq_add_of_le behind
      cases j with
      | zero =>
        simp [valueAt?, written?] at h
      | succ j =>
        have within : j ≤ inner.length := by
          simp only [List.length_append, List.length_cons, List.length_nil] at bound
          omega
        rw [List.take_length_add_append, List.cons_append, List.take_succ_cons,
          List.take_append_of_le_length within] at balanced
        exact absurd balanced
          (not_balanced_of_push scope outside inside (List.take_prefix j inner))
    · rintro ⟨-, h⟩
      exact absurd (lt_length_of_valueAt? h) (Nat.not_lt.mpr behind)

theorem LastOf.congr {P Q : Nat → Value → Prop} {before last : Option Value}
    (h : LastOf P before last) (iff : ∀ i value, Q i value ↔ P i value) : LastOf Q before last := by
  cases h with
  | found here latest =>
    exact .found ((iff _ _).mpr here) fun j other q => latest j other ((iff _ _).mp q)
  | never absent => exact .never fun i value q => absent i value ((iff _ _).mp q)

/-- One more operation may be the one with the last value. -/
theorem LastOf.snoc {P Q : Nat → Value → Prop} {before last here : Option Value} {k : Nat}
    (h : LastOf P before last) (bound : ∀ i value, P i value → i < k)
    (iff : ∀ i value, Q i value ↔ P i value ∨ i = k ∧ here = some value) :
    LastOf Q before (here.or last) := by
  cases here with
  | some value =>
    refine .found ((iff k value).mpr (.inr ⟨rfl, rfl⟩)) fun j other q => ?_
    rcases (iff j other).mp q with p | ⟨rfl, -⟩
    · exact Nat.le_of_lt (bound j other p)
    · exact Nat.le_refl j
  | none =>
    exact h.congr fun i value => by simp [iff]

/-- The scopes below the innermost one are not changed before that is left. -/
theorem scopes_after {outer opened : List Scope} {n m : Nat}
    (scopes : env.scopes = opened ++ outer) (length : opened.length = n + 1)
    (h : open? n acts = some m) :
    ∃ opened', (env.after acts).scopes = opened' ++ outer ∧ opened'.length = m + 1 := by
  induction acts using List.reverseRecOn generalizing m with
  | nil =>
    cases h
    exact ⟨opened, scopes, length⟩
  | append_singleton acts a ih =>
    obtain ⟨k, before, last⟩ := open?_of_snoc h
    obtain ⟨opened', scopes', length'⟩ := ih before
    rw [after_append]
    obtain ⟨top, rest, rfl⟩ := List.exists_cons_of_length_eq_add_one length'
    rcases Act.open?_cases last with ⟨scope, rfl, rfl⟩ | ⟨rfl, rfl⟩ | ⟨plain, rfl⟩
    · exact ⟨scope :: top :: rest, congrArg (scope :: ·) scopes', congrArg (· + 1) length'⟩
    · exact ⟨rest, congrArg List.tail scopes', Nat.succ.inj length'⟩
    · obtain ⟨top', scopes'', -⟩ := scopes_act scopes' plain
      exact ⟨top' :: rest, scopes'', length'⟩

variable {scope : Scope} {outer : List Scope}

theorem exists_scopes_after {n : Nat} (scopes : env.scopes = scope :: outer)
    (h : open? 0 acts = some n) : ∃ top rest, (env.after acts).scopes = top :: rest := by
  have innermost : env.scopes = [scope] ++ outer := scopes
  obtain ⟨opened, scopes', length⟩ := scopes_after innermost rfl h
  obtain ⟨top, rest, rfl⟩ := List.exists_cons_of_length_eq_add_one length
  exact ⟨top, rest ++ outer, scopes'⟩

/-- **A global is what it was last set to past a scope, if it has been set in this way.** -/
theorem globals_after {n : Nat} (scopes : env.scopes = scope :: outer) (h : open? 0 acts = some n)
    (name : String) :
    ((env.after acts).globals.get? name).isSome = (env.globals.get? name).isSome ∧
      ((env.globals.get? name).isSome →
        LastOf (PassedAt env acts name) (env.globals.get? name)
          ((env.after acts).globals.get? name)) := by
  induction acts using List.reverseRecOn generalizing n with
  | nil => exact ⟨rfl, fun _ => .never nofun⟩
  | append_singleton acts a ih =>
    obtain ⟨k, before, -⟩ := open?_of_snoc h
    obtain ⟨same, last⟩ := ih before
    obtain ⟨top, rest, scopes'⟩ := exists_scopes_after scopes before
    have now := globals_act scopes' a name
    rw [after_append]
    change ((env.after acts).act a).globals.get? name = _ at now
    refine ⟨?_, fun isGlobal => ?_⟩
    · rw [← same]
      exact (congrArg Option.isSome now).trans (by simp)
    · have now' : (((env.after acts).after [a]).globals.get? name) =
          ((env.after acts).passed? name a).or ((env.after acts).globals.get? name) := by
        obtain ⟨value, old⟩ := Option.isSome_iff_exists.mp (same.trans isGlobal)
        rw [old] at now ⊢
        refine now.trans ?_
        cases (env.after acts).passed? name a <;> rfl
      rw [now']
      exact (last isGlobal).snoc (fun _ _ => lt_length_of_valueAt?) fun _ _ => valueAt?_snoc a

/-- **A variable of the innermost scope is what was last written to it there.** -/
theorem local?_after (scopes : env.scopes = scope :: outer) (balanced : Balanced acts) :
    ∃ scope', (env.after acts).scopes = scope' :: outer ∧
      ∀ name,
        LastOf (WrittenAt env acts name) (Table.get? scope name) (Table.get? scope' name) := by
  refine Balanced.induction balanced ?nil ?plain ?nested
  case nil => exact ⟨scope, scopes, fun name => .never fun i value written => nomatch written.2⟩
  case plain =>
    intro acts a balanced plain ih
    obtain ⟨top, scopes', last⟩ := ih
    obtain ⟨top', scopes'', now⟩ := scopes_act scopes' plain
    rw [after_append]
    refine ⟨top', scopes'', fun name => ?_⟩
    rw [now]
    exact (last name).snoc (fun _ _ written => lt_length_of_valueAt? written.2)
      fun _ _ => writtenAt_snoc balanced a
  case nested =>
    intro acts local_ inner outside inside ih
    obtain ⟨top, scopes', last⟩ := ih
    have entered : ((env.after acts).push local_).scopes = [local_] ++ top :: outer :=
      congrArg (local_ :: ·) scopes'
    obtain ⟨opened, scopes'', length⟩ := scopes_after entered rfl inside
    obtain ⟨inmost, rfl⟩ := List.length_eq_one_iff.mp length
    refine ⟨top, ?_, fun name => ?_⟩
    · rw [after_append, List.cons_append]
      change (((env.after acts).push local_).after (inner ++ [.pop])).scopes = top :: outer
      rw [after_append]
      exact congrArg List.tail scopes''
    · exact (last name).congr fun i value => writtenAt_nested local_ outside inside

end

/-- What holds of the operations from a scope being entered to its being left. -/
structure Disciplined (env : Environment) (scope : Scope) (acts : List Act) : Prop where
  /-- The scopes that were there before are as they were. -/
  scopes : (env.after (.push scope :: acts ++ [.pop])).scopes = env.scopes
  /-- No global is added or removed. -/
  isSome_globals (name : String) :
    ((env.after (.push scope :: acts ++ [.pop])).globals.get? name).isSome =
      (env.globals.get? name).isSome
  /-- A global is as it was, unless it has been set past a scope: then it is what it was set to last
  in this way. -/
  globals (name : String) (isGlobal : (env.globals.get? name).isSome) :
    LastOf (PassedAt (env.push scope) acts name) (env.globals.get? name)
      ((env.after (.push scope :: acts ++ [.pop])).globals.get? name)
  /-- At each point some scope is the innermost one, and was entered after what is before it. -/
  innermost (done : List Act) (sofar : done <+: acts) :
    ∃ before local_ during, Act.push scope :: done = before ++ .push local_ :: during ∧
      Balanced during
  /-- A variable is then what was last written to it since this scope was entered, if anything was,
  and else the global. -/
  lookup (done : List Act) (sofar : done <+: acts) {before : List Act} {local_ : Scope}
    {during : List Act} (split : Act.push scope :: done = before ++ .push local_ :: during)
    (balanced : Balanced during) (name : String) :
    ∃ last, LastOf (WrittenAt ((env.after before).push local_) during name)
        (Table.get? local_ name) last ∧
      (env.after (.push scope :: done)).lookup name =
        last.or ((env.after (.push scope :: done)).globals.get? name)

/-- **From a scope being entered to its being left, the variables outside change only as said.** -/
theorem disciplined (env : Environment) (scope : Scope) {acts : List Act}
    (balanced : Balanced acts) : Disciplined env scope acts := by
  have whole : env.after (.push scope :: acts ++ [.pop]) = ((env.push scope).after acts).pop := by
    rw [after_append]
    rfl
  have outside : (env.push scope).scopes = scope :: env.scopes := rfl
  constructor
  case scopes =>
    obtain ⟨top, scopes, -⟩ := local?_after outside balanced
    rw [whole]
    exact congrArg List.tail scopes
  case isSome_globals =>
    intro name
    rw [whole]
    exact (globals_after outside balanced name).1
  case globals =>
    intro name isGlobal
    rw [whole]
    exact (globals_after outside balanced name).2 isGlobal
  case innermost =>
    intro done sofar
    obtain ⟨n, opened⟩ := open?_of_prefix sofar balanced
    have within : open? 0 (.push scope :: done) = some (n + 1 + 0) := open?_succ opened
    obtain ⟨before, local_, during, split, -, balanced⟩ := exists_split _ within
    exact ⟨before, local_, during, split, balanced⟩
  case lookup =>
    intro done sofar before local_ during split balanced name
    have now : env.after (.push scope :: done) = ((env.after before).push local_).after during := by
      rw [split, after_append]
      rfl
    have entered :
        ((env.after before).push local_).scopes = local_ :: (env.after before).scopes := rfl
    obtain ⟨top, scopes, last⟩ := local?_after entered balanced
    refine ⟨Table.get? top name, last name, ?_⟩
    rw [now, lookup_eq, local?_of_scopes scopes]

/-- A history in which a global is hidden by a parameter, and set from another scope meanwhile. -/
def shadowing : List Act :=
  [.set "x" (.text "here"), .push .empty, .set "x" (.text "there"), .declare "x" (.text "inside"),
    .get "x", .pop, .lookup "x"]

theorem disciplined_shadowing :
    Balanced shadowing ∧
      Disciplined (.ofGlobals (.ofList [("x", .text "before")]))
        (.ofParameters ["x"] [.text "given"])
        shadowing :=
  ⟨rfl, disciplined _ _ rfl⟩

end Environment

end Blockwork
