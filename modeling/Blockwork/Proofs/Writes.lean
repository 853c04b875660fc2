import Blockwork.Proofs.Natives
import Blockwork.Proofs.Scopes

/-!
# What standard functions write

Of the standard functions three give a variable a value, and one prints. Each of the three looks at
all its arguments, and at the variable, before it writes anything: it either fails and changes
nothing, or binds one name at one place, the place where the name is looked up from then on. The
scopes of the callers are never touched.

## Main statements

* `Environment.writes_declare`, `Environment.writes_set`: to declare a variable or to set it changes
  one binding, and that is the one which is seen.
* `Native.standard_named`: which functions stand behind the standard names.
* `Native.confined_standard`: what a standard function may change.
-/

namespace Blockwork

namespace Environment

/-! ## Places of variables -/

/-- Where a name can be bound to a value. -/
inductive Place where
  | globals
  /-- The scope that has so many scopes inside it. -/
  | scope (depth : Nat)
deriving DecidableEq, Repr

/-- The value that a name is bound to at a place. -/
def bound? (env : Environment) (name : String) : Place → Option Value
  | .globals => env.globals.get? name
  | .scope depth => env.scopes[depth]?.bind fun scope => Table.get? scope name

/-- The place where a name is looked up: the innermost scope if it has the name, or the globals. -/
def seenAt (env : Environment) (name : String) : Place :=
  if env.local? name = none then .globals else .scope 0

/-- A name is given a value at the place where it is looked up from then on, and all else stays. -/
structure Writes (env : Environment) (name : String) (value : Value) (env' : Environment) :
    Prop where
  depth : env'.scopes.length = env.scopes.length
  outer : env'.scopes.tail = env.scopes.tail
  bound (name' : String) (place : Place) :
    env'.bound? name' place =
      if name' = name ∧ place = env'.seenAt name then some value else env.bound? name' place

section

variable {env env' : Environment} {scope : Scope} {outer : List Scope} {name : String}
  {value : Value}

theorem bound?_innermost (env : Environment) (name : String) :
    env.bound? name (.scope 0) = env.local? name := by
  rw [bound?, local?, List.head?_eq_getElem?]

theorem bound?_seenAt (env : Environment) (name : String) :
    env.bound? name (env.seenAt name) = env.lookup name := by
  rw [lookup_eq, seenAt]
  cases here : env.local? name with
  | none => rfl
  | some value => simpa [here] using env.bound?_innermost name

/-- What has been written is seen. -/
theorem Writes.lookup (h : env.Writes name value env') : env'.lookup name = some value := by
  rw [← bound?_seenAt, h.bound, if_pos ⟨rfl, rfl⟩]

theorem Writes.get (h : env.Writes name value env') : env'.get name = .ok value := by
  rw [Environment.get, h.lookup]

theorem declare_of_no_scopes (scopes : env.scopes = []) (name : String) (value : Value) :
    env.declare name value = { env with globals := env.globals.set name value } := by
  rw [declare, scopes]

theorem seenAt_of_local (h : (env.local? name).isSome) : env.seenAt name = .scope 0 :=
  if_neg (Option.isSome_iff_ne_none.mp h)

/-- A value put among the globals is the only change, and it is seen if no scope hides it. -/
theorem writes_globals (h : env.local? name = none) (value : Value) :
    env.Writes name value { env with globals := env.globals.set name value } where
  depth := rfl
  outer := rfl
  bound name' place := by
    have seen : seenAt { env with globals := env.globals.set name value } name = .globals :=
      if_pos h
    rw [seen]
    cases place with
    | globals =>
      rw [bound?, Table.get?_set]
      by_cases same : name' = name
      · simp [same]
      · simp [same, Ne.symm same, bound?]
    | scope depth => simp [bound?]

/-- A value put into the innermost scope is the only change, and it is seen. -/
theorem writes_innermost (scopes : env.scopes = scope :: outer) (name : String) (value : Value) :
    env.Writes name value { env with scopes := Table.set scope name value :: outer } where
  depth := by rw [scopes]; rfl
  outer := by rw [scopes]; rfl
  bound name' place := by
    have seen :
        seenAt { env with scopes := Table.set scope name value :: outer } name = .scope 0 := by
      refine seenAt_of_local ?_
      rw [local?_of_scopes rfl, Table.get?_set, if_pos rfl]
      rfl
    rw [seen]
    cases place with
    | globals => simp [bound?]
    | scope depth =>
      cases depth with
      | zero =>
        rw [bound?_innermost, bound?_innermost, local?_of_scopes rfl, local?_of_scopes scopes,
          Table.get?_set]
        by_cases same : name' = name
        · simp [same]
        · simp [same, Ne.symm same]
      | succ depth => simp [bound?, scopes]

/-- To declare a variable changes one binding, and that is the one which is seen. -/
theorem writes_declare (env : Environment) (name : String) (value : Value) :
    env.Writes name value (env.declare name value) := by
  cases scopes : env.scopes with
  | nil =>
    rw [declare_of_no_scopes scopes]
    exact writes_globals (by rw [local?, scopes]; rfl) value
  | cons scope outer =>
    rw [declare_of_scopes scopes]
    exact writes_innermost scopes name value

/-- To set a variable changes one binding, and that is the one which is seen. -/
theorem writes_set (env : Environment) (name : String) (value : Value) :
    env.Writes name value (env.set name value) := by
  rw [set_eq]
  split
  · exact env.writes_declare name value
  · next elsewhere =>
    refine writes_globals ?_ value
    by_contra here
    exact elsewhere (.inl here)

end

end Environment

namespace Native

/-! ## What is written -/

/-- The name and the value of an assignment. -/
def assigned? : List Value → Option (String × Value)
  | name :: value :: _ => some (name.display, value)
  | _ => none

/-- The name of a variable that is to be changed, and the sum that it is to have. -/
def changed? (env : Environment) : List Value → Option (String × Value)
  | name :: delta :: _ => do
    let current ← (← env.lookup name.display).toNumber?
    let delta ← delta.toNumber?
    return (name.display, .number (current + delta))
  | _ => none

/-- What the standard function of a name writes when it is called. -/
def written? (name : String) (env : Environment) (arguments : List Value) :
    Option (String × Value) :=
  if name = "change_var" then changed? env arguments
  else if name ∈ writers then assigned? arguments
  else none

/-- A function that writes a variable has been called: it has failed and nothing has changed, or it
has succeeded and what it is to write has been written. -/
def Assigns (name : String) (s : Surroundings) (arguments : List Value) (reaction : Reaction)
    (s' : Surroundings) : Prop :=
  (written? name s.env arguments = none ∧ (∃ e, reaction = .failed e) ∧ s' = s) ∨
    ∃ target value env, written? name s.env arguments = some (target, value) ∧
      reaction = .returned none ∧ s' = { s with env := env } ∧ s.env.Writes target value env

/-- What a call of the standard function of a name may change. -/
structure Confined (name : String) (s : Surroundings) (arguments : List Value) (reaction : Reaction)
    (s' : Surroundings) : Prop where
  depth : s'.env.scopes.length = s.env.scopes.length
  outer : s'.env.scopes.tail = s.env.scopes.tail
  failed (e : RunError) : reaction = .failed e → s'.env = s.env
  reader : name ∉ writers → s'.env = s.env
  /-- A function that writes fails if there is nothing for it to write. Else it returns, and has
  written just that. -/
  writer : name ∈ writers →
    (written? name s.env arguments = none ∧ ∃ e, reaction = .failed e) ∨
      ∃ target value, written? name s.env arguments = some (target, value) ∧
        reaction = .returned none ∧ s.env.Writes target value s'.env
  /-- A number that has been added to a variable is in the value that is then looked up. -/
  sum (target delta current : Value) (x y : Float) : name = "change_var" →
    arguments.take 2 = [target, delta] → s.env.lookup target.display = some current →
    current.toNumber? = some x → delta.toNumber? = some y →
    reaction = .returned none ∧
      getVariable s' [target] = (.returned (some (.number (x + y))), s')
  output : name ≠ "print" → s'.output = s.output

/-! ## Calls of standard functions -/

theorem getVariable_of_get {s : Surroundings} {target value : Value}
    (h : s.env.get target.display = .ok value) :
    getVariable s [target] = (.returned (some value), s) := by
  simp [getVariable, argument, h]

/-- A function that leaves the variables alone. -/
theorem confined_of_same {name : String} {s s' : Surroundings} {arguments : List Value}
    {reaction : Reaction} (reads : name ∉ writers) (same : s'.env = s.env)
    (output : name ≠ "print" → s'.output = s.output) :
    Confined name s arguments reaction s' where
  depth := by rw [same]
  outer := by rw [same]
  failed _ _ := same
  reader _ := same
  writer writes := absurd writes reads
  sum _ _ _ _ _ h := absurd (h ▸ by decide) reads
  output := output

/-- A function that writes a variable. -/
theorem Assigns.confined {name : String} {s s' : Surroundings} {arguments : List Value}
    {reaction : Reaction} (h : Assigns name s arguments reaction s') (writes : name ∈ writers) :
    Confined name s arguments reaction s' where
  depth := by
    rcases h with ⟨-, -, rfl⟩ | ⟨_, _, env, -, -, rfl, wrote⟩
    · rfl
    · exact wrote.depth
  outer := by
    rcases h with ⟨-, -, rfl⟩ | ⟨_, _, env, -, -, rfl, wrote⟩
    · rfl
    · exact wrote.outer
  failed e failed := by
    rcases h with ⟨-, -, rfl⟩ | ⟨_, _, env, -, returned, -, -⟩
    · rfl
    · rw [returned] at failed
      cases failed
  reader reads := absurd writes reads
  writer _ := by
    rcases h with ⟨nothing, failed, -⟩ | ⟨target, value, env, written, returned, rfl, wrote⟩
    · exact .inl ⟨nothing, failed⟩
    · exact .inr ⟨target, value, written, returned, wrote⟩
  sum target delta current x y named given found isNumber isNumber' := by
    have written : written? name s.env arguments = some (target.display, .number (x + y)) := by
      obtain ⟨rest, rfl⟩ : ∃ rest, arguments = target :: delta :: rest :=
        ⟨arguments.drop 2, by rw [← List.take_append_drop 2 arguments, given]; rfl⟩
      rw [written?, if_pos named]
      simp [changed?, found, isNumber, isNumber']
    rcases h with ⟨nothing, -, -⟩ | ⟨_, _, env, written', returned, rfl, wrote⟩
    · rw [written] at nothing
      cases nothing
    · rw [written] at written'
      cases written'
      exact ⟨returned, getVariable_of_get wrote.get⟩
  output _ := by
    rcases h with ⟨-, -, rfl⟩ | ⟨_, _, env, -, -, rfl, -⟩ <;> rfl

theorem toOption_assigned (arguments : List Value) :
    (assigned arguments).toOption = assigned? arguments := by
  rcases arguments with _ | ⟨name, _ | ⟨value, rest⟩⟩ <;> rfl

theorem toOption_expectNumber (v : Value) : v.expectNumber.toOption = v.toNumber? := by
  unfold Value.expectNumber
  cases v.toNumber? <;> rfl

theorem toOption_get (env : Environment) (name : String) :
    (env.get name).toOption = env.lookup name := by
  unfold Environment.get
  cases env.lookup name <;> rfl

theorem toOption_bind {ε α β : Type} (x : Except ε α) (f : α → Except ε β) :
    (x >>= f).toOption = x.toOption.bind fun a => (f a).toOption := by
  cases x <;> rfl

theorem toOption_changed (env : Environment) (arguments : List Value) :
    (changed env arguments).toOption = changed? env arguments := by
  rcases arguments with _ | ⟨target, _ | ⟨delta, rest⟩⟩
  · rfl
  · -- the sum is not looked for in a call that lacks the second argument
    have missing : numberArgument [target] 1 = .error (.missingArgument 1) := rfl
    simp only [changed, changed?, argument, missing, toOption_bind, toOption_get,
      toOption_expectNumber, List.getElem?_cons_zero]
    simp [Except.toOption]
  · have second : numberArgument (target :: delta :: rest) 1 = delta.expectNumber := rfl
    simp only [changed, changed?, argument, second, toOption_bind, toOption_get,
      toOption_expectNumber, List.getElem?_cons_zero]
    rfl

/-- A function that writes no variable before it knows what to write has failed, or has written
it. -/
theorem WritesLast.assigns {f : Native}
    {binding : Environment → List Value → Except RunError (String × Value)}
    {change : Environment → String → Value → Environment} {name : String}
    (h : f.WritesLast binding change)
    (writes : ∀ (env : Environment) target value, env.Writes target value (change env target value))
    (named : ∀ env arguments, written? name env arguments = (binding env arguments).toOption)
    (s : Surroundings) (arguments : List Value) :
    Assigns name s arguments (f s arguments).1 (f s arguments).2 := by
  unfold Assigns
  rw [named]
  rcases h s arguments with ⟨e, failed, done⟩ | ⟨target, value, ok, done⟩
  · rw [failed, done]
    exact .inl ⟨rfl, ⟨e, rfl⟩, rfl⟩
  · rw [ok, done]
    exact .inr ⟨target, value, _, rfl, rfl, rfl, writes _ _ _⟩

/-- **What a standard function may change.** It leaves the scopes of the callers alone and changes
no variable when it fails. Only three of them write variables: each that does not fail binds one
name, where it is then looked up. Only one of them prints. -/
theorem confined_standard {name : String} {f : Native} (h : standard.get? name = some f)
    (s : Surroundings) (arguments : List Value) :
    Confined name s arguments (f s arguments).1 (f s arguments).2 := by
  refine standard_named (P := fun name f =>
    Confined name s arguments (f s arguments).1 (f s arguments).2) ?pure ?declare ?set ?change ?get
    ?print ?pause h
  case pure =>
    intro name f reads _
    exact confined_of_same reads (by rw [pure_snd]) fun _ => by rw [pure_snd]
  case declare =>
    refine ((writesLast_assignment _).assigns Environment.writes_declare (fun _ a => ?_) s
      arguments).confined (by decide)
    exact (toOption_assigned a).symm
  case set =>
    refine ((writesLast_assignment _).assigns Environment.writes_set (fun _ a => ?_) s
      arguments).confined (by decide)
    exact (toOption_assigned a).symm
  case change =>
    refine (writesLast_changeVariable.assigns Environment.writes_set (fun env a => ?_) s
      arguments).confined (by decide)
    exact (toOption_changed env a).symm
  case get =>
    exact confined_of_same (by decide) (by rw [getVariable_snd]) fun _ => by rw [getVariable_snd]
  case print => exact confined_of_same (by decide) (print_keeps s arguments).1 fun h => absurd rfl h
  case pause => exact confined_of_same (by decide) (by rw [pause_snd]) fun _ => by rw [pause_snd]

/-- A variable that is a text, and is hidden by a number of the innermost scope. -/
def shadowed : Surroundings where
  env := ⟨.ofList [("n", .text "1")], [.ofList [("n", .number 2)], .empty]⟩
  output := .unlimited
  stop := false

theorem confined_standard_shadowed :
    standard.get? "change_var" = some changeVariable ∧
      Confined "change_var" shadowed [.text "n", .text " 3 "] (.returned none)
        (changeVariable shadowed [.text "n", .text " 3 "]).2 :=
  ⟨rfl, confined_standard (f := changeVariable) rfl shadowed [.text "n", .text " 3 "]⟩

end Native

end Blockwork
