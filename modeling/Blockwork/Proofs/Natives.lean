import Blockwork.Machine
import Blockwork.Proofs.Collections

/-!
# What native functions do

A run relies on its native functions for little: that they leave the scopes alone, that they do not
take back a request to stop, that they complain of a missing argument only when it is missing, and
that they leave it to the machine to count nested calls. Here is what that means, and that the
standard functions do so.

## Main statements

* `Native.writesLast_assignment`, `Native.writesLast_changeVariable`: a function that writes a
  variable has looked at everything before.
* `Native.failsFor_standard`: with which errors a standard function can fail.
* `Native.reads_standard`: a standard function complains of an argument only if it is not given.
* `Native.leavesLimit_standard`: no standard function fails for the limit on nested calls.
* `Native.harmless_standard`: a standard function neither breaks a run off nor touches its scopes,
  and a request to stop does no more than cut its wait short.
-/

namespace Blockwork

/-! ## Errors of a program -/

/-- Whether an error says that a program is put together badly. -/
def RunError.isStructural : RunError → Bool
  | .unknownDefinition _ | .malformedChain _ | .missingArgument _ | .unknownNative _
  | .unknownChain _ => true
  | _ => false

/-- A function that reads so many arguments may give the error when it is called with the given
ones: it may complain of one that is missing, but not of the rest of the program. -/
def RunError.Allowed (count : Nat) (arguments : List Value) : RunError → Prop
  | .missingArgument index => index < count ∧ arguments.length ≤ index
  | e => e.isStructural = false

/-- The errors of a function that reads so many of the given arguments and uses them, variables and
the output, and nothing else. -/
def RunError.OfArguments (count : Nat) (arguments : List Value) : RunError → Prop
  | .missingArgument index => index < count ∧ arguments.length ≤ index
  | .typeMismatch .. | .unboundVariable _ | .arithmetic _ | .output _ => True
  | _ => False

theorem RunError.OfArguments.allowed {count : Nat} {arguments : List Value} {e : RunError}
    (h : e.OfArguments count arguments) : e.Allowed count arguments := by
  cases e with
  | missingArgument index => exact h
  | typeMismatch | unboundVariable | arithmetic | output => rfl
  | _ => exact h.elim

/-- What has been printed, and perhaps more. -/
def Output.Extended (o o' : Output) : Prop := ∃ more, o'.text = o.text ++ more

theorem Output.Extended.refl (o : Output) : o.Extended o := ⟨"", by simp⟩

theorem Output.Extended.trans {o o' o'' : Output} (h : o.Extended o') (next : o'.Extended o'') :
    o.Extended o'' := by
  obtain ⟨more, h⟩ := h
  obtain ⟨more', next⟩ := next
  exact ⟨more ++ more', by rw [next, h, String.append_assoc]⟩

/-- An answer once the wait in it is over. -/
def Reaction.settled : Reaction → Reaction
  | .waiting _ value => .returned value
  | reaction => reaction

namespace Native

/-- A function reads at most so many arguments: it complains of a missing one only if it reads it
and has not been given it. Nor does it find fault with the rest of the program, so this is the only
structural error that it gives. -/
def Reads (f : Native) (count : Nat) : Prop :=
  ∀ (s s' : Surroundings) (arguments : List Value) (e : RunError),
    f s arguments = (.failed e, s') → e.Allowed count arguments

/-- A function that reads at most so many arguments fails for what it does with them, and for
nothing else. -/
def FailsFor (f : Native) (count : Nat) : Prop :=
  ∀ (s s' : Surroundings) (arguments : List Value) (e : RunError),
    f s arguments = (.failed e, s') → e.OfArguments count arguments

/-- A function leaves the limit on nested calls to the machine, which counts the calls: it does not
itself give the error of one that is too deep. -/
def LeavesLimit (f : Native) : Prop :=
  ∀ (s : Surroundings) (arguments : List Value) (limit : Nat),
    (f s arguments).1 ≠ .failed (.stackOverflow limit)

theorem FailsFor.reads {f : Native} {count : Nat} (h : f.FailsFor count) : f.Reads count :=
  fun s s' arguments e fails => (h s s' arguments e fails).allowed

theorem FailsFor.leavesLimit {f : Native} {count : Nat} (h : f.FailsFor count) : f.LeavesLimit :=
  fun s arguments _ fails => h s (f s arguments).2 arguments _ (Prod.ext fails rfl)

/-- A function that has all the arguments it reads gives no structural error. -/
theorem Reads.not_structural {f : Native} {count : Nat} (h : f.Reads count) {s s' : Surroundings}
    {arguments : List Value} {e : RunError} (enough : count ≤ arguments.length)
    (fails : f s arguments = (.failed e, s')) : e.isStructural = false := by
  have allowed := h s s' arguments e fails
  cases e with
  | missingArgument index =>
    obtain ⟨lt, missing⟩ := allowed
    omega
  | _ => exact allowed

/-- What is done with arguments fails only as `RunError.OfArguments` says. -/
def Excused {α : Type} (count : Nat) (arguments : List Value) (x : Except RunError α) : Prop :=
  ∀ e, x = .error e → e.OfArguments count arguments

namespace Excused

variable {α β : Type} {count : Nat} {arguments : List Value}

theorem ok (a : α) : Excused count arguments (.ok a) := by
  intro e h
  cases h

theorem error {e : RunError} (h : e.OfArguments count arguments) :
    Excused count arguments (.error e : Except RunError α) := by
  rintro _ ⟨⟩
  exact h

theorem bind {x : Except RunError α} {f : α → Except RunError β} (h : Excused count arguments x)
    (next : ∀ a, Excused count arguments (f a)) : Excused count arguments (x >>= f) := by
  intro e he
  cases x with
  | error e' =>
    cases he
    exact h e rfl
  | ok a => exact next a e he

theorem of_argument {index : Nat} (lt : index < count) :
    Excused count arguments (Native.argument arguments index) := by
  intro e he
  unfold Native.argument at he
  split at he
  · cases he
  · next missing =>
    cases he
    exact ⟨lt, List.getElem?_eq_none_iff.mp missing⟩

theorem of_expectNumber (v : Value) : Excused count arguments v.expectNumber := by
  unfold Value.expectNumber
  split
  · exact ok _
  · exact error trivial

theorem of_numberArgument {index : Nat} (lt : index < count) :
    Excused count arguments (Native.numberArgument arguments index) :=
  (of_argument lt).bind fun v => of_expectNumber v

theorem of_get (env : Environment) (name : String) : Excused count arguments (env.get name) := by
  unfold Environment.get
  split
  · exact ok _
  · exact error trivial

theorem of_divide (a b : Float) (arguments : List Value) :
    Excused count arguments (divide a b) := by
  unfold divide
  split
  · exact error trivial
  · exact ok _

theorem of_modulo (a b : Float) (arguments : List Value) :
    Excused count arguments (modulo a b) := by
  unfold modulo
  split
  · exact error trivial
  · exact ok _

theorem of_ite {b : Bool} {x y : Except RunError α} (hx : Excused count arguments x)
    (hy : Excused count arguments y) : Excused count arguments (if b then x else y) := by
  split
  · exact hx
  · exact hy

/-- A function of some arguments reads no more than it looks at. -/
theorem failsFor_pure {f : List Value → Except RunError Value}
    (h : ∀ arguments, Excused count arguments (f arguments)) : (Native.pure f).FailsFor count := by
  intro s s' arguments e fails
  unfold Native.pure at fails
  split at fails
  · cases fails
  · next failed =>
    cases fails
    exact h arguments _ failed

theorem failsFor_arithmetic {f : Float → Float → Except RunError Float}
    (h : ∀ a b arguments, Excused 2 arguments (f a b)) : (Native.arithmetic f).FailsFor 2 :=
  failsFor_pure fun arguments =>
    (of_numberArgument (by decide)).bind fun a => (of_numberArgument (by decide)).bind fun b =>
      (h a b arguments).bind fun _ => ok _

theorem failsFor_comparison {f : Ordering → Bool} : (Native.comparison f).FailsFor 2 :=
  failsFor_pure fun _ => (of_argument (by decide)).bind fun _ =>
    (of_argument (by decide)).bind fun _ => ok _

end Excused

/-! ## Functions that write a variable -/

/-- The variable that is given a value, and the value. -/
def assigned (arguments : List Value) : Except RunError (String × Value) := do
  let name ← argument arguments 0
  let value ← argument arguments 1
  return (name.display, value)

/-- The variable that is changed, and the sum that it is to have. -/
def changed (env : Environment) (arguments : List Value) : Except RunError (String × Value) := do
  let name ← argument arguments 0
  let current ← (← env.get name.display).expectNumber
  let delta ← numberArgument arguments 1
  return (name.display, .number (current + delta))

/-- A function writes nothing before it knows which variable to write, and what: it fails, and all
is as before, or it returns, and the one variable is changed. -/
def WritesLast (f : Native) (binding : Environment → List Value → Except RunError (String × Value))
    (change : Environment → String → Value → Environment) : Prop :=
  ∀ (s : Surroundings) (arguments : List Value),
    (∃ e, binding s.env arguments = .error e ∧ f s arguments = (.failed e, s)) ∨
      ∃ name value, binding s.env arguments = .ok (name, value) ∧
        f s arguments = (.returned none, { s with env := change s.env name value })

theorem writesLast_assignment (change : Environment → String → Value → Environment) :
    (assignment change).WritesLast (fun _ => assigned) change := by
  intro s arguments
  dsimp only [assignment, assigned]
  cases argument arguments 0 with
  | error e => exact .inl ⟨e, rfl, rfl⟩
  | ok name =>
    cases argument arguments 1 with
    | error e => exact .inl ⟨e, rfl, rfl⟩
    | ok value => exact .inr ⟨_, _, rfl, rfl⟩

theorem writesLast_changeVariable : changeVariable.WritesLast changed Environment.set := by
  intro s arguments
  dsimp only [changeVariable, changed, bind, Except.bind]
  cases argument arguments 0 with
  | error e => exact .inl ⟨e, rfl, rfl⟩
  | ok name =>
    dsimp only
    cases s.env.get name.display with
    | error e => exact .inl ⟨e, rfl, rfl⟩
    | ok value =>
      dsimp only
      cases value.expectNumber with
      | error e => exact .inl ⟨e, rfl, rfl⟩
      | ok current =>
        cases numberArgument arguments 1 with
        | error e => exact .inl ⟨e, rfl, rfl⟩
        | ok delta => exact .inr ⟨_, _, rfl, rfl⟩

namespace WritesLast

variable {f : Native} {binding : Environment → List Value → Except RunError (String × Value)}
  {change : Environment → String → Value → Environment}

/-- Two calls that find the same to write do the same. -/
theorem alike (h : f.WritesLast binding change) (s s' : Surroundings) (arguments : List Value)
    (same : binding s'.env arguments = binding s.env arguments) :
    (∃ e, f s arguments = (.failed e, s) ∧ f s' arguments = (.failed e, s')) ∨
      ∃ name value, f s arguments = (.returned none, { s with env := change s.env name value }) ∧
        f s' arguments = (.returned none, { s' with env := change s'.env name value }) := by
  rcases h s arguments with ⟨e, failed, done⟩ | ⟨name, value, ok, done⟩ <;>
    rcases h s' arguments with ⟨e', failed', done'⟩ | ⟨name', value', ok', done'⟩
  · cases failed.symm.trans (same.symm.trans failed')
    exact .inl ⟨e, done, done'⟩
  · cases failed.symm.trans (same.symm.trans ok')
  · cases ok.symm.trans (same.symm.trans failed')
  · cases ok.symm.trans (same.symm.trans ok')
    exact .inr ⟨name, value, done, done'⟩

theorem failsFor {count : Nat} (h : f.WritesLast binding change)
    (excused : ∀ env arguments, Excused count arguments (binding env arguments)) :
    f.FailsFor count := by
  intro s s' arguments e fails
  rcases h s arguments with ⟨e', failed, done⟩ | ⟨name, value, -, done⟩
  · rw [done] at fails
    cases fails
    exact excused _ _ _ failed
  · rw [done] at fails
    cases fails

end WritesLast

/-! ## Errors of the standard functions -/

open Excused in
theorem failsFor_math : (pure math).FailsFor 2 :=
  failsFor_pure fun arguments =>
    (of_argument (by decide)).bind fun name => (of_numberArgument (by decide)).bind fun x => by
      refine bind (?_ : Excused 2 arguments (mathematics name.display x)) fun _ => ok _
      unfold mathematics
      split
      · exact ok _
      · exact ok _
      · exact ok _
      · exact ok _
      · split
        · exact error trivial
        · exact ok _
      · exact error trivial

theorem failsFor_getVariable : getVariable.FailsFor 1 := by
  intro s s' arguments e fails
  unfold getVariable at fails
  split at fails
  · next missing =>
    cases fails
    exact Excused.of_argument (by decide) e missing
  · split at fails
    · next unbound =>
      cases fails
      exact Excused.of_get _ _ e unbound
    · cases fails

theorem ofArguments_printPiece {s s' : Surroundings} {piece : String} {e : RunError} {count : Nat}
    {arguments : List Value} (h : printPiece s piece = (some e, s')) :
    e.OfArguments count arguments := by
  unfold printPiece Output.write at h
  split at h
  next problem output written =>
    split at written
    · cases written
      cases h
    · split at written
      · cases written
        cases h
        trivial
      · cases written
        cases h

theorem failsFor_print : print.FailsFor 1 := by
  intro s s' arguments e fails
  unfold print at fails
  split at fails
  · next missing =>
    cases fails
    exact Excused.of_argument (by decide) e missing
  · split at fails
    · next refused =>
      cases fails
      exact ofArguments_printPiece refused
    · split at fails
      · next refused =>
        cases fails
        exact ofArguments_printPiece refused
      · cases fails

theorem failsFor_pause : pause.FailsFor 1 := by
  intro s s' arguments e fails
  unfold pause at fails
  split at fails
  · next wrong =>
    cases fails
    exact Excused.of_numberArgument (by decide) e wrong
  · split at fails <;> cases fails

open Excused in
theorem failsFor_assignment (change : Environment → String → Value → Environment) :
    (assignment change).FailsFor 2 :=
  (writesLast_assignment change).failsFor fun _ _ => (of_argument (by decide)).bind fun _ =>
    (of_argument (by decide)).bind fun _ => ok _

open Excused in
theorem failsFor_changeVariable : changeVariable.FailsFor 2 :=
  writesLast_changeVariable.failsFor fun env _ => (of_argument (by decide)).bind fun _ =>
    (of_get env _).bind fun value => (of_expectNumber value).bind fun _ =>
      (of_numberArgument (by decide)).bind fun _ => ok _

/-- How many arguments the standard function of a name reads. -/
def standardReads : String → Nat
  | "not" | "length" | "get_var" | "print" | "wait" => 1
  | _ => 2

open Excused in
/-- **A standard function fails for what it does with its arguments,** and for nothing else. -/
theorem failsFor_standard {name : String} {f : Native} (h : standard.get? name = some f) :
    f.FailsFor (standardReads name) := by
  have mem := Table.mem_of_get?_ofList h
  simp only [List.mem_cons, Prod.mk.injEq, List.not_mem_nil, or_false] at mem
  rcases mem with ⟨rfl, rfl⟩ | ⟨rfl, rfl⟩ | ⟨rfl, rfl⟩ | ⟨rfl, rfl⟩ | ⟨rfl, rfl⟩ | ⟨rfl, rfl⟩ |
    ⟨rfl, rfl⟩ | ⟨rfl, rfl⟩ | ⟨rfl, rfl⟩ | ⟨rfl, rfl⟩ | ⟨rfl, rfl⟩ | ⟨rfl, rfl⟩ | ⟨rfl, rfl⟩ |
    ⟨rfl, rfl⟩ | ⟨rfl, rfl⟩ | ⟨rfl, rfl⟩ | ⟨rfl, rfl⟩ | ⟨rfl, rfl⟩ | ⟨rfl, rfl⟩ | ⟨rfl, rfl⟩
  · exact failsFor_arithmetic fun _ _ _ => ok _
  · exact failsFor_arithmetic fun _ _ _ => ok _
  · exact failsFor_arithmetic fun _ _ _ => ok _
  · exact failsFor_arithmetic of_divide
  · exact failsFor_arithmetic of_modulo
  · exact failsFor_comparison
  · exact failsFor_comparison
  · exact failsFor_comparison
  · exact failsFor_pure fun _ => (of_argument (by decide)).bind fun _ =>
      of_ite ((of_argument (by decide)).bind fun _ => ok _) (ok _)
  · exact failsFor_pure fun _ => (of_argument (by decide)).bind fun _ =>
      of_ite (ok _) ((of_argument (by decide)).bind fun _ => ok _)
  · exact failsFor_pure fun _ => (of_argument (by decide)).bind fun _ => ok _
  · exact failsFor_pure fun _ => (of_argument (by decide)).bind fun _ =>
      (of_argument (by decide)).bind fun _ => ok _
  · exact failsFor_pure fun _ => (of_argument (by decide)).bind fun _ => ok _
  · exact failsFor_math
  · exact failsFor_assignment _
  · exact failsFor_assignment _
  · exact failsFor_changeVariable
  · exact failsFor_getVariable
  · exact failsFor_print
  · exact failsFor_pause

/-- **A standard function complains of an argument only if it is not given.** -/
theorem reads_standard {name : String} {f : Native} (h : standard.get? name = some f) :
    f.Reads (standardReads name) := (failsFor_standard h).reads

/-- **No standard function fails for the limit on nested calls.** -/
theorem leavesLimit_standard {name : String} {f : Native} (h : standard.get? name = some f) :
    f.LeavesLimit := (failsFor_standard h).leavesLimit

/-! ## What standard functions leave alone -/

/-- A function leaves as many scopes as it finds. -/
def KeepsScopes (f : Native) : Prop :=
  ∀ s arguments, (f s arguments).2.env.scopes.length = s.env.scopes.length

/-- A function does not request a stop. -/
def NeverStops (f : Native) : Prop := ∀ s arguments, (f s arguments).2.stop = s.stop

/-- A function goes along with a request to stop: it does not take it back or break the run off,
and the request does no more than cut its wait short. What is printed stays printed. -/
structure Cooperative (f : Native) : Prop where
  keeps : ∀ s arguments, s.stop = true → (f s arguments).2.stop = true
  calm : ∀ s arguments message, (f s arguments).1 ≠ .panicked message
  prints : ∀ (s : Surroundings) arguments, s.output.Extended (f s arguments).2.output
  deaf : ∀ (s : Surroundings) arguments,
    (f { s with stop := true } arguments).1.settled = (f s arguments).1.settled ∧
    (f { s with stop := true } arguments).2.env = (f s arguments).2.env ∧
    (f { s with stop := true } arguments).2.output = (f s arguments).2.output

/-- The names of the standard functions that give a variable a value. -/
def writers : List String := ["declare_var", "set_var", "change_var"]

/-- The standard functions by kinds, with their names. -/
theorem standard_named {P : String → Native → Prop}
    (pure : ∀ name f, name ∉ writers → name ≠ "print" → P name (Native.pure f))
    (declare : P "declare_var" declareVariable) (set : P "set_var" setVariable)
    (change : P "change_var" changeVariable) (get : P "get_var" getVariable)
    (print : P "print" Native.print) (pause : P "wait" pause) {name : String} {f : Native}
    (h : standard.get? name = some f) : P name f := by
  have mem := Table.mem_of_get?_ofList h
  simp only [List.mem_cons, Prod.mk.injEq, List.not_mem_nil, or_false] at mem
  rcases mem with ⟨rfl, rfl⟩ | ⟨rfl, rfl⟩ | ⟨rfl, rfl⟩ | ⟨rfl, rfl⟩ | ⟨rfl, rfl⟩ | ⟨rfl, rfl⟩ |
    ⟨rfl, rfl⟩ | ⟨rfl, rfl⟩ | ⟨rfl, rfl⟩ | ⟨rfl, rfl⟩ | ⟨rfl, rfl⟩ | ⟨rfl, rfl⟩ | ⟨rfl, rfl⟩ |
    ⟨rfl, rfl⟩ | ⟨rfl, rfl⟩ | ⟨rfl, rfl⟩ | ⟨rfl, rfl⟩ | ⟨rfl, rfl⟩ | ⟨rfl, rfl⟩ | ⟨rfl, rfl⟩
  all_goals first | exact pure _ _ (by decide) (by decide) | assumption

/-- The standard functions by kinds. -/
theorem standard_cases {P : Native → Prop} (pure : ∀ f, P (Native.pure f))
    (declare : P declareVariable) (set : P setVariable) (change : P changeVariable)
    (get : P getVariable) (print : P Native.print) (pause : P Native.pause) {name : String}
    {f : Native} (h : standard.get? name = some f) : P f :=
  standard_named (P := fun _ => P) (fun _ f _ _ => pure f) declare set change get print pause h

/-- A function breaks nothing off, and touches neither the scopes nor the request to stop. -/
structure Harmless (f : Native) : Prop where
  scopes : f.KeepsScopes
  stop : f.NeverStops
  cooperative : f.Cooperative

/-- A function that only looks at its surroundings. -/
theorem harmless_of_same {f : Native} (same : ∀ s arguments, (f s arguments).2 = s)
    (calm : ∀ s arguments message, (f s arguments).1 ≠ .panicked message)
    (deaf : ∀ (s : Surroundings) arguments,
      (f { s with stop := true } arguments).1.settled = (f s arguments).1.settled) :
    f.Harmless := by
  refine ⟨fun s a => by rw [same], fun s a => by rw [same], fun s a h => ?_, calm, fun s a => ?_,
    fun s a => ⟨deaf s a, ?_⟩⟩
  · rw [same]
    exact h
  · rw [same]
    exact .refl _
  · rw [same, same]
    exact ⟨rfl, rfl⟩

theorem pure_snd (f : List Value → Except RunError Value) (s : Surroundings)
    (arguments : List Value) : (Native.pure f s arguments).2 = s := by
  unfold Native.pure
  split <;> rfl

theorem harmless_pure (f : List Value → Except RunError Value) : (Native.pure f).Harmless := by
  refine harmless_of_same (pure_snd f) (fun s a message => ?_) fun s a => ?_
  · unfold Native.pure
    split <;> exact nofun
  · unfold Native.pure
    split <;> rfl

/-- A function that writes a variable. -/
theorem WritesLast.harmless {f : Native}
    {binding : Environment → List Value → Except RunError (String × Value)}
    {change : Environment → String → Value → Environment} (h : f.WritesLast binding change)
    (keeps : ∀ (env : Environment) name value,
      (change env name value).scopes.length = env.scopes.length) : f.Harmless := by
  refine ⟨fun s a => ?_, fun s a => ?_, fun s a stop => ?_, fun s a message => ?_, fun s a => ?_,
    fun s a => ?_⟩
  · rcases h s a with ⟨e, -, done⟩ | ⟨name, value, -, done⟩ <;> rw [done]
    exact keeps _ _ _
  · rcases h s a with ⟨e, -, done⟩ | ⟨name, value, -, done⟩ <;> rw [done]
  · rcases h s a with ⟨e, -, done⟩ | ⟨name, value, -, done⟩ <;> rw [done] <;> exact stop
  · rcases h s a with ⟨e, -, done⟩ | ⟨name, value, -, done⟩ <;> rw [done] <;> exact nofun
  · rcases h s a with ⟨e, -, done⟩ | ⟨name, value, -, done⟩ <;> rw [done] <;> exact .refl _
  · -- what is written does not depend on the request
    rcases h.alike s { s with stop := true } a rfl with
      ⟨e, done, done'⟩ | ⟨name, value, done, done'⟩ <;> rw [done, done'] <;> exact ⟨rfl, rfl, rfl⟩

end Native

theorem Environment.length_scopes_declare (env : Environment) (name : String) (value : Value) :
    (env.declare name value).scopes.length = env.scopes.length := by
  unfold declare
  split
  · next scopes => simp [scopes]
  · rfl

theorem Environment.length_scopes_set (env : Environment) (name : String) (value : Value) :
    (env.set name value).scopes.length = env.scopes.length := by
  unfold set
  simp only
  split
  · exact length_scopes_declare env name value
  · split
    · rfl
    · exact length_scopes_declare env name value

namespace Native

theorem getVariable_snd (s : Surroundings) (arguments : List Value) :
    (getVariable s arguments).2 = s := by
  unfold getVariable
  split
  · rfl
  · split <;> rfl

theorem harmless_getVariable : getVariable.Harmless := by
  refine harmless_of_same getVariable_snd (fun s a message => ?_) fun s a => ?_
  · unfold getVariable
    split
    · exact nofun
    · split <;> exact nofun
  · unfold getVariable
    split
    · rfl
    · next name _ => cases s.env.get name.display <;> rfl

theorem pause_snd (s : Surroundings) (arguments : List Value) : (pause s arguments).2 = s := by
  unfold pause
  split
  · rfl
  · split <;> rfl

theorem harmless_pause : pause.Harmless := by
  refine harmless_of_same pause_snd (fun s a message => ?_) fun s a => ?_
  · unfold pause
    split
    · exact nofun
    · split <;> exact nofun
  · -- with or without the wait, there is no value
    unfold pause
    split
    · rfl
    · split <;> split <;> rfl

theorem printPiece_keeps (s : Surroundings) (piece : String) :
    (printPiece s piece).2.env = s.env ∧ (printPiece s piece).2.stop = s.stop ∧
      s.output.Extended (printPiece s piece).2.output := by
  refine ⟨rfl, rfl, ?_⟩
  show s.output.Extended (s.output.write piece).2
  unfold Output.write
  split
  · exact .refl _
  · split
    · exact .refl _
    · exact ⟨piece, rfl⟩

/-- Printing does nothing, or prints a piece, or prints a piece and a line break after it. -/
theorem print_cases (s : Surroundings) (arguments : List Value) :
    (print s arguments).2 = s ∨
      ∃ piece, (print s arguments).2 = (printPiece s piece).2 ∨
        (print s arguments).2 = (printPiece (printPiece s piece).2 "\n").2 := by
  unfold print
  split
  · exact Or.inl rfl
  · next value _ =>
    refine Or.inr ⟨value.display, ?_⟩
    split
    · next refused => exact Or.inl (by rw [refused])
    · next printed =>
      rw [printed]
      split
      · next refused => exact Or.inr (by rw [refused])
      · next ended => exact Or.inr (by rw [ended])

theorem print_keeps (s : Surroundings) (arguments : List Value) :
    (print s arguments).2.env = s.env ∧ (print s arguments).2.stop = s.stop ∧
      s.output.Extended (print s arguments).2.output := by
  rcases print_cases s arguments with h | ⟨piece, h | h⟩
  · rw [h]
    exact ⟨rfl, rfl, .refl _⟩
  · rw [h]
    exact printPiece_keeps s piece
  · rw [h]
    exact ⟨rfl, rfl, (printPiece_keeps s piece).2.2.trans (printPiece_keeps _ _).2.2⟩

/-- Printing does not look at the request to stop. -/
theorem print_stop (s : Surroundings) (arguments : List Value) :
    (print { s with stop := true } arguments).1 = (print s arguments).1 ∧
      (print { s with stop := true } arguments).2.env = (print s arguments).2.env ∧
      (print { s with stop := true } arguments).2.output = (print s arguments).2.output := by
  unfold print printPiece
  cases argument arguments 0 with
  | error e => exact ⟨rfl, rfl, rfl⟩
  | ok value =>
    simp only
    rcases s.output.write value.display with ⟨_ | e, output⟩
    · simp only
      rcases output.write "\n" with ⟨_ | e, output⟩
      · exact ⟨rfl, rfl, rfl⟩
      · exact ⟨rfl, rfl, rfl⟩
    · exact ⟨rfl, rfl, rfl⟩

theorem print_calm (s : Surroundings) (arguments : List Value) (message : String) :
    (print s arguments).1 ≠ .panicked message := by
  unfold print
  split
  · exact nofun
  · split
    · exact nofun
    · split <;> exact nofun

theorem harmless_print : print.Harmless := by
  refine ⟨fun s a => ?_, fun s a => (print_keeps s a).2.1, fun s a stop => ?_, print_calm,
    fun s a => (print_keeps s a).2.2, fun s a => ?_⟩
  · rw [(print_keeps s a).1]
  · rw [(print_keeps s a).2.1]
    exact stop
  · obtain ⟨result, env, output⟩ := print_stop s a
    exact ⟨congrArg _ result, env, output⟩

/-- **A standard function breaks nothing off,** and touches neither the scopes nor the request to
stop. -/
theorem harmless_standard {name : String} {f : Native} (h : standard.get? name = some f) :
    f.Harmless :=
  standard_cases harmless_pure
    ((writesLast_assignment _).harmless Environment.length_scopes_declare)
    ((writesLast_assignment _).harmless Environment.length_scopes_set)
    (writesLast_changeVariable.harmless Environment.length_scopes_set) harmless_getVariable
    harmless_print harmless_pause h

/-- A function that requests a stop. -/
def stopping : Native := fun s _ => (.returned none, { s with stop := true })

theorem cooperative_stopping : stopping.Cooperative :=
  ⟨fun _ _ _ => rfl, fun _ _ _ => nofun, fun _ _ => .refl _, fun _ _ => ⟨rfl, rfl, rfl⟩⟩

theorem keepsScopes_stopping : stopping.KeepsScopes := fun _ _ => rfl

end Native

end Blockwork
