import Blockwork.Chain
import Blockwork.Registry

/-!
# Programs

A program is everything a run needs: definitions, the variables it starts with, and chains. A chain
that begins with a define block is the body of the procedure defined there.
-/

namespace Blockwork

/-- A program. -/
structure Program where
  definitions : Registry
  /-- The variables it starts with. -/
  globals : Table Value
  chains : List Chain

namespace Program

/-- Nothing at all. -/
def empty : Program := ⟨.empty, .empty, []⟩

/-- A program without chains. -/
def new : Program := ⟨.builtins, .empty, []⟩

/-- The first chain of a number. -/
def chain? (p : Program) (id : ChainId) : Option Chain := p.chains.find? fun c => c.id = id

/-- The first chain that begins with a block that starts a run. -/
def entryChain? (p : Program) : Option Chain :=
  p.chains.find? fun c =>
    match c.head? with
    | some b => (p.definitions.find? b.definition).any fun d => d.behavior = .control .onStart
    | none => false

/-- The number of the next chain. -/
def nextId (p : Program) : ChainId := ((p.chains.map fun c => c.id + 1).max?).getD 0

/-- The procedure whose body is the chain. -/
def procedureOf (c : Chain) : Option Definition :=
  match c.blocks with
  | ⟨"define", .definition d :: _⟩ :: _ => some { d with behavior := .procedure (some c.id) }
  | _ => none

/-- Adds a chain. Nothing is added if its procedure is refused. -/
def addChain (p : Program) (blocks : List Block) : Except RegistryError (ChainId × Program) :=
  let c : Chain := ⟨p.nextId, Chain.origin, blocks⟩
  match procedureOf c with
  | none => .ok (c.id, { p with chains := p.chains ++ [c] })
  | some d =>
    match p.definitions.register d with
    | .error e => .error e
    | .ok (_, r) => .ok (c.id, { p with definitions := r, chains := p.chains ++ [c] })

/-- Takes out the first chain of a number. -/
def removeChain (p : Program) (id : ChainId) : Option (Chain × Program) :=
  (p.chain? id).map fun c => (c, { p with chains := p.chains.eraseP fun c => c.id = id })

/-- Changes the first chain of a number. -/
def editChain {α : Type} (p : Program) (id : ChainId) (change : Chain → α × Chain) :
    Option (α × Program) :=
  (p.chains.findIdx? fun c => c.id = id).bind fun i =>
    (p.chains[i]?).map fun c =>
      let (a, c) := change c
      (a, { p with chains := p.chains.set i c })

/-- Registers definitions one by one, up to the first that is refused. -/
def registerAll (r : Registry) : List Definition → Except RegistryError Unit × Registry
  | [] => (.ok (), r)
  | d :: rest =>
    match r.register d with
    | .ok (_, r) => registerAll r rest
    | .error e => (.error e, r)

/-- Registers the procedures of all chains, and says how many they are. -/
def recordProcedures (p : Program) : Except RegistryError Nat × Program :=
  let procedures := p.chains.filterMap procedureOf
  let (result, r) := registerAll p.definitions procedures
  (result.map fun _ => procedures.length, { p with definitions := r })

end Program

end Blockwork
