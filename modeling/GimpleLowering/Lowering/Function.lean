import GimpleLowering.Lowering.Statement

/-!
# Functions

A function is lowered block by block, beginning with its entry; a block that nothing branches to is
left out. Any failure is the end of the function, and says which statement it is about.

## Main definitions

* `Lowering.lowerBlock` — one block
* `Lowering.lowerFunction` — the object for a function
-/

namespace GimpleLowering.Lowering

open Gimple Layout

/-- Computations that lower a part of a function and say where they fail. -/
abbrev BlockM := Build State Failure

/-- The message of the panic at the end of a function that should have returned a value. -/
def missingReturnMessage : String := "control reached end of non-void function"

/-! ### Blocks -/

/-- Says where an error occurred. -/
def locate (cx : Context) (block statement : Nat) (line : Option Nat) {α : Type} (m : LowerM α) :
    BlockM α :=
  m.mapError fun e => ⟨cx.function.name, some ⟨block, statement, line⟩, e⟩

/-- Lowers the statements of a block from a position on. Only the last one can be a terminator,
and its exit is the exit of the block. -/
def lowerStatements (cx : Context) (block : Nat) :
    (position : Nat) → List Statement → BlockM (Option Flo.BlockExit)
  | _, [] => pure none
  | position, s :: rest => do
    let exit ← locate cx block position s.line do
      if s.isTerminator && ! rest.isEmpty then throw (.malformed (.notLast s.kindName block))
      lowerStatement { cx with line := s.line } s
    if rest.isEmpty then return exit else lowerStatements cx block (position + 1) rest

/-- The exit of a block without a terminator. Control goes on to the next block; at the end of
the last one it leaves a void function, and panics in any other. -/
def fallThrough (cx : Context) (block : Nat) : LowerM Flo.BlockExit := do
  match cx.function.blockAfter? block with
  | some next => return .goto (← blockFor cx next.index)
  | none =>
    if cx.function.returnType.isNone then return .ret []
    else
      markPanic
      return .panic missingReturnMessage []

/-- Lowers the block with the given index. -/
def lowerBlock (cx : Context) (index : Nat) : BlockM Flo.Block := do
  match cx.function.block? index with
  | none => locate cx index 0 none (throw (.internal (.blockVanished index)))
  | some block =>
    Build.step fun s => ((), { s with body := [] })
    let exit ← lowerStatements cx index 0 block.statements
    let exit ← match exit with
      | some exit => pure exit
      | none =>
        let line := block.statements.getLast?.bind Statement.line
        locate cx index block.statements.length line (fallThrough { cx with line } index)
    return ⟨none, .usable, (← get).body, exit, []⟩

/-- Fills in a block of the object, whose id has to be one that was handed out. -/
def fill {ε : Type} (id : Nat) (block : Flo.Block) : Build State ε Unit := do
  let draft ← Build.present id ((← get).draft.fillBlock? id block)
  Build.step fun s => ((), { s with draft })

/-- Lowers the pending blocks. The fuel is the number of blocks of the function; each of them is
scheduled at most once, so it does not run out. -/
def lowerPending (cx : Context) : (fuel : Nat) → BlockM Unit
  | 0 => pure ()
  | fuel + 1 => do
    match (← get).pending with
    | [] => pure ()
    | (index, id) :: pending =>
      Build.step fun s => ((), { s with pending })
      fill id (← lowerBlock cx index)
      lowerPending cx fuel

/-! ### Functions -/

/-- Declares the parameters, the return slot and the local variables. Returns the parameters and
the return slot. -/
def declareVariables (x : UnitIndex) (f : Function) : LowerM (List Nat × Option Nat) := do
  let parameters ← f.parameters.mapM fun p =>
    return (← declare x f.name none p.name p.ty .parameter).id
  let returnSlot ← f.returnType.mapM fun ty =>
    return (← create x none returnSlotName ty .returnSlot).id
  f.locals.forM fun v => do
    let _ ← declare x f.name none v.name v.ty .automatic
  return (parameters, returnSlot)

/-- Declares the variables of a function and schedules its entry. Returns the surroundings of its
statements, the parameters, and the entry. -/
def prepare (x : UnitIndex) (polyfills : Polyfills) (f : Function) :
    LowerM (Context × List Nat × Nat) := do
  check (f.validate.mapError fun c => .malformed (.contradiction c))
  let (parameters, returnSlot) ← declareVariables x f
  let cx : Context := ⟨x, polyfills, f, returnSlot, none⟩
  return (cx, parameters, ← blockFor cx f.entryBlock)

/-- The line of the first statement of a function. -/
def firstLine (f : Function) : Option Nat := do
  let block ← f.block? f.entryBlock
  let s ← block.statements.head?
  s.line

/-- Gives the entry its signature, and exports the function by its name. -/
def finish (cx : Context) (parameters : List Nat) (entry : Nat) : LowerM Unit := do
  let location ← onDraft fun d => d.locate (firstLine cx.function)
  let block ← Build.present entry ((← get).draft.object.blocks.get? entry)
  let signature := ⟨parameters, cx.returns, (← get).canPanic, location⟩
  fill entry { block with signature := some signature }
  Build.step fun s => ((), { s with draft := s.draft.exportBlock cx.function.name entry })

/-- Lowers a function from the initial state. -/
def lowerAll (x : UnitIndex) (polyfills : Polyfills) (f : Function) : BlockM Unit := do
  let (cx, parameters, entry) ←
    (prepare x polyfills f).mapError fun e => ⟨f.name, none, e⟩
  lowerPending cx f.blocks.length
  locate cx f.entryBlock 0 none (finish cx parameters entry)

/-- Lowers a function to an object of its own. Its types are left out: they are shared with the
other functions of the unit, and known only when all of them are done. -/
def lowerFunction (x : UnitIndex) (polyfills : Polyfills) (source : String) (f : Function) :
    Build Registry Failure Flo.Object :=
  Build.ofRun fun types => do
    let (r, s) ← (lowerAll x polyfills f).runOn (.initial types f.name source)
    return (r.map fun _ => s.draft.object, s.types)

end GimpleLowering.Lowering
