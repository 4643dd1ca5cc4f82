import GimpleLowering.Proofs.Flo.Semantics
import Mathlib.Logic.Relation

/-!
# Processes

A process executes functions of several objects that are linked by name. A call to one of them is
executed through its own object: the caller waits until the callee returns, and there is a list of
those that wait. A call to any other function is an effect of the runtime.

## Main definitions

* `Flo.Process`, `Flo.Step` — functions that are being executed
* `Flo.Calls` — a function calls another one

## Main results

* `Flo.Process.belongs_of_run` — only functions that are called are executed
-/

namespace GimpleLowering.Flo

/-! ### Statements -/

/-- The function that the statement calls by name. -/
def Statement.callee? : Statement → Option String
  | .call (.external name) _ _ _ => some name
  | _ => none

/-! ### Processes -/

/-- Objects that are linked, each under the name of the function that it exports. -/
abbrev Modules := String → Option Object

/-- What is not known about a run: what the runtime does, and what is in the variables of a
function before anything is written to them. -/
structure Environment where
  runtime : Runtime
  fresh : Object → (Nat → Value) → Prop

/-- A function that is being executed: its variables, the statements of the current block that are
left, and the exit of the block. -/
structure Activation where
  function : String
  object : Object
  frame : Nat → Value
  rest : List Nat
  exit : BlockExit

namespace Activation

/-- The function continues with another block. -/
def continueAt (a : Activation) (row : Block) : Activation :=
  { a with rest := row.statements, exit := row.exit }

/-- The statement comes next, and then the others. -/
def Next (a : Activation) (s : Statement) (rest : List Nat) : Prop :=
  ∃ id, a.rest = id :: rest ∧ a.object.statements.get? id = some s

end Activation

/-- The function that runs, the memory, and the functions that wait for the results of their calls,
each with the variables that take them. -/
structure Process where
  active : Activation
  memory : Memory
  callers : List (Activation × List Nat)

namespace Process

/-- What the active function sees. -/
def machine (p : Process) : Machine := ⟨p.active.frame, p.memory⟩

/-- All functions that are being executed. -/
def activations (p : Process) : List Activation := p.active :: p.callers.map Prod.fst

end Process

/-- The target of the first arm whose condition holds. -/
inductive Object.Branches (o : Object) (M : Machine) : List Nat → Nat → Prop where
  | here {arm target : Nat} {arms : List Nat} {row : MatchArm}
      (isArm : o.matchArms.get? arm = some row) (holds : o.get M row.condition = .ok (.truth true))
      (isTarget : row.target = .here target) : Branches o M (arm :: arms) target
  | later {arm target : Nat} {arms : List Nat} {row : MatchArm}
      (isArm : o.matchArms.get? arm = some row) (fails : o.get M row.condition = .ok (.truth false))
      (others : Branches o M arms target) : Branches o M (arm :: arms) target

section

variable (L : Modules) (E : Environment)

/-- A function is entered: its parameters take the arguments, and it starts with its entry. -/
inductive Enters (name : String) (values : List Value) (m : Memory) : Activation → Memory → Prop
  where
  | enter {o : Object} {entry : Nat} {row : Block} {signature : Signature} {frame : Nat → Value}
      {M : Machine} (linked : L name = some o) (isEntry : o.symbols.ofLeft? name = some entry)
      (isRow : o.blocks.get? entry = some row) (hasSignature : row.signature = some signature)
      (fresh : E.fresh o frame) (takes : o.setAll ⟨frame, m⟩ signature.params values = .ok M) :
      Enters name values m ⟨name, o, M.frame, row.statements, row.exit⟩ M.memory

/-- One step of a process. -/
inductive Step : Process → Process → Prop where
  | statement {a : Activation} {m : Memory} {callers : List (Activation × List Nat)}
      {s : Statement} {rest : List Nat} {M : Machine} (next : a.Next s rest)
      (notLinked : ∀ name, s.callee? = some name → L name = none)
      (effect : a.object.exec E.runtime ⟨a.frame, m⟩ s = .ok M) :
      Step ⟨a, m, callers⟩ ⟨{ a with frame := M.frame, rest := rest }, M.memory, callers⟩
  | call {a b : Activation} {m m' : Memory} {callers : List (Activation × List Nat)}
      {name : String} {input outputs : List Nat} {note : Note} {rest : List Nat}
      {values : List Value} (next : a.Next (.call (.external name) input outputs note) rest)
      (arguments : input.mapM (a.object.get ⟨a.frame, m⟩) = .ok values)
      (enters : Enters L E name values m b m') :
      Step ⟨a, m, callers⟩ ⟨b, m', ({ a with rest := rest }, outputs) :: callers⟩
  | goto {a : Activation} {m : Memory} {callers : List (Activation × List Nat)} {target : Nat}
      {row : Block} (done : a.rest = []) (exit : a.exit = .goto target)
      (isRow : a.object.blocks.get? target = some row) :
      Step ⟨a, m, callers⟩ ⟨a.continueAt row, m, callers⟩
  | branch {a : Activation} {m : Memory} {callers : List (Activation × List Nat)}
      {arms : List Nat} {target : Nat} {row : Block} (done : a.rest = [])
      (exit : a.exit = .branch arms) (branches : a.object.Branches ⟨a.frame, m⟩ arms target)
      (isRow : a.object.blocks.get? target = some row) :
      Step ⟨a, m, callers⟩ ⟨a.continueAt row, m, callers⟩
  | ret {a c : Activation} {m : Memory} {callers : List (Activation × List Nat)}
      {results outputs : List Nat} {values : List Value} {M : Machine} (done : a.rest = [])
      (exit : a.exit = .ret results)
      (isResult : results.mapM (a.object.get ⟨a.frame, m⟩) = .ok values)
      (takes : c.object.setAll ⟨c.frame, m⟩ outputs values = .ok M) :
      Step ⟨a, m, (c, outputs) :: callers⟩ ⟨{ c with frame := M.frame }, M.memory, callers⟩

/-- A run of the function gets to the process, if it is entered with the arguments. -/
def Process.Runs (f : String) (values : List Value) (m : Memory) (p : Process) : Prop :=
  ∃ a m', Enters L E f values m a m' ∧ Relation.ReflTransGen (Step L E) ⟨a, m', []⟩ p

/-- The first function has a call to the second one, which is linked. -/
def Calls (f g : String) : Prop :=
  ∃ o id s, L f = some o ∧ o.statements.get? id = some s ∧ s.callee? = some g ∧ (L g).isSome

end

/-! ### Functions that are called -/

variable {L : Modules} {E : Environment} {f : String} {p q : Process}

/-- The activation is one of a function that is called from `f`, if not directly. -/
structure Activation.Belongs (L : Modules) (f : String) (a : Activation) : Prop where
  linked : L a.function = some a.object
  exit : ∃ id row, a.object.blocks.get? id = some row ∧ a.exit = row.exit
  called : Relation.ReflTransGen (Calls L) f a.function

theorem Activation.Belongs.continueAt {a : Activation} (h : a.Belongs L f) {id : Nat} {row : Block}
    (hrow : a.object.blocks.get? id = some row) : (a.continueAt row).Belongs L f :=
  ⟨h.linked, ⟨id, row, hrow, rfl⟩, h.called⟩

theorem Enters.belongs {g : String} {values : List Value} {m m' : Memory} {a : Activation}
    (h : Enters L E g values m a m') (hg : Relation.ReflTransGen (Calls L) f g) :
    a.Belongs L f := by
  cases h with
  | enter linked isEntry isRow hasSignature fresh takes => exact ⟨linked, ⟨_, _, isRow, rfl⟩, hg⟩

theorem Enters.function_eq {g : String} {values : List Value} {m m' : Memory} {a : Activation}
    (h : Enters L E g values m a m') : a.function = g := by
  cases h
  rfl

theorem Enters.isSome {g : String} {values : List Value} {m m' : Memory} {a : Activation}
    (h : Enters L E g values m a m') : (L g).isSome := by
  cases h with
  | enter linked => rw [linked]; rfl

namespace Process

/-- All functions that are being executed are called from `f`. -/
def Belongs (L : Modules) (f : String) (p : Process) : Prop := ∀ a ∈ p.activations, a.Belongs L f

/-- A step only enters functions that are called. -/
theorem Belongs.step (h : p.Belongs L f) (hs : Step L E p q) : q.Belongs L f := by
  cases hs with
  | @statement a m callers s rest M next notLinked effect =>
    obtain ⟨ha, hcallers⟩ := List.forall_mem_cons.1 h
    exact List.forall_mem_cons.2 ⟨⟨ha.linked, ha.exit, ha.called⟩, hcallers⟩
  | @call a b m m' callers name input outputs note rest values next arguments enters =>
    obtain ⟨ha, hcallers⟩ := List.forall_mem_cons.1 h
    obtain ⟨id, -, hid⟩ := next
    have hcalls : Calls L a.function name :=
      ⟨a.object, id, _, ha.linked, hid, rfl, enters.isSome⟩
    refine List.forall_mem_cons.2 ⟨enters.belongs (ha.called.tail hcalls), ?_⟩
    exact List.forall_mem_cons.2 ⟨⟨ha.linked, ha.exit, ha.called⟩, hcallers⟩
  | goto done exit isRow =>
    obtain ⟨ha, hcallers⟩ := List.forall_mem_cons.1 h
    exact List.forall_mem_cons.2 ⟨ha.continueAt isRow, hcallers⟩
  | branch done exit branches isRow =>
    obtain ⟨ha, hcallers⟩ := List.forall_mem_cons.1 h
    exact List.forall_mem_cons.2 ⟨ha.continueAt isRow, hcallers⟩
  | ret done exit isResult takes =>
    obtain ⟨-, hcallers⟩ := List.forall_mem_cons.1 h
    obtain ⟨hc, hcallers⟩ := List.forall_mem_cons.1 hcallers
    exact List.forall_mem_cons.2 ⟨⟨hc.linked, hc.exit, hc.called⟩, hcallers⟩

/-- A run only executes functions that are called. -/
theorem belongs_of_run {values : List Value} {m : Memory} (h : p.Runs L E f values m) :
    p.Belongs L f := by
  obtain ⟨a, m', henters, hrun⟩ := h
  induction hrun with
  | refl => exact List.forall_mem_singleton.2 (henters.belongs .refl)
  | tail _ hstep ih => exact ih.step hstep

end Process

end GimpleLowering.Flo
