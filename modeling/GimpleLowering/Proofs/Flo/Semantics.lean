import GimpleLowering.Flo.Object
import GimpleLowering.Proofs.Memory
import Mathlib.Algebra.Group.Int.Defs
import Mathlib.Algebra.Group.Nat.Defs

/-!
# Meaning of runtime code

The machine runs the statements of a block one after the other. Each of them moves values between
variables, or between a variable and a part of an object. A variable is in the frame of the
function, or else it is the global that it is linked with.

The machine does not look at types: a statement whose operands do not fit is stuck.

## Main definitions

* `Flo.Constant.value?` — the value that the bits of a constant stand for
* `Flo.Machine` — the frame of a function, and the memory
* `Flo.Object.exec`, `Flo.Object.execAll` — the effect of statements

## Main results

* `Flo.Object.execAll_append` — code that follows other code starts where that ends
-/

namespace GimpleLowering.Flo

/-! ### Constants -/

/-- A number of the given number of bits in two's complement. -/
def twosComplement (bits value : Nat) : Int :=
  if value < 2 ^ (bits - 1) then value else value - 2 ^ bits

/-- The value that the bits of a constant stand for. There is one for scalars, and for handles
there is null. -/
def Constant.value? (c : Constant) : Outcome Value :=
  match c.typ with
  | .bool => .ok (.truth (c.value ≠ 0))
  | .signed32 => .ok (.integer (twosComplement 32 c.value))
  | .signed64 => .ok (.integer (twosComplement 64 c.value))
  | .double => .ok (.real ⟨UInt64.ofNat c.value⟩)
  | .handle _ _ => if c.value = 0 then .ok .null else .error .stuck
  | .array _ | .struct _ | .unspecified => .error .stuck

/-! ### Machines -/

/-- The state of the machine inside of a function. -/
structure Machine where
  frame : Nat → Value
  memory : Memory

namespace Object

variable (o : Object)

/-- Where the storage of a variable is. -/
def linkage? (v : Nat) : Option Linkage := (o.vars.get? v).map Variable.linkage

/-- The value of a variable. -/
def get (M : Machine) (v : Nat) : Outcome Value :=
  match o.linkage? v with
  | some .frame => .ok (M.frame v)
  | some (.external symbol) => .ok (M.memory.globals symbol)
  | some .unspecified | none => .error .stuck

/-- Changes a variable. -/
def set (M : Machine) (v : Nat) (value : Value) : Outcome Machine :=
  match o.linkage? v with
  | some .frame => .ok { M with frame := Function.update M.frame v value }
  | some (.external symbol) => .ok { M with memory := M.memory.setGlobal symbol value }
  | some .unspecified | none => .error .stuck

/-- Changes variables, in their order. There has to be a value for each of them. -/
def setAll (M : Machine) (vs : List Nat) (values : List Value) : Outcome Machine :=
  if vs.length = values.length then (vs.zip values).foldlM (fun M p => o.set M p.1 p.2) M
  else .error .stuck

/-- The part of an object that a member is. -/
def access (M : Machine) : Member → Outcome Access
  | .whole => .ok .whole
  | .field i => .ok (.field i)
  | .element index => return .element (← o.get M index)

theorem access_element {o : Object} {M : Machine} {i : Nat} {index : Value}
    (h : o.get M i = .ok index) : o.access M (.element i) = .ok (.element index) := by
  rw [access, h]
  rfl

/-! ### Statements -/

variable (R : Runtime)

/-- The effect of a statement. -/
def exec (M : Machine) : Statement → Outcome Machine
  | .assignConst target value _ => do o.set M target (← value.value?)
  | .assign target source _ => do o.set M target (← o.get M source)
  | .call (.builtin name) input outputs _ => do
    o.setAll M outputs [R.routine name (← input.mapM (o.get M))]
  | .call (.external symbol) input outputs _ => do
    let (results, memory) ← R.function symbol (← input.mapM (o.get M)) M.memory
    o.setAll { M with memory } outputs results
  | .call (.here _) _ _ _ | .call .unspecified _ _ _ => .error .stuck
  | .construct target initializer _ => do
    o.set M target (.record (← initializer.mapM (o.get M)))
  | .destructure whole parts _ => do
    match ← o.get M whole with
    | .record values => o.setAll M parts values
    | _ => .error .stuck
  | .load handle member target _ => do
    let handle ← o.get M handle
    o.set M target (← M.memory.load handle (← o.access M member))
  | .store handle member value _ => do
    let handle ← o.get M handle
    let access ← o.access M member
    return { M with memory := ← M.memory.store handle access (← o.get M value) }
  | .poisoned _ => .error .stuck

/-- The effect of statements that run one after the other. -/
def execAll (M : Machine) : List Statement → Outcome Machine
  | [] => .ok M
  | s :: rest => do execAll (← o.exec R M s) rest

/-- The effect of the statements of a block, all of which have to exist. -/
def execBlock (M : Machine) (b : Block) : Outcome Machine :=
  match b.statements.mapM o.statements.get? with
  | some code => o.execAll R M code
  | none => .error .stuck

variable {o R} {M M' : Machine}

@[simp] theorem execAll_nil : o.execAll R M [] = .ok M := rfl

/-- Code that follows other code starts where that ends. -/
theorem execAll_append (code code' : List Statement) :
    o.execAll R M (code ++ code') = (o.execAll R M code >>= fun M' => o.execAll R M' code') := by
  induction code generalizing M with
  | nil => rfl
  | cons s rest ih =>
    simp only [List.cons_append, execAll, bind_assoc, ih]

theorem execAll_singleton (s : Statement) : o.execAll R M [s] = o.exec R M s :=
  bind_pure _

/-- Code that starts with a statement that does not fail. -/
theorem execAll_cons {s : Statement} (h : o.execAll R M [s] = .ok M') (rest : List Statement) :
    o.execAll R M (s :: rest) = o.execAll R M' rest := by
  rw [← List.singleton_append, execAll_append, h]
  rfl

theorem setAll_singleton (v : Nat) (value : Value) : o.setAll M [v] [value] = o.set M v value := by
  change (o.set M v value >>= pure) = _
  exact bind_pure _

theorem execAll_routine {input : List Nat} {values : List Value}
    (h : input.mapM (o.get M) = .ok values) (name : String) (v : Nat) (note : Note) :
    o.execAll R M [.call (.builtin name) input [v] note] = o.set M v (R.routine name values) := by
  rw [execAll_singleton, exec, h]
  exact setAll_singleton _ _

/-- The effect of a block is that of its code. -/
theorem execBlock_eq {b : Block} {code : List Statement}
    (h : b.statements.map o.statements.get? = code.map some) :
    o.execBlock R M b = o.execAll R M code := by
  have hmap : b.statements.mapM o.statements.get? = some code := by
    generalize b.statements = ids at h
    induction ids generalizing code with
    | nil =>
      obtain rfl : code = [] := by simpa using h.symm
      rfl
    | cons id ids ih =>
      cases code with
      | nil => cases h
      | cons s code =>
        simp only [List.map_cons, List.cons.injEq] at h
        rw [List.mapM_cons, h.1, ih h.2]
        rfl
  rw [execBlock, hmap]

/-! ### Variables -/

theorem get_frame {v : Nat} (h : o.linkage? v = some .frame) : o.get M v = .ok (M.frame v) := by
  simp [get, h]

theorem set_frame {v : Nat} (h : o.linkage? v = some .frame) (value : Value) :
    o.set M v value = .ok { M with frame := Function.update M.frame v value } := by
  simp [set, h]

theorem get_external {v : Nat} {symbol : String} (h : o.linkage? v = some (.external symbol)) :
    o.get M v = .ok (M.memory.globals symbol) := by
  simp [get, h]

theorem set_external {v : Nat} {symbol : String} (h : o.linkage? v = some (.external symbol))
    (value : Value) :
    o.set M v value = .ok { M with memory := M.memory.setGlobal symbol value } := by
  simp [set, h]

end Object

end GimpleLowering.Flo
