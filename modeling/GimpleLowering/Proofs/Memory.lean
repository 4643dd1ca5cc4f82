import GimpleLowering.Flo.Entry
import Mathlib.Logic.Function.Basic

/-!
# Values and memory

The intermediate code and the runtime compute with the same values and on the same memory. A record
is a value and is copied. Whatever is shared is an object on the heap, and pointers, references and
arrays are references to objects: what a pointer points to is an object with one value in it, and
an array is an object with one value for each element.

An execution that does not end well has one of two faults. It *panics* where the runtime says so,
which is something that a program may rely on; it is *stuck* where nobody says what should happen,
as when a truth value is used as a pointer.

## Main definitions

* `Value`, `Memory` — values, and where they are kept
* `Outcome` — the result of an execution, or its fault
* `Memory.load`, `Memory.store` — the parts of objects
* `Runtime` — what is not known about the routines and functions that are called
* `Agrees` — two executions have the same outcome

## Main results

* `Agrees.bind` — executions that agree step by step agree
* `Memory.load_store`, `Memory.heap_store_of_ne` — a store changes one part of one object
-/

namespace GimpleLowering

/-! ### Values -/

/-- The value of a variable or of a part of an object. -/
inductive Value where
  | integer (value : Int)
  | truth (value : Bool)
  | real (value : Double)
  /-- The null pointer. -/
  | null
  /-- A pointer or a reference to an object, or an array. -/
  | reference (address : Nat)
  /-- A record, with a part for each field in declaration order. -/
  | record (parts : List Value)
  deriving Inhabited

/-- What a reference refers to. -/
inductive Contents where
  | single (value : Value)
  | elements (values : List Value)

/-- The memory that all functions share. -/
structure Memory where
  globals : String → Value
  heap : Nat → Option Contents

/-- Changes a global. -/
def Memory.setGlobal (m : Memory) (name : String) (value : Value) : Memory :=
  { m with globals := Function.update m.globals name value }

/-! ### Outcomes -/

/-- Why an execution ends early. -/
inductive Fault where
  /-- It aborts, with the memory as it is then. -/
  | panic (memory : Memory)
  /-- What is executed has no meaning. -/
  | stuck

/-- The result of an execution, unless there is none. -/
abbrev Outcome := Except Fault

/-- Two executions have the same outcome, up to a relation between their results. -/
inductive Agrees {α β : Type} (post : α → β → Prop) : Outcome α → Outcome β → Prop where
  | ok {a : α} {b : β} (h : post a b) : Agrees post (.ok a) (.ok b)
  | error (e : Fault) : Agrees post (.error e) (.error e)

namespace Agrees

variable {α β γ δ : Type} {post : α → β → Prop} {post' : γ → δ → Prop} {a : Outcome α}
  {b : Outcome β}

/-- Executions that agree step by step agree. -/
theorem bind {f : α → Outcome γ} {g : β → Outcome δ} (h : Agrees post a b)
    (hfg : ∀ x y, post x y → Agrees post' (f x) (g y)) : Agrees post' (a >>= f) (b >>= g) := by
  cases h with
  | ok h => exact hfg _ _ h
  | error e => exact .error e

theorem mono {post' : α → β → Prop} (h : Agrees post a b) (hp : ∀ x y, post x y → post' x y) :
    Agrees post' a b := by
  cases h with
  | ok h => exact .ok (hp _ _ h)
  | error e => exact .error e

theorem exists_of_ok {x : α} (h : Agrees post (.ok x) b) : ∃ y, b = .ok y ∧ post x y := by
  cases h with
  | ok h => exact ⟨_, rfl, h⟩

theorem eq_of_error {e : Fault} (h : Agrees post (.error e) b) : b = .error e := by
  cases h with
  | error => rfl

/-- An execution agrees with itself. -/
theorem refl (a : Outcome α) : Agrees Eq a a := by
  cases a with
  | ok a => exact .ok rfl
  | error e => exact .error e

end Agrees

/-! ### Objects -/

/-- The part of an object that is loaded or stored. -/
inductive Access where
  | whole
  /-- A part of a record, by position. -/
  | field (position : Nat)
  | element (index : Value)

namespace Contents

/-- The index is one of an array with the given number of elements. -/
def inBounds (index : Int) (length : Nat) : Bool := 0 ≤ index && index < length

/-- A part of the contents. An array panics if the index is out of bounds. -/
def get (m : Memory) : Contents → Access → Outcome Value
  | single value, .whole => .ok value
  | single (.record parts), .field i =>
    if h : i < parts.length then .ok parts[i] else .error .stuck
  | elements values, .element (.integer i) =>
    if inBounds i values.length then .ok (values.getD i.toNat .null) else .error (.panic m)
  | _, _ => .error .stuck

/-- The contents with another value in a part of them. -/
def set (m : Memory) : Contents → Access → Value → Outcome Contents
  | single _, .whole, value => .ok (.single value)
  | single (.record parts), .field i, value =>
    if i < parts.length then .ok (.single (.record (parts.set i value))) else .error .stuck
  | elements values, .element (.integer i), value =>
    if inBounds i values.length then .ok (.elements (values.set i.toNat value))
    else .error (.panic m)
  | _, _, _ => .error .stuck

variable {m : Memory} {contents contents' : Contents} {access : Access} {value : Value}

/-- What is got is all of the contents, a field of a record, or one of the elements. -/
theorem get_eq_ok (h : contents.get m access = .ok value) :
    (contents = .single value ∧ access = .whole) ∨
      (∃ parts i, contents = .single (.record parts) ∧ access = .field i ∧
        parts[i]? = some value) ∨
      ∃ values i, contents = .elements values ∧ access = .element (.integer i) ∧ value ∈ values := by
  unfold get at h
  split at h
  · cases h
    exact .inl ⟨rfl, rfl⟩
  · rename_i parts i
    split at h
    · cases h
      exact .inr (.inl ⟨parts, i, rfl, rfl, List.getElem?_eq_getElem ‹_›⟩)
    · cases h
  · rename_i values i
    split at h
    · rename_i hb
      cases h
      simp only [inBounds, Bool.and_eq_true, decide_eq_true_eq] at hb
      have hlt : i.toNat < values.length := by omega
      refine .inr (.inr ⟨values, i, rfl, rfl, ?_⟩)
      rw [List.getD_eq_getElem?_getD, List.getElem?_eq_getElem hlt]
      exact List.getElem_mem hlt
    · cases h
  · cases h

/-- What is set is all of the contents, a field of a record, or one of the elements. -/
theorem set_eq_ok (h : contents.set m access value = .ok contents') :
    (access = .whole ∧ contents' = .single value) ∨
      (∃ parts i, contents = .single (.record parts) ∧ access = .field i ∧
        contents' = .single (.record (parts.set i value))) ∨
      ∃ values i n, contents = .elements values ∧ access = .element (.integer i) ∧
        contents' = .elements (values.set n value) := by
  unfold set at h
  split at h
  · cases h
    exact .inl ⟨rfl, rfl⟩
  · rename_i parts i
    split at h
    · cases h
      exact .inr (.inl ⟨parts, i, rfl, rfl, rfl⟩)
    · cases h
  · rename_i values i
    split at h
    · cases h
      exact .inr (.inr ⟨values, i, i.toNat, rfl, rfl, rfl⟩)
    · cases h
  · cases h

end Contents

namespace Memory

/-- The object that a value refers to. Null refers to none. -/
def object (m : Memory) : Value → Outcome (Nat × Contents)
  | .null => .error (.panic m)
  | .reference address =>
    match m.heap address with
    | some contents => .ok (address, contents)
    | none => .error .stuck
  | _ => .error .stuck

/-- A part of the object that the value `handle` refers to. -/
def load (m : Memory) (handle : Value) (access : Access) : Outcome Value := do
  let (_, contents) ← m.object handle
  contents.get m access

/-- Changes a part of the object that the value `handle` refers to. -/
def store (m : Memory) (handle : Value) (access : Access) (value : Value) : Outcome Memory := do
  let (address, contents) ← m.object handle
  let contents ← contents.set m access value
  return { m with heap := Function.update m.heap address (some contents) }

variable {m m' : Memory} {handle value : Value} {access : Access}

/-- A value that refers to an object is its address. -/
theorem object_eq_ok {address : Nat} {contents : Contents}
    (h : m.object handle = .ok (address, contents)) :
    handle = .reference address ∧ m.heap address = some contents := by
  unfold object at h
  split at h
  · cases h
  · split at h
    · cases h
      exact ⟨rfl, ‹_›⟩
    · cases h
  · cases h

/-- What a store does: the object gets new contents, and nothing else changes. -/
theorem store_eq_ok (h : m.store handle access value = .ok m') :
    ∃ address contents contents', handle = .reference address ∧
      m.heap address = some contents ∧ contents.set m access value = .ok contents' ∧
      m' = { m with heap := Function.update m.heap address (some contents') } := by
  cases handle with
  | reference address =>
    cases ho : m.heap address with
    | none => simp [store, object, ho, bind, Except.bind] at h
    | some contents =>
      cases hs : contents.set m access value with
      | error e => simp [store, object, ho, hs, bind, Except.bind] at h
      | ok contents' =>
        refine ⟨address, contents, contents', rfl, ho, hs, ?_⟩
        simpa [store, object, ho, hs, bind, Except.bind, pure, Except.pure, eq_comm] using h
  | _ => simp [store, object, bind, Except.bind] at h

/-- A part that is stored can be loaded. -/
theorem load_store (h : m.store handle access value = .ok m') :
    m'.load handle access = .ok value := by
  obtain ⟨address, contents, contents', rfl, ho, hs, rfl⟩ := store_eq_ok h
  simp only [load, object, Function.update_self, bind, Except.bind]
  unfold Contents.set at hs
  split at hs
  · obtain rfl := Except.ok.inj hs
    rfl
  · split at hs
    · rename_i hlt
      obtain rfl := Except.ok.inj hs
      simp [Contents.get, hlt]
    · cases hs
  · split at hs
    · rename_i values i hb
      obtain rfl := Except.ok.inj hs
      have hlt : i.toNat < values.length := by
        simp only [Contents.inBounds, Bool.and_eq_true, decide_eq_true_eq] at hb
        omega
      simp [Contents.get, hb, List.getD_eq_getElem?_getD, hlt]
    · cases hs
  · cases hs

/-- A store changes no other object. -/
theorem heap_store_of_ne (h : m.store handle access value = .ok m') {other : Nat}
    (hne : handle ≠ .reference other) : m'.heap other = m.heap other := by
  obtain ⟨address, contents, contents', rfl, ho, hs, rfl⟩ := store_eq_ok h
  have hne : other ≠ address := fun heq => hne (heq ▸ rfl)
  simp [Function.update_of_ne hne]

end Memory

/-! ### The runtime -/

/-- What is not known about a program: the routines that compute its operations, and what the
functions that it calls do to the memory. A function can return any number of values. -/
structure Runtime where
  routine : String → List Value → Value
  function : String → List Value → Memory → Outcome (List Value × Memory)

end GimpleLowering
