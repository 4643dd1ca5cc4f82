import GimpleLowering.Proofs.Flo.Panics
import Mathlib.Data.List.Forall2

/-!
# References are not null

A reference of the source is a handle whose type says that it is not null. Statements that are well
typed and that never assign a null constant to one keep that so, in variables, in globals and in
whatever is on the heap: references only come from other references.

What is on the heap has types that no table knows. So there is a typing of the heap, which only
grows; code does not create objects, but functions outside of the unit can.

A number fits everywhere. It is what may be in a variable that nothing was written to, and whatever
goes through it is stuck, which is not what this is about.

## Main definitions

* `Flo.FitsIn` — a value that can be in a variable of a type
* `Flo.MemoryFits`, `Flo.Object.FrameFits`, `Flo.Object.MachineFits` — so do all values in a place
* `Flo.Environment.Respects` — a runtime whose routines and functions keep that so

## Main results

* `Flo.Object.get_fits`, `Flo.Object.setAll_fits` — variables
* `Flo.Memory.load_fits`, `Flo.Memory.store_fits` — parts of objects
* `Flo.WellTyped.exec_fits` — statements that are well typed
-/

namespace GimpleLowering.Flo

open Gimple Layout

/-! ### Values -/

/-- The types of what is on the heap: of the value in an object, or of the elements of an array. -/
abbrev HeapTyping := Nat → Option Ty

/-- Every object keeps its type. -/
def HeapTyping.Extends (T T' : HeapTyping) : Prop := ∀ a typ, T a = some typ → T' a = some typ

theorem HeapTyping.Extends.refl (T : HeapTyping) : T.Extends T := fun _ _ => id

theorem HeapTyping.Extends.trans {T T' T'' : HeapTyping} (h : T.Extends T') (h' : T'.Extends T'') :
    T.Extends T'' := fun a typ ha => h' a typ (h a typ ha)

/-- The value can be in a variable of the type: null only if the type admits it, and a reference
only if it refers to an object of the right type. -/
inductive FitsIn (t : TypeTables) (T : HeapTyping) : Value → Ty → Prop where
  | integer {i : Int} {typ : Ty} : FitsIn t T (.integer i) typ
  | truth {b : Bool} {typ : Ty} : FitsIn t T (.truth b) typ
  | real {d : Double} {typ : Ty} : FitsIn t T (.real d) typ
  | null {typ : Ty} (nullable : ∀ pointee, typ ≠ .handle pointee false) : FitsIn t T .null typ
  | handle {address : Nat} {pointee : Ty} {nullable : Bool} (refers : T address = some pointee) :
      FitsIn t T (.reference address) (.handle pointee nullable)
  | array {address id : Nat} {entry : ArrayType} (isArray : t.arrays.get? id = some entry)
      (refers : T address = some entry.memberType) : FitsIn t T (.reference address) (.array id)
  | record {parts : List Value} {id : Nat} {entry : StructType}
      (isStruct : t.structs.get? id = some entry)
      (part : ∀ {i : Nat} {value : Value} {typ : Ty}, parts[i]? = some value →
        entry.members[i]? = some typ → FitsIn t T value typ) :
      FitsIn t T (.record parts) (.struct id)

namespace FitsIn

variable {t : TypeTables} {T T' : HeapTyping} {value : Value} {typ : Ty}

theorem mono (h : FitsIn t T value typ) (hT : T.Extends T') : FitsIn t T' value typ := by
  induction h with
  | integer => exact .integer
  | truth => exact .truth
  | real => exact .real
  | null nullable => exact .null nullable
  | handle refers => exact .handle (hT _ _ refers)
  | array isArray refers => exact .array isArray (hT _ _ refers)
  | record isStruct _ ih => exact .record isStruct ih

/-- A reference is not null. -/
theorem ne_null {pointee : Ty} (h : FitsIn t T value (.handle pointee false)) : value ≠ .null := by
  rintro rfl
  cases h with
  | null nullable => exact nullable pointee rfl

theorem address {address : Nat} {pointee : Ty} {nullable : Bool}
    (h : FitsIn t T (.reference address) (.handle pointee nullable)) :
    T address = some pointee := by
  cases h with
  | handle refers => exact refers

theorem element {address id : Nat} {entry : ArrayType}
    (h : FitsIn t T (.reference address) (.array id)) (he : t.arrays.get? id = some entry) :
    T address = some entry.memberType := by
  cases h with
  | array isArray refers =>
    obtain rfl := Option.some.inj (he.symm.trans isArray)
    exact refers

theorem part {parts : List Value} {id i : Nat} {entry : StructType}
    (h : FitsIn t T (.record parts) (.struct id)) (he : t.structs.get? id = some entry)
    (hv : parts[i]? = some value) (ht : entry.members[i]? = some typ) : FitsIn t T value typ := by
  cases h with
  | record isStruct part =>
    obtain rfl := Option.some.inj (he.symm.trans isStruct)
    exact part hv ht

/-- A record with another value in one of its fields. -/
theorem set {parts : List Value} {id i : Nat} {entry : StructType}
    (h : FitsIn t T (.record parts) (.struct id)) (he : t.structs.get? id = some entry)
    (ht : entry.members[i]? = some typ) (hv : FitsIn t T value typ) :
    FitsIn t T (.record (parts.set i value)) (.struct id) := by
  refine .record he fun {j v typ'} hj htyp => ?_
  rw [List.getElem?_set] at hj
  split at hj
  · rename_i heq
    subst heq
    obtain rfl := Option.some.inj (ht.symm.trans htyp)
    split at hj
    · exact Option.some.inj hj ▸ hv
    · cases hj
  · exact h.part he hj htyp

/-- A record is made of one value for each field. -/
theorem of_forall₂ {parts : List Value} {id : Nat} {entry : StructType}
    (he : t.structs.get? id = some entry) (h : List.Forall₂ (FitsIn t T) parts entry.members) :
    FitsIn t T (.record parts) (.struct id) := by
  refine .record he fun {i v typ} hv htyp => ?_
  obtain ⟨hi, rfl⟩ := List.getElem?_eq_some_iff.1 hv
  obtain ⟨hi', rfl⟩ := List.getElem?_eq_some_iff.1 htyp
  exact (List.forall₂_iff_get.1 h).2 i hi hi'

/-- The value of a constant that is not a null reference. -/
theorem of_value? {c : Constant} (h : c.value? = .ok value)
    (hc : ∀ pointee, c.typ ≠ .handle pointee false) : FitsIn t T value c.typ := by
  unfold Constant.value? at h
  split at h
  · cases h
    exact .truth
  · cases h
    exact .integer
  · cases h
    exact .integer
  · cases h
    exact .real
  · split at h
    · cases h
      exact .null hc
    · cases h
  all_goals cases h

end FitsIn

/-! ### Places -/

section

variable (x : UnitIndex) (r : Registry)

/-- All globals and all objects on the heap have values that fit. -/
structure MemoryFits (T : HeapTyping) (m : Memory) : Prop where
  global : ∀ {name : String} {ty : Gimple.Ty} {typ : Ty}, x.global? name = some ty →
    HasValueType x r ty typ → FitsIn r.tables T (m.globals name) typ
  single : ∀ {a : Nat} {typ : Ty} {value : Value}, T a = some typ →
    m.heap a = some (.single value) → FitsIn r.tables T value typ
  elements : ∀ {a : Nat} {typ : Ty} {values : List Value}, T a = some typ →
    m.heap a = some (.elements values) → ∀ value ∈ values, FitsIn r.tables T value typ

/-- All variables in the frame have values that fit. -/
def Object.FrameFits (o : Object) (T : HeapTyping) (frame : Nat → Value) : Prop :=
  ∀ v row, o.vars.get? v = some row → row.linkage = .frame → FitsIn r.tables T (frame v) row.typ

/-- Everything that the function sees fits. -/
structure Object.MachineFits (o : Object) (T : HeapTyping) (M : Machine) : Prop where
  frame : o.FrameFits r T M.frame
  memory : MemoryFits x r T M.memory

/-- A variable that is linked with a global has its type. -/
def Object.LinksGlobals (o : Object) : Prop :=
  ∀ v row symbol, o.vars.get? v = some row → row.linkage = .external symbol →
    ∃ ty, x.global? symbol = some ty ∧ HasValueType x r ty row.typ

/-- The values can be passed for parameters of the types, where the runtime has any. -/
def ArgumentsFit (T : HeapTyping) (values : List Value) (tys : List Gimple.Ty) : Prop :=
  List.Forall₂ (fun value ty => ∀ typ, HasValueType x r ty typ → FitsIn r.tables T value typ)
    values tys

/-- What the runtime does keeps values in their types: the routines for the operators return values
that fit if they are given some, functions outside of the unit do, and they can create objects; and
what is in a variable before anything is written to it fits as well. -/
structure Environment.Respects (ps : Polyfills) (E : Environment) : Prop where
  routine : ∀ {T : HeapTyping} {op : Operator} {name : String} {types : List Ty} {result : Ty}
    {values : List Value}, ps.forOperation? op types result = some name →
      List.Forall₂ (FitsIn r.tables T) values types →
        FitsIn r.tables T (E.runtime.routine name values) result
  function : ∀ {T : HeapTyping} {callee : Gimple.Signature} {values results : List Value}
    {m m' : Memory}, x.function? callee.name = some callee →
      ArgumentsFit x r T values callee.parameterTypes → MemoryFits x r T m →
      E.runtime.function callee.name values m = .ok (results, m') →
      ∃ T', T.Extends T' ∧ MemoryFits x r T' m' ∧ ∀ ty typ, callee.returnType = some ty →
          HasValueType x r ty typ → ∀ value ∈ results, FitsIn r.tables T' value typ
  fresh : ∀ {T : HeapTyping} {o : Object} {frame : Nat → Value}, E.fresh o frame →
    o.FrameFits r T frame

end

variable {x : UnitIndex} {r : Registry} {ps : Polyfills} {o : Object} {T T' : HeapTyping}
  {M M' : Machine}

theorem Object.FrameFits.mono {frame : Nat → Value} (h : o.FrameFits r T frame)
    (hT : T.Extends T') : o.FrameFits r T' frame :=
  fun v row hv hl => (h v row hv hl).mono hT

/-- An object gets other contents that fit, and nothing else changes. -/
theorem MemoryFits.update {m : Memory} (h : MemoryFits x r T m) {address : Nat}
    {contents : Contents}
    (single : ∀ {typ : Ty} {value : Value}, T address = some typ → contents = .single value →
      FitsIn r.tables T value typ)
    (elements : ∀ {typ : Ty} {values : List Value}, T address = some typ →
      contents = .elements values → ∀ value ∈ values, FitsIn r.tables T value typ) :
    MemoryFits x r T { m with heap := Function.update m.heap address (some contents) } := by
  refine ⟨h.global, fun {a typ value} hT ha => ?_, fun {a typ values} hT ha => ?_⟩
  · change Function.update m.heap address (some contents) a = _ at ha
    by_cases he : a = address
    · subst he
      rw [Function.update_self, Option.some.injEq] at ha
      exact single hT ha
    · rw [Function.update_of_ne he] at ha
      exact h.single hT ha
  · change Function.update m.heap address (some contents) a = _ at ha
    by_cases he : a = address
    · subst he
      rw [Function.update_self, Option.some.injEq] at ha
      exact elements hT ha
    · rw [Function.update_of_ne he] at ha
      exact h.elements hT ha

/-! ### Variables -/

namespace Object

/-- There is a value for each variable that is set. -/
theorem length_of_setAll {vs : List Nat} {values : List Value}
    (h : o.setAll M vs values = .ok M') : vs.length = values.length := by
  by_contra hne
  rw [setAll, if_neg hne] at h
  cases h

variable (hlinks : o.LinksGlobals x r)

include hlinks

/-- A variable has a value of its type. -/
theorem get_fits (h : o.MachineFits x r T M) {v : Nat} {typ : Ty} {value : Value}
    (hv : o.HasType v typ) (hget : o.get M v = .ok value) : FitsIn r.tables T value typ := by
  obtain ⟨row, hrow, rfl⟩ := hv
  unfold get linkage? at hget
  rw [hrow, Option.map_some] at hget
  cases hl : row.linkage with
  | frame =>
    rw [hl] at hget
    cases hget
    exact h.frame v row hrow hl
  | external symbol =>
    rw [hl] at hget
    cases hget
    obtain ⟨ty, hty, htyp⟩ := hlinks v row symbol hrow hl
    exact h.memory.global hty htyp
  | unspecified =>
    rw [hl] at hget
    cases hget

/-- A variable takes a value of its type. -/
theorem set_fits (h : o.MachineFits x r T M) {v : Nat} {typ : Ty} {value : Value}
    (hv : o.HasType v typ) (hvalue : FitsIn r.tables T value typ)
    (hset : o.set M v value = .ok M') : o.MachineFits x r T M' := by
  obtain ⟨row, hrow, rfl⟩ := hv
  unfold set linkage? at hset
  rw [hrow, Option.map_some] at hset
  cases hl : row.linkage with
  | frame =>
    rw [hl] at hset
    cases hset
    refine ⟨fun u row' hu hl' => ?_, h.memory⟩
    change FitsIn _ _ (Function.update M.frame v value u) _
    by_cases he : u = v
    · subst he
      obtain rfl := Option.some.inj (hrow.symm.trans hu)
      rw [Function.update_self]
      exact hvalue
    · rw [Function.update_of_ne he]
      exact h.frame u row' hu hl'
  | external symbol =>
    rw [hl] at hset
    cases hset
    obtain ⟨ty, hty, htyp⟩ := hlinks v row symbol hrow hl
    refine ⟨h.frame, fun {name ty' typ'} hty' htyp' => ?_, h.memory.single, h.memory.elements⟩
    change FitsIn _ _ (Function.update M.memory.globals symbol value name) _
    by_cases he : name = symbol
    · subst he
      obtain rfl := Option.some.inj (hty.symm.trans hty')
      obtain rfl := htyp.unique htyp'
      rw [Function.update_self]
      exact hvalue
    · rw [Function.update_of_ne he]
      exact h.memory.global hty' htyp'
  | unspecified =>
    rw [hl] at hset
    cases hset

/-- Several variables have values of their types. -/
theorem getAll_fits (h : o.MachineFits x r T M) {vs : List Nat} {types : List Ty}
    {values : List Value} (hvs : List.Forall₂ o.HasType vs types)
    (hget : vs.mapM (o.get M) = .ok values) : List.Forall₂ (FitsIn r.tables T) values types := by
  induction hvs generalizing values with
  | nil =>
    cases hget
    exact .nil
  | cons hv _ ih =>
    rw [List.mapM_cons] at hget
    obtain ⟨value, hvalue, hget⟩ := Except.of_bind hget
    obtain ⟨others, hothers, hget⟩ := Except.of_bind hget
    cases hget
    exact .cons (get_fits hlinks h hv hvalue) (ih hothers)

/-- Several variables take values of their types. -/
theorem setAll_fits (h : o.MachineFits x r T M) {vs : List Nat} {types : List Ty}
    {values : List Value} (hvs : List.Forall₂ o.HasType vs types)
    (hvalues : List.Forall₂ (FitsIn r.tables T) values types)
    (hset : o.setAll M vs values = .ok M') : o.MachineFits x r T M' := by
  rw [setAll, if_pos (length_of_setAll hset)] at hset
  induction hvs generalizing values M with
  | nil =>
    cases hset
    exact h
  | cons hv _ ih =>
    cases hvalues with
    | cons hvalue hvalues =>
      rw [List.zip_cons_cons, List.foldlM_cons] at hset
      obtain ⟨M₁, hM₁, hset⟩ := Except.of_bind hset
      exact ih (set_fits hlinks h hv hvalue hM₁) hvalues hset

/-! ### Parts of objects -/

/-- What is loaded from a part of an object has the type of the part. -/
theorem load_fits (htables : o.types = r.tables) (h : o.MachineFits x r T M) {handle : Nat}
    {member : Member} {typ : Ty} (haccesses : o.Accesses handle member typ) {value loaded : Value}
    {access : Access} (hget : o.get M handle = .ok value)
    (haccess : o.access M member = .ok access) (hload : M.memory.load value access = .ok loaded) :
    FitsIn r.tables T loaded typ := by
  obtain ⟨⟨address, contents⟩, hobject, hpart⟩ := Except.of_bind hload
  replace hpart : contents.get M.memory access = .ok loaded := hpart
  obtain ⟨rfl, hcontents⟩ := Memory.object_eq_ok hobject
  cases haccesses with
  | whole hasHandle =>
    cases haccess
    have hT := (get_fits hlinks h hasHandle hget).address
    obtain ⟨rfl, -⟩ | ⟨_, _, -, ⟨⟩, -⟩ | ⟨_, _, -, ⟨⟩, -⟩ := Contents.get_eq_ok hpart
    exact h.memory.single hT hcontents
  | field hasHandle hasMembers isMember =>
    cases haccess
    obtain ⟨entry, he, -, rfl⟩ := hasMembers
    rw [htables] at he
    have hT := (get_fits hlinks h hasHandle hget).address
    obtain ⟨-, ⟨⟩⟩ | ⟨parts, i, rfl, hfield, hvalue⟩ | ⟨_, _, -, ⟨⟩, -⟩ :=
      Contents.get_eq_ok hpart
    cases hfield
    exact (h.memory.single hT hcontents).part he hvalue isMember
  | element hasArray isArray usable hasIndex isInteger =>
    obtain ⟨index, -, haccess⟩ := Except.of_bind haccess
    cases haccess
    rw [htables] at isArray
    have hT := (get_fits hlinks h hasArray hget).element isArray
    obtain ⟨-, ⟨⟩⟩ | ⟨_, _, -, ⟨⟩, -⟩ | ⟨values, i, rfl, -, hmem⟩ := Contents.get_eq_ok hpart
    exact h.memory.elements hT hcontents _ hmem

/-- A part of an object takes a value of its type. -/
theorem store_fits (htables : o.types = r.tables) (h : o.MachineFits x r T M) {handle : Nat}
    {member : Member} {typ : Ty} (haccesses : o.Accesses handle member typ) {value stored : Value}
    {access : Access} (hget : o.get M handle = .ok value)
    (haccess : o.access M member = .ok access) (hstored : FitsIn r.tables T stored typ)
    {m : Memory} (hstore : M.memory.store value access stored = .ok m) : MemoryFits x r T m := by
  obtain ⟨address, contents, contents', rfl, hcontents, hset, rfl⟩ := Memory.store_eq_ok hstore
  cases haccesses with
  | whole hasHandle =>
    cases haccess
    have hT := (get_fits hlinks h hasHandle hget).address
    obtain ⟨-, rfl⟩ | ⟨_, _, -, ⟨⟩, -⟩ | ⟨_, _, _, -, ⟨⟩, -⟩ := Contents.set_eq_ok hset
    refine h.memory.update (fun hT' hv => ?_) nofun
    cases hv
    exact Option.some.inj (hT.symm.trans hT') ▸ hstored
  | field hasHandle hasMembers isMember =>
    cases haccess
    obtain ⟨entry, he, -, rfl⟩ := hasMembers
    rw [htables] at he
    have hT := (get_fits hlinks h hasHandle hget).address
    obtain ⟨⟨⟩, -⟩ | ⟨parts, i, rfl, hfield, rfl⟩ | ⟨_, _, _, -, ⟨⟩, -⟩ := Contents.set_eq_ok hset
    cases hfield
    refine h.memory.update (fun hT' hv => ?_) nofun
    cases hv
    obtain rfl := Option.some.inj (hT.symm.trans hT')
    exact (h.memory.single hT hcontents).set he isMember hstored
  | element hasArray isArray usable hasIndex isInteger =>
    obtain ⟨index, -, haccess⟩ := Except.of_bind haccess
    cases haccess
    rw [htables] at isArray
    have hT := (get_fits hlinks h hasArray hget).element isArray
    obtain ⟨⟨⟩, -⟩ | ⟨_, _, -, ⟨⟩, -⟩ | ⟨values, i, n, rfl, -, rfl⟩ := Contents.set_eq_ok hset
    refine h.memory.update nofun fun hT' hv v hmem => ?_
    cases hv
    obtain rfl := Option.some.inj (hT.symm.trans hT')
    rcases List.mem_or_eq_of_mem_set hmem with hmem | rfl
    · exact h.memory.elements hT hcontents v hmem
    · exact hstored

/-! ### Calls -/

/-- What is passed to a function has the types of its parameters. -/
theorem passes_fit (h : o.MachineFits x r T M) {input : List Nat} {arguments : List Expr}
    {tys : List Gimple.Ty} {values : List Value} (hinput : Passes x r o input arguments tys)
    (hget : input.mapM (o.get M) = .ok values) :
    ArgumentsFit x r T values tys := by
  induction hinput generalizing values with
  | nil =>
    cases hget
    exact .nil
  | typed hasValueType hasType _ ih =>
    rw [List.mapM_cons] at hget
    obtain ⟨value, hvalue, hget⟩ := Except.of_bind hget
    obtain ⟨others, hothers, hget⟩ := Except.of_bind hget
    cases hget
    refine .cons (fun typ' htyp' => ?_) (ih hothers)
    exact hasValueType.unique htyp' ▸ get_fits hlinks h hasType hvalue
  | rounded unsupported hasType _ ih =>
    rw [List.mapM_cons] at hget
    obtain ⟨value, hvalue, hget⟩ := Except.of_bind hget
    obtain ⟨others, hothers, hget⟩ := Except.of_bind hget
    cases hget
    refine .cons (fun typ' htyp' => ?_) (ih hothers)
    exact htyp'.eq_double ▸ get_fits hlinks h hasType hvalue

/-- What takes the results of a function has the type of the results. -/
theorem takes_fit (h : o.MachineFits x r T M) {returnType : Option Gimple.Ty} {outputs : List Nat}
    {results : List Value} (houtputs : Takes x r o returnType outputs)
    (hresults : ∀ ty typ, returnType = some ty → HasValueType x r ty typ →
      ∀ value ∈ results, FitsIn r.tables T value typ)
    (hset : o.setAll M outputs results = .ok M') : o.MachineFits x r T M' := by
  have hlen : outputs.length = results.length := length_of_setAll hset
  cases returnType with
  | none =>
    obtain rfl : outputs = [] := houtputs
    obtain rfl := List.length_eq_zero_iff.1 hlen.symm
    exact setAll_fits hlinks h .nil .nil hset
  | some ty =>
    obtain ⟨v, typ, rfl, htyp, hv⟩ := houtputs
    obtain ⟨value, rfl⟩ := List.length_eq_one_iff.1 hlen.symm
    have hvalue := hresults ty typ rfl htyp value (List.mem_singleton_self value)
    exact setAll_fits hlinks h (.cons hv .nil) (.cons hvalue .nil) hset

end Object

/-! ### Statements -/

/-- A statement that moves values keeps everything in its type, if it assigns no null reference. -/
theorem Object.Moves.exec_fits (hlinks : o.LinksGlobals x r) (htables : o.types = r.tables)
    {R : Runtime} {s : Statement} (hs : o.Moves s)
    (hconstant : ∀ {c : Constant}, s.constant? = some c → ∀ typ, c.typ ≠ .handle typ false)
    (h : o.MachineFits x r T M) (hexec : o.exec R M s = .ok M') : o.MachineFits x r T M' := by
  cases hs with
  | assignConst hasType =>
    obtain ⟨value, hvalue, hset⟩ := Except.of_bind hexec
    have hfits : FitsIn r.tables T value _ := .of_value? hvalue (hconstant rfl)
    exact set_fits hlinks h hasType hfits hset
  | assign hasTarget hasSource =>
    obtain ⟨value, hvalue, hset⟩ := Except.of_bind hexec
    exact set_fits hlinks h hasTarget (get_fits hlinks h hasSource hvalue) hset
  | construct hasTarget hasMembers hasParts =>
    obtain ⟨values, hvalues, hset⟩ := Except.of_bind hexec
    obtain ⟨entry, he, -, rfl⟩ := hasMembers
    have hfits := FitsIn.of_forall₂ (htables ▸ he) (getAll_fits hlinks h hasParts hvalues)
    exact set_fits hlinks h hasTarget hfits hset
  | destructure hasWhole hasMembers hasParts =>
    obtain ⟨value, hvalue, hset⟩ := Except.of_bind hexec
    obtain ⟨entry, he, -, rfl⟩ := hasMembers
    have hwhole := get_fits hlinks h hasWhole hvalue
    cases value with
    | record values =>
      have hlen : _ = values.length := length_of_setAll hset
      have hfits : List.Forall₂ (FitsIn r.tables T) values entry.members := by
        refine List.forall₂_iff_get.2 ⟨hlen.symm.trans hasParts.length_eq, fun i hi hi' => ?_⟩
        exact hwhole.part (htables ▸ he) (List.getElem?_eq_getElem hi)
          (List.getElem?_eq_getElem hi')
      exact setAll_fits hlinks h hasParts hfits hset
    | _ => cases hset
  | load accesses hasTarget =>
    obtain ⟨value, hvalue, hexec⟩ := Except.of_bind hexec
    obtain ⟨access, haccess, hexec⟩ := Except.of_bind hexec
    obtain ⟨loaded, hload, hset⟩ := Except.of_bind hexec
    have hfits := load_fits hlinks htables h accesses hvalue haccess hload
    exact set_fits hlinks h hasTarget hfits hset
  | store accesses hasValue =>
    obtain ⟨value, hvalue, hexec⟩ := Except.of_bind hexec
    obtain ⟨access, haccess, hexec⟩ := Except.of_bind hexec
    obtain ⟨stored, hstored, hexec⟩ := Except.of_bind hexec
    obtain ⟨m, hstore, hexec⟩ := Except.of_bind hexec
    cases hexec
    have hfits := get_fits hlinks h hasValue hstored
    exact ⟨h.frame, store_fits hlinks htables h accesses hvalue haccess hfits hstore⟩

/-- So does a call that is asked for. There can be more objects on the heap afterwards. -/
theorem Object.Invokes.exec_fits (hlinks : o.LinksGlobals x r) {E : Environment}
    (hE : E.Respects x r ps) {i : Invocation} {s : Statement} (hs : o.Invokes x r ps i s)
    (h : o.MachineFits x r T M) (hexec : o.exec E.runtime M s = .ok M') :
    ∃ T', T.Extends T' ∧ o.MachineFits x r T' M' := by
  cases hs with
  | routine operandTypes resultType isRoutine hasInput hasOutput =>
    obtain ⟨values, hvalues, hset⟩ := Except.of_bind hexec
    have hfits := hE.routine isRoutine (getAll_fits hlinks h hasInput hvalues)
    exact ⟨T, .refl T, setAll_fits hlinks h (.cons hasOutput .nil) (.cons hfits .nil) hset⟩
  | external isCallee passes takes =>
    obtain ⟨values, hvalues, hexec⟩ := Except.of_bind hexec
    obtain ⟨⟨results, m⟩, hcall, hset⟩ := Except.of_bind hexec
    have hcallee := UnitIndex.name_of_function? isCallee ▸ isCallee
    obtain ⟨T', hT, hm, hresults⟩ :=
      hE.function hcallee (passes_fit hlinks h passes hvalues) h.memory hcall
    have h' : o.MachineFits x r T' { M with memory := m } := ⟨h.frame.mono hT, hm⟩
    exact ⟨T', hT, takes_fit hlinks h' takes hresults hset⟩

/-- A statement that is well typed keeps everything in its type, if it assigns no null reference. -/
theorem WellTyped.exec_fits (hlinks : o.LinksGlobals x r) (htables : o.types = r.tables)
    {E : Environment} (hE : E.Respects x r ps) {s : Statement} (hs : WellTyped x r ps o s)
    (hconstant : ∀ {c : Constant}, s.constant? = some c → ∀ typ, c.typ ≠ .handle typ false)
    (h : o.MachineFits x r T M) (hexec : o.exec E.runtime M s = .ok M') :
    ∃ T', T.Extends T' ∧ o.MachineFits x r T' M' := by
  obtain hmoves | ⟨i, hinvokes⟩ := hs
  · exact ⟨T, .refl T, hmoves.exec_fits hlinks htables hconstant h hexec⟩
  · exact hinvokes.exec_fits hlinks hE h hexec

end GimpleLowering.Flo
