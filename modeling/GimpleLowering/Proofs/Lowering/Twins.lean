import GimpleLowering.Lowering.Function
import GimpleLowering.Proofs.Flo.Twins
import GimpleLowering.Proofs.Layout.Likeness
import GimpleLowering.Proofs.Lowering.Scope

/-!
# Lowering from different types

A function is lowered from the types that other functions have left behind. Two states are twins if
they are equal but for the registered types, and for the ids that these have handed out: the types
of variables and constants are alike, and nothing else differs. Lowering a part of a function from
twins ends the same way, whatever was registered on either side: well, with twins again, or with
errors of one kind.

## Main definitions

* `Lowering.State.Twins` — states that differ in what is registered
* `Lowering.lowering` — the comparison of twins

## Main results

* `Lowering.emit_inStep`, `callRoutine_inStep`, `declare_inStep`, `lookup_inStep` — what the lowering
  is made of ends the same way from twins
-/

namespace GimpleLowering

open Gimple Layout

namespace Lowering

open Build (Comparison)
open Build.Comparison (Same)

/-! ### Twins -/

/-- What is known of a variable that does not depend on the registered types. -/
def Var.known (v : Var) : String × Ty × Nat := (v.name, v.ty, v.id)

/-- Runtime types of two states that mean the same. -/
def State.Alike (s s' : State) : Flo.Ty → Flo.Ty → Prop := Layout.Alike s.types s'.types

/-- The states are equal but for the registered types and their ids. -/
structure State.Twins (x : UnitIndex) (s s' : State) : Prop where
  sound : s.types.Sound x fun _ => True
  sound' : s'.types.Sound x fun _ => True
  draft : s.draft.Twins (s.Alike s') s'.draft
  scope : s.scope.map Var.known = s'.scope.map Var.known
  blocks : s.blocks = s'.blocks
  exitBlock : s.exitBlock = s'.exitBlock
  pending : s.pending = s'.pending
  body : s.body = s'.body
  canPanic : s.canPanic = s'.canPanic

/-- Twins, with errors of the same kind. -/
def lowering (x : UnitIndex) : Comparison State Error where
  twins := State.Twins x
  grows s s' := s.types.Grows s'.types
  errors e e' := e.kind = e'.kind
  refl s := .refl s.types
  trans := .trans

variable {x : UnitIndex} {q q' : State} {cx : Context} {typ typ' : Flo.Ty}

theorem State.Alike.mono {s s' : State} (h : q.Alike q' typ typ') (hs : q.types.Grows s.types)
    (hs' : q'.types.Grows s'.types) : s.Alike s' typ typ' :=
  Layout.Alike.mono h hs hs'

/-! ### Steps -/

section

variable {α β : Type}

theorem onTypes_inStep {A : Registry → Registry → α → β → Prop} {m : LayoutM α} {m' : LayoutM β}
    (h : (comparison x).InStep q.types q'.types A m m') :
    (lowering x).InStep q q' (fun s s' => A s.types s'.types) (onTypes m) (onTypes m') := by
  refine h.zoom (C := lowering x) (fun s s' hs => ⟨hs.sound, hs.sound'⟩) (fun _ _ hg => hg)
    (fun e e' he => congrArg Error.kind he) (fun s s' t t' hs hg hg' ht => ?_)
    fun _ _ _ _ _ _ hA => hA
  refine ⟨hg, hg', ?_⟩
  exact { hs with
    sound := ht.1
    sound' := ht.2
    draft := hs.draft.imp fun _ _ ha => Layout.Alike.mono ha hg hg' }

theorem onDraft_inStep {R : α → β → Prop} {f : Flo.Draft → α × Flo.Draft}
    {f' : Flo.Draft → β × Flo.Draft}
    (h : ∀ (s s' : State) (d d' : Flo.Draft), q.types.Grows s.types → q'.types.Grows s'.types →
      d.Twins (s.Alike s') d' → R (f d).1 (f' d').1 ∧ (f d).2.Twins (s.Alike s') (f' d').2) :
    (lowering x).InStep q q' (fun _ _ => R) (onDraft f) (onDraft f') := by
  refine .step fun s s' hs hs' ht => ?_
  obtain ⟨hresult, hdraft⟩ := h s s' _ _ hs hs' ht.draft
  exact ⟨.refl _, .refl _, { ht with draft := hdraft }, hresult⟩

theorem onDraft_steady {f : Flo.Draft → α × Flo.Draft}
    (h : ∀ {A d d'}, d.Twins A d' → (f d).1 = (f d').1 ∧ (f d).2.Twins A (f d').2) :
    (lowering x).Steady (onDraft f) :=
  fun _ _ => onDraft_inStep fun _ _ _ _ _ _ hd => h hd

theorem check_steady (r : Except Error α) : (lowering x).Steady (check r) :=
  .ofExcept (fun _ => rfl) r

end

theorem markPanic_steady : (lowering x).Steady markPanic :=
  .step fun _ _ hs => ⟨.refl _, .refl _, { hs with canPanic := rfl }, rfl⟩

variable (cx)

theorem location_steady : (lowering x).Steady (location cx) :=
  onDraft_steady fun hd => hd.locate cx.line

theorem note_steady : (lowering x).Steady (note cx) :=
  (location_steady cx).bind fun _ => .pure _

theorem emit_inStep {stmt stmt' : Flo.Statement} (h : stmt.Twins (q.Alike q') stmt') :
    (lowering x).InStep q q' Same (emit stmt) (emit stmt') := by
  have hadd : (lowering x).InStep q q' Same (onDraft fun d => d.addStatement stmt)
      (onDraft fun d => d.addStatement stmt') :=
    onDraft_inStep fun s s' d d' hs hs' hd => hd.addStatement (h.imp fun _ _ ha => ha.mono hs hs')
  refine hadd.bind_same fun id => .step fun s s' _ _ ht => ⟨.refl _, .refl _, ?_, rfl⟩
  exact { ht with body := congrArg (· ++ [id]) ht.body }

/-- No types are in statements other than those that assign constants. -/
theorem emit_steady {stmt : Flo.Statement}
    (h : ∀ target value note, stmt ≠ .assignConst target value note) :
    (lowering x).Steady (emit stmt) :=
  fun _ _ => emit_inStep (.same h)

theorem temporary_inStep (h : q.Alike q' typ typ') :
    (lowering x).InStep q q' Same (temporary cx typ) (temporary cx typ') :=
  (location_steady cx q q').bind_same fun _ =>
    onDraft_inStep fun _ _ _ _ hs hs' hd => hd.addVariable (h.mono hs hs') _ _ _

theorem constant_inStep (h : q.Alike q' typ typ') (value : Nat) :
    (lowering x).InStep q q' Same (constant cx ⟨value, typ⟩) (constant cx ⟨value, typ'⟩) :=
  (temporary_inStep cx h).bind_same fun _ => (note_steady cx q q').bind_same fun _ =>
    (emit_inStep (.assignConst h)).bind_same fun _ => .pure fun _ _ _ _ _ => rfl

theorem constant_ofBool_steady (b : Bool) : (lowering x).Steady (constant cx (.ofBool b)) :=
  fun _ _ => constant_inStep cx .bool _

theorem constant_ofDouble_steady (d : Double) : (lowering x).Steady (constant cx (.ofDouble d)) :=
  fun _ _ => constant_inStep cx .double _

theorem assign_steady (target source : Nat) : (lowering x).Steady (assign cx target source) :=
  (note_steady cx).bind fun _ => emit_steady nofun

theorem call_steady (block : Flo.BlockRef) (input outputs : List Nat) :
    (lowering x).Steady (call cx block input outputs) :=
  (note_steady cx).bind fun _ => emit_steady nofun

theorem load_inStep (handle : Nat) (member : Flo.Member) (h : q.Alike q' typ typ') :
    (lowering x).InStep q q' Same (load cx handle member typ) (load cx handle member typ') := by
  refine (temporary_inStep cx h).bind_same fun _ => (note_steady cx q q').bind_same fun _ => ?_
  refine (emit_steady ?_ q q').bind_same fun _ => .pure fun _ _ _ _ _ => rfl
  nofun

theorem store_steady (handle : Nat) (member : Flo.Member) (value : Nat) :
    (lowering x).Steady (store cx handle member value) :=
  (note_steady cx).bind fun _ => emit_steady nofun

variable {cx}

theorem valueType_inStep (ty : Ty) :
    (lowering cx.index).InStep q q' State.Alike (valueType cx ty) (valueType cx ty) :=
  onTypes_inStep (Layout.valueType_inStep ty)

/-! ### Routines -/

theorem typeName?_eq (h : q.Alike q' typ typ') :
    Polyfill.typeName? typ = Polyfill.typeName? typ' := by
  cases h <;> rfl

/-- The routine for an operation does not depend on ids. -/
theorem forOperation?_eq (ps : Polyfills) (op : Operator) {types types' : List Flo.Ty}
    (h : List.Forall₂ (q.Alike q') types types') (hr : q.Alike q' typ typ') :
    ps.forOperation? op types typ = ps.forOperation? op types' typ' := by
  have hnames : types.mapM Polyfill.typeName? = types'.mapM Polyfill.typeName? := by
    induction h with
    | nil => rfl
    | cons head _ ih => rw [List.mapM_cons, List.mapM_cons, typeName?_eq head, ih]
  rw [Polyfills.forOperation?, Polyfills.forOperation?, hnames, typeName?_eq hr]

theorem callRoutine_inStep (op : Operator) (input : List Nat) {types types' : List Flo.Ty}
    (h : List.Forall₂ (q.Alike q') types types') (hr : q.Alike q' typ typ')
    (output : Option Nat) :
    (lowering x).InStep q q' Same (callRoutine cx op input types typ output)
      (callRoutine cx op input types' typ' output) := by
  unfold callRoutine
  rw [forOperation?_eq cx.polyfills op h hr]
  cases cx.polyfills.forOperation? op types' typ' with
  | none => exact .throw rfl
  | some routine =>
    have hcall : ∀ id, (lowering x).InStep q q' Same
        (do call cx (.builtin routine) input [id]; return id)
        (do call cx (.builtin routine) input [id]; return id) := fun id =>
      (call_steady cx _ _ _ q q').bind_same fun _ => .pure fun _ _ _ _ _ => rfl
    cases output with
    | some id => exact Comparison.InStep.bind_same (.pure fun _ _ _ _ _ => rfl) hcall
    | none => exact (temporary_inStep cx hr).bind_same hcall

/-! ### Variables and labels -/

theorem create_inStep (line : Option Nat) (name : String) (ty : Ty) (usage : Usage) :
    (lowering x).InStep q q' (fun _ _ v v' => v.known = v'.known) (create x line name ty usage)
      (create x line name ty usage) := by
  refine (onTypes_inStep (represent_inStep ty)).bind fun s s' rep rep' _ _ hrep => ?_
  refine (onDraft_steady (fun hd => hd.locate line) s s').bind_same fun location => ?_
  refine onDraft_inStep fun t t' d d' ht ht' hd => ?_
  have hrep : s.Alike s' rep.valueType rep'.valueType := hrep
  have hadd := hd.addVariable (hrep.mono ht ht')
    (if usage = .global then .external name else .frame)
    (if usage = .temporary then none else some name) location
  exact ⟨congrArg (name, ty, ·) hadd.1, hadd.2⟩

/-- Twins have the same names in scope. -/
theorem any_scope_eq {s s' : State} (h : s.scope.map Var.known = s'.scope.map Var.known)
    (name : String) : s.scope.any (fun v => v.name = name) = s'.scope.any fun v => v.name = name := by
  have hmap : ∀ vs : List Var, vs.any (fun v => v.name = name) =
      (vs.map Var.known).any fun k => k.1 = name := fun vs => by
    rw [List.any_map]
    rfl
  rw [hmap, hmap, h]

/-- A name stands for the same variable of twins. -/
theorem find?_scope_eq {s s' : State} (h : s.scope.map Var.known = s'.scope.map Var.known)
    (name : String) : (s.scope.find? fun v => v.name = name).map Var.known =
      (s'.scope.find? fun v => v.name = name).map Var.known := by
  have hmap : ∀ vs : List Var, (vs.find? fun v => v.name = name).map Var.known =
      (vs.map Var.known).find? fun k => k.1 = name := fun vs => by
    rw [List.find?_map]
    rfl
  rw [hmap, hmap, h]

theorem declare_inStep (function : String) (line : Option Nat) (name : String) (ty : Ty)
    (usage : Usage) :
    (lowering x).InStep q q' (fun _ _ v v' => v.known = v'.known)
      (declare x function line name ty usage) (declare x function line name ty usage) := by
  refine .get_bind fun s s' _ _ hs => ?_
  rw [any_scope_eq hs.scope]
  split
  · exact .throw rfl
  · refine (create_inStep line name ty usage).bind fun t t' v v' _ _ hv => ?_
    have hscope : (lowering x).InStep t t' Same
        (Build.step fun s => ((), { s with scope := s.scope ++ [v] }))
        (Build.step fun s => ((), { s with scope := s.scope ++ [v'] })) := by
      refine .step fun u u' _ _ hu => ⟨.refl _, .refl _, { hu with scope := ?_ }, rfl⟩
      rw [List.map_append, List.map_append, hu.scope, List.map_singleton, List.map_singleton, hv]
    exact hscope.bind_same fun _ => .pure fun _ _ _ _ _ => hv

theorem lookup_inStep (name : String) (e : Expr) :
    (lowering cx.index).InStep q q' (fun _ _ v v' => v.known = v'.known) (lookup cx name e)
      (lookup cx name e) := by
  have hcheck : ∀ {q q' : State} (v v' : Var), v.known = v'.known →
      (lowering cx.index).InStep q q' (fun _ _ v v' => v.known = v'.known)
        (do check (sameType e.text e.ty v.name v.ty); return v)
        (do check (sameType e.text e.ty v'.name v'.ty); return v') := fun {q q'} v v' hv => by
    simp only [Var.known, Prod.mk.injEq] at hv
    rw [hv.1, hv.2.1]
    refine (check_steady _ q q').bind_same fun _ => .pure fun _ _ _ _ _ => ?_
    simp only [Var.known, hv]
  rw [lookup_eq]
  refine .get_bind fun s s' _ _ hs => ?_
  have hfound := find?_scope_eq hs.scope name
  cases hv : s.scope.find? fun v => v.name = name with
  | some v =>
    rw [hv] at hfound
    obtain ⟨v', hv', hknown⟩ := Option.map_eq_some_iff.1 hfound.symm
    rw [hv']
    have hpure : (lowering cx.index).InStep s s' (fun _ _ v v' => v.known = v'.known)
        (pure v) (pure v') := .pure fun _ _ _ _ _ => hknown.symm
    exact hpure.bind fun _ _ v v' _ _ => hcheck v v'
  | none =>
    rw [hv] at hfound
    rw [Option.map_eq_none_iff.1 hfound.symm]
    cases cx.index.global? name with
    | none => exact Comparison.InStep.bind (.throw rfl) fun _ _ v v' _ _ => hcheck v v'
    | some ty => exact (declare_inStep _ _ _ _ _).bind fun _ _ v v' _ _ => hcheck v v'

theorem exitBlock_steady : (lowering x).Steady (exitBlock cx) := by
  refine .get_bind fun s s' hs => ?_
  rw [hs.exitBlock]
  cases s'.exitBlock with
  | some id => exact .pure fun _ _ _ _ _ => rfl
  | none =>
    refine (onDraft_steady (fun hd => hd.addBlock _) s s').bind_same fun id => ?_
    refine Comparison.InStep.bind_same (.step fun t t' _ _ ht => ⟨.refl _, .refl _, ?_, rfl⟩)
      fun _ => .pure fun _ _ _ _ _ => rfl
    exact { ht with exitBlock := rfl }

theorem blockFor_steady (label : Nat) : (lowering x).Steady (blockFor cx label) := by
  unfold blockFor
  split
  · exact exitBlock_steady
  refine .get_bind fun s s' hs => ?_
  rw [hs.blocks]
  cases s'.blocks.lookup label with
  | some id => exact .pure fun _ _ _ _ _ => rfl
  | none =>
    simp only
    split
    · exact .throw rfl
    · refine (onDraft_steady (fun hd => hd.reserveBlock) s s').bind_same fun id => ?_
      refine Comparison.InStep.bind_same (.step fun t t' _ _ ht => ⟨.refl _, .refl _, ?_, rfl⟩)
        fun _ => .pure fun _ _ _ _ _ => rfl
      exact { ht with
        blocks := congrArg (· ++ [(label, id)]) ht.blocks
        pending := congrArg (· ++ [(label, id)]) ht.pending }

end Lowering

end GimpleLowering
