import GimpleLowering.Proofs.Flo.NullSafety
import GimpleLowering.Proofs.Linking
import GimpleLowering.Proofs.Lowering.Accesses

/-!
# Which functions panic

The flag in the signature of a function says whether its own code can panic: whether control can
get to a statement that goes through a pointer or an index, or to the end of the last block of a
function that should have returned a value. What the functions that it calls do has no part in it.
So a run of a function without the flag can panic, but not before it gets to another function that
has the flag.

## Main definitions

* `Manifest.modules` — the objects of a manifest, linked by the names of their functions
* `Flo.Modules.AreLinked` — objects that are well typed and heed their flags
* `Flo.Process.Fits` — a process all of whose values fit
* `Flo.InputFits` — arguments and a memory that fit

## Main results

* `Flo.Process.Fits.step`, `Flo.Process.fits_of_run` — in a run, all values fit
* `Compiler.run_panics` — a function panics only where a flag is set
-/

namespace GimpleLowering

open Gimple Layout Lowering

/-! ### Objects of functions -/

namespace Lowering

variable {P : Setting} {ps : Polyfills} {w : State} {r : Registry} {o : Flo.Object}
  {parameters locals : List Var} {entry : Nat} {signature : Flo.Signature}

theorem IsFunction.signature?_eq (h : IsFunction P ps w parameters locals entry signature)
    (hf : Finishes P w r o) : o.signature? P.function.name = some signature := by
  obtain ⟨row, block, codes, -, hrow⟩ := h.block _ h.isEntry
  have hsymbols : o.symbols.pairs = [(P.function.name, entry)] := by
    rw [hf.object]
    exact h.symbols
  have hget : o.blocks.get? entry = some { row with signature := some signature } := by
    rw [hf.object, Flo.Table.get?_eq_rows]
    simpa using hrow
  simp [Flo.Object.signature?, Pairing.ofLeft?, hsymbols, hget]

/-- A variable that is linked with a global has its type. -/
theorem Finishes.linksGlobals (h : Finishes P w r o) : o.LinksGlobals P.index r := by
  intro v row symbol hrow hl
  rw [h.vars_get] at hrow
  obtain ⟨ty, rep, hty, hrep, htyp⟩ := (h.inv.typed row (List.mem_of_getElem? hrow)).global hl
  exact ⟨ty, hty, rep, hrep.mono h.grows, htyp⟩

end Lowering

namespace Flo

/-! ### Objects of a unit -/

/-- The object of a function of the unit: it is well typed, and it heeds its flag. -/
structure Object.IsLinked (o : Object) (x : UnitIndex) (r : Registry) (ps : Polyfills)
    (f : Function) (image : Nat → Nat) (signature : Signature) : Prop extends
    o.IsTyped x r ps f image signature where
  callee : x.function? f.name = some f.signature
  globals : o.LinksGlobals x r
  heeds : o.Heeds signature.canPanic
  code : ∀ {id : Nat} {s : Statement}, o.statements.get? id = some s →
    s ≠ .poisoned .nullEntry → WellTyped x r ps o s
  returned : ∀ {id : Nat} {row : Block} {values : List Nat}, o.blocks.get? id = some row →
    row.exit = .ret values → values = signature.returns

/-- All objects are those of functions of the unit. -/
def Modules.AreLinked (L : Modules) (x : UnitIndex) (r : Registry) (ps : Polyfills) : Prop :=
  ∀ name o, L name = some o →
    ∃ f image signature, f.name = name ∧ o.IsLinked x r ps f image signature

/-- Variables of two objects that have the same types have a list of types. -/
theorem Object.Pairs.exists_types {o o' : Object} {vs vs' : List Nat} (h : o.Pairs o' vs vs') :
    ∃ types, List.Forall₂ o.HasType vs types ∧ List.Forall₂ o'.HasType vs' types := by
  induction h with
  | nil => exact ⟨[], .nil, .nil⟩
  | cons hv _ ih =>
    obtain ⟨typ, hv, hv'⟩ := hv
    obtain ⟨types, hvs, hvs'⟩ := ih
    exact ⟨typ :: types, .cons hv hvs, .cons hv' hvs'⟩

/-! ### Processes of a unit -/

/-- Whoever waits for a result has variables of the types of what is returned. -/
def Awaits : Activation → List (Activation × List Nat) → Prop
  | _, [] => True
  | a, (c, outputs) :: callers =>
    (∀ signature, a.object.signature? a.function = some signature →
      c.object.Pairs a.object outputs signature.returns) ∧ Awaits c callers

/-- It does not matter how far the active function is. -/
theorem Awaits.congr {a b : Activation} {callers : List (Activation × List Nat)}
    (h : Awaits a callers) (ho : b.object = a.object) (hf : b.function = a.function) :
    Awaits b callers := by
  cases callers with
  | nil => trivial
  | cons c callers =>
    refine ⟨fun signature hs => ?_, h.2⟩
    rw [ho, hf] at hs
    rw [ho]
    exact h.1 signature hs

/-- All values in the memory and in the variables of the functions that are being executed fit. -/
structure Process.Fits (x : UnitIndex) (r : Registry) (T : HeapTyping) (p : Process) : Prop where
  memory : MemoryFits x r T p.memory
  frames : ∀ a ∈ p.activations, a.object.FrameFits r T a.frame
  awaits : Awaits p.active p.callers

section

variable {x : UnitIndex} {r : Registry} {ps : Polyfills} {L : Modules} {E : Environment}
  {T : HeapTyping} {p q : Process} {f : String}

/-- Parameters of the declared types can take arguments that fit. -/
theorem ArgumentsFit.exists_types {o : Object} {params : List Nat} {declared : List Declaration}
    (hparams : List.Forall₂ (fun v (d : Declaration) => ∃ typ, HasValueType x r d.ty typ ∧
      o.HasType v typ) params declared) {values : List Value}
    (h : ArgumentsFit x r T values (declared.map Declaration.ty)) :
    ∃ types, List.Forall₂ o.HasType params types ∧
      List.Forall₂ (FitsIn r.tables T) values types := by
  induction hparams generalizing values with
  | nil =>
    cases h
    exact ⟨[], .nil, .nil⟩
  | cons hparam _ ih =>
    obtain ⟨typ, htyp, hv⟩ := hparam
    cases h with
    | cons hvalue h =>
      obtain ⟨types, hparams, hvalues⟩ := ih h
      exact ⟨typ :: types, .cons hv hparams, .cons (hvalue typ htyp) hvalues⟩

/-- A function that is entered with arguments that fit. -/
theorem Enters.fits (hL : L.AreLinked x r ps) (hE : E.Respects x r ps) {name : String}
    {values : List Value} {m m' : Memory} {a : Activation} (h : Enters L E name values m a m')
    (hm : MemoryFits x r T m) {callee : Gimple.Signature} (hcallee : x.function? name = some callee)
    (hvalues : ArgumentsFit x r T values callee.parameterTypes) :
    MemoryFits x r T m' ∧ a.object.FrameFits r T a.frame := by
  cases h with
  | @enter o entry row signature frame M linked isEntry isRow hasSignature fresh takes =>
    obtain ⟨f, image, signature', rfl, ho⟩ := hL name o linked
    obtain rfl : signature = signature' := by
      have hsignature : o.signature? f.name = some signature := by
        simp [Object.signature?, isEntry, isRow, hasSignature]
      exact Option.some.inj (hsignature.symm.trans ho.signature?_eq)
    obtain rfl := Option.some.inj (hcallee.symm.trans ho.callee)
    obtain ⟨types, hparams, hvalues⟩ := hvalues.exists_types ho.params
    have hstart : o.MachineFits x r T ⟨frame, m⟩ := ⟨hE.fresh fresh, hm⟩
    have hM := Object.setAll_fits ho.globals hstart hparams hvalues takes
    exact ⟨hM.memory, hM.frame⟩

namespace Process

/-- In a step, everything keeps its type. -/
theorem Fits.step (hL : L.AreLinked x r ps) (hE : E.Respects x r ps) (hp : p.Belongs L f)
    (h : p.Fits x r T) (hs : Step L E p q) : ∃ T', T.Extends T' ∧ q.Fits x r T' := by
  cases hs with
  | @statement a m callers s rest M next notLinked effect =>
    obtain ⟨hframe, hframes⟩ := List.forall_mem_cons.1 h.frames
    obtain ⟨id, -, hid⟩ := next
    obtain ⟨g, image, signature, -, ho⟩ := hL _ _ (hp a List.mem_cons_self).linked
    have htyped := ho.code hid (by rintro rfl; cases effect)
    obtain ⟨T', hT, hM⟩ := htyped.exec_fits ho.globals ho.types hE (ho.heeds.statement hid).constant
      ⟨hframe, h.memory⟩ effect
    refine ⟨T', hT, hM.memory, List.forall_mem_cons.2 ⟨hM.frame, fun b hb => ?_⟩,
      h.awaits.congr rfl rfl⟩
    exact (hframes b hb).mono hT
  | @call a b m m' callers name input outputs note rest values next arguments enters =>
    obtain ⟨hframe, hframes⟩ := List.forall_mem_cons.1 h.frames
    obtain ⟨id, -, hid⟩ := next
    obtain ⟨g, image, signature, -, ho⟩ := hL _ _ (hp a List.mem_cons_self).linked
    obtain ⟨callee, expressions, hcallee, passes, takes⟩ := (ho.code hid nofun).of_external
    have hvalues := Object.passes_fit ho.globals ⟨hframe, h.memory⟩ passes arguments
    obtain ⟨hm, hb⟩ := enters.fits hL hE h.memory hcallee hvalues
    refine ⟨T, .refl T, hm, List.forall_mem_cons.2 ⟨hb, List.forall_mem_cons.2 ⟨hframe, hframes⟩⟩,
      fun signature' hs => ?_, h.awaits.congr rfl rfl⟩
    obtain ⟨g', image', signature'', hname, ho'⟩ := hL _ _ (enters.belongs (f := name) .refl).linked
    obtain rfl : signature' = signature'' := by
      rw [← hname, ho'.signature?_eq] at hs
      exact (Option.some.inj hs).symm
    have hcallee' := ho'.callee
    rw [hname, enters.function_eq] at hcallee'
    obtain rfl := Option.some.inj (hcallee.symm.trans hcallee')
    exact Object.pairs_returns takes ho'.returns
  | @goto a m callers target row done exit isRow =>
    obtain ⟨hframe, hframes⟩ := List.forall_mem_cons.1 h.frames
    exact ⟨T, .refl T, h.memory, List.forall_mem_cons.2 ⟨hframe, hframes⟩, h.awaits.congr rfl rfl⟩
  | @branch a m callers arms target row done exit branches isRow =>
    obtain ⟨hframe, hframes⟩ := List.forall_mem_cons.1 h.frames
    exact ⟨T, .refl T, h.memory, List.forall_mem_cons.2 ⟨hframe, hframes⟩, h.awaits.congr rfl rfl⟩
  | @ret a c m callers results outputs values M done exit isResult takes =>
    obtain ⟨hframe, hframes⟩ := List.forall_mem_cons.1 h.frames
    obtain ⟨hframe', hframes'⟩ := List.forall_mem_cons.1 hframes
    obtain ⟨hpairs, hawaits⟩ := h.awaits
    have ha := hp a List.mem_cons_self
    have hc := hp c (List.mem_cons_of_mem _ List.mem_cons_self)
    obtain ⟨g, image, signature, hname, ho⟩ := hL _ _ ha.linked
    obtain ⟨g', image', signature', -, ho'⟩ := hL _ _ hc.linked
    obtain ⟨id, row, hrow, heq⟩ := ha.exit
    obtain rfl := ho.returned hrow (heq.symm.trans exit)
    obtain ⟨types, houtputs, hreturns⟩ :=
      (hpairs signature (hname ▸ ho.signature?_eq)).exists_types
    have hvalues := Object.getAll_fits ho.globals ⟨hframe, h.memory⟩ hreturns isResult
    have hM := Object.setAll_fits ho'.globals ⟨hframe', h.memory⟩ houtputs hvalues takes
    exact ⟨T, .refl T, hM.memory, List.forall_mem_cons.2 ⟨hM.frame, hframes'⟩,
      hawaits.congr rfl rfl⟩

/-- In a run that begins with arguments and a memory that fit, everything keeps its type. -/
theorem fits_of_run (hL : L.AreLinked x r ps) (hE : E.Respects x r ps) {values : List Value}
    {m : Memory} (h : p.Runs L E f values m) (hm : MemoryFits x r T m) {callee : Gimple.Signature}
    (hcallee : x.function? f = some callee)
    (hvalues : ArgumentsFit x r T values callee.parameterTypes) :
    ∃ T', T.Extends T' ∧ p.Fits x r T' := by
  have hbelongs := belongs_of_run h
  obtain ⟨a, m', henters, hrun⟩ := h
  induction hrun with
  | refl =>
    obtain ⟨hm', hframe⟩ := henters.fits hL hE hm hcallee hvalues
    exact ⟨T, .refl T, hm', List.forall_mem_singleton.2 hframe, trivial⟩
  | @tail q q' hrun hstep ih =>
    have hq : q.Belongs L f := belongs_of_run ⟨a, m', henters, hrun⟩
    obtain ⟨T', hT, hfits⟩ := ih hq
    obtain ⟨T'', hT', hfits'⟩ := hfits.step hL hE hq hstep
    exact ⟨T'', hT.trans hT', hfits'⟩

/-- Where everything fits, no reference is null. -/
theorem Fits.not_followsNullReference (hL : L.AreLinked x r ps) (hp : p.Belongs L f)
    (h : p.Fits x r T) : ¬ p.FollowsNullReference := by
  rintro ⟨s, rest, handle, member, typ, -, -, hnull, htyp⟩
  obtain ⟨g, image, signature, -, ho⟩ := hL _ _ (hp p.active List.mem_cons_self).linked
  have hM : p.active.object.MachineFits x r T p.machine :=
    ⟨h.frames p.active List.mem_cons_self, h.memory⟩
  exact (Object.get_fits ho.globals hM htyp hnull).ne_null rfl

end Process

end

/-- Arguments and a memory that fit. -/
def InputFits (x : UnitIndex) (r : Registry) (values : List Value) (m : Memory)
    (tys : List Gimple.Ty) : Prop :=
  ∃ T, MemoryFits x r T m ∧ ArgumentsFit x r T values tys

end Flo

/-! ### Units -/

theorem Lowering.Completes.isLinked {S : Ty → Prop} {P : Setting} {ps : Polyfills} {w : State}
    {r : Registry} {o : Flo.Object} {parameters locals : List Var} {entry : Nat}
    {signature : Flo.Signature} (hc : Completes S P w r o)
    (h : IsFunction P ps w parameters locals entry signature)
    (hcallee : P.index.function? P.function.name = some P.function.signature) :
    o.IsLinked P.index r ps P.function w.image signature := by
  have htyped : o.IsTyped P.index r ps P.function w.image signature := hc.isTyped h
  refine ⟨htyped, hcallee, hc.linksGlobals, h.heeds hc.toFinishes,
    fun hs hne => hc.wellTyped h hs hne, fun {id row values} hrow he => ?_⟩
  have hrow' : w.rows[id]? = some row := by
    rw [hc.object, Flo.Table.get?_eq_rows] at hrow
    exact hrow
  have hid : o.blocks.Has id := by
    rw [hc.object]
    exact h.has_of_exit hrow' (by rw [he]; exact nofun)
  obtain ⟨row'', hget, hexit⟩ := htyped.exit id hid
  obtain rfl := Option.some.inj (hrow.symm.trans hget)
  rw [he] at hexit
  exact hexit

/-- The objects of a manifest, linked by the names of their functions. -/
def Manifest.modules (m : Manifest) : Flo.Modules := fun name => (m.get? name).bind Except.toOption

theorem Manifest.mem_of_modules {m : Manifest} {name : String} {o : Flo.Object}
    (h : m.modules name = some o) : (name, .ok o) ∈ m.entries := by
  obtain ⟨res, hres, ho⟩ := Option.bind_eq_some_iff.1 h
  obtain ⟨⟨name', res'⟩, hfind, rfl⟩ := Option.map_eq_some_iff.1 hres
  obtain rfl : name' = name := by simpa using List.find?_some hfind
  cases res' with
  | error e => cases ho
  | ok o' => exact Option.some.inj ho ▸ List.mem_of_find?_eq_some hfind

/-- If no two functions have the same name, every object is linked. -/
theorem Manifest.modules_of_mem {m : Manifest} (hnodup : (m.entries.map Prod.fst).Nodup)
    {name : String} {o : Flo.Object} (h : (name, .ok o) ∈ m.entries) :
    m.modules name = some o := by
  have hsome : (m.entries.find? fun e => e.1 = name).isSome :=
    List.find?_isSome.2 ⟨_, h, by simp⟩
  obtain ⟨e, he⟩ := Option.isSome_iff_exists.1 hsome
  have hname : e.1 = name := by simpa using List.find?_some he
  obtain rfl := List.inj_on_of_nodup_map hnodup (List.mem_of_find?_eq_some he) h hname
  simp [modules, get?, he, Except.toOption]

namespace Compiler

/-- The flag in the signature of a function is set exactly if control can get to a place in the
function that can panic, and what the functions do that it calls has no part in it. Wherever a run
of a function is about to panic, be it at an exit that says so, at an access through null or at an
index that is out of bounds, a function is active that is called from it, maybe through others, and
that one has the flag, or else it goes through a reference that is null. In a consistent unit
references are not null, as long as the runtime and the caller keep to the types. -/
theorem run_panics {ps : Polyfills} {u : CompilationUnit} {m : Manifest}
    (run : ({ standard with polyfills := ps } : Compiler).run u = .ok (.ok m)) :
    ∃ x r, UnitIndex.ofUnit u = .ok x ∧ Registers x ps u r ∧
      ∀ {name : String} {o : Flo.Object}, m.modules name = some o →
        ∃ f ∈ u.functions, f.name = name ∧ ∃ signature, o.signature? name = some signature ∧
          (signature.canPanic = true ↔ f.MayPanic) ∧
          ∀ {E : Flo.Environment} {values : List Value} {memory : Memory} {p : Flo.Process},
            p.Runs m.modules E name values memory →
              (p.Panics → Relation.ReflTransGen (Flo.Calls m.modules) name p.active.function ∧
                ∃ active, p.active.object.signature? p.active.function = some active ∧
                  (active.canPanic = true ∨ p.FollowsNullReference)) ∧
              (u.RecordConsistent → E.Respects x r ps →
                Flo.InputFits x r values memory f.signature.parameterTypes →
                  ¬ p.FollowsNullReference) := by
  obtain ⟨x, hx, hm⟩ := run_standard run
  obtain ⟨r, hr, -, hmem⟩ := mem_lowerUnit (CompilationUnit.closed_occurs hx) hm
  refine ⟨x, r, hx, hr, fun {name o} ho => ?_⟩
  obtain ⟨f, hf, rfl, returns, w, parameters, locals, entry, signature, h, hfin⟩ :=
    hmem (Manifest.mem_of_modules ho)
  refine ⟨f, hf, rfl, signature, h.signature?_eq hfin, h.canPanic_iff, ?_⟩
  intro E values memory p hrun
  have hbelongs := Flo.Process.belongs_of_run hrun
  have hactive := hbelongs p.active List.mem_cons_self
  refine ⟨fun hpanics => ⟨hactive.called, ?_⟩, fun consistent hE hinput => ?_⟩
  · obtain ⟨g, -, hname, returns', w', parameters', locals', entry', active, h', hfin'⟩ :=
      hmem (Manifest.mem_of_modules hactive.linked)
    refine ⟨active, hname ▸ h'.signature?_eq hfin', ?_⟩
    exact hpanics.of_heeds (h'.heeds hfin') hactive.exit
  · have hlinked : m.modules.AreLinked x r ps := by
      intro name' o' ho'
      obtain ⟨g, hg, hname, returns', w', parameters', locals', entry', signature', h', hfin'⟩ :=
        hmem (Manifest.mem_of_modules ho')
      have hc : Completes u.Occurs _ w' r o' :=
        ⟨hfin', consistent.consistent hx, fun ty hty => CompilationUnit.occurs_function hg hty⟩
      exact ⟨g, w'.image, signature', hname, hc.isLinked h' (UnitIndex.function?_of_mem hx hg)⟩
    obtain ⟨T, hmemory, harguments⟩ := hinput
    obtain ⟨T', -, hfits⟩ := Flo.Process.fits_of_run hlinked hE hrun hmemory
      (UnitIndex.function?_of_mem hx hf) harguments
    exact hfits.not_followsNullReference hlinked hbelongs

/-- A function that does not return the value that it should, and one that calls it. -/
def callingMissing : CompilationUnit where
  sourceFile := none
  functions := [
    ⟨"missing", [], some (.integer 32), 2, [], [⟨2, []⟩]⟩,
    ⟨"calling", [], none, 2, [], [⟨2, [.call "missing" [] none none, .ret none none]⟩]⟩]
  globals := []
  records := []
  declarations := []

theorem callingMissing_recordConsistent : callingMissing.RecordConsistent :=
  CompilationUnit.recordConsistent_of_mem [.integer 32] (by decide) (by decide)
    (by decide +kernel)

/-- A runtime that computes nothing. -/
def idle : Flo.Environment where
  runtime := ⟨fun _ _ => .integer 0, fun _ _ _ => .error .stuck⟩
  fresh _ frame := frame = fun _ => .integer 0

theorem idle_respects (x : UnitIndex) (r : Registry) (ps : Polyfills) : idle.Respects x r ps where
  routine _ _ := .integer
  function _ _ _ h := nomatch h
  fresh h := by
    subst h
    exact fun _ _ _ _ => .integer

/-- A memory with nothing in it. -/
def blank : Memory := ⟨fun _ => .integer 0, fun _ => none⟩

theorem blank_fits (x : UnitIndex) (r : Registry) : Flo.InputFits x r [] blank [] :=
  ⟨fun _ => none, ⟨fun _ _ => .integer, nofun, nofun⟩, .nil⟩

/-- The two objects are linked. Only one of the functions has the flag. -/
theorem exists_callingMissing : ∃ m o o',
    standard.run callingMissing = .ok (.ok m) ∧ m.modules "calling" = some o ∧
      m.modules "missing" = some o' ∧ o.symbols.ofLeft? "calling" = some 1 ∧
      o.blocks.get? 1 = some ⟨some ⟨[], [], false, none⟩, .usable, [1], .ret [], []⟩ ∧
      o.statements.get? 1 = some (.call (.external "missing") [] [1] ⟨[], none⟩) ∧
      o'.symbols.ofLeft? "missing" = some 1 ∧ o'.blocks.get? 1 =
        some ⟨some ⟨[], [1], true, none⟩, .usable, [], .panic missingReturnMessage [], []⟩ := by
  have hcalling : (standard.objectAt callingMissing 1).map (fun o =>
      (o.symbols.ofLeft? "calling", o.blocks.get? 1, o.statements.get? 1)) =
        some (some 1, some ⟨some ⟨[], [], false, none⟩, .usable, [1], .ret [], []⟩,
          some (.call (.external "missing") [] [1] ⟨[], none⟩)) := by decide +kernel
  have hmissing : (standard.objectAt callingMissing 0).map (fun o =>
      (o.symbols.ofLeft? "missing", o.blocks.get? 1)) =
        some (some 1, some ⟨some ⟨[], [1], true, none⟩, .usable, [],
          .panic missingReturnMessage [], []⟩) := by decide +kernel
  obtain ⟨o, ho, heq⟩ := Option.map_eq_some_iff.1 hcalling
  obtain ⟨o', ho', heq'⟩ := Option.map_eq_some_iff.1 hmissing
  simp only [Prod.mk.injEq] at heq heq'
  obtain ⟨m, name, hrun, -⟩ := exists_run_of_objectAt ho
  have hnodup : (m.entries.map Prod.fst).Nodup := by
    rw [names_run hrun]
    decide
  exact ⟨m, o, o', hrun, Manifest.modules_of_mem hnodup (mem_of_objectAt hrun ho rfl),
    Manifest.modules_of_mem hnodup (mem_of_objectAt hrun ho' rfl), heq.1, heq.2.1, heq.2.2,
    heq'.1, heq'.2⟩

/-- The call is the only step of the function without the flag, and then it is about to panic. The
function that is active has the flag. -/
theorem callingMissing_panics : ∃ (m : Manifest) (o : Flo.Object) (signature active : Flo.Signature)
    (p : Flo.Process), standard.run callingMissing = .ok (.ok m) ∧ m.modules "calling" = some o ∧
      o.signature? "calling" = some signature ∧ signature.canPanic = false ∧
      p.Runs m.modules idle "calling" [] blank ∧ p.Panics ∧
      p.active.object.signature? p.active.function = some active ∧ active.canPanic = true := by
  obtain ⟨m, o, o', hrun, hlinked, hlinked', hentry, hrow, hcall, hentry', hrow'⟩ :=
    exists_callingMissing
  have henters : Flo.Enters m.modules idle "calling" [] blank
      ⟨"calling", o, fun _ => .integer 0, [1], .ret []⟩ blank :=
    .enter (M := ⟨fun _ => .integer 0, blank⟩) hlinked hentry hrow rfl rfl rfl
  have henters' : Flo.Enters m.modules idle "missing" [] blank
      ⟨"missing", o', fun _ => .integer 0, [], .panic missingReturnMessage []⟩ blank :=
    .enter (M := ⟨fun _ => .integer 0, blank⟩) hlinked' hentry' hrow' rfl rfl rfl
  have hruns : Flo.Process.Runs m.modules idle "calling" [] blank _ :=
    ⟨_, _, henters, .single (.call ⟨1, rfl, hcall⟩ rfl henters')⟩
  obtain ⟨x, r, -, -, hmodules⟩ := run_panics hrun
  obtain ⟨f, hf, -, signature, hsignature, -, hall⟩ := hmodules hlinked
  obtain ⟨hflagged, hsafe⟩ := hall hruns
  obtain ⟨-, active, hactive, hflag⟩ := hflagged (.exit rfl rfl)
  have hparameters : ∀ g ∈ callingMissing.functions, g.signature.parameterTypes = [] := by decide
  have hnull := hsafe callingMissing_recordConsistent (idle_respects x r _)
    (hparameters f hf ▸ blank_fits x r)
  have hcomputed : o.signature? "calling" = some ⟨[], [], false, none⟩ := by
    simp [Flo.Object.signature?, hentry, hrow]
  obtain rfl := Option.some.inj (hsignature.symm.trans hcomputed)
  exact ⟨m, o, _, active, _, hrun, hlinked, hsignature, rfl, hruns, .exit rfl rfl, hactive,
    hflag.resolve_right hnull⟩

end Compiler

end GimpleLowering
