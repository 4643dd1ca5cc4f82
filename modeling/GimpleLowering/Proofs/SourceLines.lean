import GimpleLowering.Proofs.Compilation
import GimpleLowering.Proofs.Lowering.Temporaries

/-!
# The lines of the source

Everything in an object that is there for a statement of the source points at the line of that
statement. Two things are needed for this. The emission of each statement is on its line, whatever
was mentioned before (`IsEmission`), provided that no two locations are of one line; and this is so
at all times, since nothing else adds locations. The other one is that there is nothing else in the
object: its statements and arms are those of the blocks, and its temporaries are written by them.

A line is looked for in the table of locations. It might as well be looked up in a map that is kept
beside the table: the two come about together, and what they say is the same.

## Main definitions

* `Flo.Object.PointsAt` — a location is the one of a line of a file
* `Flo.Object.LocatesIn` — the locations of an object
* `Lowering.Traces` — the emissions that the blocks of an object are made of
* `Lowering.HasLines` — an object that points at the lines of a function

## Main results

* `Lowering.lowerAll_mapped` — a map of the lines can be kept beside the draft
* `Compiler.run_lines` — the objects of functions point at their lines
-/

namespace GimpleLowering

open Gimple Layout

/-! ### Objects -/

namespace Flo.Object

/-- The location is the entry for the line of the file. A line that is not known has none, and line
0 stands for such a line. -/
structure PointsAt (o : Object) (source : String) (line location : Option Nat) : Prop where
  unknown : line = none ∨ line = some 0 → location = none
  known : ∀ n, line = some n → n ≠ 0 → ∃ id, location = some id ∧
    o.locations.get? id = some ⟨source, some n, .usable⟩

/-- The locations are lines of the file, each line has one at most, and none is line 0. -/
structure LocatesIn (o : Object) (source : String) : Prop where
  entries : o.locations.All fun l => ∃ n, n ≠ 0 ∧ l = ⟨source, some n, .usable⟩
  eq_iff : ∀ {id id' : Nat} {l l' : Location}, o.locations.get? id = some l →
    o.locations.get? id' = some l' → (id = id' ↔ l.line = l'.line)

variable {o : Object} {source : String}

theorem LocatesIn.of_nodup
    (hentries : o.locations.All fun l => ∃ n, n ≠ 0 ∧ l = ⟨source, some n, .usable⟩)
    (hlines : (o.locations.rows.tail.map Location.line).Nodup) : o.LocatesIn source := by
  refine ⟨hentries, fun {id id' l l'} hl hl' => ⟨?_, fun hline => ?_⟩⟩
  · rintro rfl
    exact congrArg Location.line (Option.some.inj (hl.symm.trans hl'))
  · -- The null entry has no line, so it is unlike the others, too.
    obtain ⟨rest, hrows, hall⟩ := hentries
    have hnodup : (o.locations.rows.map Location.line).Nodup := by
      rw [hrows, List.map_cons, List.nodup_cons]
      refine ⟨fun hmem => ?_, by simpa [hrows] using hlines⟩
      obtain ⟨l, hl, hnone⟩ := List.mem_map.1 hmem
      obtain ⟨n, -, rfl⟩ := hall l hl
      cases hnone
    have hrow : ∀ {i : Nat} {a : Location}, o.locations.get? i = some a →
        (o.locations.rows.map Location.line)[i]? = some a.line := by
      intro i a ha
      rw [List.getElem?_map, ← Table.get?_eq_rows, ha, Option.map_some]
    have hlt := (List.getElem?_eq_some_iff.1 (hrow hl)).1
    exact (List.getElem?_inj hlt hnodup).1 (by rw [hrow hl, hrow hl', hline])

/-- Of a line, the entry is that of the file. -/
theorem LocatesIn.pointsAt (h : o.LocatesIn source) {line location : Option Nat}
    (hlocated : o.Locates line location) : o.PointsAt source line location := by
  refine ⟨hlocated.unknown, fun n hn hne => ?_⟩
  obtain ⟨id, l, hid, hrow, hline⟩ := hlocated.known n hn hne
  refine ⟨id, hid, ?_⟩
  have hhas : o.locations.Has id := by
    refine Table.has_of_ne h.entries.head?_rows (by rwa [← Table.get?_eq_rows]) ?_
    rintro rfl
    cases hline
  have hmem : (id, l) ∈ o.locations.toList :=
    Table.mem_toList.2 ⟨Nat.ne_of_gt hhas.1, hrow⟩
  obtain ⟨k, -, rfl⟩ : ∃ k, k ≠ 0 ∧ l = ⟨source, some k, .usable⟩ := h.entries.of_mem_toList hmem
  rw [hrow, ← hline]

end Flo.Object

namespace Lowering

variable {P : Setting} {ps : Polyfills} {x : UnitIndex} {w : State} {source : String}

/-! ### Locations -/

/-- The file is the same, and a map of the lines that was kept beside the first draft goes on
beside the second. -/
structure Catalogues (d d' : Flo.Draft) : Prop where
  source : d'.source = d.source
  mapped : ∀ known, d.Mapped known → ∃ known', d'.Mapped known'

theorem Catalogues.of_eq {d d' : Flo.Draft} (hs : d'.source = d.source)
    (hl : d'.object.locations = d.object.locations) : Catalogues d d' :=
  ⟨hs, fun known h => ⟨known, h.keep hs hl⟩⟩

instance : Flo.Draft.Allows Catalogues where
  refl _ := .of_eq rfl rfl
  trans _ _ _ h h' := by
    refine ⟨h'.source.trans h.source, fun known hknown => ?_⟩
    obtain ⟨known', hknown'⟩ := h.mapped known hknown
    exact h'.mapped known' hknown'
  locate d line := ⟨d.source_locate line, fun _ h => h.exists_locate line⟩
  addVariable _ _ _ label _ := by cases label <;> exact .of_eq rfl rfl
  addStatement _ _ := .of_eq rfl rfl
  addBlock _ _ := .of_eq rfl rfl
  reserveBlock _ := .of_eq rfl rfl
  fillBlock d id b := by
    rw [d.fillBlock_eq]
    exact .of_eq rfl rfl

instance (line : Option Nat) : Flo.Draft.AdmitsBlocks line Catalogues where
  addMatchArm d condition target :=
    have hadd : Catalogues (d.locate line).2
        ((d.locate line).2.addMatchArm condition target (d.locate line).1).2 := .of_eq rfl rfl
    trans_of Catalogues (Flo.Draft.Allows.locate d line) hadd

theorem finish_catalogues {S : Ty → Prop} {cx : Context} (parameters : List Nat) (entry : Nat) :
    (finish cx parameters entry).Keeps (State.Moves x S Catalogues) := by
  refine (onDraft_keeps fun d => Flo.Draft.Allows.locate d _).bind fun location => ?_
  refine Build.Keeps.get.bind fun s => (Build.Keeps.present entry _).bind fun block => ?_
  refine Build.Keeps.get.bind fun s => (fill_keeps entry _).bind fun _ => ?_
  exact .step fun s => ⟨refl_of (Layout.Evolves x S []) s.types, .of_eq rfl rfl⟩

/-- The lines of a function can be looked up in a map that is kept from the start. -/
theorem lowerAll_mapped {f : Function} {types : Registry}
    (hr : (lowerAll x ps f).Ran (.initial types f.name source) () w) :
    w.draft.source = source ∧ ∃ known, w.draft.Mapped known := by
  simp only [lowerAll, locate, Build.ran_bind, Build.ran_mapError] at hr
  obtain ⟨⟨cx, parameters, entry⟩, s₁, hprepare, _, s₂, hpending, hfinish⟩ := hr
  obtain ⟨slot, rfl⟩ := prepare_context hprepare
  have hlowered : Catalogues (State.initial types f.name source).draft s₂.draft :=
    (moves_of_ran (.univ x) (by simp) hprepare hpending).frame
  have hfinished : (finish ⟨x, ps, f, slot, none⟩ parameters entry).Keeps
      (State.Moves x (fun _ => True) Catalogues) := finish_catalogues parameters entry
  have hall : Catalogues (State.initial types f.name source).draft w.draft :=
    trans_of Catalogues hlowered (hfinished.ran hfinish).frame
  exact ⟨hall.source, hall.mapped _ (.empty f.name source)⟩

/-- The locations are lines of the file. -/
theorem State.Inv.locatesIn (h : w.Inv P) (hsource : w.draft.source = source)
    (htidy : w.draft.Tidy) : w.draft.object.LocatesIn source := by
  refine .of_nodup (h.kept.locations.mono ?_) ?_
  · rintro ⟨file, line, poison⟩ ⟨rfl, rfl, n, rfl, hne, -⟩
    exact ⟨n, hne, by rw [hsource]⟩
  · obtain ⟨rest, hrows, hnodup⟩ := htidy
    rwa [hrows]

/-! ### Emissions -/

theorem Lowers.inOrder {stmt : Statement} {n m : Nat} {code : List Flo.Statement}
    {exit : Option Flo.BlockExit} (h : Lowers P ps w stmt n code exit m) (hw : w.Inv P) :
    InOrder w [] n code m := by
  cases exit with
  | none => exact Performs.orderly h hw
  | some exit => exact (Leaves.orderly h hw).1

/-- An emission is that of a statement. -/
theorem EmitsAll.exists_of_mem {stmts : List Statement} {n m : Nat} {es : List Flo.Emission}
    {exit : Option Flo.BlockExit} (h : EmitsAll P ps w stmts n es exit m) {e : Flo.Emission}
    (he : e ∈ es) : ∃ stmt k exit' l, (stmt, e) ∈ stmts.zip es ∧
      IsEmission P ps w stmt k e exit' l := by
  induction h with
  | nil n => cases he
  | leave last =>
    obtain rfl := List.mem_singleton.1 he
    exact ⟨_, _, _, _, List.mem_singleton_self _, last⟩
  | perform first _ ih =>
    rcases List.mem_cons.1 he with rfl | he
    · exact ⟨_, _, _, _, List.mem_cons_self, first⟩
    · obtain ⟨stmt, k, exit', l, hmem, hemission⟩ := ih he
      exact ⟨stmt, k, exit', l, List.mem_cons_of_mem _ hmem, hemission⟩

theorem EmitsAll.located {stmts : List Statement} {n m : Nat} {es : List Flo.Emission}
    {exit : Option Flo.BlockExit} (h : EmitsAll P ps w stmts n es exit m) (ht : w.draft.Tidy) :
    List.Forall₂ (fun stmt e => e.Located (w.draft.object.Locates stmt.line)) stmts es := by
  induction h with
  | nil n => exact .nil
  | leave last => exact .cons (last.onLine ht) .nil
  | perform first _ ih => exact .cons (first.onLine ht) ih

/-- The emissions are those of the block for the label, statement by statement, each on its line.
The block of the object lists their statements, and its exit lists their arms. -/
structure IsTrace (P : Setting) (ps : Polyfills) (source : String) (w : State) (label : Nat)
    (b : Block) (es : List Flo.Emission) : Prop where
  isBlock : P.function.block? label = some b
  emits : ∃ n exit m, EmitsAll P ps w b.statements n es exit m
  located : List.Forall₂ (fun stmt e =>
    e.Located (w.draft.object.PointsAt source stmt.line)) b.statements es
  statements : (w.draft.object.inBlock Flo.Block.statements (w.image label)).map
    (fun id => w.statements[id]?) = (es.flatMap Flo.Emission.code).map some
  arms : (w.draft.object.inBlock Flo.Block.arms (w.image label)).map
    (fun id => w.arms[id]?) = (es.flatMap Flo.Emission.arms).map some

/-- The object in the state is made of emissions: those of the blocks that control can get to. No
statement, arm or temporary of it is anywhere else. -/
structure Traces (P : Setting) (ps : Polyfills) (source : String) (w : State)
    (emissions : Nat → List Flo.Emission) : Prop where
  block : ∀ {label : Nat}, label ≠ exitIndex → P.function.Reaches label →
    ∃ b, IsTrace P ps source w label b (emissions label)
  statement : ∀ {id : Nat}, w.draft.object.statements.Has id → ∃ label, label ≠ exitIndex ∧
    P.function.Reaches label ∧ id ∈ w.draft.object.inBlock Flo.Block.statements (w.image label)
  arm : ∀ {id : Nat}, w.draft.object.matchArms.Has id → ∃ label, label ≠ exitIndex ∧
    P.function.Reaches label ∧ id ∈ w.draft.object.inBlock Flo.Block.arms (w.image label)
  temporary : ∀ {v : Nat}, w.draft.object.IsTemporary v → ∃ label b stmt e n exit m i,
    label ≠ exitIndex ∧ P.function.Reaches label ∧ P.function.block? label = some b ∧
      (stmt, e) ∈ b.statements.zip (emissions label) ∧ IsEmission P ps w stmt n e exit m ∧
      i < e.vars.length ∧ v = n + i

section

variable {parameters locals : List Var} {entry : Nat} {signature : Flo.Signature}
  (h : IsFunction P ps w parameters locals entry signature)

include h

/-- The block for a label that control can get to is made of emissions. -/
theorem IsFunction.exists_trace (hsource : w.draft.source = source) (htidy : w.draft.Tidy)
    {label : Nat} (hne : label ≠ exitIndex) (hreached : P.function.Reaches label) :
    ∃ es b, IsTrace P ps source w label b es := by
  obtain ⟨id, hid⟩ := h.reaches_iff.1 hreached
  obtain ⟨row, b, codes, hb, hrow⟩ := h.block _ (State.mem_of_target? hid hne)
  obtain ⟨n, es, exit, m, hemits, rfl, hexits⟩ := hb.emits
  have hlocates := h.inv.locatesIn hsource htidy
  refine ⟨es, b, hb.isBlock, ⟨n, exit, m, hemits⟩, ?_, ?_, ?_⟩
  · exact (hemits.located htidy).imp fun stmt e he => he.imp fun _ => hlocates.pointsAt
  · rw [State.image_eq hid, inBlock_of_row _ hrow, List.flatMap_def]
    exact hb.body
  · rw [State.image_eq hid, inBlock_of_row _ hrow, ← hemits.arms]
    change row.exit.arms.map _ = _
    generalize row.exit = exit' at hexits
    cases hexits <;> rfl

/-- The object is made of emissions. -/
theorem IsFunction.exists_traces (hsource : w.draft.source = source) (htidy : w.draft.Tidy)
    (hwritten : ∀ {v : Nat}, 0 < v → IsTemp w v → v ∈ Flo.written w.statements) :
    ∃ emissions, Traces P ps source w emissions := by
  have hexists : ∀ label, ∃ es, label ≠ exitIndex → P.function.Reaches label →
      ∃ b, IsTrace P ps source w label b es := by
    intro label
    by_cases hlabel : label ≠ exitIndex ∧ P.function.Reaches label
    · obtain ⟨es, htrace⟩ := h.exists_trace hsource htidy hlabel.1 hlabel.2
      exact ⟨es, fun _ _ => htrace⟩
    · exact ⟨[], fun hne hreached => absurd ⟨hne, hreached⟩ hlabel⟩
  choose emissions htraces using hexists
  refine ⟨emissions, fun hne hreached => htraces _ hne hreached, fun hid => ?_, fun hid => ?_,
    fun {v} htemp => ?_⟩
  · exact h.exists_label h.bodies hid.1 hid.2
  · exact h.exists_label h.branches hid.1 hid.2
  · obtain ⟨⟨hpos, -⟩, row, hrow, hdiag⟩ := htemp
    rw [Flo.Table.get?_eq_rows] at hrow
    have htemp : IsTemp w v := ⟨row, hrow, hdiag⟩
    obtain ⟨id, s, hs, hv⟩ := Flo.exists_getElem?_of_mem_written (hwritten hpos htemp)
    have hhas : w.draft.object.statements.Has id := by
      refine Flo.Table.has_of_ne h.inv.kept.statements.head?_rows hs ?_
      rintro rfl
      cases hv
    obtain ⟨label, hne, hreached, hid⟩ := h.exists_label h.bodies hhas.1 hhas.2
    obtain ⟨b, htrace⟩ := htraces label hne hreached
    have hmem : some s ∈ ((emissions label).flatMap Flo.Emission.code).map some := by
      rw [← htrace.statements, ← hs]
      exact List.mem_map_of_mem (f := fun id => w.statements[id]?) hid
    obtain ⟨s', hs', heq⟩ := List.mem_map.1 hmem
    obtain rfl := Option.some.inj heq
    obtain ⟨e, he, hcode⟩ := List.mem_flatMap.1 hs'
    obtain ⟨n, exit, m, hemits⟩ := htrace.emits
    obtain ⟨stmt, k, exit', l, hzip, hemission⟩ := hemits.exists_of_mem he
    have horder := hemission.lowers.inOrder h.inv
    obtain ⟨hle, hlt⟩ := horder.writes.bounds v (Flo.mem_written.2 ⟨s', hcode, hv⟩) htemp
    rw [hemission.count] at hlt
    exact ⟨label, b, stmt, e, k, exit', l, v - k, hne, hreached, htrace.isBlock, hzip, hemission,
      by omega, by omega⟩

end

/-! ### Functions -/

/-- The object is that of the function, and everything in it that is emitted for a statement points
at the line of the statement in the file. -/
def HasLines (x : UnitIndex) (ps : Polyfills) (source : String) (f : Function) (o : Flo.Object) :
    Prop :=
  o.LocatesIn source ∧ ∃ (returns : List Nat) (w : State) (signature : Flo.Signature)
    (emissions : Nat → List Flo.Emission), o = { w.draft.object with types := o.types } ∧
      ControlFlow f w.draft.object w.image signature ∧
      Traces ⟨x, f, returns, fun _ => True⟩ ps source w emissions

theorem hasLines_of_ran {f : Function} {types types' : Registry} {o : Flo.Object}
    (hs : types.Sound x fun _ => True) (run : (lowerFunction x ps source f).Ran types o types') :
    HasLines x ps source f o := by
  obtain ⟨w, hall, rfl, rfl⟩ := lowerFunction_lowerAll run
  obtain ⟨returns, parameters, locals, entry, signature, h⟩ :=
    lowerAll_ran (.univ x) (by simp) hs hall
  obtain ⟨hsource, known, hmapped⟩ := lowerAll_mapped hall
  obtain ⟨htidy, -⟩ := hmapped.location?_eq
  obtain ⟨emissions, htraces⟩ :=
    h.exists_traces hsource htidy fun hpos htemp => lowerAll_written hall hpos htemp
  exact ⟨h.inv.locatesIn hsource htidy, returns, w, signature, emissions, rfl, h.controlFlow,
    htraces⟩

/-- The types of the object are not asked for. -/
theorem HasLines.withTypes {f : Function} {o : Flo.Object} (h : HasLines x ps source f o)
    (types : Flo.TypeTables) : HasLines x ps source f { o with types := types } := by
  obtain ⟨hlocates, returns, w, signature, emissions, hobject, hflow, htraces⟩ := h
  refine ⟨⟨hlocates.entries, hlocates.eq_iff⟩, returns, w, signature, emissions, ?_, hflow, htraces⟩
  rw [hobject]

end Lowering

namespace Compiler

open Lowering

/-- **Diagnostics point at the right line.** The object of every function that is lowered, by itself
or with the unit, is made of emissions, each of them for a statement of the function. What an
emission has in statements, arms and temporaries has the location of the line of that statement in
the file of the unit, and no location if the line is not known or 0. No two locations are of one
line. -/
theorem run_lines {ps : Polyfills} :
    (∀ {x : UnitIndex} {source : String} {f : Function} {types types' : Registry} {o : Flo.Object},
      Reached x types → (lowerFunction x ps source f).Ran types o types' →
        HasLines x ps source f o) ∧
    ∀ {u : CompilationUnit} {m : Manifest},
      ({ standard with polyfills := ps } : Compiler).run u = .ok (.ok m) →
      ∀ {name : String} {o : Flo.Object}, (name, .ok o) ∈ m.entries →
        ∃ x, UnitIndex.ofUnit u = .ok x ∧ ∃ f ∈ u.functions, f.name = name ∧
          HasLines x ps (u.sourceFile.getD "") f o := by
  refine ⟨fun reached run => hasLines_of_ran reached.sound run, fun {u m} run {name o} hin => ?_⟩
  obtain ⟨x, hx, hm⟩ := run_standard run
  obtain ⟨r, -, -, hmem⟩ := lowerUnit_objects (.univ x) (by simp) hm
  obtain ⟨f, hf, hname, t, o', t', ht, hrun, -, rfl⟩ := hmem hin
  exact ⟨x, hx, f, hf, hname, (hasLines_of_ran ht hrun).withTypes _⟩

/-- A function that tests its argument on one line, and replaces it on the same line if it is zero.
It returns on line 3, or on a line that is not known. -/
def nonzero : Function :=
  let n : Expr := .named (.integer 32) "n"
  ⟨"nonzero", [⟨"n", .integer 32⟩], some (.integer 32), 2, [],
    [⟨2, [.conditional .eq [n, .integer (.integer 32) 0] 3 4 (some 2)]⟩,
      ⟨3, [.assign .copy n [.integer (.integer 32) 7] (some 2), .ret (some n) (some 0)]⟩,
      ⟨4, [.ret (some n) (some 3)]⟩]⟩

theorem nonzero_lines :
    (∃ o types, (lowerFunction .empty .empty "" copyingPart).Ran .empty o types ∧
      HasLines .empty .empty "" copyingPart o) ∧
    ∃ m o, standard.run ⟨some "nonzero.c", [nonzero], [], [], []⟩ = .ok (.ok m) ∧
      ("nonzero", .ok o) ∈ m.entries ∧
      o.locations.rows.tail = [⟨"nonzero.c", some 2, .usable⟩, ⟨"nonzero.c", some 3, .usable⟩] ∧
      ∃ x, HasLines x .library "nonzero.c" nonzero o := by
  constructor
  · obtain ⟨o, types, run⟩ : ∃ o types,
        (lowerFunction .empty .empty "" copyingPart).Ran .empty o types :=
      Build.exists_ran_of_endsWell (by decide +kernel)
    exact ⟨o, types, run, run_lines.1 .empty run⟩
  · have hrows : (standard.objectAt ⟨some "nonzero.c", [nonzero], [], [], []⟩ 0).map
        (·.locations.rows.tail) =
          some [⟨"nonzero.c", some 2, .usable⟩, ⟨"nonzero.c", some 3, .usable⟩] := by decide +kernel
    obtain ⟨o, ho, hlocations⟩ := Option.map_eq_some_iff.1 hrows
    obtain ⟨m, name, hrun, -⟩ := exists_run_of_objectAt ho
    have hmem : ("nonzero", .ok o) ∈ m.entries := mem_of_objectAt hrun ho rfl
    obtain ⟨x, -, f, hf, -, hlines⟩ := run_lines.2 hrun hmem
    obtain rfl := List.mem_singleton.1 hf
    exact ⟨m, o, hrun, hmem, hlocations, x, hlines⟩

end Compiler

end GimpleLowering
