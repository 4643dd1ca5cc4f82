import GimpleLowering.Proofs.Flo.Text.Object
import GimpleLowering.Proofs.Sexpr.Fields

/-!
# The text form loses nothing

An object that is read from a text has numbers with room in a text and assigns no constant,
whatever else may be wrong with it. So every object that is read can be written, and what is
written is read back as it was.

## Main results

* `Flo.Ty.ofSexpr_yields`, `Statement.ofSexpr_yields` and others — the numbers in what is read
* `Flo.Object.ofSexpr_yields` — objects that are read fit, and assign no constant
* `Flo.Object.text_lossless` — writing and reading an object, in either order
-/

namespace GimpleLowering

/-- A pairing of pairs has no others. -/
theorem Pairing.mem_of_mem_ofList {α β : Type} [DecidableEq α] [DecidableEq β]
    {xs : List (α × β)} {x : α × β} (h : x ∈ Pairing.ofList xs) : x ∈ xs := by
  have hfold : ∀ (ys : List (α × β)) (p : Pairing α β),
      x ∈ ys.foldl (fun p y => p.insert y.1 y.2) p → x ∈ p ∨ x ∈ ys := by
    intro ys
    induction ys with
    | nil => exact fun p hx => .inl hx
    | cons y ys ih =>
      intro p hx
      rcases ih _ hx with hx | hx
      · rcases Pairing.mem_insert.1 hx with rfl | ⟨hx, -⟩
        · exact .inr List.mem_cons_self
        · exact .inl hx
      · exact .inr (List.mem_cons_of_mem _ hx)
  rcases hfold xs .empty h with hx | hx
  · cases hx
  · exact hx

namespace Flo

open Sexpr Sexpr.Reads Sexpr.Fields

/-! ### Entries -/

theorem readIds_yields : Reads.Yields readIds fun ids => ∀ id ∈ ids, IsWord id :=
  asList_yields asWord64_yields

theorem location_yields :
    (optional "location" asWord64).Yields fun location => ∀ id ∈ location, IsWord id :=
  .optional asWord64_yields

theorem Ty.ofSexprWithin_yields (calls : Nat) :
    Reads.Yields (Ty.ofSexprWithin calls) (Ty.Uses .words) := by
  induction calls with
  | zero => exact nofun
  | succ calls ih =>
    have hhandle : Reads.Yields (record (Ty.handle <$> required "pointee" (Ty.ofSexprWithin calls)
        <*> required "nullable" asBool)) (Ty.Uses .words) := by
      refine record_yields (((Fields.Yields.required ih).map ?_).seq (.required .any))
      intro pointee hpointee nullable _
      exact hpointee
    refine asVariant_yields ?_
    simp only [List.forall_mem_cons]
    exact ⟨trivial, trivial, trivial, trivial, asWord64_yields.map fun _ h => h,
      asWord64_yields.map fun _ h => h, hhandle, trivial, nofun⟩

theorem Ty.ofSexpr_yields : Reads.Yields Ty.ofSexpr (Ty.Uses .words) :=
  fun s ty h => Ty.ofSexprWithin_yields _ s ty h

theorem Signature.ofSexpr_yields : Reads.Yields Signature.ofSexpr (Signature.Uses .words) := by
  refine record_yields (((((Fields.Yields.required readIds_yields).map ?_).seq
    (.required readIds_yields)).seq (.required .any)).seq location_yields)
  intro params hparams returns hreturns canPanic _ location hlocation
  exact ⟨hparams, hreturns, hlocation⟩

theorem BlockExit.ofSexpr_yields : Reads.Yields BlockExit.ofSexpr (BlockExit.Uses .words) := by
  refine asVariant_yields ?_
  simp only [List.forall_mem_cons]
  refine ⟨readIds_yields.map fun _ h => h, ?_, asWord64_yields.map fun _ h => h,
    readIds_yields.map fun _ h => h, trivial, nofun⟩
  intro s readSecond hs
  obtain ⟨message, -, hs⟩ := Except.of_bind hs
  obtain rfl := Except.ok.inj hs
  exact readIds_yields.map fun _ h => h

theorem Block.ofSexpr_yields : Reads.Yields Block.ofSexpr (Block.Uses .words) := by
  refine record_yields ((((((Fields.Yields.optional Signature.ofSexpr_yields).map ?_).seq
    (.required .any)).seq (.required readIds_yields)).seq
    (.required BlockExit.ofSexpr_yields)).seq (.required readIds_yields))
  intro signature hsignature poison _ statements hstatements exit hexit diagnostics hdiagnostics
  exact ⟨hsignature, hstatements, hexit, hdiagnostics⟩

theorem Member.ofSexpr_yields : Reads.Yields Member.ofSexpr (Member.Uses .words) := by
  refine asVariant_yields ?_
  simp only [List.forall_mem_cons]
  exact ⟨trivial, asWord64_yields.map fun _ h => h, asWord64_yields.map fun _ h => h, nofun⟩

theorem BlockRef.ofSexpr_yields : Reads.Yields BlockRef.ofSexpr (BlockRef.Uses .words) := by
  refine asVariant_yields ?_
  simp only [List.forall_mem_cons]
  exact ⟨asWord64_yields.map fun _ h => h, Yields.any.map fun _ _ => trivial,
    Yields.any.map fun _ _ => trivial, trivial, nofun⟩

theorem Note.fields_yields : Note.fields.Yields (Note.Uses .words) := by
  refine ((Fields.Yields.required readIds_yields).map ?_).seq location_yields
  intro diagnostics hdiagnostics location hlocation
  exact ⟨hdiagnostics, hlocation⟩

/-- No constant can be read. -/
theorem Constant.ofSexpr_yields : Reads.Yields Constant.ofSexpr fun _ => False := by
  refine record_yields (((Fields.Yields.required (P := fun _ => False) nofun).map ?_).seq
    (.required .any))
  intro value hvalue
  exact hvalue.elim

theorem Statement.ofSexpr_yields :
    Reads.Yields Statement.ofSexpr fun s => s.Uses .words ∧ ¬ s.assignsConstant := by
  refine asVariant_yields ?_
  simp only [List.forall_mem_cons]
  refine ⟨?_, ?_, ?_, ?_, ?_, ?_, ?_, ?_, nofun⟩
  · refine record_yields ((((Fields.Yields.required .any).map ?_).seq
      (.required Constant.ofSexpr_yields)).seq Note.fields_yields)
    intro target _ value hvalue
    exact hvalue.elim
  · refine record_yields ((((Fields.Yields.required asWord64_yields).map ?_).seq
      (.required asWord64_yields)).seq Note.fields_yields)
    intro target htarget source hsource note hnote
    exact ⟨⟨htarget, hsource, hnote⟩, Bool.false_ne_true⟩
  · refine record_yields (((((Fields.Yields.required BlockRef.ofSexpr_yields).map ?_).seq
      (.required readIds_yields)).seq (.required readIds_yields)).seq Note.fields_yields)
    intro block hblock input hinput outputs houtputs note hnote
    exact ⟨⟨hblock, hinput, houtputs, hnote⟩, Bool.false_ne_true⟩
  · refine record_yields ((((Fields.Yields.required asWord64_yields).map ?_).seq
      (.required readIds_yields)).seq Note.fields_yields)
    intro target htarget initializer hinitializer note hnote
    exact ⟨⟨htarget, hinitializer, hnote⟩, Bool.false_ne_true⟩
  · refine record_yields ((((Fields.Yields.required asWord64_yields).map ?_).seq
      (.required readIds_yields)).seq Note.fields_yields)
    intro whole hwhole parts hparts note hnote
    exact ⟨⟨hwhole, hparts, hnote⟩, Bool.false_ne_true⟩
  · refine record_yields (((((Fields.Yields.required asWord64_yields).map ?_).seq
      (.required Member.ofSexpr_yields)).seq (.required asWord64_yields)).seq Note.fields_yields)
    intro handle hhandle member hmember target htarget note hnote
    exact ⟨⟨hhandle, hmember, htarget, hnote⟩, Bool.false_ne_true⟩
  · refine record_yields (((((Fields.Yields.required asWord64_yields).map ?_).seq
      (.required Member.ofSexpr_yields)).seq (.required asWord64_yields)).seq Note.fields_yields)
    intro handle hhandle member hmember value hvalue note hnote
    exact ⟨⟨hhandle, hmember, hvalue, hnote⟩, Bool.false_ne_true⟩
  · exact Yields.any.map fun _ _ => ⟨trivial, Bool.false_ne_true⟩

theorem MatchArm.ofSexpr_yields : Reads.Yields MatchArm.ofSexpr (MatchArm.Uses .words) := by
  refine record_yields ((((((Fields.Yields.required asWord64_yields).map ?_).seq
    (.required BlockRef.ofSexpr_yields)).seq (.required .any)).seq
    (.required readIds_yields)).seq location_yields)
  intro condition hcondition target htarget poison _ diagnostics hdiagnostics location hlocation
  exact ⟨hcondition, htarget, hdiagnostics, hlocation⟩

theorem Variable.ofSexpr_yields : Reads.Yields Variable.ofSexpr (Variable.Uses .words) := by
  refine record_yields ((((((Fields.Yields.required Ty.ofSexpr_yields).map ?_).seq
    (.required .any)).seq (.required .any)).seq (.required readIds_yields)).seq location_yields)
  intro typ htyp linkage _ poison _ diagnostics hdiagnostics location hlocation
  exact ⟨htyp, hdiagnostics, hlocation⟩

theorem ArrayType.ofSexpr_yields : Reads.Yields ArrayType.ofSexpr (ArrayType.Uses .words) := by
  refine record_yields ((((Fields.Yields.required Ty.ofSexpr_yields).map ?_).seq
    (.required asWord64_yields)).seq (.required .any))
  intro memberType hmemberType length hlength poison _
  exact ⟨hmemberType, hlength⟩

theorem StructType.ofSexpr_yields : Reads.Yields StructType.ofSexpr (StructType.Uses .words) := by
  refine record_yields (((((Fields.Yields.required .any).map ?_).seq (.required .any)).seq
    (.required (asList_yields Ty.ofSexpr_yields))).seq (.required .any))
  intro name _ memberNames _ members hmembers poison _
  exact hmembers

theorem Diagnostic.ofSexpr_yields : Reads.Yields Diagnostic.ofSexpr (Diagnostic.Uses .words) := by
  refine record_yields ((((Fields.Yields.required .any).map ?_).seq (.required .any)).seq
    location_yields)
  intro message _ poison _ location hlocation
  exact hlocation

theorem Location.ofSexpr_yields : Reads.Yields Location.ofSexpr (Location.Uses .words) := by
  refine record_yields ((((Fields.Yields.required .any).map ?_).seq
    (.optional asLine_yields)).seq (.required .any))
  intro source _ line hline poison _
  exact hline

/-! ### Objects -/

theorem Table.ofSexpr_yields {α : Type} {read : Reads α} {P : α → Prop}
    (h : Reads.Yields read P) :
    Reads.Yields (Table.ofSexpr read) fun t => ∀ a ∈ t.rows, P a := by
  refine record_yields ((Fields.Yields.required (asList_yields h)).map ?_)
  intro entries hentries
  exact hentries

theorem readSymbols_yields : Reads.Yields readSymbols fun p => ∀ x ∈ p, IsWord x.2 := by
  refine record_yields ((Fields.Yields.required (asMap_yields asWord64_yields)).map ?_)
  intro ps hps x hx
  exact hps x (Pairing.mem_of_mem_ofList hx)

theorem TypeTables.ofSexpr_yields : Reads.Yields TypeTables.ofSexpr fun t =>
    (∀ a ∈ t.arrays.rows, a.Uses .words) ∧ ∀ s ∈ t.structs.rows, s.Uses .words := by
  refine record_yields
    (((Fields.Yields.required (Table.ofSexpr_yields ArrayType.ofSexpr_yields)).map ?_).seq
      (.required (Table.ofSexpr_yields StructType.ofSexpr_yields)))
  intro arrays harrays structs hstructs
  exact ⟨harrays, hstructs⟩

/-- An object that is read has numbers with room in a text, and assigns no constant. -/
theorem Object.ofSexpr_yields : Reads.Yields Object.ofSexpr fun o =>
    o.Fits ∧ ¬ o.statements.rows.any Statement.assignsConstant := by
  refine record_yields ((((((((((Fields.Yields.required .any).map ?_).seq
    (.required readSymbols_yields)).seq
    (.required (Table.ofSexpr_yields Block.ofSexpr_yields))).seq
    (.required (Table.ofSexpr_yields Statement.ofSexpr_yields))).seq
    (.required (Table.ofSexpr_yields MatchArm.ofSexpr_yields))).seq
    (.required (Table.ofSexpr_yields Variable.ofSexpr_yields))).seq
    (.required TypeTables.ofSexpr_yields)).seq
    (.required (Table.ofSexpr_yields Diagnostic.ofSexpr_yields))).seq
    (.required (Table.ofSexpr_yields Location.ofSexpr_yields)))
  intro name _ symbols hsymbols blocks hblocks statements hstatements arms harms vars hvars types
    htypes diagnostics hdiagnostics locations hlocations
  refine ⟨⟨hsymbols, hblocks, fun s hs => (hstatements s hs).1, harms, hvars, htypes.1, htypes.2,
    hdiagnostics, hlocations⟩, ?_⟩
  intro hany
  obtain ⟨s, hs, hconstant⟩ := List.any_eq_true.1 hany
  exact (hstatements s hs).2 hconstant

/-! ### Texts -/

theorem Object.of_ofText {t : String} {o : Object} (h : Object.ofText t = .ok o) :
    o.isComplete ∧ ∃ s, Object.ofSexpr s = .ok o := by
  unfold Object.ofText at h
  split at h
  · cases h
  · split at h
    · cases h
    · rename_i s _ _ found hs
      split at h
      · rename_i hcomplete
        obtain rfl := Except.ok.inj h
        exact ⟨hcomplete, s, hs⟩
      · cases h

/-- An object with a text is read back from it, if its numbers are those of the machine. An object
that was read has a text, and is read back from that. -/
theorem Object.text_lossless (o : Object) :
    (o.Fits → ∀ t, o.text = .ok t → Object.ofText t = .ok o) ∧
      ∀ t, Object.ofText t = .ok o → ∃ t', o.text = .ok t' ∧ Object.ofText t' = .ok o := by
  constructor
  · intro hfits t ht
    exact Object.ofText_text hfits ht
  · intro t ht
    obtain ⟨hcomplete, s, hs⟩ := Object.of_ofText ht
    obtain ⟨hfits, hconstant⟩ := Object.ofSexpr_yields s o hs
    obtain ⟨t', ht'⟩ := Object.exists_text hcomplete hconstant
    exact ⟨t', ht', Object.ofText_text hfits ht'⟩

/-- An object whose strings have to be quoted, with handles to handles and an empty message. -/
def Object.quoted : Object where
  moduleName := "two words (and |bars|)"
  symbols := Pairing.empty.insert "" 1
  blocks := (Table.empty.insert ⟨none, .usable, [], .panic "\\" [1], []⟩).2
  statements := .empty
  matchArms := .empty
  vars := (Table.empty.insert ⟨.handle (.handle (.array 1) true) false, .external " ", .usable, [1],
    some 1⟩).2
  types := ⟨(Table.empty.insert ⟨.struct 1, 2, .usable⟩).2,
    (Table.empty.insert ⟨")", ["("], [.double], .undefined⟩).2⟩
  diagnostics := (Table.empty.insert ⟨"", .because "no\nreason", none⟩).2
  locations := (Table.empty.insert ⟨"a b.c", some 7, .usable⟩).2

theorem Object.quoted_fits : Object.quoted.Fits := by
  have hone : ∀ id ∈ some 1, IsWord id := by
    rintro id ⟨⟩
    exact Nat.one_lt_two_pow (by decide)
  have hones : ∀ id ∈ [1], IsWord id := by
    rintro id (_ | ⟨_, ⟨⟩⟩)
    exact hone 1 rfl
  have hword : IsWord 1 := hone 1 rfl
  refine Object.Uses.fits ⟨fun p hp => ?_, ⟨_, rfl, ?_⟩, ⟨_, rfl, nofun⟩, ⟨_, rfl, nofun⟩,
    ⟨_, rfl, ?_⟩, ⟨_, rfl, ?_⟩, ⟨_, rfl, ?_⟩, ⟨_, rfl, ?_⟩, ⟨_, rfl, ?_⟩⟩
  · obtain rfl := List.mem_singleton.1 hp
    exact hword
  · exact List.forall_mem_singleton.2 ⟨nofun, nofun, hones, nofun⟩
  · exact List.forall_mem_singleton.2 ⟨hword, hones, hone⟩
  · exact List.forall_mem_singleton.2 ⟨hword, show 2 < 2 ^ 64 by decide⟩
  · exact List.forall_mem_singleton.2 (List.forall_mem_singleton.2 trivial)
  · exact List.forall_mem_singleton.2 nofun
  · refine List.forall_mem_singleton.2 ?_
    rintro n ⟨⟩
    exact ⟨by decide, by decide⟩

theorem Object.quoted_lossless : ∃ t, Object.quoted.text = .ok t ∧
    Object.ofText t = .ok Object.quoted ∧
    ∃ t', Object.quoted.text = .ok t' ∧ Object.ofText t' = .ok Object.quoted := by
  obtain ⟨t, ht⟩ : ∃ t, Object.quoted.text = .ok t := ⟨_, rfl⟩
  have hread := (Object.text_lossless Object.quoted).1 Object.quoted_fits t ht
  exact ⟨t, ht, hread, (Object.text_lossless Object.quoted).2 t hread⟩

end Flo

end GimpleLowering
