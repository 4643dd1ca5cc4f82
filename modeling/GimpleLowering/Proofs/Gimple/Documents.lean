import GimpleLowering.Gimple.Wire.Writer
import GimpleLowering.Proofs.Gimple.Wire
import GimpleLowering.Proofs.Json.Records

/-!
# Documents of units

The document of a unit that fits is read as this unit, wherever there is room for its nesting and if
each real number in it is written so that it is read back. This holds part by part: of types and
operands by induction on their structure, and of everything else because it is made of those. A
reader that may call itself as often as the document is nested never runs out of calls.

## Main definitions

* `Gimple.Expr.reals`, `Statement.reals`, `CompilationUnit.reals` — the real constants of a unit

## Main results

* `Gimple.Ty.Fits.holds_read` — types are read back
* `Gimple.CompilationUnit.Fits.holds` — units are read back
-/

namespace GimpleLowering.Gimple

open Json
open Json.Document (holds_double holds_int holds_list holds_record holds_tagged holds_tagged_fields
  holds_text holds_word32 holds_word64 exists_of_nesting_list_le exists_of_nesting_record_le)

variable {α : Type}

/-- A value that may be absent is read back if it is not written like an absent one. -/
theorem holds_option {read : Nat → Document → Except Defect α} {write : α → Document}
    {o : Option α} (h : ∀ a ∈ o, (write a).Holds read a) (hne : ∀ a, write a ≠ .null) :
    (optionDocument write o).Holds (fun depth => Document.asOption (read depth)) o := by
  cases o with
  | none => exact ⟨Document.isWhole_null, fun _ => rfl⟩
  | some a =>
    have ha := h a rfl
    refine ⟨ha.whole, fun hn => ?_⟩
    rw [optionDocument, Document.asOption_of_ne_null (hne a), ha.reads hn]
    rfl

/-! ### Types -/

/-- The document of a field. -/
def Field.document (f : Field) : Document :=
  .record [("name", .text f.name), ("type", f.ty.document)]

theorem Field.documents_eq_map (fs : List Field) :
    Field.documents fs = fs.map Field.document := by
  induction fs with
  | nil => rfl
  | cons f fs ih =>
    obtain ⟨name, ty⟩ := f
    rw [Field.documents, ih, List.map_cons, Field.document]

theorem Field.holds {f : Field} {readTy : Nat → Document → Except Defect Ty} {takenIn : Bool}
    (h : f.ty.document.Holds readTy f.ty) :
    f.document.Holds (Field.readWith readTy takenIn) f := by
  obtain ⟨name, ty⟩ := f
  have hname := holds_text name
  exact holds_record (by simp [hname.whole, h.whole]) fun hn =>
    ((hname.required rfl hn).map Field.mk).seq (h.required rfl hn)

namespace Ty

/-- A type is read from its document, if the reader may call itself as often as that is nested. -/
theorem Fits.holds {ty : Ty} (h : ty.Fits) {calls : Nat} (hcalls : ty.document.nesting ≤ calls)
    {takenIn : Bool} : ty.document.Holds (readWithin calls takenIn) ty := by
  induction h generalizing calls takenIn with
  | integer h | real h =>
    obtain ⟨calls, rfl, -⟩ := exists_of_nesting_record_le hcalls
    have hw := holds_word32 h
    exact holds_tagged_fields (fun _ _ => rfl) rfl (by simp)
      (by simp [hw.whole]) (fun _ _ => rfl) fun hn => (hw.required rfl hn).map _
  | boolean =>
    obtain ⟨calls, rfl, -⟩ := exists_of_nesting_record_le hcalls
    exact holds_tagged (fun _ _ => rfl) rfl (by simp) (by simp) fun _ => rfl
  | pointer h ih | reference h ih =>
    obtain ⟨calls, rfl, hroom⟩ := exists_of_nesting_record_le hcalls
    have hb := @ih calls (hroom ("base_type", _) (by simp)) true
    exact holds_tagged_fields (fun _ _ => rfl) rfl (by simp)
      (by simp [hb.whole]) (fun _ _ => rfl) fun hn => (hb.required rfl hn).map _
  | array h hlength ih =>
    obtain ⟨calls, rfl, hroom⟩ := exists_of_nesting_record_le hcalls
    have hb := @ih calls (hroom ("base_type", _) (by simp)) true
    have hl := holds_word64 hlength
    exact holds_tagged_fields (fun _ _ => rfl) rfl (by simp)
      (by simp [hb.whole, hl.whole]) (fun _ _ => rfl) fun hn =>
        ((hb.required rfl hn).map _).seq (hl.required rfl hn)
  | @record name fields h ih =>
    rw [document, Field.documents_eq_map] at hcalls ⊢
    obtain ⟨calls, rfl, hroom⟩ := exists_of_nesting_record_le hcalls
    -- The type of a field is two levels further down, so there are calls to spare.
    obtain ⟨k, rfl, hlist⟩ := exists_of_nesting_list_le
      (hroom ("fields", .list (fields.map Field.document)) (by simp))
    have hf : ∀ f ∈ fields, f.document.Holds
        (Field.readWith (readWithin (k + 1) true) true) f := by
      intro f hf
      obtain ⟨j, rfl, hfield⟩ := exists_of_nesting_record_le
        (hlist f.document (List.mem_map_of_mem hf))
      have hty : f.ty.document.nesting ≤ j := hfield ("type", f.ty.document) (by simp)
      exact Field.holds (ih f hf (by omega))
    have hn := holds_text name
    have hfs := holds_list hf
    exact holds_tagged_fields (fun _ _ => rfl) rfl (by simp)
      (by simp [hn.whole, hfs.whole]) (fun _ _ => rfl) fun hroom =>
        ((hn.defaulted rfl hroom).map _).seq (hfs.defaulted rfl hroom)

/-- A type is read from its document. -/
theorem Fits.holds_read {ty : Ty} (h : ty.Fits) : ty.document.Holds read ty :=
  have hself := @Fits.holds ty h _ (Nat.le_refl _) false
  ⟨hself.whole, fun hn => (h.holds (by omega)).reads hn⟩

/-- A type is read from its document also as a part of an operand. -/
theorem Fits.holds_readPart {ty : Ty} (h : ty.Fits) : ty.document.Holds readPart ty :=
  ⟨h.holds_read.whole, fun hn => (h.holds (by omega)).reads hn⟩

end Ty

/-! ### Operands -/

/-- The real constants in the operand. -/
def Expr.reals : Expr → List Double
  | real _ value => [value]
  | integer _ _ | named _ _ => []
  | component _ value _ | deref _ value | address _ value => value.reals
  | element _ array index => array.reals ++ index.reals

/-- The numbers are written as numerals that have a text and are read as the same numbers. -/
def WritesBack (write : Double → Numeral) (xs : List Double) : Prop :=
  ∀ x ∈ xs, (write x).reading = some (.double x) ∧ ∃ s, (write x).IsText s

variable {write : Double → Numeral}

theorem WritesBack.append_iff {xs ys : List Double} :
    WritesBack write (xs ++ ys) ↔ WritesBack write xs ∧ WritesBack write ys :=
  List.forall_mem_append

theorem holds_real {x : Double} (h : x.isFinite) (hx : WritesBack write [x]) :
    (realDocument write x).Holds (fun _ => Document.asDouble) x := by
  rw [realDocument, if_pos h]
  obtain ⟨hreading, htext⟩ := hx x (by simp)
  exact holds_double hreading htext

namespace Expr

/-- An operand is read from its document, if the reader may call itself as often as that is
nested. -/
theorem Fits.holds {e : Expr} (h : e.Fits) (hwrite : WritesBack write e.reals) {calls : Nat}
    (hcalls : (e.documentWith write).nesting ≤ calls) {takenIn : Bool} :
    (e.documentWith write).Holds (readWithin calls takenIn) e := by
  induction e generalizing calls takenIn with
  | integer ty value =>
    obtain ⟨calls, rfl, -⟩ := exists_of_nesting_record_le hcalls
    have hty := h.1.holds_readPart
    have hvalue := holds_int h.2
    exact holds_tagged_fields (fun _ _ => rfl) rfl (by simp)
      (by simp [hty.whole, hvalue.whole]) (fun _ _ => rfl) fun hn =>
        ((hty.required rfl hn).map _).seq (hvalue.required rfl hn)
  | real ty value =>
    obtain ⟨calls, rfl, -⟩ := exists_of_nesting_record_le hcalls
    have hty := h.1.holds_readPart
    have hvalue := holds_real h.2 hwrite
    exact holds_tagged_fields (fun _ _ => rfl) rfl (by simp)
      (by simp [hty.whole, hvalue.whole]) (fun _ _ => rfl) fun hn =>
        ((hty.required rfl hn).map _).seq (hvalue.required rfl hn)
  | named ty name =>
    obtain ⟨calls, rfl, -⟩ := exists_of_nesting_record_le hcalls
    have hty := Ty.Fits.holds_readPart h
    have hname := holds_text name
    exact holds_tagged_fields (fun _ _ => rfl) rfl (by simp)
      (by simp [hty.whole, hname.whole]) (fun _ _ => rfl) fun hn =>
        ((hty.required rfl hn).map _).seq (hname.required rfl hn)
  | component ty value member ih =>
    obtain ⟨calls, rfl, hroom⟩ := exists_of_nesting_record_le hcalls
    have hty := h.1.holds_readPart
    have hvalue := @ih h.2 hwrite calls (hroom ("value", _) (by simp)) true
    have hmember := holds_text member
    exact holds_tagged_fields (fun _ _ => rfl) rfl (by simp)
      (by simp [hty.whole, hvalue.whole, hmember.whole]) (fun _ _ => rfl) fun hn =>
        (((hty.required rfl hn).map _).seq (hvalue.required rfl hn)).seq (hmember.required rfl hn)
  | deref ty pointer ih =>
    obtain ⟨calls, rfl, hroom⟩ := exists_of_nesting_record_le hcalls
    have hty := h.1.holds_readPart
    have hpointer := @ih h.2 hwrite calls (hroom ("pointer", _) (by simp)) true
    exact holds_tagged_fields (fun _ _ => rfl) rfl (by simp)
      (by simp [hty.whole, hpointer.whole]) (fun _ _ => rfl) fun hn =>
        ((hty.required rfl hn).map _).seq (hpointer.required rfl hn)
  | element ty array index iharray ihindex =>
    obtain ⟨calls, rfl, hroom⟩ := exists_of_nesting_record_le hcalls
    obtain ⟨hwarray, hwindex⟩ := WritesBack.append_iff.1 hwrite
    have hty := h.1.holds_readPart
    have harray := @iharray h.2.1 hwarray calls (hroom ("array", _) (by simp)) true
    have hindex := @ihindex h.2.2 hwindex calls (hroom ("index", _) (by simp)) true
    exact holds_tagged_fields (fun _ _ => rfl) rfl (by simp)
      (by simp [hty.whole, harray.whole, hindex.whole]) (fun _ _ => rfl) fun hn =>
        (((hty.required rfl hn).map _).seq (harray.required rfl hn)).seq (hindex.required rfl hn)
  | address ty value ih =>
    obtain ⟨calls, rfl, hroom⟩ := exists_of_nesting_record_le hcalls
    have hty := h.1.holds_readPart
    have hvalue := @ih h.2 hwrite calls (hroom ("value", _) (by simp)) true
    exact holds_tagged_fields (fun _ _ => rfl) rfl (by simp)
      (by simp [hty.whole, hvalue.whole]) (fun _ _ => rfl) fun hn =>
        ((hty.required rfl hn).map _).seq (hvalue.required rfl hn)

/-- An operand is read from its document as a part of a statement. -/
theorem Fits.holds_readPart {e : Expr} (h : e.Fits) (hwrite : WritesBack write e.reals) :
    (e.documentWith write).Holds readPart e :=
  have hself := @Fits.holds write e h hwrite _ (Nat.le_refl _) true
  ⟨hself.whole, fun hn => (h.holds hwrite (by omega)).reads hn⟩

theorem documentWith_ne_null (e : Expr) : e.documentWith write ≠ .null := by
  cases e <;> exact nofun

end Expr

/-! ### Statements -/

theorem Operator.readPart_name (op : Operator) : readPart (.text op.name) = .ok op := by
  cases op <;> rfl

theorem Operator.holds_name (op : Operator) :
    (Document.text op.name).Holds (fun _ => readPart) op :=
  ⟨Document.isWhole_text op.name, fun _ => op.readPart_name⟩

theorem Case.Fits.holds {c : Case} (h : c.Fits) : c.document.Holds Case.read c := by
  have hlow := holds_int h.low
  have hhigh := holds_option (fun i hi => holds_int (h.high i hi)) fun _ => nofun
  have hblock := holds_word32 h.block
  exact holds_record (by simp [hlow.whole, hhigh.whole, hblock.whole]) fun hn =>
    (((hlow.required rfl hn).map Case.mk).seq (hhigh.defaulted rfl hn)).seq (hblock.required rfl hn)

/-- The real constants in the operands of the statement. -/
def Statement.reals : Statement → List Double
  | assign _ lhs operands _ => lhs.reals ++ operands.flatMap Expr.reals
  | call _ arguments lhs _ => arguments.flatMap Expr.reals ++ lhs.toList.flatMap Expr.reals
  | conditional _ operands _ _ _ => operands.flatMap Expr.reals
  | ret value _ => value.toList.flatMap Expr.reals
  | goto _ _ => []
  | switch value _ _ _ => value.reals

theorem WritesBack.of_mem {as : List α} {reals : α → List Double}
    (h : WritesBack write (as.flatMap reals)) {a : α} (ha : a ∈ as) : WritesBack write (reals a) :=
  fun x hx => h x (List.mem_flatMap.2 ⟨a, ha, hx⟩)

theorem Expr.holds_operands {es : List Expr} (h : ∀ e ∈ es, e.Fits)
    (hwrite : WritesBack write (es.flatMap Expr.reals)) :
    (Document.list (es.map (Expr.documentWith write))).Holds (Document.asList Expr.readPart) es :=
  holds_list fun e he => (h e he).holds_readPart (hwrite.of_mem he)

theorem Expr.holds_option {o : Option Expr} (h : ∀ e ∈ o, e.Fits)
    (hwrite : WritesBack write (o.toList.flatMap Expr.reals)) :
    (optionDocument (Expr.documentWith write) o).Holds
      (fun depth => Document.asOption (Expr.readPart depth)) o :=
  Gimple.holds_option (fun e he => (h e he).holds_readPart (hwrite.of_mem (Option.mem_toList.2 he)))
    documentWith_ne_null

/-- A statement is read from its document. -/
theorem Statement.Fits.holds {s : Statement} (h : s.Fits) (hwrite : WritesBack write s.reals) :
    (s.documentWith write).Holds read s := by
  have hparts := h.parts
  have hline := holds_option (fun n hn => holds_word32 (h.line n hn)) fun _ => nofun
  cases s with
  | assign op lhs operands line =>
    obtain ⟨hwlhs, hwoperands⟩ := WritesBack.append_iff.1 hwrite
    have hop := op.holds_name
    have hlhs := hparts.1.holds_readPart hwlhs
    have hoperands := Expr.holds_operands hparts.2 hwoperands
    exact holds_tagged_fields (fun _ _ => rfl) rfl (by simp)
      (by simp [hop.whole, hlhs.whole, hoperands.whole, hline.whole]) (fun _ _ => rfl) fun hn =>
        ((((hop.required rfl hn).map _).seq (hlhs.required rfl hn)).seq
          (hoperands.required rfl hn)).seq (hline.defaulted rfl hn)
  | call function arguments lhs line =>
    obtain ⟨hwarguments, hwlhs⟩ := WritesBack.append_iff.1 hwrite
    have hfunction := holds_text function
    have harguments := Expr.holds_operands hparts.1 hwarguments
    have hlhs := Expr.holds_option hparts.2 hwlhs
    exact holds_tagged_fields (fun _ _ => rfl) rfl (by simp)
      (by simp [hfunction.whole, harguments.whole, hlhs.whole, hline.whole]) (fun _ _ => rfl)
      fun hn => ((((hfunction.required rfl hn).map _).seq (harguments.defaulted rfl hn)).seq
        (hlhs.defaulted rfl hn)).seq (hline.defaulted rfl hn)
  | conditional op operands trueLabel falseLabel line =>
    have hop := op.holds_name
    have hoperands := Expr.holds_operands hparts.1 hwrite
    have htrue := holds_word32 hparts.2.1
    have hfalse := holds_word32 hparts.2.2
    exact holds_tagged_fields (fun _ _ => rfl) rfl (by simp)
      (by simp [hop.whole, hoperands.whole, htrue.whole, hfalse.whole, hline.whole])
      (fun _ _ => rfl) fun hn =>
        (((((hop.required rfl hn).map _).seq (hoperands.required rfl hn)).seq
          (htrue.required rfl hn)).seq (hfalse.required rfl hn)).seq (hline.defaulted rfl hn)
  | ret value line =>
    have hvalue := Expr.holds_option hparts hwrite
    exact holds_tagged_fields (fun _ _ => rfl) rfl (by simp)
      (by simp [hvalue.whole, hline.whole]) (fun _ _ => rfl) fun hn =>
        ((hvalue.defaulted rfl hn).map _).seq (hline.defaulted rfl hn)
  | goto target line =>
    have htarget := holds_word32 hparts
    exact holds_tagged_fields (fun _ _ => rfl) rfl (by simp)
      (by simp [htarget.whole, hline.whole]) (fun _ _ => rfl) fun hn =>
        ((htarget.required rfl hn).map _).seq (hline.defaulted rfl hn)
  | switch value cases default line =>
    have hvalue := hparts.1.holds_readPart hwrite
    have hcases := holds_list fun c hc => (hparts.2.1 c hc).holds
    have hdefault := holds_word32 hparts.2.2
    exact holds_tagged_fields (fun _ _ => rfl) rfl (by simp)
      (by simp [hvalue.whole, hcases.whole, hdefault.whole, hline.whole]) (fun _ _ => rfl) fun hn =>
        ((((hvalue.required rfl hn).map _).seq (hcases.defaulted rfl hn)).seq
          (hdefault.required rfl hn)).seq (hline.defaulted rfl hn)

/-! ### Functions and units -/

theorem Declaration.holds {v : Declaration} (h : v.ty.Fits) : v.document.Holds read v := by
  have hname := holds_text v.name
  have hty := h.holds_read
  exact holds_record (by simp [hname.whole, hty.whole]) fun hn =>
    ((hname.required rfl hn).map Declaration.mk).seq (hty.required rfl hn)

theorem Ty.document_ne_null (ty : Ty) : ty.document ≠ .null := by
  cases ty <;> exact nofun

theorem Ty.holds_option {o : Option Ty} (h : ∀ ty ∈ o, ty.Fits) :
    (optionDocument Ty.document o).Holds (fun depth => Document.asOption (Ty.read depth)) o :=
  Gimple.holds_option (fun ty hty => (h ty hty).holds_read) document_ne_null

theorem Signature.Fits.holds {s : Signature} (h : s.Fits) : s.document.Holds read s := by
  have hname := holds_text s.name
  have hparameters := holds_list fun ty hty => (h.parameterTypes ty hty).holds_read
  have hreturn := Ty.holds_option h.returnType
  exact holds_record (by simp [hname.whole, hparameters.whole, hreturn.whole]) fun hn =>
    (((hname.required rfl hn).map Signature.mk).seq (hparameters.defaulted rfl hn)).seq
      (hreturn.defaulted rfl hn)

theorem RecordDefinition.holds {r : RecordDefinition} (h : r.ty.Fits) :
    r.document.Holds read r := by
  have hname := holds_text r.name
  have hfields := holds_list fun f hf =>
    @Field.holds f Ty.read false (h.part (.field hf)).holds_read
  rw [← Field.documents_eq_map] at hfields
  exact holds_record (by simp [hname.whole, hfields.whole]) fun hn =>
    ((hname.required rfl hn).map RecordDefinition.mk).seq (hfields.required rfl hn)

/-- The real constants in the statements of the function. -/
def Function.reals (f : Function) : List Double :=
  f.blocks.flatMap fun b => b.statements.flatMap Statement.reals

/-- The real constants in the functions of the unit. -/
def CompilationUnit.reals (u : CompilationUnit) : List Double := u.functions.flatMap Function.reals

theorem Block.Fits.holds {b : Block} (h : b.Fits)
    (hwrite : WritesBack write (b.statements.flatMap Statement.reals)) :
    (b.documentWith write).Holds read b := by
  have hindex := holds_word32 h.index
  have hstatements := holds_list fun s hs => (h.statements s hs).holds (hwrite.of_mem hs)
  exact holds_record (by simp [hindex.whole, hstatements.whole]) fun hn =>
    ((hindex.required rfl hn).map Block.mk).seq (hstatements.defaulted rfl hn)

/-- A function is read from its document. -/
theorem Function.Fits.holds {f : Function} (h : f.Fits) (hwrite : WritesBack write f.reals) :
    (f.documentWith write).Holds read f := by
  have hname := holds_text f.name
  have hparameters := holds_list fun p hp => Declaration.holds (h.parameters p hp)
  have hreturn := Ty.holds_option h.returnType
  have hentry := holds_word32 h.entryBlock
  have hlocals := holds_list fun v hv => Declaration.holds (h.locals v hv)
  have hblocks := holds_list fun b hb => (h.blocks b hb).holds (hwrite.of_mem hb)
  exact holds_record (by simp [hname.whole, hparameters.whole, hreturn.whole, hentry.whole,
    hlocals.whole, hblocks.whole]) fun hn =>
      ((((((hname.required rfl hn).map Function.mk).seq (hparameters.defaulted rfl hn)).seq
        (hreturn.defaulted rfl hn)).seq (hentry.required rfl hn)).seq
        (hlocals.defaulted rfl hn)).seq (hblocks.required rfl hn)

/-- A unit is read from its document. -/
theorem CompilationUnit.Fits.holds {u : CompilationUnit} (h : u.Fits)
    (hwrite : WritesBack write u.reals) : (u.documentWith write).Holds read u := by
  have hfile := @holds_option _ _ Document.text u.sourceFile (fun s _ => holds_text s)
    fun _ => nofun
  have hfunctions := holds_list fun f hf => (h.functions f hf).holds (hwrite.of_mem hf)
  have hglobals := holds_list fun g hg => Declaration.holds (h.globals g hg)
  have hrecords := holds_list fun r hr => RecordDefinition.holds (h.records r hr)
  have hdeclarations := holds_list fun s hs => (h.declarations s hs).holds
  exact holds_record (by simp [hfile.whole, hfunctions.whole, hglobals.whole, hrecords.whole,
    hdeclarations.whole]) fun hn =>
      (((((hfile.defaulted rfl hn).map CompilationUnit.mk).seq (hfunctions.defaulted rfl hn)).seq
        (hglobals.defaulted rfl hn)).seq (hrecords.defaulted rfl hn)).seq
        (hdeclarations.defaulted rfl hn)

end GimpleLowering.Gimple
