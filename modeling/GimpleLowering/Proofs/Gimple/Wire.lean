import GimpleLowering.Compilation
import GimpleLowering.Proofs.Gimple.Occurrence
import GimpleLowering.Proofs.Json.Fields
import GimpleLowering.Proofs.Number.Finite

/-!
# Units that fit

The numbers in a document have sizes. Widths, lines, labels and indices of blocks have thirty-two
bits and lengths of arrays sixty-four; integer constants and the bounds of cases are signed integers
of sixty-four bits, and real constants are finite. A unit whose numbers are of these sizes fits.

Every unit that is read from a text fits, since the readers refuse all other numbers, and there is
no text for a number that is not finite. Numbers are anywhere in types and operands, and what is
said of one reader carries over to those that call it.

## Main definitions

* `Gimple.Ty.Fits`, `Expr.Fits`, `Statement.Fits`, `CompilationUnit.Fits` — numbers have their sizes

## Main results

* `Gimple.CompilationUnit.fits_of_ofText` — units that are read from texts fit
* `Gimple.CompilationUnit.Fits.length_lt` — the lengths of arrays in a unit that fits
-/

namespace GimpleLowering.Gimple

open Json Json.Fields

/-! ### Values that fit -/

/-- The numbers in the type have their sizes. -/
inductive Ty.Fits : Ty → Prop where
  | integer {width : Nat} (h : width < 2 ^ 32) : Fits (.integer width)
  | real {width : Nat} (h : width < 2 ^ 32) : Fits (.real width)
  | boolean : Fits .boolean
  | pointer {base : Ty} (h : Fits base) : Fits (.pointer base)
  | reference {base : Ty} (h : Fits base) : Fits (.reference base)
  | array {base : Ty} {length : Nat} (h : Fits base) (hlength : length < 2 ^ 64) :
      Fits (.array base length)
  | record {name : String} {fields : List Field} (h : ∀ f ∈ fields, Fits f.ty) :
      Fits (.record name fields)

/-- The numbers in the operand have their sizes, and its real constants are finite. -/
def Expr.Fits : Expr → Prop
  | integer ty value => ty.Fits ∧ -2 ^ 63 ≤ value ∧ value < 2 ^ 63
  | real ty value => ty.Fits ∧ value.isFinite
  | named ty _ => ty.Fits
  | component ty value _ | deref ty value | address ty value => ty.Fits ∧ value.Fits
  | element ty array index => ty.Fits ∧ array.Fits ∧ index.Fits

/-- The numbers in the case have their sizes. -/
structure Case.Fits (c : Case) : Prop where
  low : -2 ^ 63 ≤ c.low ∧ c.low < 2 ^ 63
  high : ∀ i ∈ c.high, -2 ^ 63 ≤ i ∧ i < 2 ^ 63
  block : c.block < 2 ^ 32

/-- The numbers in the statement have their sizes, apart from its line. -/
def Statement.PartsFit : Statement → Prop
  | assign _ lhs operands _ => lhs.Fits ∧ ∀ e ∈ operands, e.Fits
  | call _ arguments lhs _ => (∀ e ∈ arguments, e.Fits) ∧ ∀ e ∈ lhs, e.Fits
  | conditional _ operands trueLabel falseLabel _ =>
    (∀ e ∈ operands, e.Fits) ∧ trueLabel < 2 ^ 32 ∧ falseLabel < 2 ^ 32
  | ret value _ => ∀ e ∈ value, e.Fits
  | goto target _ => target < 2 ^ 32
  | switch value cases default _ => value.Fits ∧ (∀ c ∈ cases, c.Fits) ∧ default < 2 ^ 32

/-- The numbers in the statement have their sizes. -/
structure Statement.Fits (s : Statement) : Prop where
  parts : s.PartsFit
  line : ∀ n ∈ s.line, n < 2 ^ 32

/-- The numbers in the block have their sizes. -/
structure Block.Fits (b : Block) : Prop where
  index : b.index < 2 ^ 32
  statements : ∀ s ∈ b.statements, s.Fits

/-- The numbers in the function have their sizes. -/
structure Function.Fits (f : Function) : Prop where
  parameters : ∀ p ∈ f.parameters, p.ty.Fits
  returnType : ∀ ty ∈ f.returnType, ty.Fits
  entryBlock : f.entryBlock < 2 ^ 32
  locals : ∀ v ∈ f.locals, v.ty.Fits
  blocks : ∀ b ∈ f.blocks, b.Fits

/-- The numbers in the signature have their sizes. -/
structure Signature.Fits (s : Signature) : Prop where
  parameterTypes : ∀ ty ∈ s.parameterTypes, ty.Fits
  returnType : ∀ ty ∈ s.returnType, ty.Fits

/-- The numbers in the unit have their sizes. -/
structure CompilationUnit.Fits (u : CompilationUnit) : Prop where
  functions : ∀ f ∈ u.functions, f.Fits
  globals : ∀ g ∈ u.globals, g.ty.Fits
  records : ∀ r ∈ u.records, r.ty.Fits
  declarations : ∀ s ∈ u.declarations, s.Fits

/-! ### Types -/

namespace Ty

theorem fits_of_field {readTy : Nat → Document → Except Defect Ty} {takenIn : Bool} {depth : Nat}
    {d : Document} {f : Field}
    (hty : ∀ {depth : Nat} {d : Document} {ty : Ty}, readTy depth d = .ok ty → ty.Fits)
    (h : Field.readWith readTy takenIn depth d = .ok f) : f.ty.Fits := by
  obtain ⟨_, h⟩ := gives_of_record h
  obtain ⟨_, ty, hname, hread, rfl⟩ := h.seq
  obtain ⟨name, -, rfl⟩ := hname.map
  obtain ⟨d, hd⟩ := hread.required
  exact hty hd

theorem fits_of_readWithin {calls : Nat} {takenIn : Bool} {depth : Nat} {d : Document} {ty : Ty}
    (h : readWithin calls takenIn depth d = .ok ty) : ty.Fits := by
  induction calls generalizing takenIn depth d ty with
  | zero => cases h
  | succ calls ih =>
    unfold readWithin at h
    obtain ⟨⟨kind, parts⟩, -, h⟩ := Except.of_bind h
    have hwidth : ∀ {w : Nat}, (required ["width", "precision"] Document.asWord32).Gives w →
        w < 2 ^ 32 := fun hw =>
      have ⟨_, hd⟩ := hw.required
      Document.asWord32_lt hd
    have hbase : ∀ {ty : Ty},
        (required ["base_type"] (readWithin calls true (depth - 1))).Gives ty → ty.Fits :=
      fun hty =>
        have ⟨_, hd⟩ := hty.required
        ih hd
    cases kind with
    | integer =>
      obtain ⟨w, hw, rfl⟩ := (gives_of_payload h).map
      exact .integer (hwidth hw)
    | real =>
      obtain ⟨w, hw, rfl⟩ := (gives_of_payload h).map
      exact .real (hwidth hw)
    | boolean =>
      have hty : ty = .boolean := by
        cases parts with
        | members ms => exact (Except.ok.inj h).symm
        | items ds =>
          obtain ⟨_, _, h⟩ := gives_of_payload h
          exact (Except.ok.inj h).symm
      exact hty ▸ .boolean
    | pointer =>
      obtain ⟨base, hb, rfl⟩ := (gives_of_payload h).map
      exact .pointer (hbase hb)
    | reference =>
      obtain ⟨base, hb, rfl⟩ := (gives_of_payload h).map
      exact .reference (hbase hb)
    | array =>
      obtain ⟨_, n, hrest, hlength, rfl⟩ := (gives_of_payload h).seq
      obtain ⟨base, hb, rfl⟩ := hrest.map
      obtain ⟨_, hn⟩ := hlength.required
      exact .array (hbase hb) (Document.asWord64_lt hn)
    | record =>
      obtain ⟨_, fields, hname, hfields, rfl⟩ := (gives_of_payload h).seq
      obtain ⟨name, -, rfl⟩ := hname.map
      refine .record fun f hf => ?_
      obtain ⟨_, _, hd⟩ := hfields.list hf
      exact fits_of_field ih hd

theorem fits_of_read {depth : Nat} {d : Document} {ty : Ty} (h : read depth d = .ok ty) :
    ty.Fits :=
  fits_of_readWithin h

theorem Fits.part {ty part : Ty} (h : ty.Fits) (hp : ty.HasPart part) : part.Fits := by
  cases hp with
  | pointer => cases h; assumption
  | reference => cases h; assumption
  | array => cases h; assumption
  | field mem =>
    cases h with
    | record h => exact h _ mem

end Ty

theorem Declaration.fits_of_read {depth : Nat} {d : Document} {decl : Declaration}
    (h : read depth d = .ok decl) : decl.ty.Fits := by
  obtain ⟨_, h⟩ := gives_of_record h
  obtain ⟨_, ty, hname, hty, rfl⟩ := h.seq
  obtain ⟨name, -, rfl⟩ := hname.map
  obtain ⟨d, hd⟩ := hty.required
  exact Ty.fits_of_read hd

theorem Signature.fits_of_read {depth : Nat} {d : Document} {s : Signature}
    (h : read depth d = .ok s) : s.Fits := by
  obtain ⟨_, h⟩ := gives_of_record h
  obtain ⟨_, result, hrest, hresult, rfl⟩ := h.seq
  obtain ⟨_, parameters, hname, hparameters, rfl⟩ := hrest.seq
  obtain ⟨name, -, rfl⟩ := hname.map
  refine ⟨fun ty hty => ?_, fun ty hty => ?_⟩
  · obtain ⟨_, _, hd⟩ := hparameters.list hty
    exact Ty.fits_of_read hd
  · obtain ⟨_, hd⟩ := hresult.optional hty
    exact Ty.fits_of_read hd

theorem RecordDefinition.fits_of_read {depth : Nat} {d : Document} {r : RecordDefinition}
    (h : read depth d = .ok r) : r.ty.Fits := by
  obtain ⟨_, h⟩ := gives_of_record h
  obtain ⟨_, fields, hname, hfields, rfl⟩ := h.seq
  obtain ⟨name, -, rfl⟩ := hname.map
  obtain ⟨d, hlist⟩ := hfields.required
  refine .record fun f hf => ?_
  obtain ⟨_, _, hd⟩ := Document.mem_of_asList hlist hf
  exact Ty.fits_of_field Ty.fits_of_read hd

/-! ### Operands -/

theorem Expr.fits_of_readWithin {calls : Nat} {takenIn : Bool} {depth : Nat} {d : Document}
    {e : Expr} (h : readWithin calls takenIn depth d = .ok e) : e.Fits := by
  induction calls generalizing takenIn depth d e with
  | zero => cases h
  | succ calls ih =>
    unfold readWithin at h
    obtain ⟨⟨shape, parts⟩, -, h⟩ := Except.of_bind h
    have htype : ∀ {ty : Ty}, (required ["type"] (Ty.readPart (depth - 1))).Gives ty → ty.Fits :=
      fun hty =>
        have ⟨_, hd⟩ := hty.required
        Ty.fits_of_readWithin hd
    have hpart : ∀ {name : String} {e : Expr},
        (required [name] (readWithin calls true (depth - 1))).Gives e → e.Fits := fun he =>
      have ⟨_, hd⟩ := he.required
      ih hd
    cases shape with
    | integer =>
      obtain ⟨_, value, hrest, hvalue, rfl⟩ := (gives_of_payload h).seq
      obtain ⟨ty, hty, rfl⟩ := hrest.map
      obtain ⟨_, hd⟩ := hvalue.required
      exact ⟨htype hty, Document.asSigned64_bounds hd⟩
    | real =>
      obtain ⟨_, value, hrest, hvalue, rfl⟩ := (gives_of_payload h).seq
      obtain ⟨ty, hty, rfl⟩ := hrest.map
      obtain ⟨_, hd⟩ := hvalue.required
      exact ⟨htype hty, Document.isFinite_of_asDouble hd⟩
    | named =>
      obtain ⟨_, name, hrest, -, rfl⟩ := (gives_of_payload h).seq
      obtain ⟨ty, hty, rfl⟩ := hrest.map
      exact htype hty
    | component =>
      obtain ⟨_, _, hrest, -, rfl⟩ := (gives_of_payload h).seq
      obtain ⟨_, value, hrest', hvalue, rfl⟩ := hrest.seq
      obtain ⟨ty, hty, rfl⟩ := hrest'.map
      exact ⟨htype hty, hpart hvalue⟩
    | deref | address =>
      obtain ⟨_, value, hrest, hvalue, rfl⟩ := (gives_of_payload h).seq
      obtain ⟨ty, hty, rfl⟩ := hrest.map
      exact ⟨htype hty, hpart hvalue⟩
    | element =>
      obtain ⟨_, index, hrest, hindex, rfl⟩ := (gives_of_payload h).seq
      obtain ⟨_, array, hrest', harray, rfl⟩ := hrest.seq
      obtain ⟨ty, hty, rfl⟩ := hrest'.map
      exact ⟨htype hty, hpart harray, hpart hindex⟩

theorem Expr.Fits.types {e : Expr} (h : e.Fits) : ∀ ty ∈ e.types, ty.Fits := by
  induction e with
  | integer | real => exact List.forall_mem_singleton.2 h.1
  | named => exact List.forall_mem_singleton.2 h
  | component _ _ _ ih | deref _ _ ih | address _ _ ih =>
    exact List.forall_mem_cons.2 ⟨h.1, ih h.2⟩
  | element _ _ _ iharray ihindex =>
    exact List.forall_mem_cons.2 ⟨h.1, List.forall_mem_append.2 ⟨iharray h.2.1, ihindex h.2.2⟩⟩

/-! ### Statements -/

theorem Case.fits_of_read {depth : Nat} {d : Document} {c : Case} (h : read depth d = .ok c) :
    c.Fits := by
  obtain ⟨_, h⟩ := gives_of_record h
  obtain ⟨_, block, hrest, hblock, rfl⟩ := h.seq
  obtain ⟨_, high, hrest', hhigh, rfl⟩ := hrest.seq
  obtain ⟨low, hlow, rfl⟩ := hrest'.map
  obtain ⟨_, hl⟩ := hlow.required
  obtain ⟨_, hb⟩ := hblock.required
  refine ⟨Document.asSigned64_bounds hl, fun i hi => ?_, Document.asWord32_lt hb⟩
  obtain ⟨_, hd⟩ := hhigh.optional hi
  exact Document.asSigned64_bounds hd

theorem Statement.fits_of_read {depth : Nat} {d : Document} {s : Statement}
    (h : read depth d = .ok s) : s.Fits := by
  unfold read at h
  obtain ⟨⟨shape, parts⟩, -, h⟩ := Except.of_bind h
  have hline : ∀ {line : Option Nat}, (optional ["line"] Document.asWord32).Gives line →
      ∀ n ∈ line, n < 2 ^ 32 := fun hline n hn =>
    have ⟨_, hd⟩ := hline.optional hn
    Document.asWord32_lt hd
  have hlabel : ∀ {name : String} {n : Nat}, (required [name] Document.asWord32).Gives n →
      n < 2 ^ 32 := fun hn =>
    have ⟨_, hd⟩ := hn.required
    Document.asWord32_lt hd
  have hoperand : ∀ {name : String} {e : Expr},
      (required [name] (Expr.readPart (depth - 1))).Gives e → e.Fits := fun he =>
    have ⟨_, hd⟩ := he.required
    Expr.fits_of_readWithin hd
  have hoperands : ∀ {es : List Expr},
      (required ["operands"] (Document.asList Expr.readPart (depth - 1))).Gives es →
      ∀ e ∈ es, e.Fits := fun hes e he =>
    have ⟨_, hlist⟩ := hes.required
    have ⟨_, _, hd⟩ := Document.mem_of_asList hlist he
    Expr.fits_of_readWithin hd
  have hresult : ∀ {name : String} {o : Option Expr},
      (optional [name] (Expr.readPart (depth - 1))).Gives o → ∀ e ∈ o, e.Fits := fun ho e he =>
    have ⟨_, hd⟩ := ho.optional he
    Expr.fits_of_readWithin hd
  cases shape with
  | assign =>
    obtain ⟨_, line, h₁, hl, rfl⟩ := (gives_of_payload h).seq
    obtain ⟨_, operands, h₂, hes, rfl⟩ := h₁.seq
    obtain ⟨_, lhs, h₃, hlhs, rfl⟩ := h₂.seq
    obtain ⟨op, -, rfl⟩ := h₃.map
    exact ⟨⟨hoperand hlhs, hoperands hes⟩, hline hl⟩
  | call =>
    obtain ⟨_, line, h₁, hl, rfl⟩ := (gives_of_payload h).seq
    obtain ⟨_, lhs, h₂, hlhs, rfl⟩ := h₁.seq
    obtain ⟨_, arguments, h₃, hargs, rfl⟩ := h₂.seq
    obtain ⟨function, -, rfl⟩ := h₃.map
    refine ⟨⟨fun e he => ?_, hresult hlhs⟩, hline hl⟩
    obtain ⟨_, _, hd⟩ := hargs.list he
    exact Expr.fits_of_readWithin hd
  | conditional =>
    obtain ⟨_, line, h₁, hl, rfl⟩ := (gives_of_payload h).seq
    obtain ⟨_, _, h₂, hfalse, rfl⟩ := h₁.seq
    obtain ⟨_, _, h₃, htrue, rfl⟩ := h₂.seq
    obtain ⟨_, operands, h₄, hes, rfl⟩ := h₃.seq
    obtain ⟨op, -, rfl⟩ := h₄.map
    exact ⟨⟨hoperands hes, hlabel htrue, hlabel hfalse⟩, hline hl⟩
  | ret =>
    obtain ⟨_, line, h₁, hl, rfl⟩ := (gives_of_payload h).seq
    obtain ⟨value, hvalue, rfl⟩ := h₁.map
    exact ⟨hresult hvalue, hline hl⟩
  | goto =>
    obtain ⟨_, line, h₁, hl, rfl⟩ := (gives_of_payload h).seq
    obtain ⟨target, htarget, rfl⟩ := h₁.map
    exact ⟨hlabel htarget, hline hl⟩
  | switch =>
    obtain ⟨_, line, h₁, hl, rfl⟩ := (gives_of_payload h).seq
    obtain ⟨_, _, h₂, hdefault, rfl⟩ := h₁.seq
    obtain ⟨_, _, h₃, hcases, rfl⟩ := h₂.seq
    obtain ⟨value, hvalue, rfl⟩ := h₃.map
    refine ⟨⟨hoperand hvalue, fun c hc => ?_, hlabel hdefault⟩, hline hl⟩
    obtain ⟨_, _, hd⟩ := hcases.list hc
    exact Case.fits_of_read hd

theorem Statement.Fits.types {s : Statement} (h : s.Fits) : ∀ ty ∈ s.types, ty.Fits := by
  have hlist : ∀ {es : List Expr}, (∀ e ∈ es, e.Fits) → ∀ ty ∈ es.flatMap Expr.types, ty.Fits := by
    intro es hes ty hty
    obtain ⟨e, he, hty⟩ := List.mem_flatMap.1 hty
    exact (hes e he).types ty hty
  have hoption : ∀ {o : Option Expr}, (∀ e ∈ o, e.Fits) →
      ∀ ty ∈ o.toList.flatMap Expr.types, ty.Fits := fun ho =>
    hlist fun e he => ho e (Option.mem_toList.1 he)
  have hparts := h.parts
  cases s with
  | assign => exact List.forall_mem_append.2 ⟨hparts.1.types, hlist hparts.2⟩
  | call => exact List.forall_mem_append.2 ⟨hlist hparts.1, hoption hparts.2⟩
  | conditional => exact hlist hparts.1
  | ret => exact hoption hparts
  | goto => exact List.forall_mem_nil _
  | switch => exact hparts.1.types

/-! ### Functions and units -/

theorem Block.fits_of_read {depth : Nat} {d : Document} {b : Block} (h : read depth d = .ok b) :
    b.Fits := by
  obtain ⟨_, h⟩ := gives_of_record h
  obtain ⟨_, statements, hrest, hstatements, rfl⟩ := h.seq
  obtain ⟨index, hindex, rfl⟩ := hrest.map
  obtain ⟨_, hi⟩ := hindex.required
  refine ⟨Document.asWord32_lt hi, fun s hs => ?_⟩
  obtain ⟨_, _, hd⟩ := hstatements.list hs
  exact Statement.fits_of_read hd

theorem Function.fits_of_read {depth : Nat} {d : Document} {f : Function}
    (h : read depth d = .ok f) : f.Fits := by
  obtain ⟨_, h⟩ := gives_of_record h
  obtain ⟨_, blocks, h₁, hblocks, rfl⟩ := h.seq
  obtain ⟨_, locals, h₂, hlocals, rfl⟩ := h₁.seq
  obtain ⟨_, entry, h₃, hentry, rfl⟩ := h₂.seq
  obtain ⟨_, result, h₄, hresult, rfl⟩ := h₃.seq
  obtain ⟨_, parameters, h₅, hparameters, rfl⟩ := h₄.seq
  obtain ⟨name, -, rfl⟩ := h₅.map
  obtain ⟨_, he⟩ := hentry.required
  refine ⟨fun p hp => ?_, fun ty hty => ?_, Document.asWord32_lt he, fun v hv => ?_,
    fun b hb => ?_⟩
  · obtain ⟨_, _, hd⟩ := hparameters.list hp
    exact Declaration.fits_of_read hd
  · obtain ⟨_, hd⟩ := hresult.optional hty
    exact Ty.fits_of_read hd
  · obtain ⟨_, _, hd⟩ := hlocals.list hv
    exact Declaration.fits_of_read hd
  · obtain ⟨_, hlist⟩ := hblocks.required
    obtain ⟨_, _, hd⟩ := Document.mem_of_asList hlist hb
    exact Block.fits_of_read hd

theorem CompilationUnit.fits_of_read {depth : Nat} {d : Document} {u : CompilationUnit}
    (h : read depth d = .ok u) : u.Fits := by
  obtain ⟨_, h⟩ := gives_of_record h
  obtain ⟨_, declarations, h₁, hdeclarations, rfl⟩ := h.seq
  obtain ⟨_, records, h₂, hrecords, rfl⟩ := h₁.seq
  obtain ⟨_, globals, h₃, hglobals, rfl⟩ := h₂.seq
  obtain ⟨_, functions, h₄, hfunctions, rfl⟩ := h₃.seq
  obtain ⟨source, -, rfl⟩ := h₄.map
  refine ⟨fun f hf => ?_, fun g hg => ?_, fun r hr => ?_, fun s hs => ?_⟩
  · obtain ⟨_, _, hd⟩ := hfunctions.list hf
    exact Function.fits_of_read hd
  · obtain ⟨_, _, hd⟩ := hglobals.list hg
    exact Declaration.fits_of_read hd
  · obtain ⟨_, _, hd⟩ := hrecords.list hr
    exact RecordDefinition.fits_of_read hd
  · obtain ⟨_, _, hd⟩ := hdeclarations.list hs
    exact Signature.fits_of_read hd

/-- What is read from a text is read from a document that is all of the text. -/
theorem readText_eq_ok {α : Type} {read : Nat → Document → Except Defect α} {text : String}
    {a : α} : readText read text = .ok a ↔
      read nestingLimit (Document.ofText text).1 = .ok a ∧ (Document.ofText text).2 = true := by
  unfold readText
  cases hd : read nestingLimit (Document.ofText text).1 with
  | error e => simp [hd]
  | ok b => cases hends : (Document.ofText text).2 <;> simp [hd, hends]

/-- A unit that is read from a text is read from a document, and its names are its own. -/
theorem CompilationUnit.ofText_eq_ok {text : String} {u : CompilationUnit} :
    ofText text = .ok u ↔ readText read text = .ok u ∧ u.validate = .ok () := by
  unfold ofText
  cases readText read text with
  | error e => simp [Except.mapError, bind, Except.bind]
  | ok u' =>
    cases hv : u'.validate with
    | error c =>
      simp only [Except.mapError, bind, Except.bind, hv, reduceCtorEq, Except.ok.injEq, false_iff,
        not_and]
      rintro rfl
      simp [hv]
    | ok _ =>
      simp only [Except.mapError, bind, Except.bind, hv, pure, Except.pure, Except.ok.injEq]
      exact ⟨fun h => ⟨h, h ▸ hv⟩, And.left⟩

/-- Units that are read from texts fit. -/
theorem CompilationUnit.fits_of_ofText {text : String} {u : CompilationUnit}
    (h : ofText text = .ok u) : u.Fits :=
  fits_of_read (readText_eq_ok.1 (ofText_eq_ok.1 h).1).1

/-! ### Lengths of arrays -/

theorem Signature.Fits.types {s : Signature} (h : s.Fits) : ∀ ty ∈ s.types, ty.Fits :=
  List.forall_mem_append.2
    ⟨h.parameterTypes, fun ty hty => h.returnType ty (Option.mem_toList.1 hty)⟩

theorem Function.Fits.types {f : Function} (h : f.Fits) : ∀ ty ∈ f.types, ty.Fits := by
  have hsignature : f.signature.Fits := ⟨List.forall_mem_map.2 h.parameters, h.returnType⟩
  refine List.forall_mem_append.2 ⟨List.forall_mem_append.2
    ⟨hsignature.types, List.forall_mem_map.2 h.locals⟩, fun ty hty => ?_⟩
  obtain ⟨b, hb, hty⟩ := List.mem_flatMap.1 hty
  obtain ⟨s, hs, hty⟩ := List.mem_flatMap.1 hty
  exact ((h.blocks b hb).statements s hs).types ty hty

namespace CompilationUnit.Fits

variable {u : CompilationUnit}

theorem types (h : u.Fits) : ∀ ty ∈ u.types, ty.Fits := by
  refine List.forall_mem_append.2 ⟨List.forall_mem_append.2
    ⟨List.forall_mem_append.2 ⟨?_, ?_⟩, ?_⟩, ?_⟩
  · intro ty hty
    obtain ⟨f, hf, hty⟩ := List.mem_flatMap.1 hty
    exact (h.functions f hf).types ty hty
  · exact List.forall_mem_map.2 h.globals
  · exact List.forall_mem_map.2 h.records
  · intro ty hty
    obtain ⟨s, hs, hty⟩ := List.mem_flatMap.1 hty
    exact (h.declarations s hs).types ty hty

/-- The types that occur in a unit that fits do so, too. -/
theorem occurs (h : u.Fits) {ty : Ty} (hty : u.Occurs ty) : ty.Fits :=
  hty.induction h.types fun _ _ h hpart => h.part hpart

theorem length_lt (h : u.Fits) {base : Ty} {length : Nat} (hty : u.Occurs (.array base length)) :
    length < 2 ^ 64 := by
  cases h.occurs hty
  assumption

end CompilationUnit.Fits

end GimpleLowering.Gimple
