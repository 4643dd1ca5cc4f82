import GimpleLowering.Proofs.Flo.Identifiers
import GimpleLowering.Proofs.Flo.Text.Fields

/-!
# Objects and their texts

An object that is written is read back as it was. The text form has room for identifiers of
sixty-four bits and for lines of thirty-two, so this is said of objects whose numbers fit; nothing
else is asked of an object, not even that its identifiers refer to entries.

## Main definitions

* `Flo.Object.Fits` — the numbers in an object have room in its text

## Main results

* `Flo.Ty.ofSexpr_sexpr`, `Block.ofSexpr_sexpr` and others — every kind of entry is read back
* `Flo.Object.ofSexpr_sexpr?` — an object that has an s-expression is read back
* `Flo.Object.text_eq_constant_iff` — a complete object has no text exactly if it assigns a constant
* `Flo.Object.ofText_text` — an object that has a text is read back from it
-/

namespace GimpleLowering

/-! ### Pairings -/

namespace Pairing

variable {α β : Type}

theorem ext_pairs {p q : Pairing α β} (h : p.pairs = q.pairs) : p = q := by
  cases p
  cases q
  simpa using h

variable [DecidableEq α] [DecidableEq β]

/-- Pairs that share nothing with those before are added at the end. -/
theorem pairs_foldl_insert {xs : List (α × β)} {p : Pairing α β}
    (hl : ((p.pairs ++ xs).map Prod.fst).Nodup) (hr : ((p.pairs ++ xs).map Prod.snd).Nodup) :
    (xs.foldl (fun p x => p.insert x.1 x.2) p).pairs = p.pairs ++ xs := by
  induction xs generalizing p with
  | nil => simp
  | cons x xs ih =>
    have hkeep : (p.insert x.1 x.2).pairs = p.pairs ++ [x] := by
      rw [List.map_append, List.nodup_append] at hl hr
      refine congrArg (· ++ [x]) (List.filter_eq_self.2 fun y hy => ?_)
      have hne₁ := hl.2.2 y.1 (List.mem_map_of_mem hy) x.1 (by simp)
      have hne₂ := hr.2.2 y.2 (List.mem_map_of_mem hy) x.2 (by simp)
      simp [hne₁, hne₂]
    rw [List.foldl_cons, ih, hkeep, List.append_assoc, List.singleton_append]
    · rwa [hkeep, List.append_assoc, List.singleton_append]
    · rwa [hkeep, List.append_assoc, List.singleton_append]

/-- A pairing is the pairing of its pairs. -/
theorem ofList_pairs (p : Pairing α β) : ofList p.pairs = p :=
  ext_pairs (pairs_foldl_insert (p := empty) (by simpa using p.left_nodup)
    (by simpa using p.right_nodup))

end Pairing

namespace Flo

open Sexpr Sexpr.Fields

/-! ### Numbers that fit -/

/-- The numbers in the object, those of the null entries included, have room in its text. -/
structure Object.Fits (o : Object) : Prop where
  symbols : ∀ p ∈ o.symbols, IsWord p.2
  blocks : ∀ b ∈ o.blocks.rows, b.Uses .words
  statements : ∀ s ∈ o.statements.rows, s.Uses .words
  matchArms : ∀ a ∈ o.matchArms.rows, a.Uses .words
  vars : ∀ v ∈ o.vars.rows, v.Uses .words
  arrays : ∀ a ∈ o.types.arrays.rows, a.Uses .words
  structs : ∀ s ∈ o.types.structs.rows, s.Uses .words
  diagnostics : ∀ d ∈ o.diagnostics.rows, d.Uses .words
  locations : ∀ l ∈ o.locations.rows, l.Uses .words

theorem Table.All.rows {α : Type} [Entry α] {t : Table α} {P : α → Prop} (h : t.All P)
    (hnull : P (Entry.poisoned .nullEntry)) : ∀ a ∈ t.rows, P a := by
  obtain ⟨rest, hrows, hall⟩ := h
  intro a ha
  rw [hrows] at ha
  rcases List.mem_cons.1 ha with rfl | ha
  · exact hnull
  · exact hall a ha

/-- Null entries have room in a text, too. -/
theorem Object.Uses.fits {o : Object} (h : o.Uses .words) : o.Fits where
  symbols := h.symbols
  blocks := h.blocks.rows ⟨nofun, nofun, trivial, nofun⟩
  statements := h.statements.rows trivial
  matchArms := h.matchArms.rows ⟨Nat.two_pow_pos 64, trivial, nofun, nofun⟩
  vars := h.vars.rows ⟨trivial, nofun, nofun⟩
  arrays := h.arrays.rows ⟨trivial, Nat.two_pow_pos 64⟩
  structs := h.structs.rows nofun
  diagnostics := h.diagnostics.rows nofun
  locations := h.locations.rows nofun

/-! ### Entries -/

theorem optional_location {ps : List (String × Sexpr)} {i : Nat} {location : Option Nat}
    (hs : occurrences "location" 0 ps = [(i, optionSexpr atom location)])
    (h : ∀ id ∈ location, IsWord id) :
    (optional "location" asWord64).Finds ps location :=
  .optional hs (fun id hid => asWord64_atom (h id hid)) atom_ne_nil

/-- A reader that goes on with the value of another one. -/
theorem map_eq_ok {α β : Type} {r : Except Defect α} {a : α} (h : r = .ok a) (f : α → β) :
    f <$> r = .ok (f a) := by
  rw [h]
  rfl

theorem Poison.ofSexpr_sexpr (p : Poison) : Poison.ofSexpr p.sexpr = .ok p := by
  cases p with
  | usable => exact asVariant_symbol rfl
  | because reason => exact asVariant_one rfl rfl
  | undefined => exact asVariant_symbol rfl
  | nullEntry => exact asVariant_symbol rfl

/-- A type lies inside more lists than a type inside of it. -/
theorem Ty.depth_sexpr_handle (pointee : Ty) (nullable : Bool) :
    pointee.sexpr.depth < (Ty.handle pointee nullable).sexpr.depth := by
  simp only [Ty.sexpr, variantSexpr, recordSexpr, List.map_cons, List.map_nil, depth, itemDepth]
  omega

theorem Ty.ofSexprWithin_sexpr {ty : Ty} {calls : Nat} (hd : ty.sexpr.depth ≤ calls)
    (h : ty.Uses .words) : Ty.ofSexprWithin (calls + 1) ty.sexpr = .ok ty := by
  induction ty generalizing calls with
  | handle pointee nullable ih =>
    have hp := Nat.lt_of_lt_of_le (pointee.depth_sexpr_handle nullable) hd
    obtain ⟨calls, rfl⟩ := Nat.exists_eq_add_one_of_ne_zero (Nat.ne_zero_of_lt hp)
    refine asVariant_one rfl (record_recordSexpr ((Finds.map _ ?_).seq ?_))
    · exact .required rfl (ih (Nat.le_of_lt_succ hp) h)
    · exact .required rfl (asBool_atom nullable)
  | array id => exact asVariant_one rfl (map_eq_ok (asWord64_atom h) _)
  | struct id => exact asVariant_one rfl (map_eq_ok (asWord64_atom h) _)
  | bool => exact asVariant_symbol rfl
  | signed32 => exact asVariant_symbol rfl
  | signed64 => exact asVariant_symbol rfl
  | double => exact asVariant_symbol rfl
  | unspecified => exact asVariant_symbol rfl

theorem Ty.ofSexpr_sexpr {ty : Ty} (h : ty.Uses .words) : Ty.ofSexpr ty.sexpr = .ok ty :=
  Ty.ofSexprWithin_sexpr (Nat.le_refl _) h

theorem Signature.ofSexpr_sexpr {s : Signature} (h : s.Uses .words) :
    Signature.ofSexpr s.sexpr = .ok s := by
  refine record_recordSexpr ((((Finds.map _ ?_).seq ?_).seq ?_).seq ?_)
  · exact .required rfl (readIds_ids h.params)
  · exact .required rfl (readIds_ids h.returns)
  · exact .required rfl (asBool_atom s.canPanic)
  · exact optional_location rfl h.location

theorem BlockExit.ofSexpr_sexpr {e : BlockExit} (h : e.Uses .words) :
    BlockExit.ofSexpr e.sexpr = .ok e := by
  cases e with
  | ret values => exact asVariant_one rfl (map_eq_ok (readIds_ids h) _)
  | panic message values =>
    exact asVariant_two rfl (map_eq_ok (readIds_ids h) (BlockExit.panic message))
  | goto block => exact asVariant_one rfl (map_eq_ok (asWord64_atom h) _)
  | branch arms => exact asVariant_one rfl (map_eq_ok (readIds_ids h) _)
  | unspecified => exact asVariant_symbol rfl

theorem Block.ofSexpr_sexpr {b : Block} (h : b.Uses .words) : Block.ofSexpr b.sexpr = .ok b := by
  refine record_recordSexpr (((((Finds.map _ ?_).seq ?_).seq ?_).seq ?_).seq ?_)
  · exact .optional rfl (fun s hs => Signature.ofSexpr_sexpr (h.signature s hs)) nofun
  · exact .required rfl b.poison.ofSexpr_sexpr
  · exact .required rfl (readIds_ids h.statements)
  · exact .required rfl (BlockExit.ofSexpr_sexpr h.exit)
  · exact .required rfl (readIds_ids h.diagnostics)

theorem Member.ofSexpr_sexpr {m : Member} (h : m.Uses .words) : Member.ofSexpr m.sexpr = .ok m := by
  cases m with
  | whole => exact asVariant_symbol rfl
  | field index => exact asVariant_one rfl (map_eq_ok (asWord64_atom h) _)
  | element index => exact asVariant_one rfl (map_eq_ok (asWord64_atom h) _)

theorem BlockRef.ofSexpr_sexpr {r : BlockRef} (h : r.Uses .words) :
    BlockRef.ofSexpr r.sexpr = .ok r := by
  cases r with
  | here block => exact asVariant_one rfl (map_eq_ok (asWord64_atom h) _)
  | external name => exact asVariant_one rfl rfl
  | builtin name => exact asVariant_one rfl rfl
  | unspecified => exact asVariant_symbol rfl

/-- The note at the end of a statement, among its fields. -/
theorem Note.finds {ps : List (String × Sexpr)} {i j : Nat} {n : Note} (h : n.Uses .words)
    (hd : occurrences "diagnostics" 0 ps = [(i, ids n.diagnostics)])
    (hl : occurrences "location" 0 ps = [(j, optionSexpr atom n.location)]) :
    Note.fields.Finds ps n :=
  (Finds.map _ (.required hd (readIds_ids h.diagnostics))).seq (optional_location hl h.location)

/-- A statement that has an s-expression is read back. -/
theorem Statement.ofSexpr_sexpr? {stmt : Statement} (h : stmt.Uses .words) {s : Sexpr}
    (hs : stmt.sexpr? = some s) : Statement.ofSexpr s = .ok stmt := by
  cases stmt with
  | assignConst target value note => cases hs
  | assign target source note =>
    obtain ⟨htarget, hsource, hnote⟩ := h
    obtain rfl := Option.some.inj hs
    refine asVariant_one rfl (record_recordSexpr (((Finds.map _ ?_).seq ?_).seq ?_))
    · exact .required rfl (asWord64_atom htarget)
    · exact .required rfl (asWord64_atom hsource)
    · exact Note.finds hnote rfl rfl
  | call block input outputs note =>
    obtain ⟨hblock, hinput, houtputs, hnote⟩ := h
    obtain rfl := Option.some.inj hs
    refine asVariant_one rfl (record_recordSexpr ((((Finds.map _ ?_).seq ?_).seq ?_).seq ?_))
    · exact .required rfl (BlockRef.ofSexpr_sexpr hblock)
    · exact .required rfl (readIds_ids hinput)
    · exact .required rfl (readIds_ids houtputs)
    · exact Note.finds hnote rfl rfl
  | construct target initializer note =>
    obtain ⟨htarget, hinit, hnote⟩ := h
    obtain rfl := Option.some.inj hs
    refine asVariant_one rfl (record_recordSexpr (((Finds.map _ ?_).seq ?_).seq ?_))
    · exact .required rfl (asWord64_atom htarget)
    · exact .required rfl (readIds_ids hinit)
    · exact Note.finds hnote rfl rfl
  | destructure whole parts note =>
    obtain ⟨hwhole, hparts, hnote⟩ := h
    obtain rfl := Option.some.inj hs
    refine asVariant_one rfl (record_recordSexpr (((Finds.map _ ?_).seq ?_).seq ?_))
    · exact .required rfl (asWord64_atom hwhole)
    · exact .required rfl (readIds_ids hparts)
    · exact Note.finds hnote rfl rfl
  | load handle member target note =>
    obtain ⟨hhandle, hmember, htarget, hnote⟩ := h
    obtain rfl := Option.some.inj hs
    refine asVariant_one rfl (record_recordSexpr ((((Finds.map _ ?_).seq ?_).seq ?_).seq ?_))
    · exact .required rfl (asWord64_atom hhandle)
    · exact .required rfl (Member.ofSexpr_sexpr hmember)
    · exact .required rfl (asWord64_atom htarget)
    · exact Note.finds hnote rfl rfl
  | store handle member value note =>
    obtain ⟨hhandle, hmember, hvalue, hnote⟩ := h
    obtain rfl := Option.some.inj hs
    refine asVariant_one rfl (record_recordSexpr ((((Finds.map _ ?_).seq ?_).seq ?_).seq ?_))
    · exact .required rfl (asWord64_atom hhandle)
    · exact .required rfl (Member.ofSexpr_sexpr hmember)
    · exact .required rfl (asWord64_atom hvalue)
    · exact Note.finds hnote rfl rfl
  | poisoned poison =>
    obtain rfl := Option.some.inj hs
    exact asVariant_one rfl (map_eq_ok poison.ofSexpr_sexpr _)

theorem MatchArm.ofSexpr_sexpr {a : MatchArm} (h : a.Uses .words) :
    MatchArm.ofSexpr a.sexpr = .ok a := by
  refine record_recordSexpr (((((Finds.map _ ?_).seq ?_).seq ?_).seq ?_).seq ?_)
  · exact .required rfl (asWord64_atom h.condition)
  · exact .required rfl (BlockRef.ofSexpr_sexpr h.target)
  · exact .required rfl a.poison.ofSexpr_sexpr
  · exact .required rfl (readIds_ids h.diagnostics)
  · exact optional_location rfl h.location

theorem Linkage.ofSexpr_sexpr (l : Linkage) : Linkage.ofSexpr l.sexpr = .ok l := by
  cases l with
  | frame => exact asVariant_symbol rfl
  | external name => exact asVariant_one rfl rfl
  | unspecified => exact asVariant_symbol rfl

theorem Variable.ofSexpr_sexpr {v : Variable} (h : v.Uses .words) :
    Variable.ofSexpr v.sexpr = .ok v := by
  refine record_recordSexpr (((((Finds.map _ ?_).seq ?_).seq ?_).seq ?_).seq ?_)
  · exact .required rfl (Ty.ofSexpr_sexpr h.typ)
  · exact .required rfl v.linkage.ofSexpr_sexpr
  · exact .required rfl v.poison.ofSexpr_sexpr
  · exact .required rfl (readIds_ids h.diagnostics)
  · exact optional_location rfl h.location

theorem ArrayType.ofSexpr_sexpr {a : ArrayType} (h : a.Uses .words) :
    ArrayType.ofSexpr a.sexpr = .ok a := by
  refine record_recordSexpr (((Finds.map _ ?_).seq ?_).seq ?_)
  · exact .required rfl (Ty.ofSexpr_sexpr h.memberType)
  · exact .required rfl (asWord64_atom h.length)
  · exact .required rfl a.poison.ofSexpr_sexpr

theorem StructType.ofSexpr_sexpr {s : StructType} (h : s.Uses .words) :
    StructType.ofSexpr s.sexpr = .ok s := by
  refine record_recordSexpr ((((Finds.map _ ?_).seq ?_).seq ?_).seq ?_)
  · exact .required rfl rfl
  · exact .required rfl (asList_map fun _ _ => rfl)
  · exact .required rfl (asList_map fun typ htyp => Ty.ofSexpr_sexpr (h typ htyp))
  · exact .required rfl s.poison.ofSexpr_sexpr

theorem Diagnostic.ofSexpr_sexpr {d : Diagnostic} (h : d.Uses .words) :
    Diagnostic.ofSexpr d.sexpr = .ok d := by
  refine record_recordSexpr (((Finds.map _ ?_).seq ?_).seq ?_)
  · exact .required rfl rfl
  · exact .required rfl d.poison.ofSexpr_sexpr
  · exact optional_location rfl h

theorem Location.ofSexpr_sexpr {l : Location} (h : l.Uses .words) :
    Location.ofSexpr l.sexpr = .ok l := by
  refine record_recordSexpr (((Finds.map _ ?_).seq ?_).seq ?_)
  · exact .required rfl rfl
  · exact .optional rfl (fun n hn => asLine_atom (h n hn).2 (h n hn).1) atom_ne_nil
  · exact .required rfl l.poison.ofSexpr_sexpr

/-! ### Objects -/

theorem Table.ofSexpr_rows {α : Type} {read : Reads α} {items : List Sexpr} {t : Table α}
    (h : asList read (.list items) = .ok t.rows) :
    Table.ofSexpr read (recordSexpr [("entries", .list items)]) = .ok t := by
  have hfinds : Fields.Finds ((fun xs => (⟨xs.toArray⟩ : Table α)) <$>
      required "entries" (asList read)) [("entries", .list items)] ⟨t.rows.toArray⟩ :=
    Finds.map _ (.required rfl h)
  have hrows : (⟨t.rows.toArray⟩ : Table α) = t := by simp [Table.rows]
  rw [hrows] at hfinds
  exact record_recordSexpr hfinds

theorem Table.ofSexpr_sexpr {α : Type} {read : Reads α} {write : α → Sexpr} {t : Table α}
    (h : ∀ a ∈ t.rows, read (write a) = .ok a) :
    Table.ofSexpr read (t.sexpr write) = .ok t :=
  Table.ofSexpr_rows (asList_map h)

/-- Statements that have s-expressions are read back. -/
theorem asList_mapM {stmts : List Statement} (h : ∀ stmt ∈ stmts, stmt.Uses .words) {items : List Sexpr}
    (hs : stmts.mapM Statement.sexpr? = some items) :
    asList Statement.ofSexpr (.list items) = .ok stmts := by
  rw [asList]
  induction stmts generalizing items with
  | nil =>
    obtain rfl := Option.some.inj hs
    rfl
  | cons stmt stmts ih =>
    rw [List.mapM_cons] at hs
    cases hstmt : stmt.sexpr? with
    | none => simp [hstmt] at hs
    | some s =>
      cases hrest : stmts.mapM Statement.sexpr? with
      | none => simp [hstmt, hrest] at hs
      | some rest =>
        simp only [hstmt, hrest, Option.bind_eq_bind, Option.bind_some, Option.pure_def,
          Option.some.injEq] at hs
        subst hs
        rw [List.mapM_cons, Statement.ofSexpr_sexpr? (h stmt List.mem_cons_self) hstmt,
          ih (fun t ht => h t (by simp [ht])) hrest]
        rfl

theorem readSymbols_symbolsSexpr {p : Pairing String Nat} (h : ∀ x ∈ p, IsWord x.2) :
    readSymbols (symbolsSexpr p) = .ok p := by
  have hmap : asMap asWord64 (.list (p.pairs.map fun x => .list [.symbol x.1, atom x.2])) =
      .ok p.pairs :=
    asMap_map fun x hx => asWord64_atom (h x hx)
  have hfinds : (Pairing.ofList <$> required "code" (asMap asWord64)).Finds
      [("code", .list (p.pairs.map fun x => .list [.symbol x.1, atom x.2]))]
      (Pairing.ofList p.pairs) :=
    Finds.map _ (.required rfl hmap)
  rw [Pairing.ofList_pairs] at hfinds
  exact record_recordSexpr hfinds

theorem TypeTables.ofSexpr_sexpr {t : TypeTables} (ha : ∀ a ∈ t.arrays.rows, a.Uses .words)
    (hs : ∀ s ∈ t.structs.rows, s.Uses .words) :
    TypeTables.ofSexpr (recordSexpr [("arrays", t.arrays.sexpr ArrayType.sexpr),
      ("structs", t.structs.sexpr StructType.sexpr)]) = .ok t := by
  refine record_recordSexpr ((Finds.map _ ?_).seq ?_)
  · exact .required rfl (Table.ofSexpr_sexpr fun a h => ArrayType.ofSexpr_sexpr (ha a h))
  · exact .required rfl (Table.ofSexpr_sexpr fun s h => StructType.ofSexpr_sexpr (hs s h))

/-- An object that has an s-expression is read back. -/
theorem Object.ofSexpr_sexpr? {o : Object} (h : o.Fits) {s : Sexpr} (hs : o.sexpr? = some s) :
    Object.ofSexpr s = .ok o := by
  cases hitems : o.statements.entries.toList.mapM Statement.sexpr? with
  | none => simp [Object.sexpr?, hitems] at hs
  | some items =>
    simp only [Object.sexpr?, hitems, Option.bind_eq_bind, Option.bind_some, Option.pure_def,
      Option.some.injEq] at hs
    subst hs
    refine record_recordSexpr (((((((((Finds.map _ ?_).seq ?_).seq ?_).seq ?_).seq ?_).seq ?_).seq
      ?_).seq ?_).seq ?_)
    · exact .required rfl rfl
    · exact .required rfl (readSymbols_symbolsSexpr h.symbols)
    · exact .required rfl (Table.ofSexpr_sexpr fun b hb => Block.ofSexpr_sexpr (h.blocks b hb))
    · exact .required rfl (Table.ofSexpr_rows (asList_mapM h.statements hitems))
    · exact .required rfl
        (Table.ofSexpr_sexpr fun a ha => MatchArm.ofSexpr_sexpr (h.matchArms a ha))
    · exact .required rfl (Table.ofSexpr_sexpr fun v hv => Variable.ofSexpr_sexpr (h.vars v hv))
    · exact .required rfl (TypeTables.ofSexpr_sexpr h.arrays h.structs)
    · exact .required rfl
        (Table.ofSexpr_sexpr fun d hd => Diagnostic.ofSexpr_sexpr (h.diagnostics d hd))
    · exact .required rfl
        (Table.ofSexpr_sexpr fun l hl => Location.ofSexpr_sexpr (h.locations l hl))

/-! ### Objects without a text -/

/-- The statement assigns a constant, whose value has no text. -/
def Statement.assignsConstant : Statement → Bool
  | .assignConst .. => true
  | _ => false

theorem isSome_mapM_sexpr? (stmts : List Statement) :
    (stmts.mapM Statement.sexpr?).isSome = !stmts.any Statement.assignsConstant := by
  induction stmts with
  | nil => rfl
  | cons stmt stmts ih =>
    have hstmt : stmt.sexpr?.isSome = !stmt.assignsConstant := by cases stmt <;> rfl
    rw [List.mapM_cons, List.any_cons, Bool.not_or, ← hstmt, ← ih]
    cases stmt.sexpr? with
    | none => rfl
    | some s => cases stmts.mapM Statement.sexpr? <;> rfl

theorem Object.isSome_sexpr? (o : Object) :
    o.sexpr?.isSome = !o.statements.rows.any Statement.assignsConstant := by
  rw [← isSome_mapM_sexpr?, Object.sexpr?, Table.rows]
  cases o.statements.entries.toList.mapM Statement.sexpr? <;> rfl

/-- A complete object has no text exactly if it assigns a constant. -/
theorem Object.text_eq_constant_iff {o : Object} (h : o.isComplete) :
    o.text = .error .constant ↔ o.statements.rows.any Statement.assignsConstant := by
  have hsome := o.isSome_sexpr?
  rw [Object.text, if_pos h]
  cases hs : o.sexpr? with
  | none => simpa [hs] using hsome
  | some s => simpa [hs] using hsome

/-- A complete object that assigns no constant has a text. -/
theorem Object.exists_text {o : Object} (h : o.isComplete)
    (hs : ¬ o.statements.rows.any Statement.assignsConstant) : ∃ t, o.text = .ok t := by
  have hsome := o.isSome_sexpr?
  rw [Object.text, if_pos h]
  cases hs' : o.sexpr? with
  | none => simp [hs', hs] at hsome
  | some s => exact ⟨s.text, rfl⟩

/-! ### Texts -/

/-- An object that has a text is read back from it. -/
theorem Object.ofText_text {o : Object} (h : o.Fits) {t : String} (ht : o.text = .ok t) :
    Object.ofText t = .ok o := by
  unfold Object.text at ht
  split at ht
  · rename_i hcomplete
    cases hs : o.sexpr? with
    | none => simp [hs] at ht
    | some s =>
      simp only [hs, Except.ok.injEq] at ht
      subst ht
      simp only [Object.ofText, Sexpr.ofText?_text, Object.ofSexpr_sexpr? h hs, if_pos hcomplete]
  · cases ht

end Flo

end GimpleLowering
