import GimpleLowering.Lowering.Operand
import GimpleLowering.Proofs.Gimple.Occurrence
import GimpleLowering.Proofs.Lowering.Scope

/-!
# The code of operands

The code that reads an operand is described without the computation that emits it: `Reads` relates
an operand to its code, to the variable that has the value afterwards, and to the temporaries that
the code uses, which are numbered from a first one on. It refers to a single state, the last one of
the function, in which all variables and types are known; since a state only grows, what was true
when the code was emitted is true there. `Writes` does the same for the target of an assignment.

What the emitted code means, and that it is well typed, are inductions on these two relations.

## Main definitions

* `Lowering.IsConstant` — the runtime constant for a constant
* `Lowering.IsSlot` — the field that an expression accesses
* `Lowering.Reads`, `Lowering.Writes` — the code of operands

## Main results

* `Lowering.read_ran`, `Lowering.write_ran` — the code that is emitted is described
-/

namespace GimpleLowering.Lowering

open Gimple Layout

/-! ### Descriptions -/

/-- The runtime constant for a constant operand. -/
inductive IsConstant (x : UnitIndex) (w : State) : Expr → Flo.Constant → Prop where
  | integer {width : Nat} {value : Int} {rep : Representation} {c : Flo.Constant}
      (represents : Represents x w.types (.integer width) rep)
      (constant : integerConstant rep.valueType value = .ok c) :
      IsConstant x w (.integer (.integer width) value) c
  | truth {value : Int} :
      IsConstant x w (.integer .boolean value) (.ofBool (value ≠ 0))
  | rounded {width : Nat} {value : Int} :
      IsConstant x w (.integer (.real width) value) (.ofDouble (.ofInt value))
  | null {base : Ty} {rep : Representation}
      (represents : Represents x w.types (.pointer base) rep) :
      IsConstant x w (.integer (.pointer base) 0) (.null rep.valueType)
  | real {ty : Ty} {value : Double} {rep : Representation}
      (represents : Represents x w.types ty rep) (isDouble : rep.valueType = .double) :
      IsConstant x w (.real ty value) (.ofDouble value)

/-- The slot is the field `member` of the record, whose struct has the given slots. -/
structure IsSlot (x : UnitIndex) (w : State) (record : Ty) (struct : Nat) (slots : List Slot)
    (member : String) (slot : Slot) : Prop where
  isRecord : record.isRecord
  registered : w.types.structOf? (x.complete record) = some struct
  known : w.types.Knows struct slots
  laidOut : LaidOut x w.types (x.complete record) slots
  mem : slot ∈ slots
  name : slot.name = member

/-- One temporary for each slot, from a first one on. -/
def AreTemps (w : State) (first : Nat) (slots : List Slot) : Prop :=
  ∀ {i : Nat} {slot : Slot}, slots[i]? = some slot → Temp w (first + i) slot.typ

/-- The code that reads an operand: `Reads x w e n v code m` says that `v` has the value of `e`
after `code`, which uses the temporaries from `n` up to `m`. -/
inductive Reads (x : UnitIndex) (w : State) : Expr → Nat → Nat → List Flo.Statement → Nat → Prop
  where
  | constant {e : Expr} {c : Flo.Constant} {n : Nat} {note : Flo.Note}
      (isConstant : IsConstant x w e c) (temp : Temp w n c.typ) (noted : NoteKnown w note) :
      Reads x w e n n [.assignConst n c note] (n + 1)
  | named {ty : Ty} {v : Var} {n m : Nat} (le : n ≤ m) (mem : v ∈ w.scope)
      (agrees : ty.agrees v.ty) : Reads x w (.named ty v.name) n v.id [] m
  | through {ty rty record : Ty} {pointer : Expr} {member : String} {struct : Nat}
      {slots : List Slot} {slot : Slot} {n handle m : Nat} {code : List Flo.Statement}
      {note : Flo.Note} (base : pointer.ty.indirectBase = some record)
      (isSlot : IsSlot x w record struct slots member slot) (agrees : ty.agrees slot.ty)
      (readPointer : Reads x w pointer n handle code m) (temp : Temp w m slot.typ)
      (noted : NoteKnown w note) :
      Reads x w (.component ty (.deref rty pointer) member) n m
        (code ++ [.load handle slot.member m note]) (m + 1)
  | part {ty : Ty} {base : Expr} {member : String} {struct : Nat} {slots : List Slot} {slot : Slot}
      {n whole m : Nat} {code : List Flo.Statement} {note : Flo.Note}
      (direct : ∀ rty pointer, base ≠ .deref rty pointer)
      (isSlot : IsSlot x w base.ty struct slots member slot) (agrees : ty.agrees slot.ty)
      (readWhole : Reads x w base n whole code m) (temps : AreTemps w m slots)
      (noted : NoteKnown w note) :
      Reads x w (.component ty base member) n (m + slot.index)
        (code ++ [.destructure whole (List.range' m slots.length) note]) (m + slots.length)
  | deref {ty pointee : Ty} {pointer : Expr} {rep : Representation} {n handle m : Nat}
      {code : List Flo.Statement} {note : Flo.Note} (base : pointer.ty.indirectBase = some pointee)
      (agrees : ty.agrees pointee) (represents : Represents x w.types ty rep)
      (readPointer : Reads x w pointer n handle code m) (temp : Temp w m rep.valueType)
      (noted : NoteKnown w note) :
      Reads x w (.deref ty pointer) n m (code ++ [.load handle .whole m note]) (m + 1)
  | element {ty base : Ty} {length : Nat} {array index : Expr} {rep : Representation}
      {n a k i m : Nat} {code code' : List Flo.Statement} {note : Flo.Note}
      (isArray : array.ty = .array base length) (agrees : ty.agrees base)
      (integral : index.ty.isIntegral) (represents : Represents x w.types ty rep)
      (readArray : Reads x w array n a code k) (readIndex : Reads x w index k i code' m)
      (temp : Temp w m rep.valueType) (noted : NoteKnown w note) :
      Reads x w (.element ty array index) n m
        (code ++ code' ++ [.load a (.element i) m note]) (m + 1)

/-- The code that writes the target of an assignment: `Writes x w e n v code m` says that `code`
writes `v` to `e`, with the temporaries from `n` up to `m`. -/
inductive Writes (x : UnitIndex) (w : State) : Expr → Nat → Nat → List Flo.Statement → Nat → Prop
  where
  | named {ty : Ty} {v : Var} {value n m : Nat} {note : Flo.Note} (le : n ≤ m) (mem : v ∈ w.scope)
      (agrees : ty.agrees v.ty) (noted : NoteKnown w note) :
      Writes x w (.named ty v.name) n value [.assign v.id value note] m
  | through {ty rty record : Ty} {pointer : Expr} {member : String} {struct : Nat}
      {slots : List Slot} {slot : Slot} {value n handle m : Nat} {code : List Flo.Statement}
      {note : Flo.Note} (base : pointer.ty.indirectBase = some record)
      (isSlot : IsSlot x w record struct slots member slot) (agrees : ty.agrees slot.ty)
      (readPointer : Reads x w pointer n handle code m) (noted : NoteKnown w note) :
      Writes x w (.component ty (.deref rty pointer) member) n value
        (code ++ [.store handle slot.member value note]) m
  | part {ty : Ty} {base : Expr} {member : String} {struct : Nat} {slots : List Slot} {slot : Slot}
      {value n whole k m : Nat} {code code' : List Flo.Statement} {note note' : Flo.Note}
      (direct : ∀ rty pointer, base ≠ .deref rty pointer)
      (isSlot : IsSlot x w base.ty struct slots member slot) (agrees : ty.agrees slot.ty)
      (readWhole : Reads x w base n whole code k) (temps : AreTemps w k slots)
      (temp : Temp w (k + slots.length) (.struct struct))
      (writeBase : Writes x w base (k + slots.length + 1) (k + slots.length) code' m)
      (noted : NoteKnown w note) (noted' : NoteKnown w note') :
      Writes x w (.component ty base member) n value
        (code ++ [.destructure whole (List.range' k slots.length) note,
          .construct (k + slots.length) ((List.range' k slots.length).set slot.index value) note']
          ++ code') m
  | deref {ty pointee : Ty} {pointer : Expr} {value n handle m : Nat} {code : List Flo.Statement}
      {note : Flo.Note} (base : pointer.ty.indirectBase = some pointee) (agrees : ty.agrees pointee)
      (readPointer : Reads x w pointer n handle code m) (noted : NoteKnown w note) :
      Writes x w (.deref ty pointer) n value (code ++ [.store handle .whole value note]) m
  | element {ty base : Ty} {length : Nat} {array index : Expr} {value n a k i m : Nat}
      {code code' : List Flo.Statement} {note : Flo.Note}
      (isArray : array.ty = .array base length) (agrees : ty.agrees base)
      (integral : index.ty.isIntegral) (readArray : Reads x w array n a code k)
      (readIndex : Reads x w index k i code' m) (noted : NoteKnown w note) :
      Writes x w (.element ty array index) n value
        (code ++ code' ++ [.store a (.element i) value note]) m

/-! ### Growth -/

variable {x : UnitIndex} {s s' w w' : State}

theorem IsConstant.mono {e : Expr} {c : Flo.Constant} (h : IsConstant x w e c) (hg : w.Grows w') :
    IsConstant x w' e c := by
  cases h with
  | integer represents constant => exact .integer (represents.mono hg.types) constant
  | truth => exact .truth
  | rounded => exact .rounded
  | null represents => exact .null (represents.mono hg.types)
  | real represents isDouble => exact .real (represents.mono hg.types) isDouble

theorem IsSlot.mono {record : Ty} {struct : Nat} {slots : List Slot} {member : String} {slot : Slot}
    (h : IsSlot x w record struct slots member slot) (hg : w.Grows w') :
    IsSlot x w' record struct slots member slot :=
  ⟨h.isRecord, hg.types.structOf? h.registered, h.known.mono hg.types, h.laidOut.mono hg.types,
    h.mem, h.name⟩

/-- A slot stands at its index. -/
theorem IsSlot.getElem?_index {record : Ty} {struct : Nat} {slots : List Slot} {member : String}
    {slot : Slot} (h : IsSlot x w record struct slots member slot) :
    slots[slot.index]? = some slot :=
  (h.laidOut.of_mem h.mem).1

theorem IsSlot.index_lt {record : Ty} {struct : Nat} {slots : List Slot} {member : String}
    {slot : Slot} (h : IsSlot x w record struct slots member slot) : slot.index < slots.length :=
  (List.getElem?_eq_some_iff.1 h.getElem?_index).1

theorem AreTemps.mono {first : Nat} {slots : List Slot} (h : AreTemps w first slots)
    (hg : w.Grows w') : AreTemps w' first slots :=
  fun hs => (h hs).mono hg

/-! ### Constants -/

theorem IsConstant.covers {e : Expr} {c : Flo.Constant} (h : IsConstant x w e c) :
    w.types.Covers c.typ := by
  cases h with
  | integer represents constant =>
    exact w.types.covers_of_isInteger (isInteger_of_integerConstant constant)
  | truth | rounded | real => trivial
  | null represents => exact represents.covers

variable {cx : Context} {S : Ty → Prop}

theorem valueType_ran (hx : cx.index.Closed S) (h : s.Inv (cx.setting S)) {ty : Ty} (hS : S ty)
    {typ : Flo.Ty} (hr : (valueType cx ty).Ran s typ s') :
    ∃ rep, Represents cx.index s'.types ty rep ∧ typ = rep.valueType ∧ s'.vars = s.vars ∧
      Emits (cx.setting S) s [] [] s' := by
  obtain ⟨ht, hv, -, he⟩ := zoom_ran (P := cx.setting S) (Layout.valueType_keeps hx hS) h hr
  obtain ⟨rep, hrep, heq⟩ := Layout.valueType_ran hx hS h.sound ht
  exact ⟨rep, hrep, heq, hv, he⟩

/-- The code of a constant. -/
def ReadsConstant (cx : Context) (S : Ty → Prop) (e : Expr) (s : State) (v : Nat) (s' : State) :
    Prop :=
  v = s.vars.length ∧ s'.vars.length = v + 1 ∧ ∃ c note, IsConstant cx.index s' e c ∧
    Temp s' v c.typ ∧ NoteKnown s' note ∧
      Emits (cx.setting S) s [.assignConst v c note] [] s'

theorem constant_readsConstant (hl : cx.LineKnown) {s₁ : State} {e : Expr} {c : Flo.Constant}
    {v : Nat} (hv : s₁.vars = s.vars) (he : Emits (cx.setting S) s [] [] s₁)
    (hc : IsConstant cx.index s₁ e c) (hr : (constant cx c).Ran s₁ v s') :
    ReadsConstant cx S e s v s' := by
  obtain ⟨hv', hlen, ht, note, hn, he'⟩ := constant_ran hl he.inv hc.covers hr
  exact ⟨hv ▸ hv', hlen, c, note, hc.mono he'.grows, ht, hn, he.trans_nil he'⟩

theorem readInteger_ran (hx : cx.index.Closed S) (hl : cx.LineKnown) (h : s.Inv (cx.setting S))
    {ty : Ty} (hS : S ty) {value : Int} {v : Nat} (hr : (readInteger cx ty value).Ran s v s') :
    ReadsConstant cx S (.integer ty value) s v s' := by
  cases ty with
  | integer width =>
    simp only [readInteger, check, Build.ran_bind, Build.ran_ofExcept] at hr
    obtain ⟨typ, s₁, ht, c, _, ⟨hc, rfl⟩, hr⟩ := hr
    obtain ⟨rep, hrep, rfl, hv, he⟩ := valueType_ran hx h hS ht
    exact constant_readsConstant hl hv he (.integer hrep hc) hr
  | boolean => exact constant_readsConstant hl rfl (.refl h) .truth hr
  | real width => exact constant_readsConstant hl rfl (.refl h) .rounded hr
  | pointer base =>
    simp only [readInteger] at hr
    split at hr
    · rename_i hz
      simp only [Build.ran_bind] at hr
      obtain ⟨typ, s₁, ht, hr⟩ := hr
      obtain ⟨rep, hrep, rfl, hv, he⟩ := valueType_ran hx h hS ht
      subst hz
      exact constant_readsConstant hl hv he (.null hrep) hr
    · simp at hr
  | reference base =>
    simp only [readInteger] at hr
    split at hr <;> simp at hr
  | array base length => simp [readInteger] at hr
  | record name fields => simp [readInteger] at hr

theorem readReal_ran (hx : cx.index.Closed S) (hl : cx.LineKnown) (h : s.Inv (cx.setting S))
    {ty : Ty} (hS : S ty) {value : Double} {v : Nat} (hr : (readReal cx ty value).Ran s v s') :
    ReadsConstant cx S (.real ty value) s v s' := by
  simp only [readReal, Build.ran_bind] at hr
  obtain ⟨typ, s₁, ht, hr⟩ := hr
  split at hr
  · simp at hr
  rename_i hd
  obtain ⟨rep, hrep, rfl, hv, he⟩ := valueType_ran hx h hS ht
  exact constant_readsConstant hl hv he (.real hrep (by simpa using hd)) hr

/-! ### Parts -/

/-- The field that an expression accesses is one of the record. -/
theorem slotFor_ran (hx : cx.index.Closed S) (h : s.Inv (cx.setting S)) {record : Ty}
    (hrec : record.isRecord) {struct : Nat}
    (hreg : s.types.structOf? (cx.index.complete record) = some struct) {member : String} {e : Expr}
    {slot : Slot} (hr : (slotFor cx struct member e).Ran s slot s') :
    (∃ slots, IsSlot cx.index s' record struct slots member slot) ∧ e.ty.agrees slot.ty ∧
      s'.vars = s.vars ∧ Emits (cx.setting S) s [] [] s' := by
  simp only [slotFor, check, Build.ran_bind, Build.ran_ofExcept, Build.ran_pure] at hr
  obtain ⟨slot', s₁, hslot, record', s₂, hrecord, _, _, ⟨hty, rfl⟩, rfl, rfl⟩ := hr
  obtain ⟨hslot, hv₁, -, he₁⟩ := zoom_ran (P := cx.setting S) (slotOf_keeps hx struct member) h hslot
  obtain ⟨-, hv₂, -, he₂⟩ := zoom_ran (P := cx.setting S) (recordOf_keeps struct) he₁.inv hrecord
  obtain ⟨slots, hk, hlaid, hmem, hname⟩ := slotOf_ran hx h.sound hreg hslot
  have hi : IsSlot cx.index s₁ record struct slots member slot :=
    ⟨hrec, he₁.grows.types.structOf? hreg, hk, hlaid, hmem, hname⟩
  exact ⟨⟨slots, hi.mono he₂.grows⟩, sameType_eq_ok_iff.1 hty, hv₂.trans hv₁, he₁.trans_nil he₂⟩

/-- The last step of following a pointer, which may find it null. -/
theorem mayPanic_ran {P : Setting} (h : s.Inv P) {nullable : Bool} {α : Type} {a b : α}
    (hr : (if nullable = true then (do markPanic; pure a) else pure a : LowerM α).Ran s b s') :
    b = a ∧ s'.vars = s.vars ∧ Emits P s [] [] s' := by
  split at hr
  · simp only [Build.ran_bind, Build.ran_pure] at hr
    obtain ⟨_, s₁, hp, rfl, rfl⟩ := hr
    exact ⟨rfl, markPanic_ran h hp⟩
  · obtain ⟨rfl, rfl⟩ := Build.ran_pure.1 hr
    exact ⟨rfl, rfl, .refl h⟩

theorem fieldThrough_ran (hx : cx.index.Closed S) (h : s.Inv (cx.setting S)) {pointer e : Expr}
    (hS : S pointer.ty) {readPointer : LowerM Nat} {member : String} {handle : Nat} {slot : Slot}
    (hr : (fieldThrough cx pointer readPointer member e).Ran s (handle, slot) s') :
    ∃ record struct slots s₁ s₂, pointer.ty.indirectBase = some record ∧
      IsSlot cx.index s₁ record struct slots member slot ∧ e.ty.agrees slot.ty ∧
      s₁.vars = s.vars ∧ Emits (cx.setting S) s [] [] s₁ ∧ readPointer.Ran s₁ handle s₂ ∧
      (s₂.Inv (cx.setting S) → s'.vars = s₂.vars ∧ Emits (cx.setting S) s₂ [] [] s') := by
  unfold fieldThrough at hr
  cases hb : pointer.ty.indirectBase.filter Ty.isRecord with
  | none => simp [hb] at hr
  | some record =>
    obtain ⟨hb, hrec⟩ := Option.filter_eq_some_iff.1 hb
    simp only [Option.filter, hb, hrec, if_true, Build.ran_bind] at hr
    obtain ⟨struct, s₁, hres, slot', s₂, hslot, handle', s₃, hread, hr⟩ := hr
    obtain ⟨hres, hv₁, -, he₁⟩ := zoom_ran (P := cx.setting S)
      (resolveHandle_keeps hx (hx.indirectBase hS hb)) h hres
    obtain ⟨-, hreg⟩ := resolveHandle_ran hres
    obtain ⟨⟨slots, hi⟩, hty, hv₂, he₂⟩ := slotFor_ran hx he₁.inv hrec hreg hslot
    have hpair : (handle, slot) = (handle', slot') := by
      split at hr
      · simp only [Build.ran_bind, Build.ran_pure] at hr
        obtain ⟨_, _, -, h, -⟩ := hr
        exact h
      · exact (Build.ran_pure.1 hr).1
    obtain ⟨rfl, rfl⟩ := Prod.mk.inj hpair
    exact ⟨record, struct, slots, s₂, s₃, hb, hi, hty, hv₂.trans hv₁, he₁.trans_nil he₂, hread,
      fun h₃ => (mayPanic_ran h₃ hr).2⟩

theorem readPointer_ran {pointer e : Expr} {readPointer : LowerM Nat} {handle : Nat}
    (hr : (Lowering.readPointer pointer readPointer e).Ran s handle s') :
    ∃ pointee s₁, pointer.ty.indirectBase = some pointee ∧ e.ty.agrees pointee ∧
      readPointer.Ran s handle s₁ ∧
      ∀ {P : Setting}, s₁.Inv P → s'.vars = s₁.vars ∧ Emits P s₁ [] [] s' := by
  unfold Lowering.readPointer at hr
  cases hb : pointer.ty.indirectBase with
  | none => simp [hb] at hr
  | some pointee =>
    simp only [hb, check, Build.ran_bind, Build.ran_ofExcept] at hr
    obtain ⟨_, _, ⟨hty, rfl⟩, handle', s₁, hread, hr⟩ := hr
    have heq : handle = handle' := by
      split at hr
      · simp only [Build.ran_bind, Build.ran_pure] at hr
        obtain ⟨_, _, -, h, -⟩ := hr
        exact h
      · exact (Build.ran_pure.1 hr).1
    subst heq
    exact ⟨pointee, s₁, rfl, sameType_eq_ok_iff.1 hty, hread, fun h₁ => (mayPanic_ran h₁ hr).2⟩

theorem readElement_ran {array index e : Expr} {readArray readIndex : LowerM Nat} {a i : Nat}
    (hr : (readElement array index readArray readIndex e).Ran s (a, i) s') :
    ∃ base length s₁ s₂, array.ty = .array base length ∧ e.ty.agrees base ∧ index.ty.isIntegral ∧
      readArray.Ran s a s₁ ∧ readIndex.Ran s₁ i s₂ ∧
      ∀ {P : Setting}, s₂.Inv P → s'.vars = s₂.vars ∧ Emits P s₂ [] [] s' := by
  unfold readElement at hr
  split at hr
  · rename_i base length harray
    simp only [check, Build.ran_bind, Build.ran_ofExcept] at hr
    obtain ⟨_, _, ⟨hty, rfl⟩, hr⟩ := hr
    split at hr
    · simp at hr
    rename_i hint
    simp only [Build.ran_bind, Build.ran_pure, Prod.mk.injEq] at hr
    obtain ⟨a', s₁, ha, i', s₂, hi, _, s₃, hp, ⟨rfl, rfl⟩, rfl⟩ := hr
    exact ⟨base, length, s₁, s₂, harray, sameType_eq_ok_iff.1 hty, by simpa using hint, ha, hi,
      fun h₂ => markPanic_ran h₂ hp⟩
  · simp at hr

/-- One temporary after the other. -/
theorem temporaries_ran (hl : cx.LineKnown) (h : s.Inv (cx.setting S)) {slots : List Slot}
    (hc : ∀ slot ∈ slots, s.types.Covers slot.typ) {parts : List Nat}
    (hr : (slots.mapM fun s => temporary cx s.typ).Ran s parts s') :
    parts = List.range' s.vars.length slots.length ∧
      s'.vars.length = s.vars.length + slots.length ∧ AreTemps s' s.vars.length slots ∧
      Emits (cx.setting S) s [] [] s' := by
  induction slots generalizing s parts with
  | nil =>
    obtain ⟨rfl, rfl⟩ := Build.ran_mapM_nil.1 hr
    exact ⟨rfl, rfl, fun h => by simp at h, .refl h⟩
  | cons slot slots ih =>
    obtain ⟨v, s₁, rest, hv, hrest, rfl⟩ := Build.ran_mapM_cons.1 hr
    obtain ⟨rfl, hlen, ht, he⟩ := temporary_ran hl h (hc slot List.mem_cons_self) hv
    obtain ⟨rfl, hlen', hts, he'⟩ :=
      ih he.inv (fun t ht => (hc t (by simp [ht])).mono he.grows.types) hrest
    refine ⟨by rw [hlen, List.length_cons, List.range'_succ], by simp [hlen', hlen]; omega, ?_,
      he.trans_nil he'⟩
    intro i slot' hslot
    cases i with
    | zero =>
      obtain rfl : slot = slot' := by simpa using hslot
      exact ht.mono he'.grows
    | succ i =>
      have := hts (i := i) (by simpa using hslot)
      rwa [hlen, Nat.add_assoc, Nat.add_comm 1] at this

theorem destructure_ran (hx : cx.index.Closed S) (hl : cx.LineKnown) (h : s.Inv (cx.setting S))
    {base e : Expr} (hS : S base.ty) {readBase : LowerM Nat} {member : String} {parts : List Nat}
    {slot : Slot} (hr : (destructure cx base readBase member e).Ran s (parts, slot) s') :
    ∃ struct slots s₁ whole s₂, IsSlot cx.index s₁ base.ty struct slots member slot ∧
      e.ty.agrees slot.ty ∧ s₁.vars = s.vars ∧ Emits (cx.setting S) s [] [] s₁ ∧
      readBase.Ran s₁ whole s₂ ∧
      (s₁.Grows s₂ → s₂.Inv (cx.setting S) → ∃ note, parts = List.range' s₂.vars.length slots.length ∧
        s'.vars.length = s₂.vars.length + slots.length ∧ AreTemps s' s₂.vars.length slots ∧
        NoteKnown s' note ∧
        Emits (cx.setting S) s₂ [.destructure whole parts note] [] s') := by
  unfold destructure at hr
  split at hr
  · simp at hr
  rename_i hrec
  have hrec : base.ty.isRecord := by simpa using hrec
  simp only [Build.ran_bind, Build.ran_pure, Prod.mk.injEq] at hr
  obtain ⟨struct, s₁, hres, slot', s₂, hslot, slots', s₃, hslots, whole, s₄, hread, parts', s₅,
    hparts, note, s₆, hnote, _, s₇, hemit, ⟨rfl, rfl⟩, rfl⟩ := hr
  obtain ⟨hres, hv₁, -, he₁⟩ := zoom_ran (P := cx.setting S) (resolve_keeps hx hS) h hres
  obtain ⟨-, hreg⟩ := resolve_ran hres
  obtain ⟨⟨slots, hi⟩, hty, hv₂, he₂⟩ := slotFor_ran hx he₁.inv hrec hreg hslot
  obtain ⟨hslots, hv₃, -, he₃⟩ := zoom_ran (P := cx.setting S) (slotsOf_keeps hx struct) he₂.inv
    hslots
  obtain ⟨hk, -⟩ := slotsOf_ran hx he₂.inv.sound hi.registered hslots
  have hi₃ := hi.mono he₃.grows
  obtain rfl : slots' = slots := hk.unique hi₃.known
  refine ⟨struct, slots', s₃, whole, s₄, hi₃, hty, by rw [hv₃, hv₂, hv₁],
    (he₁.trans_nil he₂).trans_nil he₃, hread, fun hg h₄ => ?_⟩
  obtain ⟨hparts, hlen, hts, he₅⟩ := temporaries_ran hl h₄
    (fun t ht => (hi₃.laidOut.covers ht).mono hg.types) hparts
  obtain ⟨note', hn, hv, he₆⟩ := emitNoted_ran (f := .destructure whole parts) hl he₅.inv
    (Build.ran_bind.2 ⟨note, s₆, hnote, hemit⟩)
  exact ⟨note', hparts, hv ▸ hlen, hts.mono he₆.grows, hn, he₅.trans_nil he₆⟩

theorem construct_ran (hx : cx.index.Closed S) (hl : cx.LineKnown) (h : s.Inv (cx.setting S))
    {base : Expr} (hS : S base.ty) {struct : Nat}
    (hreg : s.types.structOf? (cx.index.complete base.ty) = some struct) {parts : List Nat}
    {v : Nat} (hr : (construct cx base parts).Ran s v s') :
    v = s.vars.length ∧ s'.vars.length = v + 1 ∧ Temp s' v (.struct struct) ∧
      ∃ note, NoteKnown s' note ∧ Emits (cx.setting S) s [.construct v parts note] [] s' := by
  simp only [construct, Build.ran_bind, Build.ran_pure] at hr
  obtain ⟨struct', s₁, hres, v', s₂, htemp, note, s₃, hnote, _, s₄, hemit, rfl, rfl⟩ := hr
  obtain ⟨hres, hv₁, -, he₁⟩ := zoom_ran (P := cx.setting S) (resolve_keeps hx hS) h hres
  obtain ⟨-, hreg'⟩ := resolve_ran hres
  obtain rfl : struct' = struct :=
    Option.some.inj (hreg'.symm.trans (he₁.grows.types.structOf? hreg))
  have hc : s₁.types.Covers (.struct struct') := Registry.structOf?_bounds hreg'
  obtain ⟨hv, hlen, ht, he₂⟩ := temporary_ran hl he₁.inv hc htemp
  obtain ⟨note', hn, hv', he₃⟩ := emitNoted_ran (f := .construct v parts) hl he₂.inv
    (Build.ran_bind.2 ⟨note, s₃, hnote, hemit⟩)
  exact ⟨hv₁ ▸ hv, hv' ▸ hlen, ht.mono he₃.grows, note', hn,
    (he₁.trans_nil he₂).trans_nil he₃⟩

/-! ### Reading -/

theorem Reads.of_constant {e : Expr} {v : Nat} (h : ReadsConstant cx S e s v s') :
    ∃ code, Emits (cx.setting S) s code [] s' ∧
      ∀ w, s'.Grows w → Reads cx.index w e s.vars.length v code s'.vars.length := by
  obtain ⟨rfl, hlen, c, note, hc, ht, hn, he⟩ := h
  refine ⟨_, he, fun w hw => ?_⟩
  rw [hlen]
  exact .constant (hc.mono hw) (ht.mono hw) (hn.mono hw)

/-- A field of something that is not behind a pointer is a part of a record by value. -/
theorem read_component {base : Expr} (h : ∀ rty pointer, base ≠ .deref rty pointer) {ty : Ty}
    {member : String} :
    read cx (.component ty base member) = (do
      let (parts, slot) ← destructure cx base (read cx base) member (.component ty base member)
      Build.present slot.index parts[slot.index]?) := by
  cases base with
  | deref rty pointer => exact absurd rfl (h rty pointer)
  | _ => rfl

theorem write_component {base : Expr} (h : ∀ rty pointer, base ≠ .deref rty pointer) {ty : Ty}
    {member : String} {value : Nat} :
    write cx (.component ty base member) value = (do
      let (parts, slot) ← destructure cx base (read cx base) member (.component ty base member)
      let parts ←
        Build.present slot.index (parts[slot.index]?.map fun _ => parts.set slot.index value)
      write cx base (← construct cx base parts)) := by
  cases base with
  | deref rty pointer => exact absurd rfl (h rty pointer)
  | _ => rfl

/-- A read emits the code of the operand. -/
theorem read_ran (hx : cx.index.Closed S) (hl : cx.LineKnown) {e : Expr} (hS : ∀ ty ∈ e.types, S ty)
    (h : s.Inv (cx.setting S)) {v : Nat} (hr : (read cx e).Ran s v s') :
    ∃ code, Emits (cx.setting S) s code [] s' ∧
      ∀ w, s'.Grows w → Reads cx.index w e s.vars.length v code s'.vars.length := by
  induction e using read.induct generalizing s s' v with
  | case1 ty value => exact Reads.of_constant (readInteger_ran hx hl h (hS ty (by simp [Expr.types])) hr)
  | case2 ty value => exact Reads.of_constant (readReal_ran hx hl h (hS ty (by simp [Expr.types])) hr)
  | case3 ty name =>
    simp only [read, Build.ran_bind, Build.ran_pure] at hr
    obtain ⟨v, s₁, hlook, rfl, rfl⟩ := hr
    obtain ⟨he, hmem, rfl, hty⟩ := lookup_ran hx hl h hlook
    exact ⟨[], he, fun w hw => .named he.grows.vars.length_le (hw.mem_scope hmem) hty⟩
  | case4 ty rty pointer member ih =>
    simp only [read, Build.ran_bind] at hr
    obtain ⟨⟨handle, slot⟩, s₁, hfield, hr⟩ := hr
    have hS' : ∀ ty ∈ pointer.types, S ty := fun t ht => hS t (by simp [Expr.types, ht])
    obtain ⟨record, struct, slots, s₂, s₃, hb, hi, hty, hv₂, he₂, hread, hrest⟩ :=
      fieldThrough_ran hx h (hS' _ pointer.ty_mem_types) hfield
    obtain ⟨code, he₃, hreads⟩ := ih hS' he₂.inv hread
    obtain ⟨hv₁, he₁⟩ := hrest he₃.inv
    have hc := (hi.laidOut.covers hi.mem).mono (he₃.grows.trans he₁.grows).types
    obtain ⟨rfl, hlen, ht, note, hn, he⟩ := load_ran hl he₁.inv hc hr
    refine ⟨_, ((he₂.trans_nil he₃).append_nil he₁).trans he, fun w hw => ?_⟩
    have hw₃ : s₃.Grows w := (he₁.grows.trans he.grows).trans hw
    rw [hlen, hv₁, ← hv₂]
    rw [hv₁] at ht
    exact .through hb (hi.mono (he₃.grows.trans hw₃)) hty (hreads w hw₃) (ht.mono hw) (hn.mono hw)
  | case5 ty base member hdirect ih =>
    rw [read_component hdirect] at hr
    simp only [Build.ran_bind, Build.ran_present] at hr
    obtain ⟨⟨parts, slot⟩, s₁, hparts, hpart, rfl⟩ := hr
    have hS' : ∀ ty ∈ base.types, S ty := fun t ht => hS t (by simp [Expr.types, ht])
    obtain ⟨struct, slots, s₂, whole, s₃, hi, hty, hv₂, he₂, hread, hrest⟩ :=
      destructure_ran hx hl h (hS' _ base.ty_mem_types) hparts
    obtain ⟨code, he₃, hreads⟩ := ih hS' he₂.inv hread
    obtain ⟨note, rfl, hlen, hts, hn, he⟩ := hrest he₃.grows he₃.inv
    refine ⟨_, (he₂.trans_nil he₃).trans he, fun w hw => ?_⟩
    have hw₃ : s₃.Grows w := he.grows.trans hw
    obtain rfl : s₃.vars.length + slot.index = v := by
      simpa [List.getElem?_range', hi.index_lt] using hpart
    rw [hlen, ← hv₂]
    exact .part hdirect (hi.mono (he₃.grows.trans hw₃)) hty (hreads w hw₃) (hts.mono hw)
      (hn.mono hw)
  | case6 ty pointer ih =>
    simp only [read, Build.ran_bind] at hr
    obtain ⟨handle, s₁, hp, typ, s₂, htyp, hr⟩ := hr
    obtain ⟨pointee, s₃, hb, hty, hread, hrest⟩ := readPointer_ran hp
    obtain ⟨code, he₃, hreads⟩ := ih (fun t ht => hS t (by simp [Expr.types, ht])) h hread
    obtain ⟨hv₁, he₁⟩ := hrest he₃.inv
    obtain ⟨rep, hrep, rfl, hv₂, he₂⟩ := valueType_ran hx he₁.inv (hS ty (by simp [Expr.types])) htyp
    obtain ⟨rfl, hlen, ht, note, hn, he⟩ := load_ran hl he₂.inv hrep.covers hr
    refine ⟨_, ((he₃.append_nil he₁).append_nil he₂).trans he, fun w hw => ?_⟩
    have hw₂ : s₂.Grows w := he.grows.trans hw
    have hv : s₂.vars = s₃.vars := hv₂.trans hv₁
    rw [hlen, hv]
    rw [hv] at ht
    exact .deref hb hty (hrep.mono hw₂.types)
      (hreads w (he₁.grows.trans (he₂.grows.trans hw₂))) (ht.mono hw) (hn.mono hw)
  | case7 ty array index ih ih' =>
    simp only [read, Build.ran_bind] at hr
    obtain ⟨⟨a, i⟩, s₁, helem, typ, s₂, htyp, hr⟩ := hr
    obtain ⟨base, length, s₃, s₄, harray, hty, hint, hra, hri, hrest⟩ := readElement_ran helem
    obtain ⟨code, he₃, hreads⟩ := ih (fun t ht => hS t (by simp [Expr.types, ht])) h hra
    obtain ⟨code', he₄, hreads'⟩ := ih' (fun t ht => hS t (by simp [Expr.types, ht])) he₃.inv hri
    obtain ⟨hv₁, he₁⟩ := hrest he₄.inv
    obtain ⟨rep, hrep, rfl, hv₂, he₂⟩ := valueType_ran hx he₁.inv (hS ty (by simp [Expr.types])) htyp
    obtain ⟨rfl, hlen, ht, note, hn, he⟩ := load_ran hl he₂.inv hrep.covers hr
    refine ⟨_, (((he₃.trans he₄).append_nil he₁).append_nil he₂).trans he, fun w hw => ?_⟩
    have hw₂ : s₂.Grows w := he.grows.trans hw
    have hw₄ : s₄.Grows w := he₁.grows.trans (he₂.grows.trans hw₂)
    have hv : s₂.vars = s₄.vars := hv₂.trans hv₁
    rw [hlen, hv]
    rw [hv] at ht
    exact .element harray hty hint (hrep.mono hw₂.types) (hreads w (he₄.grows.trans hw₄))
      (hreads' w hw₄) (ht.mono hw) (hn.mono hw)
  | case8 ty value => simp [read] at hr

/-- A write emits the code of the target. -/
theorem write_ran (hx : cx.index.Closed S) (hl : cx.LineKnown) {e : Expr} (hS : ∀ ty ∈ e.types, S ty)
    (h : s.Inv (cx.setting S)) {value : Nat} (hr : (write cx e value).Ran s () s') :
    ∃ code, Emits (cx.setting S) s code [] s' ∧
      ∀ w, s'.Grows w → Writes cx.index w e s.vars.length value code s'.vars.length := by
  induction e, value using write.induct generalizing s s' with
  | case1 ty name value =>
    simp only [write, assign, Build.ran_bind] at hr
    obtain ⟨v, s₁, hlook, note, s₂, hnote, hr⟩ := hr
    obtain ⟨he, hmem, rfl, hty⟩ := lookup_ran hx hl h hlook
    obtain ⟨note', hn, hv, he'⟩ := emitNoted_ran (f := .assign v.id value) hl he.inv
      (Build.ran_bind.2 ⟨note, s₂, hnote, hr⟩)
    refine ⟨_, he.trans_nil he', fun w hw => ?_⟩
    rw [hv]
    exact .named he.grows.vars.length_le ((he'.grows.trans hw).mem_scope hmem) hty (hn.mono hw)
  | case2 ty rty pointer member value =>
    simp only [write, store, Build.ran_bind] at hr
    obtain ⟨⟨handle, slot⟩, s₁, hfield, note, s₄, hnote, hr⟩ := hr
    have hS' : ∀ ty ∈ pointer.types, S ty := fun t ht => hS t (by simp [Expr.types, ht])
    obtain ⟨record, struct, slots, s₂, s₃, hb, hi, hty, hv₂, he₂, hread, hrest⟩ :=
      fieldThrough_ran hx h (hS' _ pointer.ty_mem_types) hfield
    obtain ⟨code, he₃, hreads⟩ := read_ran hx hl hS' he₂.inv hread
    obtain ⟨hv₁, he₁⟩ := hrest he₃.inv
    obtain ⟨note', hn, hv, he⟩ := emitNoted_ran (f := .store handle slot.member value) hl he₁.inv
      (Build.ran_bind.2 ⟨note, s₄, hnote, hr⟩)
    refine ⟨_, ((he₂.trans_nil he₃).append_nil he₁).trans he, fun w hw => ?_⟩
    have hw₃ : s₃.Grows w := (he₁.grows.trans he.grows).trans hw
    rw [hv, hv₁, ← hv₂]
    exact .through hb (hi.mono (he₃.grows.trans hw₃)) hty (hreads w hw₃) (hn.mono hw)
  | case3 ty base member value hdirect ih =>
    rw [write_component hdirect] at hr
    simp only [Build.ran_bind, Build.ran_present] at hr
    obtain ⟨⟨parts, slot⟩, _, hparts, parts', s₁, ⟨hset, rfl⟩, built, s₄, hbuilt, hr⟩ := hr
    obtain ⟨_, -, rfl⟩ := Option.map_eq_some_iff.1 hset
    have hS' : ∀ ty ∈ base.types, S ty := fun t ht => hS t (by simp [Expr.types, ht])
    obtain ⟨struct, slots, s₂, whole, s₃, hi, hty, hv₂, he₂, hread, hrest⟩ :=
      destructure_ran hx hl h (hS' _ base.ty_mem_types) hparts
    obtain ⟨code, he₃, hreads⟩ := read_ran hx hl hS' he₂.inv hread
    obtain ⟨note, rfl, hlen, hts, hn, he₁⟩ := hrest he₃.grows he₃.inv
    have hi₁ := hi.mono (he₃.grows.trans he₁.grows)
    obtain ⟨rfl, hlen₄, ht, note', hn', he₄⟩ := construct_ran hx hl he₁.inv
      (hS' _ base.ty_mem_types) hi₁.registered hbuilt
    obtain ⟨code', he, hwrites⟩ := ih _ hS' he₄.inv hr
    refine ⟨_, (((he₂.trans_nil he₃).trans he₁).trans he₄).trans he, fun w hw => ?_⟩
    have hw₄ : s₄.Grows w := he.grows.trans hw
    have hw₁ : s₁.Grows w := he₄.grows.trans hw₄
    have hwrite := hwrites w hw
    rw [hlen₄, hlen] at hwrite
    rw [hlen] at ht
    rw [← hv₂, List.append_assoc code, List.singleton_append, hlen]
    exact .part hdirect (hi₁.mono hw₁) hty (hreads w (he₁.grows.trans hw₁)) (hts.mono hw₁)
      (ht.mono hw₄) hwrite (hn.mono hw₁) (hn'.mono hw₄)
  | case4 ty pointer value =>
    simp only [write, store, Build.ran_bind] at hr
    obtain ⟨handle, s₁, hp, note, s₂, hnote, hr⟩ := hr
    obtain ⟨pointee, s₃, hb, hty, hread, hrest⟩ := readPointer_ran hp
    obtain ⟨code, he₃, hreads⟩ := read_ran hx hl (fun t ht => hS t (by simp [Expr.types, ht])) h hread
    obtain ⟨hv₁, he₁⟩ := hrest he₃.inv
    obtain ⟨note', hn, hv, he⟩ := emitNoted_ran (f := .store handle .whole value) hl he₁.inv
      (Build.ran_bind.2 ⟨note, s₂, hnote, hr⟩)
    refine ⟨_, (he₃.append_nil he₁).trans he, fun w hw => ?_⟩
    rw [hv, hv₁]
    exact .deref hb hty (hreads w (he₁.grows.trans (he.grows.trans hw))) (hn.mono hw)
  | case5 ty array index value =>
    simp only [write, store, Build.ran_bind] at hr
    obtain ⟨⟨a, i⟩, s₁, helem, note, s₂, hnote, hr⟩ := hr
    obtain ⟨base, length, s₃, s₄, harray, hty, hint, hra, hri, hrest⟩ := readElement_ran helem
    obtain ⟨code, he₃, hreads⟩ := read_ran hx hl (fun t ht => hS t (by simp [Expr.types, ht])) h hra
    obtain ⟨code', he₄, hreads'⟩ :=
      read_ran hx hl (fun t ht => hS t (by simp [Expr.types, ht])) he₃.inv hri
    obtain ⟨hv₁, he₁⟩ := hrest he₄.inv
    obtain ⟨note', hn, hv, he⟩ := emitNoted_ran (f := .store a (.element i) value) hl he₁.inv
      (Build.ran_bind.2 ⟨note, s₂, hnote, hr⟩)
    refine ⟨_, ((he₃.trans he₄).append_nil he₁).trans he, fun w hw => ?_⟩
    have hw₄ : s₄.Grows w := he₁.grows.trans (he.grows.trans hw)
    rw [hv, hv₁]
    exact .element harray hty hint (hreads w (he₄.grows.trans hw₄)) (hreads' w hw₄) (hn.mono hw)
  | case6 value ty i => simp [write] at hr
  | case7 value ty d => simp [write] at hr
  | case8 value ty e => simp [write] at hr

end GimpleLowering.Lowering
