import GimpleLowering.Proofs.Layout.Soundness

/-!
# Computations on types

Every computation on types keeps the registry sound, and what it computes is the representation, the
struct or the layout that the registry has afterwards. Layouts and representations need each other,
so the facts about one assume those about the other (`Supplies`), and the induction is on the fuel
of layouts.

## Main results

* `Layout.represent_keeps`, `slotsOf_keeps`, `finalize_keeps` — soundness is kept
* `Layout.represent_ran`, `slotsOf_ran`, `slotOf_ran` — what the results mean
-/

namespace GimpleLowering.Layout

open Gimple

variable {x : UnitIndex} {S : Ty → Prop} {A : Flo.Ty × Nat → Prop} {active : List Nat}
  {r r' : Registry}

/-! ### Structs -/

theorem completeRecord_ran {ty record : Ty} (h : (completeRecord x ty).Ran r record r') :
    ty.isRecord ∧ record = x.complete ty ∧ r' = r := by
  unfold completeRecord at h
  split at h
  · rename_i hr
    obtain ⟨rfl, rfl⟩ := Build.ran_pure.1 h
    exact ⟨hr, rfl, rfl⟩
  · exact absurd h (by simp)

theorem resolveHandle_ran {ty : Ty} {id : Nat} (h : (resolveHandle x ty).Ran r id r') :
    ty.isRecord ∧ r'.structOf? (x.complete ty) = some id := by
  simp only [resolveHandle, Build.ran_bind, Build.ran_step] at h
  obtain ⟨record, r₁, hc, rfl, rfl⟩ := h
  obtain ⟨hr, rfl, rfl⟩ := completeRecord_ran hc
  exact ⟨hr, Registry.structOf?_registerStruct _ _⟩

theorem resolve_ran {ty : Ty} {id : Nat} (h : (resolve x ty).Ran r id r') :
    ty.isRecord ∧ r'.structOf? (x.complete ty) = some id := by
  simp only [resolve, Build.ran_bind, Build.ran_step, Build.ran_ofExcept] at h
  obtain ⟨record, r₁, hc, _, r₂, ⟨-, rfl⟩, rfl, rfl⟩ := h
  obtain ⟨hr, rfl, rfl⟩ := completeRecord_ran hc
  exact ⟨hr, Registry.structOf?_registerStruct _ _⟩

/-- What completes a record evolves the registry if registering the completed record does. -/
theorem completeRecord_bind_keeps {α : Type} (hx : x.Closed S) {ty : Ty} (hS : S ty)
    {f : Ty → LayoutM α}
    (hf : ∀ record, S record → record.isRecord → x.complete record = record →
      (f record).Keeps (EvolvesUpTo x S A active)) :
    (completeRecord x ty >>= f).Keeps (EvolvesUpTo x S A active) := by
  refine Build.Keeps.bind_of_ran ?_ fun r record r' h res r'' h' => ?_
  · unfold completeRecord
    split
    · exact .pure _
    · exact .throw _
  · obtain ⟨hr, rfl, rfl⟩ := completeRecord_ran h
    refine hf _ (hx.complete hS) ?_ (UnitIndex.complete_complete ty) _ res r'' h'
    rw [UnitIndex.isRecord_complete, hr]

theorem resolveHandle_keeps (hx : x.Closed S) {ty : Ty} (hS : S ty) :
    (resolveHandle x ty).Keeps (EvolvesUpTo x S A active) :=
  completeRecord_bind_keeps hx hS fun _ hS hr hc => .step fun _ => registerStruct_evolves hS hr hc

theorem resolve_keeps (hx : x.Closed S) {ty : Ty} (hS : S ty) :
    (resolve x ty).Keeps (EvolvesUpTo x S A active) :=
  completeRecord_bind_keeps hx hS fun _ hS hr hc =>
    Build.Keeps.bind (.ofExcept _) fun _ => .step fun _ => registerStruct_evolves hS hr hc

/-! ### Representations -/

/-- The computation supplies the layouts of structs, while those in `active` are under way. -/
structure Supplies (x : UnitIndex) (S : Ty → Prop) (A : Flo.Ty × Nat → Prop) (active : List Nat)
    (slots : Nat → LayoutM (List Slot)) : Prop where
  keeps : ∀ id, (slots id).Keeps (EvolvesUpTo x S A active)
  knows : ∀ {id : Nat} {r r' : Registry} {s : RecordStruct} {result : List Slot},
    r.SoundUpTo x S A → (slots id).Ran r result r' → r.struct? id = some s → r'.Knows id result

section

variable {slots : Nat → LayoutM (List Slot)}

theorem integerOfWidth_ran {width : Nat} {rep : Representation}
    (h : (integerOfWidth width).Ran r rep r') : Represents x r' (.integer width) rep ∧ r' = r := by
  unfold integerOfWidth at h
  split at h
  · obtain ⟨rfl, rfl⟩ := Build.ran_pure.1 h
    rename_i hw
    exact ⟨hw ▸ .integer32, rfl⟩
  · split at h
    · obtain ⟨rfl, rfl⟩ := Build.ran_pure.1 h
      rename_i hw
      exact ⟨hw ▸ .integer64, rfl⟩
    · exact absurd h (by simp)

theorem realOfWidth_ran {width : Nat} {rep : Representation}
    (h : (realOfWidth width).Ran r rep r') : Represents x r' (.real width) rep ∧ r' = r := by
  unfold realOfWidth at h
  split at h
  · obtain ⟨rfl, rfl⟩ := Build.ran_pure.1 h
    rename_i hw
    exact ⟨hw ▸ .real, rfl⟩
  · exact absurd h (by simp)

/-- What an indirection does depends on whether it leads to a record, to another indirection, or to
anything else. -/
theorem indirection_eq (ty base : Ty) (pointee : LayoutM Representation) :
    indirection x ty base pointee =
      if base.isRecord then
        (fun id => .recordHandle id ty.isNullable) <$> resolveHandle x base
      else if base.isIndirect then throw (.unsupportedType (.doubleIndirection ty))
      else (fun rep => .cell rep.valueType ty.isNullable) <$> pointee := by
  cases base <;> simp [indirection, Ty.isRecord, Ty.isIndirect, Ty.indirectBase]

theorem indirection_ran {ty base : Ty} (hb : ty.indirectBase = some base)
    {pointee : LayoutM Representation} {rep : Representation}
    (hp : ∀ rep', pointee.Ran r rep' r' → Represents x r' base rep')
    (h : (indirection x ty base pointee).Ran r rep r') : Represents x r' ty rep := by
  rw [indirection_eq] at h
  split at h
  · rw [map_eq_pure_bind] at h
    simp only [Build.ran_bind, Build.ran_pure] at h
    obtain ⟨id, r₁, hid, rfl, rfl⟩ := h
    obtain ⟨hr, hreg⟩ := resolveHandle_ran hid
    exact .recordHandle hb hr hreg
  · rename_i hr
    split at h
    · exact absurd h (by simp)
    · rename_i hi
      rw [map_eq_pure_bind] at h
      simp only [Build.ran_bind, Build.ran_pure] at h
      obtain ⟨rep', r₁, hrep, rfl, rfl⟩ := h
      exact .cell hb (by simpa using hr) (by simpa using hi) (hp rep' hrep)

/-- An indirection keeps what finding its record or what it refers to keeps. -/
theorem indirection_keeps {R : Registry → Registry → Prop} [Std.Refl R] [IsTrans Registry R]
    {ty base : Ty} {pointee : LayoutM Representation} (hr : (resolveHandle x base).Keeps R)
    (hp : pointee.Keeps R) : (indirection x ty base pointee).Keeps R := by
  rw [indirection_eq]
  split
  · rw [map_eq_pure_bind]
    exact hr.bind fun _ => .pure _
  · split
    · exact .throw _
    · rw [map_eq_pure_bind]
      exact hp.bind fun _ => .pure _

/-- The result represents the type. -/
theorem representWith_ran (hx : x.Closed S) (hsl : Supplies x S A active slots) {ty : Ty}
    (hS : S ty) (hr : r.SoundUpTo x S A) {rep : Representation}
    (h : (representWith x slots ty).Ran r rep r') : Represents x r' ty rep := by
  induction ty using Ty.induction generalizing r r' rep with
  | integer width => exact (integerOfWidth_ran h).1
  | real width => exact (realOfWidth_ran h).1
  | boolean =>
    obtain ⟨rfl, rfl⟩ := Build.ran_pure.1 h
    exact .boolean
  | record name fields =>
    simp only [representWith, Build.ran_bind, Build.ran_pure] at h
    obtain ⟨id, r₁, hres, result, r₂, hslots, rfl, rfl⟩ := h
    have hs₁ : EvolvedUpTo x S A active r r₁ := (resolve_keeps hx hS).ran hres hr
    obtain ⟨hrec, hreg⟩ := resolve_ran hres
    obtain ⟨s, hs, -⟩ := Registry.struct?_of_structOf? hreg
    have hg := (hsl.keeps id).ran hslots hs₁.sound
    exact .record hrec (hg.grows.structOf? hreg) (hsl.knows hs₁.sound hslots hs)
  | array base length ih =>
    simp only [representWith, Build.ran_bind, Build.ran_pure, Build.ran_step] at h
    obtain ⟨member, r₁, hmem, id, r₂, ⟨rfl, rfl⟩, rfl, rfl⟩ := h
    have hrep := ih (hx.array hS) hr hmem
    obtain ⟨i, hi, hfind⟩ := r₁.arrayOf?_registerArray member.valueType length
    rw [hi]
    exact .array (hrep.mono (r₁.grows_registerArray _ _)) hfind
  | pointer base ih => exact indirection_ran rfl (fun rep' h' => ih (hx.pointer hS) hr h') h
  | reference base ih => exact indirection_ran rfl (fun rep' h' => ih (hx.reference hS) hr h') h

theorem representWith_keeps (hx : x.Closed S) (hsl : Supplies x S A active slots) {ty : Ty}
    (hS : S ty) : (representWith x slots ty).Keeps (EvolvesUpTo x S A active) := by
  induction ty using Ty.induction with
  | integer width =>
    simp only [representWith, integerOfWidth]
    split
    · exact .pure _
    · split
      · exact .pure _
      · exact .throw _
  | real width =>
    simp only [representWith, realOfWidth]
    split
    · exact .pure _
    · exact .throw _
  | boolean => exact .pure _
  | record name fields =>
    exact (resolve_keeps hx hS).bind fun id => (hsl.keeps id).bind fun _ => .pure _
  | array base length ih =>
    refine (ih (hx.array hS)).bind_of_ran fun r member r₁ hmem res r₂ h hs => ?_
    have hs₁ := (ih (hx.array hS)).ran hmem hs
    have hrep := representWith_ran hx hsl (hx.array hS) hs hmem
    simp only [Build.runOn_bind, Build.runOn_step, Build.runOn_pure, Except.ok.injEq,
      Prod.mk.injEq] at h
    exact h.2 ▸ hs₁.trans (registerArray_evolves hS hrep hs₁.sound)
  | pointer base ih =>
    exact indirection_keeps (resolveHandle_keeps hx (hx.pointer hS)) (ih (hx.pointer hS))
  | reference base ih =>
    exact indirection_keeps (resolveHandle_keeps hx (hx.reference hS)) (ih (hx.reference hS))

/-! ### Layouts -/

/-- Placing fields keeps what representing their types keeps. -/
theorem placeFields_keeps {R : Registry → Registry → Prop} [Std.Refl R] [IsTrans Registry R]
    {represent : Ty → LayoutM Representation} {fields : List Field}
    (h : ∀ f ∈ fields, (represent f.ty).Keeps R) (first : Nat) :
    (placeFields represent first fields).Keeps R := by
  induction fields generalizing first with
  | nil => exact .pure _
  | cons f rest ih =>
    refine (h f (by simp)).bind fun _ => ?_
    exact (ih (fun g hg => h g (by simp [hg])) (first + 1)).bind fun _ => .pure _

/-- Each field has its slot. -/
theorem placeFields_ran (hx : x.Closed S) (hsl : Supplies x S A active slots)
    {fields : List Field} (hS : ∀ f ∈ fields, S f.ty) {first : Nat} (hr : r.SoundUpTo x S A)
    {result : List Slot}
    (h : (placeFields (representWith x slots) first fields).Ran r result r') :
    result.length = fields.length ∧ ∀ {i : Nat} {f : Field}, fields[i]? = some f →
      ∃ rep, Represents x r' f.ty rep ∧
        result[i]? = some ⟨f.name, f.ty, rep.valueType, first + i⟩ := by
  induction fields generalizing first r result with
  | nil =>
    obtain ⟨rfl, rfl⟩ := Build.ran_pure.1 h
    simp
  | cons f rest ih =>
    simp only [placeFields, Build.ran_bind, Build.ran_pure] at h
    obtain ⟨rep, r₁, hrep, others, r₂, hothers, rfl, rfl⟩ := h
    have hS' : ∀ g ∈ rest, S g.ty := fun g hg => hS g (by simp [hg])
    have hs₁ := (representWith_keeps hx hsl (hS f (by simp))).ran hrep hr
    have hs₂ := (placeFields_keeps (fun g hg => representWith_keeps hx hsl (hS' g hg)) _).ran
      hothers hs₁.sound
    obtain ⟨hlen, hslots⟩ := ih hS' hs₁.sound hothers
    refine ⟨by simp [hlen], fun {i g} hg => ?_⟩
    cases i with
    | zero =>
      obtain rfl : f = g := by simpa using hg
      exact ⟨rep, (representWith_ran hx hsl (hS f (by simp)) hr hrep).mono hs₂.grows, rfl⟩
    | succ i =>
      obtain ⟨rep', hrep', hslot⟩ := hslots (by simpa using hg)
      exact ⟨rep', hrep', by simpa [Nat.add_assoc, Nat.add_comm 1] using hslot⟩

end

/-- Looking up the fields of a struct keeps what computing them keeps. -/
theorem knownSlots_keeps {R : Registry → Registry → Prop} [Std.Refl R] {id : Nat}
    {compute : Ty → LayoutM (List Slot)}
    (h : ∀ r s, r.struct? id = some s → s.slots = none →
      ∀ res r', (compute s.record).runOn r = .ok (res, r') → R r r') :
    (knownSlots id compute).Keeps R := by
  refine Build.Keeps.get.bind_of_ran fun r t r₁ hget res r' hrun => ?_
  obtain ⟨rfl, rfl⟩ := Build.ran_get.1 hget
  cases hs : r₁.struct? id with
  | none =>
    rw [hs] at hrun
    exact (Build.Keeps.pure []) _ _ _ hrun
  | some s =>
    rw [hs] at hrun
    cases hsl : s.slots with
    | some slots =>
      simp only [hsl] at hrun
      exact (Build.Keeps.pure slots) _ _ _ hrun
    | none =>
      simp only [hsl] at hrun
      exact h _ s hs hsl res r' hrun

theorem knownSlots_ran {id : Nat} {s : RecordStruct} {compute : Ty → LayoutM (List Slot)}
    {result : List Slot} (hs : r.struct? id = some s)
    (h : (knownSlots id compute).Ran r result r') :
    (s.slots = some result ∧ r' = r) ∨ (s.slots = none ∧ (compute s.record).Ran r result r') := by
  simp only [knownSlots, Build.ran_bind, Build.ran_get] at h
  obtain ⟨_, _, ⟨rfl, rfl⟩, h⟩ := h
  simp only [hs] at h
  cases hsl : s.slots with
  | some slots =>
    simp only [hsl, Build.ran_pure] at h
    obtain ⟨rfl, rfl⟩ := h
    exact .inl ⟨rfl, rfl⟩
  | none =>
    simp only [hsl] at h
    exact .inr ⟨rfl, h⟩

/-- The fields that are laid out are those of the record, and the struct waits for them. -/
theorem placed_laidOut (hx : x.Closed S) {slots : Nat → LayoutM (List Slot)} {id : Nat}
    (hsl : Supplies x S A (id :: active) slots) {s : RecordStruct} {placed : List Slot}
    (hr : r.SoundUpTo x S A) (hs : r.struct? id = some s) (hpending : s.slots = none)
    (hd : checkDefined x s.record = .ok ())
    (h : (placeFields (representWith x slots) 0 s.record.fields).Ran r placed r') :
    EvolvedUpTo x S A (id :: active) r r' ∧ LaidOut x r' s.record placed ∧
      ∃ s', r'.struct? id = some s' ∧ s'.slots = none ∧ s'.record = s.record := by
  have hrecord := hr.record s (Registry.mem_of_struct? hs)
  have hS : ∀ f ∈ s.record.fields, S f.ty := fun f => hx.field_of_mem hrecord.2.2
  have he := (placeFields_keeps (fun f hf => representWith_keeps hx hsl (hS f hf)) 0).ran h hr
  obtain ⟨hne, hnodup, -⟩ := checkDefined_eq_ok hd
  obtain ⟨hlen, hplaces⟩ := placeFields_ran hx hsl hS hr h
  obtain ⟨s', hs', hpending'⟩ := he.pending id (by simp) ⟨s, hs, hpending⟩
  obtain ⟨s'', hs'', hrec⟩ := he.grows.struct? hs
  obtain rfl : s' = s'' := Option.some.inj (hs'.symm.trans hs'')
  have hjudged : FieldsJudged x s.record.fields (.ok ()) := by
    refine .of_forall fun f hf => ?_
    obtain ⟨i, hi⟩ := List.getElem?_of_mem hf
    obtain ⟨rep, hrep, -⟩ := hplaces hi
    exact hrep.judged he.sound
  exact ⟨he, ⟨hne, hnodup, hlen, fun hf => by simpa using hplaces hf, .defined hd hjudged⟩, s', hs',
    hpending', hrec⟩

/-- A layout is published at its end, and not before. -/
theorem layOutWith_evolves (hx : x.Closed S) {slots : Nat → LayoutM (List Slot)} {id : Nat}
    (hsl : Supplies x S A (id :: active) slots) (hactive : id ∉ active) {s : RecordStruct}
    (hs : r.struct? id = some s) (hpending : s.slots = none) {res : Except Error (List Slot)}
    (h : (layOutWith x slots id s.record).runOn r = .ok (res, r')) :
    EvolvesUpTo x S A active r r' := by
  intro hr
  have hS : ∀ f ∈ s.record.fields, S f.ty := fun f =>
    hx.field_of_mem (hr.record s (Registry.mem_of_struct? hs)).2.2
  unfold layOutWith at h
  rw [Build.runOn_bind, Build.runOn_ofExcept] at h
  cases hd : checkDefined x s.record with
  | error e =>
    simp only [hd, Except.ok.injEq, Prod.mk.injEq] at h
    exact h.2 ▸ hr.evolved
  | ok u =>
    simp only [hd] at h
    rw [Build.runOn_bind] at h
    split at h
    · rename_i placed r₁ hplaced
      obtain ⟨he, hl, s₁, hs₁, hpending₁, hrec⟩ := placed_laidOut hx hsl hr hs hpending hd hplaced
      simp only [Build.runOn_bind, runOn_publish hs₁, Build.runOn_pure, Except.ok.injEq,
        Prod.mk.injEq] at h
      have hp := publish_evolved he.sound hs₁ hpending₁ (hrec ▸ hl) hactive
      exact h.2 ▸ (he.of_subset (List.subset_cons_self id active)).trans hp
    · rename_i e r₁ hplaced
      cases h
      have he := placeFields_keeps (fun f hf => representWith_keeps hx hsl (hS f hf)) 0 r _ _
        hplaced hr
      exact he.of_subset (List.subset_cons_self id active)
    · cases h

theorem layOutWith_ran (hx : x.Closed S) {slots : Nat → LayoutM (List Slot)} {id : Nat}
    (hsl : Supplies x S A (id :: active) slots) {s : RecordStruct} {result : List Slot}
    (hr : r.SoundUpTo x S A) (hs : r.struct? id = some s) (hpending : s.slots = none)
    (h : (layOutWith x slots id s.record).Ran r result r') : r'.Knows id result := by
  simp only [layOutWith, Build.ran_bind, Build.ran_ofExcept, Build.ran_pure] at h
  obtain ⟨_, _, ⟨hd, rfl⟩, placed, r₁, hplaced, _, r₂, hpublish, rfl, rfl⟩ := h
  obtain rfl := publish_ran hpublish
  obtain ⟨-, -, s₁, hs₁, -⟩ := placed_laidOut hx hsl hr hs hpending hd hplaced
  have hpos : 0 < id := by
    rcases Nat.eq_zero_or_pos id with rfl | hpos
    · simp at hs
    · exact hpos
  exact ⟨{ s₁ with slots := some result },
    by rw [Registry.struct?_publish hpos, if_pos rfl, hs₁, Option.map_some], rfl⟩

/-- Layouts are supplied at every level of fuel. -/
theorem layOut_supplies (hx : x.Closed S) (fuel : Nat) (active : List Nat) :
    Supplies x S A active (layOut x fuel active) := by
  induction fuel generalizing active with
  | zero =>
    refine ⟨fun id => knownSlots_keeps fun r s _ _ => Build.Keeps.unending _ r,
      fun hr hrun hs => ?_⟩
    rcases knownSlots_ran hs hrun with ⟨hsl, rfl⟩ | ⟨-, h⟩
    · exact ⟨_, hs, hsl⟩
    · exact absurd h (by simp)
  | succ fuel ih =>
    refine ⟨fun id => knownSlots_keeps fun r s hs hpending res r' hrun => ?_,
      fun {id} r r' s result hr hrun hs => ?_⟩
    · by_cases hactive : id ∈ active
      · rw [if_pos hactive] at hrun
        exact absurd hrun (by simp)
      · rw [if_neg hactive] at hrun
        exact layOutWith_evolves hx (ih (id :: active)) hactive hs hpending hrun
    · rcases knownSlots_ran hs hrun with ⟨hsl, rfl⟩ | ⟨hpending, h⟩
      · exact ⟨_, hs, hsl⟩
      · split at h
        · exact absurd h (by simp)
        · exact layOutWith_ran hx (ih (id :: active)) hr hs hpending h

/-! ### Results -/

theorem slotsOf_supplies (hx : x.Closed S) : Supplies x S A [] (slotsOf x) := by
  refine ⟨fun id => Build.Keeps.get.bind fun r => (layOut_supplies hx _ _).keeps id,
    fun hr h hs => ?_⟩
  simp only [slotsOf, Build.ran_bind, Build.ran_get] at h
  obtain ⟨_, _, ⟨rfl, rfl⟩, h⟩ := h
  exact (layOut_supplies hx _ _).knows hr h hs

theorem slotsOf_keeps (hx : x.Closed S) (id : Nat) :
    (slotsOf x id).Keeps (EvolvesUpTo x S A []) :=
  (slotsOf_supplies hx).keeps id

/-- The fields of a registered struct are known afterwards, and they are those of its record. -/
theorem slotsOf_ran (hx : x.Closed S) {record : Ty} {id : Nat} {slots : List Slot}
    (hr : r.SoundUpTo x S A) (hid : r.structOf? record = some id)
    (h : (slotsOf x id).Ran r slots r') :
    r'.Knows id slots ∧ LaidOut x r' record slots := by
  obtain ⟨s, hs, rfl⟩ := Registry.struct?_of_structOf? hid
  have he := (slotsOf_keeps hx id).ran h hr
  have hk := (slotsOf_supplies hx).knows hr h hs
  obtain ⟨s', hs', hsl⟩ := hk
  obtain ⟨s'', hs'', hrec⟩ := he.grows.struct? hs
  obtain rfl : s' = s'' := Option.some.inj (hs'.symm.trans hs'')
  exact ⟨⟨s', hs', hsl⟩, hrec ▸ he.sound.laidOut hs' hsl⟩

theorem recordOf_keeps (id : Nat) : (recordOf id).Keeps (EvolvesUpTo x S A active) :=
  Build.Keeps.get.bind fun _ => .pure _

theorem slotOf_keeps (hx : x.Closed S) (id : Nat) (name : String) :
    (slotOf x id name).Keeps (EvolvesUpTo x S A []) := by
  refine (slotsOf_keeps hx id).bind fun slots => ?_
  cases slots.find? fun s => s.name = name with
  | some slot => exact .pure slot
  | none => exact (recordOf_keeps id).bind fun _ => .throw _

/-- The field that is found is one of the record, of the name that was asked for. -/
theorem slotOf_ran (hx : x.Closed S) {record : Ty} {id : Nat} {name : String} {slot : Slot}
    (hr : r.SoundUpTo x S A) (hid : r.structOf? record = some id)
    (h : (slotOf x id name).Ran r slot r') :
    ∃ slots, r'.Knows id slots ∧ LaidOut x r' record slots ∧ slot ∈ slots ∧ slot.name = name := by
  simp only [slotOf, Build.ran_bind] at h
  obtain ⟨slots, r₁, hslots, h⟩ := h
  obtain ⟨hk, hl⟩ := slotsOf_ran hx hr hid hslots
  cases hf : slots.find? fun s => s.name = name with
  | some slot' =>
    simp only [hf, Build.ran_pure] at h
    obtain ⟨rfl, rfl⟩ := h
    exact ⟨slots, hk, hl, List.mem_of_find?_eq_some hf, by simpa using List.find?_some hf⟩
  | none => simp [hf] at h

theorem represent_keeps (hx : x.Closed S) {ty : Ty} (hS : S ty) :
    (represent x ty).Keeps (EvolvesUpTo x S A []) :=
  representWith_keeps hx (slotsOf_supplies hx) hS

theorem represent_ran (hx : x.Closed S) {ty : Ty} (hS : S ty) (hr : r.SoundUpTo x S A)
    {rep : Representation} (h : (represent x ty).Ran r rep r') : Represents x r' ty rep :=
  representWith_ran hx (slotsOf_supplies hx) hS hr h

theorem valueType_keeps (hx : x.Closed S) {ty : Ty} (hS : S ty) :
    (valueType x ty).Keeps (EvolvesUpTo x S A []) :=
  (represent_keeps hx hS).bind fun _ => .pure _

theorem valueType_ran (hx : x.Closed S) {ty : Ty} (hS : S ty) (hr : r.SoundUpTo x S A)
    {typ : Flo.Ty} (h : (valueType x ty).Ran r typ r') :
    ∃ rep, Represents x r' ty rep ∧ typ = rep.valueType := by
  simp only [valueType, Build.ran_bind, Build.ran_pure] at h
  obtain ⟨rep, r₁, hrep, rfl, rfl⟩ := h
  exact ⟨rep, represent_ran hx hS hr hrep, rfl⟩

theorem finalizeFrom_keeps (hx : x.Closed S) (fuel id : Nat) :
    (finalizeFrom x fuel id).Keeps (EvolvesUpTo x S A []) := by
  induction fuel generalizing id with
  | zero => exact .pure _
  | succ fuel ih =>
    refine Build.Keeps.get.bind fun r => ?_
    cases r.struct? id with
    | none => exact .pure _
    | some s =>
      simp only
      split
      · exact ih (id + 1)
      · exact (slotsOf_keeps hx id).attempt.bind fun _ => ih (id + 1)

theorem finalize_keeps (hx : x.Closed S) : (finalize x).Keeps (EvolvesUpTo x S A []) :=
  Build.Keeps.get.bind fun _ => finalizeFrom_keeps hx _ _

end GimpleLowering.Layout
