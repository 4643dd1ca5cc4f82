import GimpleLowering.Proofs.Layout.Correspondence
import GimpleLowering.Proofs.Layout.Demand

/-!
# Rounds of layouts

When a compilation ends, everything that is registered is laid out. That is done in rounds: all
structs that were not visited before are, in any order, and what the layouts register waits for the
next round. `Round` is one of them, for every order of the structs in it.

A round visits at least one struct, and no struct twice. There are no more structs than records that
are written anywhere, so there is a last round. All that is registered on the way is demanded,
directly or not, by what was registered in the beginning.

## Main definitions

* `Layout.visit` — a struct is laid out, if it is defined and can be
* `Layout.Completion`, with `waiting` and `Round` — the rounds
* `Layout.Registry.Calm` — no layout needs itself
* `Layout.Demanded` — what the structs of a registry lead to

## Main results

* `Layout.Completion.acc_start` — there is a last round, whatever the orders are
* `Layout.Registry.Calm.exists_visits` — no round breaks down
-/

namespace GimpleLowering.Layout

open Gimple Relation

variable {x : UnitIndex} {r r' : Registry} {item : Ty}

/-! ### Visits -/

/-- Lays out a struct if it is defined. A layout that is refused is given up. -/
def visit (x : UnitIndex) (id : Nat) : LayoutM Unit := do
  match (← get).struct? id with
  | none => pure ()
  | some s => unless s.isOpaque do let _ ← Build.attempt (slotsOf x id)

/-- A visit does nothing, or it reads the fields of the struct. -/
theorem visit_ran {id : Nat} {s : RecordStruct} (hs : r.struct? id = some s) :
    (visit x id).Ran r () r' ↔ s.isOpaque ∧ r' = r ∨
      s.isOpaque = false ∧ ∃ res, (slotsOf x id).runOn r = .ok (res, r') := by
  simp only [visit, Build.ran_bind, Build.ran_get]
  constructor
  · rintro ⟨_, _, ⟨rfl, rfl⟩, h⟩
    simp only [hs] at h
    split at h
    · rename_i hforward
      exact .inl ⟨hforward, (Build.ran_pure.1 h).2⟩
    · rename_i hforward
      simp only [Build.ran_bind, Build.ran_attempt, Build.ran_pure, true_and] at h
      obtain ⟨res, r₁, hran, rfl⟩ := h
      exact .inr ⟨by simpa using hforward, res, hran⟩
  · intro h
    refine ⟨r, r, ⟨rfl, rfl⟩, ?_⟩
    rcases h with ⟨hforward, rfl⟩ | ⟨hforward, res, hran⟩
    · simp [hs, hforward]
    · simp only [hs, hforward, Bool.false_eq_true, if_false, Build.ran_bind, Build.ran_attempt]
      exact ⟨res, r', hran, rfl⟩

/-- The layout of a record without fields is refused before anything is registered. -/
theorem not_layoutDemands_of_fields {record : Ty} (h : record.fields = []) :
    ¬ LayoutDemands x record item := by
  rintro ⟨defined, -⟩
  exact (checkDefined_eq_ok defined).1 h

/-- The struct was visited: it is laid out if it can be, and what its layout demands is
registered. -/
structure Registry.Visited (x : UnitIndex) (r : Registry) (id : Nat) : Prop where
  settled : ∃ s, r.struct? id = some s ∧ s.Settled x
  demands : ∀ {s : RecordStruct} {item : Ty}, r.struct? id = some s →
    LayoutDemands x s.record item → r.Has x item

theorem RecordStruct.Settled.of_grows {s s' : RecordStruct} (h : s.Settled x)
    (hrecord : s'.record = s.record) (hslots : ∀ slots, s.slots = some slots → s'.slots = some slots) :
    s'.Settled x := by
  rcases h with hl | ho | ⟨e, he⟩
  · obtain ⟨slots, hsl⟩ := Option.isSome_iff_exists.1 hl
    exact .inl (Option.isSome_iff_exists.2 ⟨slots, hslots slots hsl⟩)
  · exact .inr (.inl (by rwa [RecordStruct.isOpaque, hrecord]))
  · exact .inr (.inr ⟨e, hrecord ▸ he⟩)

theorem Registry.Visited.mono {id : Nat} (h : r.Visited x id) (hg : r.Grows r') :
    r'.Visited x id := by
  obtain ⟨s, hs, hsettled⟩ := h.settled
  obtain _ | i := id
  · cases hs
  obtain ⟨s', hs', hrecord, hslots⟩ := hg.structs hs
  refine ⟨⟨s', hs', hsettled.of_grows hrecord hslots⟩, fun {t item} ht hdemand => ?_⟩
  obtain rfl := Option.some.inj (ht.symm.trans hs')
  exact (h.demands hs (hrecord ▸ hdemand)).mono hg

/-- What is demanded by the layouts of some structs. -/
def Registry.Demand (x : UnitIndex) (r : Registry) (ids : List Nat) (item : Ty) : Prop :=
  ∃ id ∈ ids, ∃ s, r.struct? id = some s ∧ LayoutDemands x s.record item

/-- What a visit does. -/
theorem visit_visits {id : Nat} (hr : r.Sound x fun _ => True) (hid : id ≠ 0)
    (hle : id ≤ r.structs.length) (h : (visit x id).Ran r () r') :
    Evolved x (fun _ => True) [] r r' ∧ Adds x (r.Demand x [id]) r r' ∧ r'.Visited x id := by
  obtain ⟨i, rfl⟩ := Nat.exists_eq_succ_of_ne_zero hid
  obtain ⟨s, hs⟩ : ∃ s, r.struct? (i + 1) = some s := ⟨_, List.getElem?_eq_getElem hle⟩
  have hdemand : ∀ item, LayoutDemands x s.record item ↔ r.Demand x [i + 1] item := by
    intro item
    refine ⟨fun hd => ⟨_, List.mem_singleton_self _, s, hs, hd⟩, ?_⟩
    rintro ⟨id, hmem, t, ht, hd⟩
    obtain rfl := List.mem_singleton.1 hmem
    obtain rfl := Option.some.inj (ht.symm.trans hs)
    exact hd
  rcases (visit_ran hs).1 h with ⟨hforward, rfl⟩ | ⟨-, res, hran⟩
  · have hnot : ∀ item, ¬ LayoutDemands x s.record item := fun item =>
      not_layoutDemands_of_fields (Ty.fields_of_isForwardRecord hforward)
    refine ⟨hr.evolved, (Adds.nothing hnot).congr hdemand, ⟨s, hs, .inr (.inl hforward)⟩, ?_⟩
    intro t item ht hd
    obtain rfl := Option.some.inj (ht.symm.trans hs)
    exact absurd hd (hnot item)
  · have he : Evolved x (fun _ => True) [] r r' := slotsOf_keeps (.univ x) _ _ _ _ hran hr
    have hadds := slotsOf_adds hr hs hran
    refine ⟨he, hadds.congr hdemand, slotsOf_settled (.univ x) hr hs hran, fun {t item} ht hd => ?_⟩
    obtain ⟨s', hs', hrecord⟩ := he.grows.struct? hs
    obtain rfl := Option.some.inj (ht.symm.trans hs')
    exact (hadds item).2 (.inr (hrecord ▸ hd))

theorem visit_stays {L : List Ty} (hL : Supply x L) (id : Nat) : (visit x id).Keeps (Stays L) := by
  refine Build.Keeps.get.bind fun t => ?_
  cases t.struct? id with
  | none => exact .pure _
  | some s =>
    simp only
    split
    · exact .pure _
    · exact (slotsOf_stays hL id).attempt.bind fun _ => .pure _

/-- What the visits of some structs do, one after the other. -/
theorem visits_visit {ids : List Nat} (hr : r.Sound x fun _ => True)
    (hids : ∀ id ∈ ids, id ≠ 0 ∧ id ≤ r.structs.length) (h : (ids.forM (visit x)).Ran r () r') :
    Evolved x (fun _ => True) [] r r' ∧ Adds x (r.Demand x ids) r r' ∧
      ∀ id ∈ ids, r'.Visited x id := by
  induction ids generalizing r with
  | nil =>
    obtain rfl := Build.ran_forM_nil.1 h
    refine ⟨hr.evolved, .nothing ?_, fun _ hid => by cases hid⟩
    rintro item ⟨id, hid, -⟩
    cases hid
  | cons id rest ih =>
    obtain ⟨r₁, hvisit, hrest⟩ := Build.ran_forM_cons.1 h
    obtain ⟨hid, hle⟩ := hids id List.mem_cons_self
    obtain ⟨he, hadds, hvisited⟩ := visit_visits hr hid hle hvisit
    obtain ⟨he', hadds', hvisited'⟩ := ih he.sound (fun i hi =>
      ⟨(hids i (List.mem_cons_of_mem _ hi)).1,
        (hids i (List.mem_cons_of_mem _ hi)).2.trans he.grows.length_structs_le⟩) hrest
    refine ⟨he.trans he', (hadds.trans hadds').congr fun item => ⟨?_, ?_⟩, fun i hi => ?_⟩
    · -- The structs keep their records, so what they demand later they demanded before.
      rintro (⟨i, hi, s, hs, hd⟩ | ⟨i, hi, s, hs, hd⟩)
      · exact ⟨i, List.mem_singleton.1 hi ▸ List.mem_cons_self, s, hs, hd⟩
      · obtain ⟨hpos, hle⟩ := hids i (List.mem_cons_of_mem _ hi)
        obtain ⟨j, rfl⟩ := Nat.exists_eq_succ_of_ne_zero hpos
        obtain ⟨t, ht⟩ : ∃ t, r.struct? (j + 1) = some t := ⟨_, List.getElem?_eq_getElem hle⟩
        obtain ⟨t', ht', hrecord⟩ := he.grows.struct? ht
        obtain rfl := Option.some.inj (hs.symm.trans ht')
        exact ⟨_, List.mem_cons_of_mem _ hi, t, ht, hrecord ▸ hd⟩
    · rintro ⟨i, hi, s, hs, hd⟩
      rcases List.mem_cons.1 hi with rfl | hi
      · exact .inl ⟨i, List.mem_singleton_self i, s, hs, hd⟩
      · obtain ⟨s', hs', hrecord⟩ := he.grows.struct? hs
        exact .inr ⟨i, hi, s', hs', hrecord ▸ hd⟩
    · rcases List.mem_cons.1 hi with rfl | hi
      · exact hvisited.mono he'.grows
      · exact hvisited' i hi

/-! ### Rounds -/

/-- The structs that were visited, and the types that are registered. -/
structure Completion where
  finished : List Nat
  types : Registry

namespace Completion

/-- No struct was visited. -/
def start (r : Registry) : Completion := ⟨[], r⟩

/-- The structs that are registered and were not visited. -/
def waiting (c : Completion) : List Nat :=
  (List.range' 1 c.types.structs.length).filter fun id => id ∉ c.finished

/-- Visits all structs that are waiting, in whatever order. -/
inductive Round (x : UnitIndex) : Completion → Completion → Prop where
  | visits {c : Completion} {order : List Nat} {r' : Registry} (some : c.waiting ≠ [])
      (all : order.Perm c.waiting) (run : (order.forM (visit x)).Ran c.types () r') :
      Round x c ⟨c.finished ++ order, r'⟩

/-- What the rounds make of a registry. -/
abbrev Reaches (x : UnitIndex) (r : Registry) (c : Completion) : Prop :=
  ReflTransGen (Round x) (start r) c

variable {c c' : Completion}

theorem mem_waiting {id : Nat} :
    id ∈ c.waiting ↔ (id ≠ 0 ∧ id ≤ c.types.structs.length) ∧ id ∉ c.finished := by
  simp only [waiting, List.mem_filter, List.mem_range'_1, decide_eq_true_eq]
  refine and_congr_left' ⟨fun h => ⟨?_, ?_⟩, fun h => ?_⟩ <;> omega

theorem nodup_waiting (c : Completion) : c.waiting.Nodup := (List.nodup_range' 1).filter _

end Completion

/-- What the structs that are registered lead to: their layouts demand it, or those of structs that
are demanded. -/
inductive Demanded (x : UnitIndex) (r : Registry) : Ty → Prop where
  | registered {item : Ty} (h : r.Has x item) : Demanded x r item
  | layout {record item : Ty} (h : Demanded x r record) (demand : LayoutDemands x record item) :
      Demanded x r item

/-- What rounds keep: the structs that were visited differ from each other, and what is registered
was demanded. -/
structure Completion.Inv (x : UnitIndex) (r : Registry) (c : Completion) : Prop where
  sound : c.types.Sound x fun _ => True
  grows : r.Grows c.types
  within : c.types.Within (writtenRecords x r)
  nodup : c.finished.Nodup
  visited : ∀ id ∈ c.finished, c.types.Visited x id
  demanded : ∀ item, c.types.Has x item → Demanded x r item

namespace Completion

variable {c c' : Completion}

theorem inv_start (hr : r.Sound x fun _ => True) : (start r).Inv x r :=
  ⟨hr, .refl r, within_writtenRecords hr, .nil, fun _ h => absurd h List.not_mem_nil,
    fun _ h => .registered h⟩

theorem Inv.round (h : c.Inv x r) (hround : Round x c c') : c'.Inv x r := by
  cases hround with
  | @visits order r' _ all run =>
    have hids : ∀ id ∈ order, (id ≠ 0 ∧ id ≤ c.types.structs.length) ∧ id ∉ c.finished :=
      fun id hid => mem_waiting.1 (all.mem_iff.1 hid)
    obtain ⟨he, hadds, hvisited⟩ := visits_visit h.sound (fun id hid => (hids id hid).1) run
    refine ⟨he.sound, h.grows.trans he.grows, ?_, ?_, fun id hid => ?_, fun item hitem => ?_⟩
    · exact (Build.Keeps.forM order fun id _ =>
        visit_stays (supply_writtenRecords x r) id).ran run h.within
    · refine List.nodup_append.2 ⟨h.nodup, all.nodup_iff.2 c.nodup_waiting, ?_⟩
      rintro a ha b hb rfl
      exact (hids a hb).2 ha
    · rcases List.mem_append.1 hid with hid | hid
      · exact (h.visited id hid).mono he.grows
      · exact hvisited id hid
    · rcases (hadds item).1 hitem with hitem | ⟨id, -, s, hs, hdemand⟩
      · exact h.demanded item hitem
      · exact .layout (h.demanded _ ⟨_, .struct (h.sound.structOf?_of_struct? hs)⟩) hdemand

theorem Reaches.inv (hr : r.Sound x fun _ => True) (h : Reaches x r c) : c.Inv x r := by
  induction h with
  | refl => exact inv_start hr
  | tail _ hround ih => exact ih.round hround

/-! ### The last round -/

theorem Inv.length_finished_le (h : c.Inv x r) : c.finished.length ≤ (writtenRecords x r).length := by
  have hsub : c.finished ⊆ List.range' 1 c.types.structs.length := by
    intro id hid
    obtain ⟨s, hs, -⟩ := (h.visited id hid).settled
    obtain _ | i := id
    · cases hs
    · have := (List.getElem?_eq_some_iff.1 hs).1
      simp only [List.mem_range'_1]
      omega
  have hlength := (h.nodup.subperm hsub).length_le
  rw [List.length_range'] at hlength
  exact hlength.trans (h.sound.length_structs_le h.within)

/-- Every round leaves fewer records that can still be visited. -/
theorem Inv.acc (h : c.Inv x r) : Acc (Function.swap (Round x)) c := by
  induction hn : (writtenRecords x r).length - c.finished.length using Nat.strong_induction_on
    generalizing c with
  | _ n ih =>
    refine .intro c fun c' hround => ?_
    have h' := h.round hround
    have hle := h'.length_finished_le
    refine ih _ ?_ h' rfl
    cases hround with
    | visits some all =>
      have hpos := List.length_pos_iff.2 some
      rw [← all.length_eq] at hpos
      rw [List.length_append] at hle ⊢
      omega

/-- There is a last round, in whatever orders the structs are visited. -/
theorem acc_start (hr : r.Sound x fun _ => True) : Acc (Function.swap (Round x)) (start r) :=
  (inv_start hr).acc

end Completion

/-! ### Calm registries -/

/-- The fields of some struct are read, whatever comes of it. -/
def Attempts (x : UnitIndex) (r r' : Registry) : Prop :=
  ∃ id res, (slotsOf x id).runOn r = .ok (res, r')

/-- No layout needs itself, of the structs that are registered and of those that their layouts
register. -/
def Registry.Calm (x : UnitIndex) (r : Registry) : Prop :=
  ∀ r', ReflTransGen (Attempts x) r r' → ∀ id s, r'.struct? id = some s →
    ∀ b, (slotsOf x id).runOn r' ≠ .error b

theorem Attempts.evolved (hr : r.Sound x fun _ => True) (h : ReflTransGen (Attempts x) r r') :
    Evolved x (fun _ => True) [] r r' := by
  induction h with
  | refl => exact hr.evolved
  | tail _ hlast ih =>
    obtain ⟨id, res, hran⟩ := hlast
    exact ih.trans (slotsOf_keeps (.univ x) id _ _ _ hran ih.sound)

/-- A registry is calm if no record that is written in it or in the definitions is entangled. -/
theorem Registry.calm_of_not_entangled (hr : r.Sound x fun _ => True)
    (h : ∀ record ∈ writtenRecords x r, ∀ other, ReflTransGen x.Needs record other →
      ¬ x.Entangled other) : r.Calm x := by
  intro r' hreach id s hs b hb
  have he := Attempts.evolved hr hreach
  have hwithin : r'.Within (writtenRecords x r) := by
    clear he hs hb
    induction hreach with
    | refl => exact within_writtenRecords hr
    | tail _ hlast ih =>
      obtain ⟨id, res, hran⟩ := hlast
      exact slotsOf_stays (supply_writtenRecords x r) id _ _ _ hran ih
  obtain ⟨other, hneeds, hentangled, -⟩ := (slotsOf_ends he.sound hs (.nil x r' _)).breaks hb
  exact h _ (hwithin (List.mem_map_of_mem (Registry.mem_of_struct? hs))) other hneeds hentangled

/-- It is calm, too, if none of these records has a pointer or a reference to something whose
representation needs a layout. -/
theorem Registry.calm_of_forall (hr : r.Sound x fun _ => True)
    (h : ∀ record ∈ writtenRecords x r, ∀ f ∈ record.fields,
      f.ty.storedRecord? = none → f.ty.neededRecord? = none) : r.Calm x := by
  have hL := supply_writtenRecords x r
  have hneeds : ∀ {a b}, a ∈ writtenRecords x r → ReflTransGen x.Needs a b →
      b ∈ writtenRecords x r := by
    intro a b ha hab
    induction hab with
    | refl => exact ha
    | tail _ hbc ih =>
      obtain ⟨f, hf, root, hroot, rfl⟩ := hbc
      exact hL.has_of_field ih hf root (mem_records_of_neededRecord? hroot).2
  refine calm_of_not_entangled hr fun record hrecord other hother hentangled => ?_
  obtain ⟨a, b, hreach, ⟨f, hf, hstored, root, hroot, -⟩, -⟩ := hentangled
  have ha := hneeds (hneeds hrecord hother) hreach
  rw [h a ha f hf hstored] at hroot
  cases hroot

namespace Registry.Calm

theorem of_attempts (h : r.Calm x) (hreach : ReflTransGen (Attempts x) r r') : r'.Calm x :=
  fun r₁ hreach' => h r₁ (hreach.trans hreach')

/-- The fields of a struct are read or refused. -/
theorem exists_runOn (h : r.Calm x) {id : Nat} {s : RecordStruct} (hs : r.struct? id = some s) :
    ∃ res r', (slotsOf x id).runOn r = .ok (res, r') := by
  cases hrun : (slotsOf x id).runOn r with
  | error b => exact absurd hrun (h r .refl id s hs b)
  | ok out => exact ⟨out.1, out.2, rfl⟩

theorem exists_visit (h : r.Calm x) {id : Nat} (hid : id ≠ 0) (hle : id ≤ r.structs.length) :
    ∃ r', (visit x id).Ran r () r' ∧ ReflTransGen (Attempts x) r r' := by
  obtain ⟨i, rfl⟩ := Nat.exists_eq_succ_of_ne_zero hid
  obtain ⟨s, hs⟩ : ∃ s, r.struct? (i + 1) = some s := ⟨_, List.getElem?_eq_getElem hle⟩
  cases hforward : s.isOpaque with
  | true => exact ⟨r, (visit_ran hs).2 (.inl ⟨hforward, rfl⟩), .refl⟩
  | false =>
    obtain ⟨res, r', hran⟩ := h.exists_runOn hs
    exact ⟨r', (visit_ran hs).2 (.inr ⟨hforward, res, hran⟩), .single ⟨_, res, hran⟩⟩

theorem exists_visits (h : r.Calm x) (hr : r.Sound x fun _ => True) {ids : List Nat}
    (hids : ∀ id ∈ ids, id ≠ 0 ∧ id ≤ r.structs.length) :
    ∃ r', (ids.forM (visit x)).Ran r () r' ∧ ReflTransGen (Attempts x) r r' := by
  induction ids generalizing r with
  | nil => exact ⟨r, Build.ran_forM_nil.2 rfl, .refl⟩
  | cons id rest ih =>
    obtain ⟨hid, hle⟩ := hids id List.mem_cons_self
    obtain ⟨r₁, hvisit, hreach⟩ := h.exists_visit hid hle
    obtain ⟨he, -, -⟩ := visit_visits hr hid hle hvisit
    obtain ⟨r', hrest, hreach'⟩ := ih (h.of_attempts hreach) he.sound fun i hi =>
      ⟨(hids i (List.mem_cons_of_mem _ hi)).1,
        (hids i (List.mem_cons_of_mem _ hi)).2.trans he.grows.length_structs_le⟩
    exact ⟨r', Build.ran_forM_cons.2 ⟨r₁, hvisit, hrest⟩, hreach.trans hreach'⟩

end Registry.Calm

end GimpleLowering.Layout
