import GimpleLowering.Proofs.Layout.Requests
import GimpleLowering.Proofs.Lowering.Contexts

/-!
# Caches

The registered types are kept in four places: a cache of the ids of structs, by their records, one of
the ids of array types, the layout of each struct, and the type tables that objects get. What is new
is written into a table first and into its cache after that. Functions that are lowered at the same
time share the places, and all that orders their writes is that the cell of a cache that is about to
be written is held until it is.

A `Registry` is all of that in two lists, and each change of it is made at once: the write to the
table. `Caches` keeps the places apart and makes one write at a time. In between, a value is in the
table and not yet in the cache, but its cell is held then, so nobody can look there.

* **The caches show a registry.** In whatever order the writes fall, the cells have what is looked up
  in the registry after the same changes, and the tables are those of the registry
  (`Caches.Run.shows`).
* **The caches can follow.** What is done to the registry by uses of it, the lowering of functions
  among them, can be done to the caches (`Caches.exists_run_of_uses`).
* **Interleaving is harmless.** As long as each change may be made when it is, the ids and the tables
  agree at every moment, whoever makes the changes (`Caches.coherent_of_run`).

## Main definitions

* `Layout.Cell` — a place in a cache
* `Layout.Caches`, `Caches.Run` — the four places, and the writes to them
* `Layout.Caches.Shows` — the caches say what a registry says
-/

namespace GimpleLowering.Layout

open Gimple Relation

variable {x : UnitIndex} {r r' : Registry}

/-! ### Changes of a registry -/

namespace Registry

variable {change : Change} {changes : List Change}

/-- A sound registry is sound for any types and up to any array types. -/
theorem SoundUpTo.of_any {S : Ty → Prop} {A : Flo.Ty × Nat → Prop} (hs : r.SoundUpTo x S A) :
    r.SoundUpTo x (fun _ => True) fun _ => True where
  record s hmem := ⟨(hs.record s hmem).1, (hs.record s hmem).2.1, trivial⟩
  records_nodup := hs.records_nodup
  laidOut := hs.laidOut
  arrays_nodup := hs.arrays_nodup
  member _ _ := .inl trivial

/-- A change that may be made does what a computation on types does. -/
theorem Permits.evolves (h : r.Permits x change) :
    EvolvesUpTo x (fun _ => True) (fun _ => True) [] r (r.after change) := by
  intro hs
  cases h with
  | struct isRecord completed => exact registerStruct_evolves trivial isRecord completed hs
  | array => exact registerMember_evolves (.inl trivial) hs
  | layout registered pending laidOut =>
    exact publish_evolved hs registered pending laidOut List.not_mem_nil

theorem Undergoes.evolves (h : r.Undergoes x changes r') :
    EvolvesUpTo x (fun _ => True) (fun _ => True) [] r r' := by
  induction h with
  | nil r => exact refl_of (EvolvesUpTo x (fun _ => True) (fun _ => True) []) r
  | cons permitted _ ih =>
    exact trans_of (EvolvesUpTo x (fun _ => True) (fun _ => True) []) permitted.evolves ih

theorem Undergoes.eq_foldl (h : r.Undergoes x changes r') : r' = changes.foldl after r := by
  induction h with
  | nil => rfl
  | cons _ _ ih => exact ih

/-- Registering one record changes nothing for the others. -/
theorem structOf?_registerStruct_of_ne (r : Registry) {record other : Ty} (h : other ≠ record) :
    (r.registerStruct record).2.structOf? other = r.structOf? other := by
  unfold registerStruct
  cases r.structOf? record with
  | some id => rfl
  | none => simp [structOf?, List.findIdx?_append, List.findIdx?_cons, Ne.symm h]

/-- A struct that is registered has no layout yet, and the others keep theirs. -/
theorem slots_registerStruct (r : Registry) (record : Ty) (id : Nat) :
    ((r.registerStruct record).2.struct? id).bind RecordStruct.slots =
      (r.struct? id).bind RecordStruct.slots := by
  unfold registerStruct
  cases r.structOf? record with
  | some i => rfl
  | none =>
    cases id with
    | zero => rfl
    | succ i =>
      simp only [struct?_succ, List.getElem?_append]
      split
      · rfl
      · rename_i hlen
        rw [List.getElem?_eq_none (Nat.not_lt.1 hlen)]
        cases hi : [(⟨record, none⟩ : RecordStruct)][i - r.structs.length]? with
        | none => rfl
        | some s => rw [List.mem_singleton.1 (List.mem_of_getElem? hi), Option.bind_some]; rfl

theorem arrays_registerStruct (r : Registry) (record : Ty) :
    (r.registerStruct record).2.arrays = r.arrays := by
  unfold registerStruct
  cases r.structOf? record with
  | none | some => rfl

theorem structs_registerArray (r : Registry) (member : Flo.Ty) (length : Nat) :
    (r.registerArray member length).2.structs = r.structs := by
  unfold registerArray
  cases r.arrays.findIdx? fun a => a = (member, length) with
  | none | some => rfl

/-- Registering one array type changes nothing for the others. -/
theorem arrayOf?_registerArray_of_ne (r : Registry) {member member' : Flo.Ty} {length length' : Nat}
    (h : (member', length') ≠ (member, length)) :
    (r.registerArray member length).2.arrayOf? member' length' = r.arrayOf? member' length' := by
  unfold registerArray
  cases r.arrays.findIdx? fun a => a = (member, length) with
  | some i => rfl
  | none =>
    simp only [arrayOf?, List.findIdx?_append, List.findIdx?_cons, List.findIdx?_nil,
      decide_eq_false h.symm]
    simp

theorem arrayOf?_eq_none_iff {member : Flo.Ty} {length : Nat} :
    r.arrayOf? member length = none ↔ (member, length) ∉ r.arrays := by
  rw [arrayOf?, Option.map_eq_none_iff, List.findIdx?_eq_none_iff]
  simp only [decide_eq_false_iff_not]
  exact ⟨fun h hmem => h _ hmem rfl, fun h a ha heq => h (heq ▸ ha)⟩

/-- The records are found where they were. -/
theorem structOf?_publish (r : Registry) (id : Nat) (slots : List Slot) (record : Ty) :
    (r.publish id slots).structOf? record = r.structOf? record := by
  have hrecords (r : Registry) : r.structOf? record =
      ((r.structs.map RecordStruct.record).findIdx? fun t => t = record).map (· + 1) := by
    rw [structOf?, List.findIdx?_map]
    rfl
  rw [hrecords, hrecords, records_publish]

end Registry

/-! ### Caches -/

/-- A place in a cache. While it is held, the value is in a table already, and nobody but the one who
holds it can look at it. -/
inductive Cell (α : Type) where
  | vacant
  | held (a : α)
  | known (a : α)

namespace Cell

variable {α κ : Type} [DecidableEq κ] {cache : κ → Cell α}

/-- The value that is, or is about to be, in the cell. -/
def value? : Cell α → Option α
  | vacant => none
  | held a | known a => some a

theorem value?_eq_none_iff {cell : Cell α} : cell.value? = none ↔ cell = .vacant := by
  cases cell <;> simp [value?]

/-- To let go of a cell does not change what is in the cells. -/
theorem value?_update {key : κ} {a : α} (held : cache key = .held a) (other : κ) :
    (Function.update cache key (.known a) other).value? = (cache other).value? := by
  by_cases h : other = key
  · subst h
    simp [held, value?]
  · rw [Function.update_of_ne h]

/-- No cell is held after the one that is held was let go of. -/
theorem ne_held_update (h : ∀ key a, cache key ≠ .held a) (key : κ) (a : α) (other : κ) (b : α) :
    Function.update (Function.update cache key (.held a)) key (.known a) other ≠ .held b := by
  rw [Function.update_idem]
  by_cases ho : other = key
  · subst ho
    simp
  · rw [Function.update_of_ne ho]
    exact h other b

end Cell

/-- The places where registered types are kept. -/
structure Caches where
  /-- The ids of structs, by record. -/
  structs : Ty → Cell Nat
  /-- The ids of array types, by the type of members and the length. -/
  arrays : Flo.Ty × Nat → Cell Nat
  /-- The layouts of structs, by id. -/
  layouts : Nat → Cell (List Slot)
  tables : Flo.TypeTables

namespace Caches

/-- Nothing is registered. -/
def empty : Caches where
  structs _ := .vacant
  arrays _ := .vacant
  layouts _ := .vacant
  tables := .empty

/-- Reserves an entry for the struct of a record, and holds the cell of the record. -/
def reserve (c : Caches) (record : Ty) : Caches :=
  let (id, structs) := c.tables.structs.reserve .undefined
  { c with
    structs := Function.update c.structs record (.held id)
    tables := { c.tables with structs } }

/-- Enters an array type in its table, and holds its cell. -/
def enter (c : Caches) (member : Flo.Ty) (length : Nat) : Caches :=
  let (id, arrays) := c.tables.arrays.insert ⟨member, length, .usable⟩
  { c with
    arrays := Function.update c.arrays (member, length) (.held id)
    tables := { c.tables with arrays } }

/-- Replaces the table of structs by one in which a struct is defined, and holds the cell of its
layout. -/
def define (c : Caches) (id : Nat) (slots : List Slot) (structs : Flo.Table Flo.StructType) :
    Caches :=
  { c with
    layouts := Function.update c.layouts id (.held slots)
    tables := { c.tables with structs } }

/-- One write, with the change that it makes. A write to a table makes one. A write to a cache lets
go of the cell, and makes none. -/
inductive Write : Caches → List Change → Caches → Prop where
  | reserve {c : Caches} {record : Ty} (vacant : c.structs record = .vacant) :
      Write c [.struct record] (c.reserve record)
  | keepStruct {c : Caches} {record : Ty} {id : Nat} (held : c.structs record = .held id) :
      Write c [] { c with structs := Function.update c.structs record (.known id) }
  | enter {c : Caches} {member : Flo.Ty} {length : Nat}
      (vacant : c.arrays (member, length) = .vacant) :
      Write c [.array member length] (c.enter member length)
  | keepArray {c : Caches} {member : Flo.Ty} {length id : Nat}
      (held : c.arrays (member, length) = .held id) :
      Write c [] { c with arrays := Function.update c.arrays (member, length) (.known id) }
  | define {c : Caches} {id : Nat} {record : Ty} {slots : List Slot} {old : Flo.StructType}
      {structs : Flo.Table Flo.StructType} (known : c.structs record = .known id)
      (vacant : c.layouts id = .vacant)
      (swapped : c.tables.structs.swap? id (RecordStruct.entry ⟨record, some slots⟩) =
        some (old, structs)) : Write c [.layout id slots] (c.define id slots structs)
  | keepLayout {c : Caches} {id : Nat} {slots : List Slot} (held : c.layouts id = .held slots) :
      Write c [] { c with layouts := Function.update c.layouts id (.known slots) }

/-- Any number of writes, whoever makes them, with their changes in order. -/
inductive Run : Caches → List Change → Caches → Prop where
  | nil (c : Caches) : Run c [] c
  | cons {c₁ c₂ c₃ : Caches} {changes changes' : List Change} (first : Write c₁ changes c₂)
      (rest : Run c₂ changes' c₃) : Run c₁ (changes ++ changes') c₃

/-- What is in the cells is what is looked up in the registry, and the tables are its tables. -/
structure Shows (c : Caches) (r : Registry) : Prop where
  structs : ∀ record, (c.structs record).value? = r.structOf? record
  arrays : ∀ member length, (c.arrays (member, length)).value? = r.arrayOf? member length
  layouts : ∀ id, (c.layouts id).value? = (r.struct? id).bind RecordStruct.slots
  tables : c.tables = r.tables

/-- No cell is held. -/
structure AtRest (c : Caches) : Prop where
  structs : ∀ record id, c.structs record ≠ .held id
  arrays : ∀ a id, c.arrays a ≠ .held id
  layouts : ∀ id slots, c.layouts id ≠ .held slots

variable {c c' c'' : Caches} {changes changes' : List Change}

theorem shows_empty : empty.Shows .empty where
  structs _ := rfl
  arrays _ _ := rfl
  layouts id := by cases id <;> rfl
  tables := rfl

theorem atRest_empty : empty.AtRest := ⟨nofun, nofun, nofun⟩

theorem Run.append (h : Run c changes c') (h' : Run c' changes' c'') :
    Run c (changes ++ changes') c'' := by
  induction h with
  | nil => exact h'
  | cons first _ ih => rw [List.append_assoc]; exact .cons first (ih h')

/-! ### Writes to the tables -/

namespace Shows

variable (h : c.Shows r)

include h

/-- An entry is reserved under the id that the registry hands out. -/
theorem reserve {record : Ty} (vacant : c.structs record = .vacant) :
    (c.reserve record).Shows (r.registerStruct record).2 := by
  have hnew : r.structOf? record = none := by rw [← h.structs, vacant]; rfl
  obtain ⟨hid, htables⟩ := Registry.tables_registerStruct hnew
  refine ⟨fun other => ?_, fun member length => ?_, fun id => ?_, ?_⟩
  · by_cases ho : other = record
    · subst ho
      rw [Registry.structOf?_registerStruct, hid, ← h.tables]
      simp [Caches.reserve, Cell.value?]
    · rw [r.structOf?_registerStruct_of_ne ho, ← h.structs other]
      simp [Caches.reserve, ho]
  · rw [Registry.arrayOf?, r.arrays_registerStruct]
    exact h.arrays member length
  · exact (h.layouts id).trans (r.slots_registerStruct record id).symm
  · rw [htables, ← h.tables]
    rfl

/-- An array type is entered under the id that the registry hands out. -/
theorem enter {member : Flo.Ty} {length : Nat} (vacant : c.arrays (member, length) = .vacant) :
    (c.enter member length).Shows (r.registerArray member length).2 := by
  have hnew : r.arrayOf? member length = none := by rw [← h.arrays, vacant]; rfl
  obtain ⟨hid, htables⟩ := Registry.tables_registerArray hnew
  refine ⟨fun record => ?_, fun member' length' => ?_, fun id => ?_, ?_⟩
  · rw [Registry.structOf?, r.structs_registerArray]
    exact h.structs record
  · by_cases ha : (member', length') = (member, length)
    · obtain ⟨rfl, rfl⟩ := Prod.mk.inj ha
      obtain ⟨i, hi, hfound⟩ := r.arrayOf?_registerArray member' length'
      rw [Registry.arrayOf?, hfound, Option.map_some, ← hi, hid, ← h.tables]
      simp [Caches.enter, Cell.value?]
    · rw [r.arrayOf?_registerArray_of_ne ha, ← h.arrays member' length']
      simp only [Caches.enter, Function.update_of_ne ha]
  · rw [Registry.struct?, r.structs_registerArray]
    exact h.layouts id
  · rw [htables, ← h.tables]
    rfl

/-- The struct of a record that is known has an entry in the table, which is undefined until the
layout is. -/
theorem exists_struct? {record : Ty} {id : Nat} (known : c.structs record = .known id)
    (vacant : c.layouts id = .vacant) : r.struct? id = some ⟨record, none⟩ := by
  have hid : r.structOf? record = some id := by rw [← h.structs, known]; rfl
  obtain ⟨⟨_, slots⟩, hs, rfl⟩ := Registry.struct?_of_structOf? hid
  have hslots := h.layouts id
  rw [vacant, hs, Option.bind_some] at hslots
  rw [hs, ← show none = slots from hslots]

/-- The entry of a struct is replaced by that of its layout. -/
theorem define {id : Nat} {record : Ty} {slots : List Slot} (known : c.structs record = .known id)
    (vacant : c.layouts id = .vacant) :
    c.tables.structs.swap? id (RecordStruct.entry ⟨record, some slots⟩) =
        some (Flo.Entry.poisoned .undefined, (r.publish id slots).tables.structs) ∧
      (c.define id slots (r.publish id slots).tables.structs).Shows (r.publish id slots) := by
  have hs := h.exists_struct? known vacant
  have hpos : 0 < id := Nat.pos_of_ne_zero (by rintro rfl; cases hs)
  refine ⟨h.tables ▸ Registry.tables_publish hs slots, fun other => ?_, h.arrays, fun i => ?_, ?_⟩
  · rw [Registry.structOf?_publish]
    exact h.structs other
  · rw [Registry.struct?_publish hpos]
    by_cases hi : i = id
    · subst hi
      simp [Caches.define, hs, Cell.value?]
    · simp only [Caches.define, Function.update_of_ne hi, if_neg hi]
      exact h.layouts i
  · simp only [Caches.define, h.tables]
    rfl

end Shows

/-! ### Runs -/

/-- One write makes its change in the registry, too. -/
theorem Write.shows (hw : Write c changes c') (h : c.Shows r) :
    c'.Shows (changes.foldl Registry.after r) := by
  cases hw with
  | reserve vacant => exact h.reserve vacant
  | enter vacant => exact h.enter vacant
  | define known vacant swapped =>
    obtain ⟨hswap, hshows⟩ := h.define known vacant
    obtain ⟨-, rfl⟩ := Prod.mk.inj (Option.some.inj (hswap.symm.trans swapped))
    exact hshows
  | keepStruct held =>
    exact { h with structs := fun other => (Cell.value?_update held other).trans (h.structs other) }
  | keepArray held =>
    exact { h with arrays := fun member length =>
      (Cell.value?_update held (member, length)).trans (h.arrays member length) }
  | keepLayout held =>
    exact { h with layouts := fun id => (Cell.value?_update held id).trans (h.layouts id) }

/-- **The caches show a registry.** The registry is the one after the same changes, in whatever order
the writes fall. -/
theorem Run.shows (run : Run c changes c') (h : c.Shows r) :
    c'.Shows (changes.foldl Registry.after r) := by
  induction run generalizing r with
  | nil => exact h
  | cons first _ ih => rw [List.foldl_append]; exact ih (first.shows h)

/-- A change that may be made is two writes, if no cell is held. -/
theorem exists_run_of_permits {S : Ty → Prop} {A : Flo.Ty × Nat → Prop} {change : Change}
    (hs : r.SoundUpTo x S A) (h : c.Shows r) (rest : c.AtRest) (permitted : r.Permits x change) :
    ∃ c', Run c [change] c' ∧ c'.Shows (r.after change) ∧ c'.AtRest := by
  have hfollow : ∀ {c₁ c₂ : Caches}, Write c [change] c₁ → Write c₁ [] c₂ →
      Run c [change] c₂ ∧ c₂.Shows (r.after change) := by
    intro c₁ c₂ hwrite hkeep
    have hrun : Run c [change] c₂ := .cons hwrite (.cons hkeep (.nil c₂))
    exact ⟨hrun, hrun.shows h⟩
  cases permitted with
  | @struct record _ _ new =>
    have vacant : c.structs record = .vacant :=
      Cell.value?_eq_none_iff.1 ((h.structs record).trans new)
    have held : (c.reserve record).structs record = .held _ := Function.update_self _ _ _
    obtain ⟨hrun, hshows⟩ := hfollow (.reserve vacant) (.keepStruct held)
    exact ⟨_, hrun, hshows, Cell.ne_held_update rest.structs record _, rest.arrays, rest.layouts⟩
  | @array member length new =>
    have vacant : c.arrays (member, length) = .vacant :=
      Cell.value?_eq_none_iff.1 ((h.arrays member length).trans (Registry.arrayOf?_eq_none_iff.2 new))
    have held : (c.enter member length).arrays (member, length) = .held _ :=
      Function.update_self _ _ _
    obtain ⟨hrun, hshows⟩ := hfollow (.enter vacant) (.keepArray held)
    exact ⟨_, hrun, hshows, rest.structs, Cell.ne_held_update rest.arrays (member, length) _,
      rest.layouts⟩
  | @layout id s slots registered pending _ =>
    have hid : (c.structs s.record).value? = some id :=
      (h.structs s.record).trans (hs.structOf?_of_struct? registered)
    have known : c.structs s.record = .known id := by
      cases hcell : c.structs s.record with
      | vacant => rw [hcell] at hid; cases hid
      | held i => exact absurd hcell (rest.structs s.record i)
      | known i => rw [hcell] at hid; exact congrArg Cell.known (Option.some.inj hid)
    have vacant : c.layouts id = .vacant := by
      refine Cell.value?_eq_none_iff.1 ((h.layouts id).trans ?_)
      rw [registered, Option.bind_some, pending]
    have held : (c.define id slots (r.publish id slots).tables.structs).layouts id = .held slots :=
      Function.update_self _ _ _
    obtain ⟨hrun, hshows⟩ := hfollow (.define known vacant (h.define known vacant).1)
      (.keepLayout held)
    exact ⟨_, hrun, hshows, rest.structs, rest.arrays, Cell.ne_held_update rest.layouts id slots⟩

/-- Changes that may be made one after the other can be made to the caches. -/
theorem exists_run {S : Ty → Prop} {A : Flo.Ty × Nat → Prop} (hs : r.SoundUpTo x S A)
    (h : c.Shows r) (rest : c.AtRest) (undergoes : r.Undergoes x changes r') :
    ∃ c', Run c changes c' ∧ c'.Shows r' ∧ c'.AtRest := by
  replace hs := hs.of_any
  induction undergoes generalizing c with
  | nil => exact ⟨c, .nil c, h, rest⟩
  | cons permitted _ ih =>
    obtain ⟨c₁, hrun, h₁, rest₁⟩ := exists_run_of_permits hs h rest permitted
    obtain ⟨c₂, hrun', h₂, rest₂⟩ := ih h₁ rest₁ (permitted.evolves hs).sound
    exact ⟨c₂, hrun.append hrun', h₂, rest₂⟩

theorem exists_run_of_undergoes (permitted : Registry.empty.Undergoes x changes r) :
    ∃ c, Run empty changes c ∧ c.Shows r ∧ c.AtRest := by
  have hs : Registry.empty.Sound x fun _ => True := .empty x _
  exact exists_run hs shows_empty atRest_empty permitted

/-- **The caches can follow.** A registry that is reached by uses of it, the lowering of functions
among them, is shown by caches that nobody holds a cell of. -/
theorem exists_run_of_uses (reached : ReflTransGen (Lowering.Uses x) .empty r) :
    ∃ changes c, Registry.empty.Undergoes x changes r ∧ Run empty changes c ∧ c.Shows r ∧
      c.AtRest := by
  obtain ⟨changes, hchanges⟩ := (Lowering.evolves_of_uses reached (.empty x _)).undergoes
  obtain ⟨c, hc⟩ := exists_run_of_undergoes hchanges
  exact ⟨changes, c, hchanges, hc⟩

/-- So is one that is reached by requests, whatever array types they ask for. -/
theorem exists_run_of_requests (reached : ReflTransGen (Requests x) .empty r) :
    ∃ changes c, Registry.empty.Undergoes x changes r ∧ Run empty changes c ∧ c.Shows r ∧
      c.AtRest := by
  obtain ⟨changes, hchanges⟩ := (evolves_of_requests reached (.empty x _)).undergoes
  obtain ⟨c, hc⟩ := exists_run_of_undergoes hchanges
  exact ⟨changes, c, hchanges, hc⟩

/-- **Interleaving is harmless.** Whoever makes the writes, and in whatever order they fall: if each
change may be made when it is, the caches show a registry whose ids and tables agree, and what is in
them stays. -/
theorem coherent_of_run (run : Run empty changes c) (later : Run c changes' c')
    (permitted : Registry.empty.Undergoes x changes r) (permitted' : r.Undergoes x changes' r') :
    c.Shows r ∧ c'.Shows r' ∧ r.Coherent x ∧ r.Persists r' := by
  have hs := (permitted.evolves (.empty x _)).sound
  have hshows := run.shows shows_empty
  rw [← permitted.eq_foldl] at hshows
  refine ⟨hshows, ?_, hs.coherent, (permitted'.evolves hs).grows.persists⟩
  rw [permitted'.eq_foldl]
  exact later.shows hshows

end Caches

/-- Nor does it matter for runtime types who registers what, and when: they are equal if and only if
the types are, once the forward references at their cores are completed. -/
theorem HasValueType.eq_iff_of_undergoes {changes : List Change} {a b : Ty} {typ typ' : Flo.Ty}
    (ha : HasValueType x r a typ) (hb : HasValueType x r' b typ')
    (hs : r.SoundUpTo x (fun _ => True) fun _ => True) (permitted : r.Undergoes x changes r') :
    typ = typ' ↔ x.expand a = x.expand b :=
  (ha.mono (permitted.evolves hs).grows).eq_iff hb

end GimpleLowering.Layout
