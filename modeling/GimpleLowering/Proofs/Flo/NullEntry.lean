import GimpleLowering.Proofs.Flo.Draft
import GimpleLowering.Proofs.Flo.Text.Lossless

/-!
# Slot zero

A table counts its entries, hands out ids, and lists what is in it as if slot zero held the null
entry, and looks at slot zero in none of this. A new table has the null entry, and keeps it
through everything that is done with the ids that it hands out. Where slot zero holds something
else, that something is lost: it is not counted, not listed, and not found to be poisoned.

Objects that are read from a text are such a place. The reader takes the slots as they stand in the
text, and the check that the object is complete skips slot zero as all listings do. So the null
entry is there after reading exactly if it was written.

## Main definitions

* `Flo.HasPoison` — what an entry is poisoned with
* `Flo.Table.HasNull` — slot zero holds a null entry
* `Flo.Table.Derives` — the tables that come from a table in use
* `Flo.Table.SetsApart` — slot zero is left out, and nothing else

## Main results

* `Flo.Table.Derives.setsApart` — the null entry lasts
* `Flo.Table.SetsApart.size?_eq` — with it, the entries can be counted
* `Flo.Object.keepsNull` — which tables have it, of new objects and of objects that are read
-/

namespace GimpleLowering.Flo

/-! ### Poison -/

/-- Entries that tell what they are poisoned with. -/
class HasPoison (α : Type) [Entry α] where
  poison? : α → Option Poison
  poison?_poisoned : ∀ p, poison? (Entry.poisoned p) = some p

open HasPoison (poison?)

instance : HasPoison Block := ⟨fun b => some b.poison, fun _ => rfl⟩

instance : HasPoison MatchArm := ⟨fun a => some a.poison, fun _ => rfl⟩

instance : HasPoison Variable := ⟨fun v => some v.poison, fun _ => rfl⟩

instance : HasPoison ArrayType := ⟨fun a => some a.poison, fun _ => rfl⟩

instance : HasPoison StructType := ⟨fun s => some s.poison, fun _ => rfl⟩

instance : HasPoison Diagnostic := ⟨fun d => some d.poison, fun _ => rfl⟩

instance : HasPoison Location := ⟨fun l => some l.poison, fun _ => rfl⟩

/-- A statement has no poison unless it stands for nothing else. -/
instance : HasPoison Statement :=
  ⟨fun s => match s with
    | .poisoned p => some p
    | _ => none, fun _ => rfl⟩

namespace Table

variable {α : Type} [Entry α]

/-! ### Tables in use -/

/-- The second table comes from the first one by insertions, reservations, and replacements of
entries. The ids are those of the first table, and the ones that were handed out since. -/
inductive Derives (t₀ : Table α) : List Nat → Table α → Prop
  | start : Derives t₀ (t₀.toList.map Prod.fst) t₀
  | insert {ids : List Nat} {t : Table α} (h : Derives t₀ ids t) (a : α) :
      Derives t₀ (ids ++ [(t.insert a).1]) (t.insert a).2
  | reserve {ids : List Nat} {t : Table α} (h : Derives t₀ ids t) (p : Poison) :
      Derives t₀ (ids ++ [(t.reserve p).1]) (t.reserve p).2
  | swap {ids : List Nat} {t t' : Table α} (h : Derives t₀ ids t) {id : Nat} (hid : id ∈ ids)
      {a b : α} (hswap : t.swap? id a = some (b, t')) : Derives t₀ ids t'

variable [HasPoison α]

/-- Slot zero holds a null entry. -/
def HasNull (t : Table α) : Prop := ∃ a, t.get? 0 = some a ∧ poison? a = some .nullEntry

/-- The null entry of the table is set apart from the others: it has no id that was or will be
handed out, the others are counted without it, and it is all that is not listed, and all that is
not found to be poisoned though it is. -/
structure SetsApart (t : Table α) (ids : List Nat) : Prop where
  hasNull : t.HasNull
  size_succ : t.size + 1 = t.rows.length
  insert_ne : ∀ a, (t.insert a).1 ≠ 0
  reserve_ne : ∀ p, (t.reserve p).1 ≠ 0
  ids_ne : ∀ id ∈ ids, id ≠ 0
  swaps : ∀ id ∈ ids, ∀ a, ∃ b t', t.swap? id a = some (b, t')
  listed : ∀ id a, t.get? id = some a → (id, a) ∉ t.toList →
    id = 0 ∧ poison? a = some .nullEntry
  found : ∀ id a, t.get? id = some a → Entry.isPoisoned a → id ∉ t.poisonedIds →
    id = 0 ∧ poison? a = some .nullEntry

/-- The entries can be counted. -/
theorem SetsApart.size?_eq {t : Table α} {ids : List Nat} (h : t.SetsApart ids) :
    t.size? = some t.size :=
  size?_eq_some_iff.2 h.size_succ.symm

omit [HasPoison α] in
theorem mem_poisonedIds {t : Table α} {id : Nat} {a : α} (hrow : t.get? id = some a) :
    id ∈ t.poisonedIds ↔ id ≠ 0 ∧ Entry.isPoisoned a := by
  rw [poisonedIds, List.mem_filterMap]
  constructor
  · rintro ⟨⟨i, b⟩, hmem, hid⟩
    obtain ⟨hne, hb⟩ := mem_toList.1 hmem
    by_cases hpoisoned : Entry.isPoisoned b
    · obtain rfl : i = id := by simpa [hpoisoned] using hid
      obtain rfl : b = a := Option.some.inj (hb.symm.trans hrow)
      exact ⟨hne, hpoisoned⟩
    · simp [hpoisoned] at hid
  · rintro ⟨hne, hpoisoned⟩
    exact ⟨(id, a), mem_toList.2 ⟨hne, hrow⟩, by simp [hpoisoned]⟩

theorem hasNull_empty : (empty : Table α).HasNull := ⟨_, rfl, HasPoison.poison?_poisoned _⟩

theorem HasNull.rows_pos {t : Table α} (h : t.HasNull) : 0 < t.rows.length := by
  obtain ⟨a, hrow, -⟩ := h
  rw [get?_eq_rows] at hrow
  exact (List.getElem?_eq_some_iff.1 hrow).1

theorem HasNull.insert {t : Table α} (h : t.HasNull) (a : α) : (t.insert a).2.HasNull := by
  have hne : 0 ≠ (t.insert a).1 := by
    rw [fst_insert]
    exact Nat.ne_of_lt h.rows_pos
  obtain ⟨b, hrow, hpoison⟩ := h
  exact ⟨b, by rw [get?_insert, if_neg hne, hrow], hpoison⟩

/-- With the null entry in front, the ids that were handed out are those of other slots. -/
theorem HasNull.setsApart {t : Table α} (h : t.HasNull) {ids : List Nat}
    (hids : ∀ id ∈ ids, t.Has id) : t.SetsApart ids where
  hasNull := h
  size_succ := by
    have hpos := h.rows_pos
    simp only [rows, Array.length_toList] at hpos ⊢
    exact Nat.sub_add_cancel hpos
  insert_ne a := by
    rw [fst_insert]
    exact Nat.ne_of_gt h.rows_pos
  reserve_ne p := by
    rw [reserve, fst_insert]
    exact Nat.ne_of_gt h.rows_pos
  ids_ne id hid := Nat.ne_of_gt (hids id hid).1
  swaps id hid a := by
    have hlt : id < t.entries.size := by simpa [rows] using (hids id hid).2
    exact ⟨t.entries[id], ⟨t.entries.set id a⟩, dif_pos hlt⟩
  listed id a hrow hnot := by
    obtain rfl : id = 0 := by_contra fun hne => hnot (mem_toList.2 ⟨hne, hrow⟩)
    obtain ⟨b, hb, hpoison⟩ := h
    obtain rfl : b = a := Option.some.inj (hb.symm.trans hrow)
    exact ⟨rfl, hpoison⟩
  found id a hrow hpoisoned hnot := by
    obtain rfl : id = 0 :=
      by_contra fun hne => hnot ((mem_poisonedIds hrow).2 ⟨hne, hpoisoned⟩)
    obtain ⟨b, hb, hpoison⟩ := h
    obtain rfl : b = a := Option.some.inj (hb.symm.trans hrow)
    exact ⟨rfl, hpoison⟩

/-- A replacement changes neither slot zero nor what the ids are, if its id is not zero. -/
theorem HasNull.swap {t t' : Table α} (h : t.HasNull) {id : Nat} (hne : id ≠ 0) {a b : α}
    (hswap : t.swap? id a = some (b, t')) : t'.HasNull ∧ ∀ i, t.Has i → t'.Has i := by
  constructor
  · obtain ⟨c, hrow, hpoison⟩ := h
    exact ⟨c, by rw [(get?_of_swap? hswap 0).2, if_neg hne.symm, hrow], hpoison⟩
  · intro i hi
    refine ⟨hi.1, ?_⟩
    unfold swap? at hswap
    split at hswap
    · obtain ⟨-, rfl⟩ := Prod.mk.inj (Option.some.inj hswap)
      simpa [rows] using hi.2
    · cases hswap

/-- **The null entry lasts**, whatever is done with a table that has it. The induction carries with
it that no id is zero, as a replacement at slot zero is all that could take the entry away. -/
theorem Derives.setsApart {t₀ t : Table α} {ids : List Nat} (h : t₀.Derives ids t)
    (h₀ : t₀.HasNull) : t.SetsApart ids := by
  suffices hall : t.HasNull ∧ ∀ id ∈ ids, t.Has id from hall.1.setsApart hall.2
  have hinsert : ∀ {ids : List Nat} {t : Table α} (a : α),
      (t.HasNull ∧ ∀ id ∈ ids, t.Has id) →
        (t.insert a).2.HasNull ∧ ∀ id ∈ ids ++ [(t.insert a).1], (t.insert a).2.Has id := by
    rintro ids t a ⟨hnull, hids⟩
    refine ⟨hnull.insert a, List.forall_mem_append.2 ⟨fun id hid => ?_, ?_⟩⟩
    · exact (hids id hid).mono (by simp)
    · exact List.forall_mem_singleton.2 (by simpa [Has] using hnull.rows_pos)
  induction h with
  | start =>
    refine ⟨h₀, fun id hid => ?_⟩
    obtain ⟨p, hp, rfl⟩ := List.mem_map.1 hid
    exact has_of_mem_toList hp
  | insert _ a ih => exact hinsert a ih
  | reserve _ p ih => exact hinsert (Entry.poisoned p) ih
  | swap _ hid hswap ih =>
    obtain ⟨hnull, hids⟩ := ih
    obtain ⟨hnull', hhas⟩ := hnull.swap (Nat.ne_of_gt (hids _ hid).1) hswap
    exact ⟨hnull', fun i hi => hhas i (hids i hi)⟩

/-- Without the null entry a table loses an entry: the next one that is inserted, under the id zero,
or the one that is in slot zero already. -/
theorem loses_of_not_hasNull {t : Table α} (h : ¬ t.HasNull) :
    (∀ a, (t.insert a).1 = 0 ∧ (t.insert a).2.toList = []) ∨
      ∃ a, t.get? 0 = some a ∧ poison? a ≠ some .nullEntry ∧ (0, a) ∉ t.toList := by
  cases hrow : t.get? 0 with
  | none =>
    have hnil : t.rows = [] := by
      rw [get?_eq_rows, List.getElem?_eq_none_iff] at hrow
      exact List.eq_nil_of_length_eq_zero (Nat.le_zero.1 hrow)
    have hentries : t = ⟨#[]⟩ := ext_rows hnil
    subst hentries
    exact .inl fun a => ⟨rfl, rfl⟩
  | some a =>
    exact .inr ⟨a, rfl, fun hpoison => h ⟨a, hrow, hpoison⟩, fun hmem => (mem_toList.1 hmem).1 rfl⟩

end Table

/-! ### Objects -/

namespace Object

/-- The property holds of each table of the object. -/
structure EachTable (o : Object)
    (P : ∀ {α : Type} [Entry α] [HasPoison α], Table α → Prop) : Prop where
  blocks : P o.blocks
  statements : P o.statements
  matchArms : P o.matchArms
  vars : P o.vars
  arrays : P o.types.arrays
  structs : P o.types.structs
  diagnostics : P o.diagnostics
  locations : P o.locations

theorem EachTable.of_forall {o : Object}
    {P : ∀ {α : Type} [Entry α] [HasPoison α], Table α → Prop}
    (h : ∀ {α : Type} [Entry α] [HasPoison α] (t : Table α), P t) : o.EachTable P :=
  ⟨h _, h _, h _, h _, h _, h _, h _, h _⟩

/-- **Slot zero of new tables is set apart for good; of tables that are read it is what the text
says.** The tables of a new object keep the null entry in slot zero whatever is done with them. A
table that is read keeps it exactly if it is there, and otherwise loses an entry. Whether it is
there is not looked at: an object is read from some text exactly if it is complete, its numbers are
those of the machine, and it assigns no constant. -/
theorem keepsNull (name : String) (o : Object) :
    ((empty name).EachTable fun t => ∀ ids t', t.Derives ids t' → t'.SetsApart ids) ∧
      (∀ text, ofText text = .ok o → o.EachTable fun t =>
        ((∀ ids t', t.Derives ids t' → t'.SetsApart ids) ↔ t.HasNull) ∧
          (¬ t.HasNull → (∀ a, (t.insert a).1 = 0 ∧ (t.insert a).2.toList = []) ∨
            ∃ a, t.get? 0 = some a ∧ poison? a ≠ some .nullEntry ∧ (0, a) ∉ t.toList)) ∧
      ((∃ text, ofText text = .ok o) ↔
        o.isComplete ∧ o.Fits ∧ ¬ o.statements.rows.any Statement.assignsConstant) := by
  refine ⟨?_, fun text _ => .of_forall fun t => ⟨⟨?_, ?_⟩, ?_⟩, ?_, ?_⟩
  · have hempty : ∀ {α : Type} [Entry α] [HasPoison α] (ids : List Nat) (t : Table α),
        Table.empty.Derives ids t → t.SetsApart ids :=
      fun _ _ h => h.setsApart Table.hasNull_empty
    exact ⟨hempty, hempty, hempty, hempty, hempty, hempty, hempty, hempty⟩
  · exact fun h => (h _ _ .start).hasNull
  · exact fun h _ _ hderives => hderives.setsApart h
  · exact Table.loses_of_not_hasNull
  · rintro ⟨text, htext⟩
    obtain ⟨hcomplete, s, hs⟩ := of_ofText htext
    exact ⟨hcomplete, ofSexpr_yields s o hs⟩
  · rintro ⟨hcomplete, hfits, hconstant⟩
    obtain ⟨text, htext⟩ := exists_text hcomplete hconstant
    exact ⟨text, ofText_text hfits htext⟩

/-- An object with no arms, not even the null entry, and with a block in slot zero that was never
filled in. -/
def uprooted : Object :=
  { empty "uprooted" with blocks := ⟨#[Entry.poisoned .undefined]⟩, matchArms := ⟨#[]⟩ }

theorem uprooted_fits : uprooted.Fits := by
  have hempty : (empty "uprooted").Fits :=
    Uses.fits ⟨nofun, Table.all_empty, Table.all_empty, Table.all_empty, Table.all_empty,
      Table.all_empty, Table.all_empty, Table.all_empty, Table.all_empty⟩
  exact { hempty with
    blocks := List.forall_mem_singleton.2 ⟨nofun, nofun, trivial, nofun⟩
    matchArms := nofun }

/-- The object is read, though a block of it is poisoned. The first arm that it gets has the id
zero; its statements are sound. -/
theorem uprooted_keepsNull : ∃ text, ofText text = .ok uprooted ∧
    (∀ a, (uprooted.matchArms.insert a).1 = 0 ∧ (uprooted.matchArms.insert a).2.toList = []) ∧
    (∃ b, uprooted.blocks.get? 0 = some b ∧ b.poison = .undefined) ∧
    ∀ ids t, uprooted.statements.Derives ids t → t.SetsApart ids := by
  obtain ⟨-, hread, htexts⟩ := keepsNull "uprooted" uprooted
  obtain ⟨text, htext⟩ := htexts.2 ⟨rfl, uprooted_fits, by decide⟩
  have heach := hread text htext
  refine ⟨text, htext, ?_, ⟨_, rfl, rfl⟩, heach.statements.1.2 Table.hasNull_empty⟩
  rcases heach.matchArms.2 (by rintro ⟨a, ⟨⟩, -⟩) with hlost | ⟨a, hrow, -⟩
  · exact hlost
  · cases hrow

end Object

end GimpleLowering.Flo
