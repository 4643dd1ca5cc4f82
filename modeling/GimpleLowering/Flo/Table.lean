import GimpleLowering.Flo.Entry

/-!
# Tables

A table hands out ids in the order of insertion, starting at 1; at id 0 stands a null entry, so
that an id of zero never refers to anything. `Table.toList` is the view of a table without it.

## Main results

* `Table.get?_insert` — an insertion adds the entry of the next id and keeps the rest
* `Table.size?_eq_some_iff` — the entries can be counted if there is a slot zero
* `Table.get?_of_swap?` — a replacement changes one entry, and returns the one that was there
-/

namespace GimpleLowering.Flo

/-- A table of entries. The entry with id `i` stands at position `i`. -/
structure Table (α : Type) where
  entries : Array α
  deriving DecidableEq

namespace Table

variable {α : Type}

/-- The table with nothing but the null entry. -/
def empty [Entry α] : Table α := ⟨#[Entry.poisoned .nullEntry]⟩

instance [Entry α] : Inhabited (Table α) := ⟨empty⟩

/-- The number of slots after slot zero. -/
def size (t : Table α) : Nat := t.entries.size - 1

/-- The number of entries, without the null entry. A table without slots has no null entry to
leave out, and to count its entries breaks down. -/
def size? (t : Table α) : Option Nat := if t.entries.isEmpty then none else some t.size

/-- Nothing was inserted, if the entries can be counted. -/
def isEmpty? (t : Table α) : Option Bool := t.size?.map fun n => n = 0

/-- The words for a count that breaks down. -/
def uncountedText : String := "attempt to subtract with overflow"

/-- Adds an entry and hands out its id. -/
def insert (t : Table α) (a : α) : Nat × Table α := (t.entries.size, ⟨t.entries.push a⟩)

/-- Hands out the id of an entry that is not known yet. -/
def reserve [Entry α] (t : Table α) (p : Poison) : Nat × Table α := t.insert (Entry.poisoned p)

/-- The entry with an id. -/
def get? (t : Table α) (id : Nat) : Option α := t.entries[id]?

/-- Replaces the entry with an id, and returns the one that was there. -/
def swap? (t : Table α) (id : Nat) (a : α) : Option (α × Table α) :=
  if h : id < t.entries.size then some (t.entries[id], ⟨t.entries.set id a⟩) else none

/-- The entries with their ids in order, without the null entry. -/
def toList (t : Table α) : List (Nat × α) :=
  (t.entries.toList.drop 1).zipIdx 1 |>.map fun (a, id) => (id, a)

/-- The ids of the poisoned entries, in order. -/
def poisonedIds [Entry α] (t : Table α) : List Nat :=
  t.toList.filterMap fun (id, a) => if Entry.isPoisoned a then some id else none

/-- The words for an id that the table did not hand out. -/
def missingEntryText (id : Nat) : String := "intern table has no entry " ++ toString id

/-! ### Interface lemmas -/

@[simp] theorem size_entries_insert (t : Table α) (a : α) :
    (t.insert a).2.entries.size = t.entries.size + 1 := by simp [insert]

@[simp] theorem get?_insert (t : Table α) (a : α) (id : Nat) :
    (t.insert a).2.get? id = if id = (t.insert a).1 then some a else t.get? id := by
  by_cases h : id = t.entries.size <;> simp [insert, get?, Array.getElem?_push, h]

/-- The count is one less than the number of slots, and there is no such number without slots. -/
theorem size?_eq_some_iff {t : Table α} {n : Nat} : t.size? = some n ↔ t.entries.size = n + 1 := by
  unfold size? size
  cases h : t.entries.size with
  | zero => simp [Array.isEmpty, h]
  | succ k => simp [Array.isEmpty, h]

/-- A replacement returns the old entry and keeps all the others. -/
theorem get?_of_swap? {t t' : Table α} {id : Nat} {a b : α} (h : t.swap? id a = some (b, t'))
    (i : Nat) : t.get? id = some b ∧ t'.get? i = if i = id then some a else t.get? i := by
  unfold swap? at h
  split at h
  · obtain ⟨rfl, rfl⟩ := Prod.mk.inj (Option.some.inj h)
    rename_i hlt
    refine ⟨by simp [get?, hlt], ?_⟩
    simp only [get?, Array.getElem?_set]
    by_cases hi : i = id
    · simp [hi]
    · simp [hi, Ne.symm hi]
  · cases h

end Table

end GimpleLowering.Flo
