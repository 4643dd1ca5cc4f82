import GimpleLowering.Json.Fields
import GimpleLowering.Proofs.Except
import GimpleLowering.Proofs.Json.Grammar
import GimpleLowering.Proofs.Text.First
import Mathlib.Algebra.Group.Int.Defs
import Mathlib.Algebra.Group.Nat.Defs

/-!
# Records that are read back

A document that is whole has a text, and can be taken in wherever there is room for its nesting. A
record that is written as an object is read back, whether it is tagged or not, if each of its fields
is the value of just one member and is read back itself; and room for the record is room for its
fields.

## Main definitions

* `Json.Document.IsWhole` — a document that has a text and can be taken in
* `Json.Document.Holds` — a document from which a value is read wherever there is room
* `Json.Fields.Yields` — fields that are read from the members of an object

## Main results

* `Json.Document.IsWhole.isSound` — room for the nesting is enough
* `Json.Document.holds_list`, `holds_record`, `holds_tagged_fields` — lists, records and tagged
  records are read back
* `Json.Document.Holds.required`, `Holds.defaulted` — fields of a record, one by one
-/

namespace GimpleLowering.Json

variable {α β τ : Type}

namespace Document

/-! ### Whole documents -/

theorem areSound_iff {depth : Nat} {ds : List Document} :
    areSound depth ds = true ↔ ∀ d ∈ ds, d.isSound depth = true := by
  induction ds with
  | nil => simp [areSound]
  | cons d ds ih => simp [areSound, ih]

theorem membersSound_iff {depth : Nat} {ms : List (Option String × Document)} :
    membersSound depth ms = true ↔ ∀ m ∈ ms, m.1.isSome ∧ m.2.isSound depth = true := by
  induction ms with
  | nil => simp [membersSound]
  | cons m ms ih => simp [membersSound, ih]

theorem nestingOfItems_le_iff {depth : Nat} {ds : List Document} :
    nestingOfItems ds ≤ depth ↔ ∀ d ∈ ds, d.nesting ≤ depth := by
  induction ds with
  | nil => simp [nestingOfItems]
  | cons d ds ih => rw [nestingOfItems, Nat.max_le, ih, List.forall_mem_cons]

theorem nestingOfMembers_le_iff {depth : Nat} {ms : List (Option String × Document)} :
    nestingOfMembers ms ≤ depth ↔ ∀ m ∈ ms, m.2.nesting ≤ depth := by
  induction ms with
  | nil => simp [nestingOfMembers]
  | cons m ms ih => rw [nestingOfMembers, Nat.max_le, ih, List.forall_mem_cons]

mutual

/-- What can be taken in at some depth can be taken in wherever there is room for its nesting. -/
theorem isSound_of_nesting_le : (d : Document) → {n m : Nat} → d.isSound n = true →
    d.nesting ≤ m → d.isSound m = true
  | .null, _, _, _, _ | .bool _, _, _, _, _ => rfl
  | .number _, _, _, h, _ | .string _, _, _, h, _ => h
  | .array _ _, 0, _, h, _ | .object _ _, 0, _, h, _ => nomatch h
  | .array _ _, _, 0, _, hm | .object _ _, _, 0, _, hm => absurd hm (by simp [nesting])
  | .array items closed, n + 1, m + 1, h, hm => by
    simp only [isSound, Bool.and_eq_true] at h ⊢
    rw [nesting, Nat.add_comm, Nat.add_le_add_iff_right] at hm
    exact ⟨h.1, areSound_of_nesting_le items h.2 hm⟩
  | .object members closed, n + 1, m + 1, h, hm => by
    simp only [isSound, Bool.and_eq_true] at h ⊢
    rw [nesting, Nat.add_comm, Nat.add_le_add_iff_right] at hm
    exact ⟨h.1, membersSound_of_nesting_le members h.2 hm⟩
termination_by structural d => d

theorem areSound_of_nesting_le : (ds : List Document) → {n m : Nat} → areSound n ds = true →
    nestingOfItems ds ≤ m → areSound m ds = true
  | [], _, _, _, _ => rfl
  | d :: ds, n, m, h, hm => by
    simp only [areSound, Bool.and_eq_true] at h ⊢
    rw [nestingOfItems, Nat.max_le] at hm
    exact ⟨isSound_of_nesting_le d h.1 hm.1, areSound_of_nesting_le ds h.2 hm.2⟩
termination_by structural ds => ds

theorem membersSound_of_nesting_le : (ms : List (Option String × Document)) → {n m : Nat} →
    membersSound n ms = true → nestingOfMembers ms ≤ m → membersSound m ms = true
  | [], _, _, _, _ => rfl
  | (key, d) :: ms, n, m, h, hm => by
    simp only [membersSound, Bool.and_eq_true] at h ⊢
    rw [nestingOfMembers, Nat.max_le] at hm
    exact ⟨⟨h.1.1, isSound_of_nesting_le d h.1.2 hm.1⟩, membersSound_of_nesting_le ms h.2 hm.2⟩
termination_by structural ms => ms

end

/-- The document has a text, and can be taken in if its own nesting is the limit. -/
structure IsWhole (d : Document) : Prop where
  sound : d.isSound d.nesting = true
  text : ∃ s, d.IsText s

namespace IsWhole

variable {d : Document}

/-- Room for the nesting is enough. -/
theorem isSound (h : d.IsWhole) {depth : Nat} (hn : d.nesting ≤ depth) : d.isSound depth = true :=
  isSound_of_nesting_le d h.sound hn

theorem isClosed (h : d.IsWhole) : d.isClosed = true := by
  obtain ⟨s, hs⟩ := h.text
  exact isClosed_of_isText d hs

end IsWhole

theorem isWhole_null : Document.null.IsWhole := ⟨rfl, _, rfl⟩

theorem isWhole_text (s : String) : (text s).IsWhole := ⟨rfl, exists_isString s⟩

/-- The members of a record, with their keys as texts. -/
def keyed (ms : List (String × Document)) : List (Option String × Document) :=
  ms.map fun (key, value) => (some key, value)

theorem forall_mem_keyed {ms : List (String × Document)} {p : Option String × Document → Prop} :
    (∀ m ∈ keyed ms, p m) ↔ ∀ m ∈ ms, p (some m.1, m.2) :=
  List.forall_mem_map

theorem nesting_record_le_iff {ms : List (String × Document)} {depth : Nat} :
    (record ms).nesting ≤ depth + 1 ↔ ∀ m ∈ ms, m.2.nesting ≤ depth := by
  rw [record, nesting, Nat.add_comm, Nat.add_le_add_iff_right, nestingOfMembers_le_iff]
  exact forall_mem_keyed

theorem nesting_list_le_iff {ds : List Document} {depth : Nat} :
    (list ds).nesting ≤ depth + 1 ↔ ∀ d ∈ ds, d.nesting ≤ depth := by
  rw [list, nesting, Nat.add_comm, Nat.add_le_add_iff_right, nestingOfItems_le_iff]

/-- A record with room has room for its members. -/
theorem exists_of_nesting_record_le {ms : List (String × Document)} {depth : Nat}
    (h : (record ms).nesting ≤ depth) :
    ∃ inner, depth = inner + 1 ∧ ∀ m ∈ ms, m.2.nesting ≤ inner := by
  cases depth with
  | zero => simp [record, nesting] at h
  | succ inner => exact ⟨inner, rfl, nesting_record_le_iff.1 h⟩

/-- A list with room has room for its items. -/
theorem exists_of_nesting_list_le {ds : List Document} {depth : Nat}
    (h : (list ds).nesting ≤ depth) : ∃ inner, depth = inner + 1 ∧ ∀ d ∈ ds, d.nesting ≤ inner := by
  cases depth with
  | zero => simp [list, nesting] at h
  | succ inner => exact ⟨inner, rfl, nesting_list_le_iff.1 h⟩

theorem isWhole_list {ds : List Document} (h : ∀ d ∈ ds, d.IsWhole) : (list ds).IsWhole := by
  obtain ⟨inner, hinner⟩ := exists_areItems fun d hd => (h d hd).text
  refine ⟨?_, _, rfl, inner, hinner, rfl⟩
  have hds := areSound_iff.2 fun d hd =>
    (h d hd).isSound (nestingOfItems_le_iff.1 (Nat.le_refl (nestingOfItems ds)) d hd)
  simp [list, nesting, Nat.add_comm 1, Document.isSound, hds]

theorem isWhole_record {ms : List (String × Document)} (h : ∀ m ∈ ms, m.2.IsWhole) :
    (record ms).IsWhole := by
  have htexts : ∀ m ∈ keyed ms, m.1.isSome ∧ ∃ s, m.2.IsText s :=
    forall_mem_keyed.2 fun m hm => ⟨rfl, (h m hm).text⟩
  obtain ⟨inner, hinner⟩ := exists_areMembers htexts
  refine ⟨?_, _, rfl, inner, hinner, rfl⟩
  have hms : membersSound (nestingOfMembers (keyed ms)) (keyed ms) = true := by
    have hn := nestingOfMembers_le_iff.1 (Nat.le_refl (nestingOfMembers (keyed ms)))
    exact membersSound_iff.2 (forall_mem_keyed.2 fun m hm =>
      ⟨rfl, (h m hm).isSound (forall_mem_keyed.1 hn m hm)⟩)
  change isSound (nesting (.object (keyed ms) true)) (.object (keyed ms) true) = true
  simp [nesting, Nat.add_comm 1, Document.isSound, hms]

/-! ### Single values -/

/-- The value is read from the document wherever there is room for its nesting. -/
structure Holds (d : Document) (read : Nat → Document → Except Defect α) (a : α) : Prop where
  whole : d.IsWhole
  reads : ∀ {depth : Nat}, d.nesting ≤ depth → read depth d = .ok a

theorem holds_text (s : String) : (text s).Holds (fun _ => asText) s :=
  ⟨isWhole_text s, fun _ => rfl⟩

theorem reading_ofInt {i : Int} (h : -2 ^ 63 ≤ i ∧ i < 2 ^ 63) :
    (Numeral.ofInt i).reading = some (.integer i) := by
  unfold Numeral.ofInt
  by_cases hi : i < 0
  · have hn : ¬ (i.natAbs = 0 ∨ 9223372036854775808 < i.natAbs) := by omega
    have heq : -(i.natAbs : Int) = i := by omega
    simp only [hi, decide_true, Numeral.reading, hn, if_false, heq]
  · have hn : i.natAbs < 18446744073709551616 := by omega
    have heq : (i.natAbs : Int) = i := by omega
    simp only [hi, decide_false, Numeral.reading, hn, if_true, heq]

theorem holds_int {i : Int} (h : -2 ^ 63 ≤ i ∧ i < 2 ^ 63) :
    (int i).Holds (fun _ => asSigned64) i := by
  have hr := reading_ofInt h
  have hsound : (int i).isSound (int i).nesting = true := by simp [int, Document.isSound, hr]
  refine ⟨⟨hsound, Numeral.exists_isText_integer _ _⟩, fun _ => ?_⟩
  simp only [asSigned64, asInteger, int, hr]
  rw [if_pos (by omega)]

theorem reading_nat {n : Nat} (h : n < 2 ^ 64) :
    (Numeral.integer false n).reading = some (.integer n) := if_pos h

theorem asInteger_nat {n : Nat} {high : Int} (hn : n < 2 ^ 64) (h : (n : Int) ≤ high)
    (wanted : String) : (nat n).asInteger 0 high wanted = .ok n := by
  simp [asInteger, nat, reading_nat hn, h]

theorem isWhole_nat {n : Nat} (h : n < 2 ^ 64) : (nat n).IsWhole :=
  ⟨by simp [nat, Document.isSound, reading_nat h], Numeral.exists_isText_integer _ _⟩

theorem holds_word32 {n : Nat} (h : n < 2 ^ 32) : (nat n).Holds (fun _ => asWord32) n := by
  refine ⟨isWhole_nat (by omega), fun _ => ?_⟩
  rw [asWord32, asInteger_nat (by omega) (by omega)]
  rfl

theorem holds_word64 {n : Nat} (h : n < 2 ^ 64) : (nat n).Holds (fun _ => asWord64) n := by
  refine ⟨isWhole_nat h, fun _ => ?_⟩
  rw [asWord64, asInteger_nat h (by omega)]
  rfl

theorem holds_double {n : Numeral} {x : Double} (h : n.reading = some (.double x))
    (htext : ∃ s, n.IsText s) : (number n).Holds (fun _ => asDouble) x := by
  refine ⟨⟨by simp [Document.isSound, h], htext⟩, fun _ => ?_⟩
  simp [asDouble, h]

theorem holds_list {read : Nat → Document → Except Defect α} {write : α → Document} {as : List α}
    (h : ∀ a ∈ as, (write a).Holds read a) : (list (as.map write)).Holds (asList read) as := by
  refine ⟨isWhole_list (List.forall_mem_map.2 fun a ha => (h a ha).whole), fun {depth} hn => ?_⟩
  obtain ⟨depth, rfl, hroom⟩ := exists_of_nesting_list_le hn
  have hitems := mapM_map_eq_ok fun a ha =>
    (h a ha).reads (hroom (write a) (List.mem_map_of_mem ha))
  simp only [asList, list, hitems]
  rfl

theorem asOption_of_ne_null {read : Document → Except Defect α} {d : Document} (h : d ≠ .null) :
    asOption read d = (read d).map some := by
  cases d with
  | null => exact absurd rfl h
  | _ => rfl

/-! ### Fields -/

/-- The members with one of some names are among the members. -/
theorem mem_of_occurrences {names : List String} {ms : List (String × Document)} {i j : Nat}
    {d : Document} (h : (i, d) ∈ Frame.occurrences names j (keyed ms)) : d ∈ ms.map Prod.snd := by
  induction ms generalizing j with
  | nil => cases h
  | cons m ms ih =>
    rw [keyed, List.map_cons, Frame.occurrences] at h
    split at h
    · rcases List.mem_cons.1 h with heq | h
      · cases heq
        exact List.mem_cons_self
      · exact List.mem_cons_of_mem _ (ih h)
    · exact List.mem_cons_of_mem _ (ih h)

end Document

namespace Fields

/-- The value is read from the members of a complete object. -/
def Yields (fs : Fields α) (ms : List (String × Document)) (a : α) : Prop :=
  ∀ i, fs.read (.members (Document.keyed ms) true) i = pure a

variable {ms : List (String × Document)} {a : α}

theorem yields_field {names : List String} {read : Document → Except Defect α} {absent : Option α}
    {i : Nat} {d : Document} (h : Frame.occurrences names 0 (Document.keyed ms) = [(i, d)])
    (hd : read d = .ok a) : Yields ⟨[names], Frame.field names read absent⟩ ms a := by
  intro j
  simp [Frame.field, h, hd]

theorem Yields.seq {f : Fields (α → β)} {x : Fields α} {g : α → β} (hf : f.Yields ms g)
    (hx : x.Yields ms a) : (f <*> x).Yields ms (g a) := by
  intro i
  change (f.read (.members (Document.keyed ms) true) i
    <*> x.read (.members (Document.keyed ms) true) (i + f.names.length)) = _
  rw [hf, hx]
  rfl

theorem Yields.map {x : Fields α} (hx : x.Yields ms a) (g : α → β) :
    (g <$> x).Yields ms (g a) :=
  Yields.seq (f := pure g) (fun _ => rfl) hx

theorem strayDefect_keyed {known : List String} {i : Nat} (h : ∀ m ∈ ms, m.2.IsWhole) :
    Frame.strayDefect known i (Document.keyed ms) = pure () := by
  induction ms generalizing i with
  | nil => rfl
  | cons m ms ih =>
    obtain ⟨hm, hms⟩ := List.forall_mem_cons.1 h
    simp only [Document.keyed, List.map_cons, Frame.strayDefect, hm.isClosed, Bool.or_true, if_true]
    exact ih hms

/-- Fields are read from an object if nothing in it is broken. -/
theorem Yields.ofFrame {fs : Fields α} (h : fs.Yields ms a) (hwhole : ∀ m ∈ ms, m.2.IsWhole)
    (takenIn : Bool) : fs.ofFrame takenIn (.members (Document.keyed ms) true) = .ok a := by
  have hcheck : ∀ {known arity}, Frame.check known arity takenIn
      (.members (Document.keyed ms) true) = pure () := by
    intro known arity
    simp only [Frame.check, strayDefect_keyed hwhole]
    rfl
  rw [Fields.ofFrame, hcheck, h]
  rfl

end Fields

namespace Document

variable {ms : List (String × Document)} {depth : Nat}

section

variable {names : List String} {read : Nat → Document → Except Defect α} {i : Nat} {d : Document}
  {a : α}

theorem Holds.reads_of_occurrences (h : d.Holds read a)
    (hd : Frame.occurrences names 0 (keyed ms) = [(i, d)]) (hn : ∀ m ∈ ms, m.2.nesting ≤ depth) :
    read depth d = .ok a := by
  have hmem : (i, d) ∈ Frame.occurrences names 0 (keyed ms) := by simp [hd]
  obtain ⟨m, hm, rfl⟩ := List.mem_map.1 (mem_of_occurrences hmem)
  exact h.reads (hn m hm)

/-- A field that has to be there is read from the only member with one of its names. -/
theorem Holds.required (h : d.Holds read a)
    (hd : Frame.occurrences names 0 (keyed ms) = [(i, d)]) (hn : ∀ m ∈ ms, m.2.nesting ≤ depth) :
    (Fields.required names (read depth)).Yields ms a :=
  Fields.yields_field hd (h.reads_of_occurrences hd hn)

/-- A field that may be missing is read from the only member with one of its names. -/
theorem Holds.defaulted (h : d.Holds read a)
    (hd : Frame.occurrences names 0 (keyed ms) = [(i, d)]) (hn : ∀ m ∈ ms, m.2.nesting ≤ depth)
    {absent : α} : (Fields.defaulted names (read depth) absent).Yields ms a :=
  Fields.yields_field hd (h.reads_of_occurrences hd hn)

end

/-! ### Records and tags -/

variable {a : α}

/-- A record is read if its fields are, wherever there is room for them. -/
theorem holds_record {title : String} {fields : Nat → Fields α} {takenIn : Bool}
    (hwhole : ∀ m ∈ ms, m.2.IsWhole)
    (h : ∀ {depth : Nat}, (∀ m ∈ ms, m.2.nesting ≤ depth) → (fields depth).Yields ms a) :
    (record ms).Holds (Fields.record title fields takenIn) a := by
  refine ⟨isWhole_record hwhole, fun {depth} hn => ?_⟩
  obtain ⟨depth, rfl, hroom⟩ := exists_of_nesting_record_le hn
  exact (h hroom).ofFrame hwhole takenIn

variable {tag title name : String} {vs : Variants τ} {takenIn : Bool} {t : τ}

theorem splitTag_keyed {read : Document → Except Defect τ} {seen : Option τ}
    (hkeys : ∀ m ∈ ms, m.1 ≠ tag) (hsound : ∀ m ∈ ms, m.2.isSound depth = true) :
    splitTag tag read depth (keyed ms) seen = .ok (seen, keyed ms) := by
  induction ms with
  | nil => rfl
  | cons m ms ih =>
    obtain ⟨hkey, hkeys⟩ := List.forall_mem_cons.1 hkeys
    obtain ⟨hm, hms⟩ := List.forall_mem_cons.1 hsound
    have htail := ih hkeys hms
    simp only [keyed, List.map_cons] at htail ⊢
    simp only [splitTag, if_neg hkey, if_pos hm, htail]
    rfl

/-- The tag is taken off a record that begins with it. -/
theorem takeTag_record (hname : vs.ofName name = .ok t) (hkeys : ∀ m ∈ ms, m.1 ≠ tag)
    (hsound : ∀ m ∈ ms, m.2.isSound depth = true) :
    (record ((tag, text name) :: ms)).takeTag tag title vs takenIn (depth + 1) =
      .ok (t, .members (keyed ms)) := by
  have hread : vs.read takenIn (text name) = .ok t := hname
  have hsplit : splitTag tag (vs.read takenIn) depth ((some tag, text name) :: keyed ms) none =
      .ok (some t, keyed ms) := by
    simp only [splitTag, if_true, hread]
    exact splitTag_keyed hkeys hsound
  change (splitTag tag (vs.read takenIn) depth ((some tag, text name) :: keyed ms) none >>= _) = _
  rw [hsplit]
  rfl

variable {read : Nat → Document → Except Defect α} {body : Nat → τ × Payload → Except Defect α}

/-- A tagged record is read if what stands beside the tag is, wherever there is room for it. -/
theorem holds_tagged
    (hread : ∀ depth d, read depth d = d.takeTag tag title vs takenIn depth >>= body depth)
    (hname : vs.ofName name = .ok t) (hkeys : ∀ m ∈ ms, m.1 ≠ tag)
    (hwhole : ∀ m ∈ ms, m.2.IsWhole)
    (h : ∀ {depth : Nat}, (∀ m ∈ ms, m.2.nesting ≤ depth) →
      body (depth + 1) (t, .members (keyed ms)) = .ok a) :
    (record ((tag, text name) :: ms)).Holds read a := by
  refine ⟨isWhole_record (List.forall_mem_cons.2 ⟨isWhole_text name, hwhole⟩),
    fun {depth} hn => ?_⟩
  obtain ⟨depth, rfl, hroom⟩ := exists_of_nesting_record_le hn
  have hroom := (List.forall_mem_cons.1 hroom).2
  rw [hread, takeTag_record hname hkeys fun m hm => (hwhole m hm).isSound (hroom m hm)]
  exact h hroom

/-- A tagged record is read if its fields are, wherever there is room for them. -/
theorem holds_tagged_fields {fields : Nat → Fields α}
    (hread : ∀ depth d, read depth d = d.takeTag tag title vs takenIn depth >>= body depth)
    (hname : vs.ofName name = .ok t) (hkeys : ∀ m ∈ ms, m.1 ≠ tag)
    (hwhole : ∀ m ∈ ms, m.2.IsWhole)
    (hbody : ∀ depth ms, body (depth + 1) (t, .members ms) =
      (fields depth).ofFrame true (.members ms true))
    (h : ∀ {depth : Nat}, (∀ m ∈ ms, m.2.nesting ≤ depth) → (fields depth).Yields ms a) :
    (record ((tag, text name) :: ms)).Holds read a :=
  holds_tagged hread hname hkeys hwhole fun hn => by rw [hbody, (h hn).ofFrame hwhole]

end Document

end GimpleLowering.Json
