import GimpleLowering.Proofs.Flo.Draft
import Mathlib.Data.List.Nodup

/-!
# Locations

A line of the source has at most one location in a draft, and this is kept up by looking through
the table before each insertion. So a location says no more and no less than its line: what is
added to a draft with the location of a line is on that line, and whatever is on another line has
another location.

What is added for one thing is collected in an *emission*, whose rows stand behind those that were
there before.

## Main definitions

* `Flo.Object.Locates` — a location is the one of a line
* `Flo.Draft.Tidy` — no two locations are of one line
* `Flo.Draft.locateBy`, `Flo.Draft.Mapped` — a map of the lines, kept beside a draft
* `Flo.Emission` — statements, variables and arms that are added together
* `Flo.Draft.Adds` — a draft with an emission more, on a line

## Main results

* `Flo.Draft.Mapped.location?_eq` — what is looked up in the map is what the search finds
-/

namespace GimpleLowering.Flo

/-- The note on a statement. A slot that was never filled in has none. -/
def Statement.note? : Statement → Option Note
  | .assignConst _ _ note | .assign _ _ note | .call _ _ _ note | .construct _ _ note
  | .destructure _ _ note | .load _ _ _ note | .store _ _ _ note => some note
  | .poisoned _ => none

/-! ### Lines -/

/-- The location is the one of the line. A line that is not known has none, and line 0 stands for
such a line. -/
structure Object.Locates (o : Object) (line location : Option Nat) : Prop where
  unknown : line = none ∨ line = some 0 → location = none
  known : ∀ n, line = some n → n ≠ 0 → ∃ id l, location = some id ∧
    o.locations.get? id = some l ∧ l.line = some n

theorem Object.Locates.mono {o o' : Object} {line location : Option Nat}
    (h : o.Locates line location) (hp : o.locations.rows <+: o'.locations.rows) :
    o'.Locates line location := by
  refine ⟨h.unknown, fun n hn hne => ?_⟩
  obtain ⟨id, l, hid, hrow, hline⟩ := h.known n hn hne
  rw [Table.get?_eq_rows] at hrow
  obtain ⟨rest, hrest⟩ := hp
  refine ⟨id, l, hid, ?_, hline⟩
  rw [Table.get?_eq_rows, ← hrest, List.getElem?_append_left (List.getElem?_eq_some_iff.1 hrow).1,
    hrow]

/-! ### Emissions -/

/-- Statements, variables and arms that are added to an object together. -/
structure Emission where
  code : List Statement
  vars : List Variable
  arms : List MatchArm

namespace Emission

/-- Nothing is added. -/
def nil : Emission := ⟨[], [], []⟩

instance : Append Emission :=
  ⟨fun e e' => ⟨e.code ++ e'.code, e.vars ++ e'.vars, e.arms ++ e'.arms⟩⟩

/-- All locations in the emission have the property. -/
structure Located (e : Emission) (P : Option Nat → Prop) : Prop where
  code : ∀ s ∈ e.code, ∃ note, s.note? = some note ∧ P note.location
  vars : ∀ v ∈ e.vars, P v.location
  arms : ∀ a ∈ e.arms, P a.location

variable {e e' : Emission} {P Q : Option Nat → Prop}

theorem Located.imp (h : e.Located P) (hPQ : ∀ location, P location → Q location) :
    e.Located Q := by
  refine ⟨fun s hs => ?_, fun v hv => hPQ _ (h.vars v hv), fun a ha => hPQ _ (h.arms a ha)⟩
  obtain ⟨note, hnote, hlocation⟩ := h.code s hs
  exact ⟨note, hnote, hPQ _ hlocation⟩

theorem located_nil : nil.Located P := ⟨nofun, nofun, nofun⟩

theorem Located.append (h : e.Located P) (h' : e'.Located P) : (e ++ e').Located P :=
  ⟨List.forall_mem_append.2 ⟨h.code, h'.code⟩, List.forall_mem_append.2 ⟨h.vars, h'.vars⟩,
    List.forall_mem_append.2 ⟨h.arms, h'.arms⟩⟩

end Emission

namespace Draft

/-! ### Tidy drafts -/

/-- No two locations are of one line. -/
def Tidy (d : Draft) : Prop :=
  ∃ rest, d.object.locations.rows = Entry.poisoned .nullEntry :: rest ∧
    (rest.map Location.line).Nodup

variable {d d' d'' : Draft} {line : Option Nat} {e e' : Emission}

theorem tidy_empty (moduleName source : String) : (empty moduleName source).Tidy :=
  ⟨[], rfl, List.nodup_nil⟩

/-- A draft was tidy before locations were added, if it is tidy after that. -/
theorem Tidy.of_prefix (h : d'.Tidy) (hp : d.object.locations.rows <+: d'.object.locations.rows)
    (hpos : 0 < d.object.locations.rows.length) : d.Tidy := by
  obtain ⟨rest', hrows', hnodup⟩ := h
  rw [hrows'] at hp
  cases hrows : d.object.locations.rows with
  | nil => simp [hrows] at hpos
  | cons null rest =>
    rw [hrows] at hp
    obtain ⟨rfl, hrest⟩ := List.cons_prefix_cons.1 hp
    exact ⟨rest, hrows, hnodup.sublist (hrest.sublist.map _)⟩

/-- The location of a line that was mentioned before. -/
theorem of_location? {n id : Nat} (h : d.location? n = some id) :
    ∃ l, d.object.locations.get? id = some l ∧ l.line = some n := by
  obtain ⟨⟨i, l⟩, hfound, rfl⟩ := Option.map_eq_some_iff.1 h
  refine ⟨l, (Table.mem_toList.1 (List.mem_of_find?_eq_some hfound)).2, ?_⟩
  simpa using List.find?_some hfound

/-- A line that was not mentioned before is the line of no location. -/
theorem ne_of_location? {n : Nat} (h : d.location? n = none) {null : Location}
    {rest : List Location} (hrows : d.object.locations.rows = null :: rest) :
    ∀ l ∈ rest, l.line ≠ some n := by
  intro l hl
  obtain ⟨i, hi, rfl⟩ := List.getElem_of_mem hl
  have hmem : (i + 1, rest[i]) ∈ d.object.locations.toList := by
    refine Table.mem_toList.2 ⟨Nat.succ_ne_zero i, ?_⟩
    rw [Table.get?_eq_rows, hrows, List.getElem?_cons_succ, List.getElem?_eq_getElem hi]
  have hnone := List.find?_eq_none.1 (Option.map_eq_none_iff.1 h) _ hmem
  simpa using hnone

/-- The line that is located has the location that is returned, and no other. -/
theorem Tidy.locate (h : d.Tidy) (line : Option Nat) :
    (d.locate line).2.Tidy ∧ (d.locate line).2.object.Locates line (d.locate line).1 := by
  unfold Draft.locate
  split
  · exact ⟨h, fun _ => rfl, nofun⟩
  · refine ⟨h, fun _ => rfl, fun n hn hne => ?_⟩
    exact absurd (Option.some.inj hn).symm hne
  · rename_i n hzero
    have hunknown : some n = none ∨ some n = some 0 → ∀ {P : Prop}, P := by
      rintro (hn | hn)
      · cases hn
      · exact absurd (Option.some.inj hn) hzero
    cases hfound : d.location? n with
    | some id =>
      refine ⟨h, fun hn => hunknown hn, ?_⟩
      rintro _ ⟨⟩ -
      obtain ⟨l, hl⟩ := of_location? hfound
      exact ⟨id, l, rfl, hl⟩
    | none =>
      obtain ⟨rest, hrows, hnodup⟩ := h
      refine ⟨⟨rest ++ [⟨d.source, some n, .usable⟩], ?_, ?_⟩, fun hn => hunknown hn, ?_⟩
      · rw [Table.rows_insert, hrows, List.cons_append]
      · rw [List.map_append, List.nodup_append_comm, List.map_singleton, List.singleton_append,
          List.nodup_cons]
        refine ⟨fun hmem => ?_, hnodup⟩
        obtain ⟨l, hl, hline⟩ := List.mem_map.1 hmem
        exact ne_of_location? hfound hrows l hl hline
      · rintro _ ⟨⟩ -
        exact ⟨_, _, rfl, by rw [Table.get?_insert, if_pos rfl], rfl⟩

/-! ### The map of lines -/

/-- The location of a line, by a map of the lines that were mentioned before. The map is kept beside
the draft, and the table is not looked through. -/
def locateBy (d : Draft) (known : Nat → Option Nat) (line : Option Nat) :
    Option Nat × Draft × (Nat → Option Nat) :=
  match line with
  | none | some 0 => (none, d, known)
  | some line =>
    match known line with
    | some id => (some id, d, known)
    | none =>
      let (id, locations) := d.object.locations.insert ⟨d.source, some line, .usable⟩
      (some id, { d with object := { d.object with locations } },
        Function.update known line (some id))

/-- A draft and a map of its lines that came about together. -/
inductive Mapped : Draft → (Nat → Option Nat) → Prop where
  | empty (moduleName source : String) : Mapped (empty moduleName source) fun _ => none
  | locate {d : Draft} {known : Nat → Option Nat} (h : Mapped d known) (line : Option Nat) :
      Mapped (d.locateBy known line).2.1 (d.locateBy known line).2.2
  /-- Whatever else is done to the draft adds no locations. -/
  | keep {d d' : Draft} {known : Nat → Option Nat} (h : Mapped d known)
      (source : d'.source = d.source) (locations : d'.object.locations = d.object.locations) :
      Mapped d' known

variable {known : Nat → Option Nat}

/-- While the map says what the table does, a line has the same location by either of them. -/
theorem locateBy_eq (h : ∀ n, d.location? n = known n) (line : Option Nat) :
    (d.locateBy known line).1 = (d.locate line).1 ∧
      (d.locateBy known line).2.1 = (d.locate line).2 := by
  rcases line with _ | _ | n
  · exact ⟨rfl, rfl⟩
  · exact ⟨rfl, rfl⟩
  · simp only [locateBy, Draft.locate, h (n + 1)]
    cases known (n + 1) with
    | none | some => exact ⟨rfl, rfl⟩

/-- A location that is added is that of its line, and changes nothing for other lines. -/
theorem Tidy.location?_insert (h : d.Tidy) (n m : Nat) (file : String) :
    location? { d with object := { d.object with
      locations := (d.object.locations.insert ⟨file, some n, .usable⟩).2 } } m =
        (d.location? m).or (if n = m then some d.object.locations.rows.length else none) := by
  obtain ⟨rest, hrows, -⟩ := h
  have hlist : (d.object.locations.insert ⟨file, some n, .usable⟩).2.toList =
      d.object.locations.toList ++ [(d.object.locations.rows.length, ⟨file, some n, .usable⟩)] := by
    have hentries : d.object.locations.entries.toList = Entry.poisoned .nullEntry :: rest := hrows
    simp [Table.toList, Table.insert, Table.rows, hentries, List.zipIdx_append, Nat.add_comm]
  simp only [location?, hlist, List.find?_append, Option.map_or]
  by_cases hm : n = m
  · simp [hm]
  · simp [hm]

/-- **The map says what the table does.** That no two locations are of one line carries the
induction: what is looked up in the map is then the one entry that a search finds. -/
theorem Mapped.location?_eq (h : d.Mapped known) : d.Tidy ∧ ∀ n, d.location? n = known n := by
  induction h with
  | empty moduleName source => exact ⟨tidy_empty moduleName source, fun _ => rfl⟩
  | @locate d known _ line ih =>
    obtain ⟨htidy, hknown⟩ := ih
    have heq := locateBy_eq hknown line
    refine ⟨heq.2 ▸ (htidy.locate line).1, fun m => ?_⟩
    unfold locateBy
    split
    · exact hknown m
    · exact hknown m
    · rename_i n _
      cases hn : known n with
      | some id => exact hknown m
      | none =>
        refine (htidy.location?_insert n m d.source).trans ?_
        by_cases hm : n = m
        · subst hm
          simp [hknown, hn]
        · simp [hm, Ne.symm hm, hknown]
  | keep _ _ locations ih =>
    refine ⟨by simpa only [Tidy, locations] using ih.1, fun n => ?_⟩
    rw [← ih.2 n, location?, location?, locations]

/-- So the location of a line may as well be looked up in the map. -/
theorem Mapped.locateBy_eq (h : d.Mapped known) (line : Option Nat) :
    (d.locateBy known line).1 = (d.locate line).1 ∧
      (d.locateBy known line).2.1 = (d.locate line).2 :=
  Draft.locateBy_eq h.location?_eq.2 line

theorem Mapped.exists_locate (h : d.Mapped known) (line : Option Nat) :
    ∃ known', (d.locate line).2.Mapped known' :=
  ⟨_, (h.locateBy_eq line).2 ▸ h.locate line⟩

/-! ### Additions -/

/-- The emission is added to the draft. It is on the line, if no two of the locations that were
there before are of one line. -/
structure Adds (line : Option Nat) (d : Draft) (e : Emission) (d' : Draft) : Prop where
  statements : d'.object.statements.rows = d.object.statements.rows ++ e.code
  vars : d'.object.vars.rows = d.object.vars.rows ++ e.vars
  matchArms : d'.object.matchArms.rows = d.object.matchArms.rows ++ e.arms
  locations : d.object.locations.rows <+: d'.object.locations.rows
  onLine : d.Tidy → d'.Tidy ∧ e.Located (d'.object.Locates line)

namespace Adds

/-- Steps that add no code and need no location. -/
theorem of_eq (hs : d'.object.statements = d.object.statements)
    (hv : d'.object.vars = d.object.vars) (ha : d'.object.matchArms = d.object.matchArms)
    (hl : d'.object.locations = d.object.locations) : d.Adds line .nil d' := by
  refine ⟨?_, ?_, ?_, hl ▸ List.prefix_rfl, fun h => ⟨?_, Emission.located_nil⟩⟩
  · rw [hs, Emission.nil, List.append_nil]
  · rw [hv, Emission.nil, List.append_nil]
  · rw [ha, Emission.nil, List.append_nil]
  · rwa [Tidy, hl]

theorem refl (d : Draft) : d.Adds line .nil d := of_eq rfl rfl rfl rfl

theorem trans (h : d.Adds line e d') (h' : d'.Adds line e' d'') : d.Adds line (e ++ e') d'' where
  statements := by
    rw [h'.statements, h.statements, List.append_assoc]
    rfl
  vars := by
    rw [h'.vars, h.vars, List.append_assoc]
    rfl
  matchArms := by
    rw [h'.matchArms, h.matchArms, List.append_assoc]
    rfl
  locations := h.locations.trans h'.locations
  onLine ht := by
    obtain ⟨ht', hline⟩ := h.onLine ht
    obtain ⟨ht'', hline'⟩ := h'.onLine ht'
    exact ⟨ht'', (hline.imp fun _ hl => hl.mono h'.locations).append hline'⟩

end Adds

/-- What is added with the location of a line is on the line. -/
theorem Adds.of_locate (hs : d'.object.statements.rows = d.object.statements.rows ++ e.code)
    (hv : d'.object.vars.rows = d.object.vars.rows ++ e.vars)
    (ha : d'.object.matchArms.rows = d.object.matchArms.rows ++ e.arms)
    (hl : d'.object.locations = (d.locate line).2.object.locations)
    (hcode : ∀ s ∈ e.code, ∃ note, s.note? = some note ∧ note.location = (d.locate line).1)
    (hvars : ∀ v ∈ e.vars, v.location = (d.locate line).1)
    (harms : ∀ a ∈ e.arms, a.location = (d.locate line).1) : d.Adds line e d' where
  statements := hs
  vars := hv
  matchArms := ha
  locations := hl ▸ (d.extends_locate line).locations
  onLine h := by
    obtain ⟨htidy, hlocated⟩ := h.locate line
    have hlocated' : d'.object.Locates line (d.locate line).1 :=
      hlocated.mono (hl ▸ List.prefix_rfl)
    refine ⟨by rwa [Tidy, hl], fun s hs => ?_, fun v hv => ?_, fun a ha => ?_⟩
    · obtain ⟨note, hnote, hlocation⟩ := hcode s hs
      exact ⟨note, hnote, hlocation ▸ hlocated'⟩
    · exact hvars v hv ▸ hlocated'
    · exact harms a ha ▸ hlocated'

theorem adds_addVariable (d : Draft) (line : Option Nat) (typ : Ty) (linkage : Linkage)
    (label : Option String) : ∃ v, d.Adds line ⟨[], [v], []⟩
      ((d.locate line).2.addVariable typ linkage label (d.locate line).1).2 := by
  have he := (d.locate line).2.extends_addVariable typ linkage label (d.locate line).1
  have hvars := (d.locate line).2.vars_addVariable typ linkage label (d.locate line).1
  rw [vars_locate] at hvars
  refine ⟨_, .of_locate ?_ hvars ?_ ?_ nofun (List.forall_mem_singleton.2 rfl) nofun⟩
  · rw [he.statements, (d.extends_locate line).statements, List.append_nil]
  · rw [← matchArms_locate d line, List.append_nil]
    cases label <;> rfl
  · cases label <;> rfl

theorem adds_addStatement (d : Draft) {line : Option Nat} {s : Statement} {note : Note}
    (hnote : s.note? = some note) (hlocation : note.location = (d.locate line).1) :
    d.Adds line ⟨[s], [], []⟩ ((d.locate line).2.addStatement s).2 := by
  have he := (d.locate line).2.extends_addStatement s
  refine .of_locate ?_ ?_ ?_ rfl (List.forall_mem_singleton.2 ⟨note, hnote, hlocation⟩) nofun nofun
  · rw [he.statements, (d.extends_locate line).statements, List.append_nil]
  · rw [List.append_nil, ← vars_locate d line]
    rfl
  · rw [List.append_nil, ← matchArms_locate d line]
    rfl

theorem adds_addMatchArm (d : Draft) (line : Option Nat) (condition target : Nat) :
    ∃ a, d.Adds line ⟨[], [], [a]⟩
      ((d.locate line).2.addMatchArm condition target (d.locate line).1).2 := by
  have he := (d.locate line).2.extends_addMatchArm condition target (d.locate line).1
  refine ⟨⟨condition, .here target, .usable, [], (d.locate line).1⟩,
    .of_locate ?_ ?_ ?_ rfl nofun nofun (List.forall_mem_singleton.2 rfl)⟩
  · rw [he.statements, (d.extends_locate line).statements, List.append_nil]
  · rw [List.append_nil, ← vars_locate d line]
    rfl
  · rw [← matchArms_locate d line]
    simp [addMatchArm]

end Draft

end GimpleLowering.Flo
