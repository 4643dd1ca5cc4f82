import GimpleLowering.Proofs.UnitIndex
import Mathlib.Data.List.Nodup

/-!
# What is declared is what is found

The index of a unit is made by loops that compare each declaration with what was kept of those
before it: a signature with the first one for its function, a global with all globals, and a record
definition takes the place of an earlier one. None of this can be seen from outside. Whether there
is an index is a matter of what is declared and not of the order, and so is what the names mean;
only record definitions that share a name are told apart by their order, since the last one counts.

## Main definitions

* `Gimple.CompilationUnit.IsUnambiguous` — the declarations of a unit do not contradict each other
* `UnitIndex.Describes` — an index says of each name what the unit declares
* `Gimple.CompilationUnit.Reordered` — units that declare the same in another order

## Main results

* `UnitIndex.ofUnit_describes` — when there is an index, and what is found in it
-/

namespace GimpleLowering

open Gimple

/-! ### Declarations of a unit -/

namespace Gimple.CompilationUnit

/-- The signatures that are given for functions, by definitions and by declarations. -/
def signatures (u : CompilationUnit) : List Signature :=
  u.functions.map Function.signature ++ u.declarations

/-- All signatures for a function are equal, and each global is declared once. -/
structure IsUnambiguous (u : CompilationUnit) : Prop where
  signatures : UnitIndex.IsConsistent u.signatures
  globals : (u.globals.map Declaration.name).Nodup

/-- The definitions that are given for a record. -/
def definitionsOf (u : CompilationUnit) (name : String) : List RecordDefinition :=
  u.records.filter fun r => r.name = name

/-- The units declare the same in another order. Definitions of a record that has more than one of
them keep their order, as the last one counts. -/
structure Reordered (u u' : CompilationUnit) : Prop where
  functions : u.functions.Perm u'.functions
  declarations : u.declarations.Perm u'.declarations
  globals : u.globals.Perm u'.globals
  records : u.records.Perm u'.records
  repeated : ∀ name, 1 < (u.definitionsOf name).length → u.definitionsOf name = u'.definitionsOf name

end Gimple.CompilationUnit

namespace UnitIndex

/-- The index says of each name what the unit declares for it: the signature that all declarations
of a function have, the type of a global, and the last definition of a record. -/
structure Describes (x : UnitIndex) (u : CompilationUnit) : Prop where
  definitions : x.definitions = u.functions.map Function.name
  function? : ∀ name s, x.function? name = some s ↔ s ∈ u.signatures ∧ s.name = name
  global? : ∀ name ty, x.global? name = some ty ↔ ⟨name, ty⟩ ∈ u.globals
  record? : ∀ name, x.record? name = (u.definitionsOf name).getLast?

/-- The indices say the same of every name. -/
structure SameLookups (x x' : UnitIndex) : Prop where
  function? : ∀ name, x.function? name = x'.function? name
  global? : ∀ name, x.global? name = x'.global? name
  record? : ∀ name, x.record? name = x'.record? name

/-! ### Lookups -/

/-- An entry is found under its key, if no other one has the key. -/
theorem find?_key_eq_some_iff {α : Type} {key : α → String} {as : List α}
    (h : ∀ a ∈ as, ∀ b ∈ as, key a = key b → a = b) {k : String} {a : α} :
    as.find? (fun b => key b = k) = some a ↔ a ∈ as ∧ key a = k := by
  constructor
  · intro hfound
    exact ⟨List.mem_of_find?_eq_some hfound, by simpa using List.find?_some hfound⟩
  · rintro ⟨hmem, rfl⟩
    have hsome : (as.find? fun b => key b = key a).isSome :=
      List.find?_isSome.2 ⟨a, hmem, by simp⟩
    obtain ⟨b, hfound⟩ := Option.isSome_iff_exists.1 hsome
    have hkey : key b = key a := by simpa using List.find?_some hfound
    rw [hfound, h b (List.mem_of_find?_eq_some hfound) a hmem hkey]

/-! ### Signatures -/

/-- Signatures are added one by one exactly if they are consistent. -/
theorem exists_foldlM_addSignature_iff {ss : List Signature} :
    (∃ fs, ss.foldlM addSignature [] = .ok fs) ↔ IsConsistent ss := by
  constructor
  · rintro ⟨fs, hfs⟩
    obtain ⟨hc, hmem⟩ := foldlM_addSignature hfs fun _ hs => absurd hs List.not_mem_nil
    exact hc.of_subset fun s hs => (hmem s).2 (.inr hs)
  · intro h
    exact exists_foldlM_addSignature (by rwa [List.append_nil])

/-! ### Globals -/

/-- Globals are added one by one exactly if their names differ, and then all of them are kept. -/
theorem foldlM_addGlobal {gs gs' us : List Declaration} (h : (gs.map Declaration.name).Nodup) :
    us.foldlM addGlobal gs = .ok gs' ↔
      ((gs ++ us).map Declaration.name).Nodup ∧ gs' = gs ++ us := by
  induction us generalizing gs with
  | nil =>
    rw [List.append_nil]
    exact ⟨fun hg => ⟨h, (Except.ok.inj hg).symm⟩, fun hg => congrArg Except.ok hg.2.symm⟩
  | cons g us ih =>
    have hsplit : gs ++ g :: us = gs ++ [g] ++ us := by simp
    rw [List.foldlM_cons, addGlobal]
    by_cases hmem : g.name ∈ gs.map Declaration.name
    · have hany : gs.any (fun d => d.name = g.name) = true := by simpa using hmem
      have hnot : ¬ ((gs ++ g :: us).map Declaration.name).Nodup := by
        rw [List.map_append, List.map_cons]
        exact fun hn => List.disjoint_of_nodup_append hn hmem List.mem_cons_self
      rw [if_pos hany]
      exact ⟨nofun, fun hg => absurd hg.1 hnot⟩
    · have hany : ¬ gs.any (fun d => d.name = g.name) = true := by simpa using hmem
      have hnext : ((gs ++ [g]).map Declaration.name).Nodup := by
        rw [List.map_append, List.map_singleton, List.nodup_append_comm, List.singleton_append,
          List.nodup_cons]
        exact ⟨hmem, h⟩
      rw [if_neg hany, hsplit]
      exact ih hnext

theorem addGlobals_eq_ok_iff {gs us : List Declaration} :
    us.foldlM addGlobal [] = .ok gs ↔ (us.map Declaration.name).Nodup ∧ gs = us :=
  foldlM_addGlobal List.nodup_nil

/-- The type of a global that is declared once is found under its name. -/
theorem find?_global_iff {gs : List Declaration} (h : (gs.map Declaration.name).Nodup)
    {name : String} {ty : Ty} :
    (gs.find? fun g => g.name = name).map Declaration.ty = some ty ↔ ⟨name, ty⟩ ∈ gs := by
  have hkey : ∀ g ∈ gs, ∀ d ∈ gs, g.name = d.name → g = d :=
    fun g hg d hd heq => List.inj_on_of_nodup_map h hg hd heq
  rw [Option.map_eq_some_iff]
  constructor
  · rintro ⟨g, hfound, rfl⟩
    obtain ⟨hmem, rfl⟩ := (find?_key_eq_some_iff hkey).1 hfound
    exact hmem
  · exact fun hmem => ⟨_, (find?_key_eq_some_iff hkey).2 ⟨hmem, rfl⟩, rfl⟩

/-! ### Records -/

/-- A definition is found under its name, and hides the earlier ones of it. -/
theorem find?_addRecord (rs : List RecordDefinition) (r : RecordDefinition) (name : String) :
    (addRecord rs r).find? (fun d => d.name = name) =
      if r.name = name then some r else rs.find? fun d => d.name = name := by
  rw [addRecord, List.find?_append, List.find?_filter]
  by_cases hname : r.name = name
  · subst hname
    have hnone : rs.find? (fun _ => false) = none := List.find?_eq_none.2 nofun
    simp [hnone]
  · have hsame : ∀ d : RecordDefinition, (d.name ≠ r.name ∧ d.name = name) ↔ d.name = name :=
      fun d => ⟨fun hd => hd.2, fun hd => ⟨fun heq => hname (heq.symm.trans hd), hd⟩⟩
    simp [hname, hsame]

/-- Of the definitions that are added the last one counts. -/
theorem find?_foldl_addRecord (us rs : List RecordDefinition) (name : String) :
    (us.foldl addRecord rs).find? (fun d => d.name = name) =
      ((us.filter fun d => d.name = name).getLast?).or (rs.find? fun d => d.name = name) := by
  induction us generalizing rs with
  | nil => rfl
  | cons r us ih =>
    rw [List.foldl_cons, ih, find?_addRecord, List.filter_cons]
    by_cases hname : r.name = name
    · cases hlast : (us.filter fun d => d.name = name).getLast? <;>
        simp [hname, hlast, List.getLast?_cons]
    · simp [hname]

/-! ### Units -/

/-- There is an index exactly if the declarations do not contradict each other, and then it is made
of the lists that were added to. -/
theorem ofUnit_eq_ok_iff {u : CompilationUnit} {x : UnitIndex} :
    ofUnit u = .ok x ↔ (u.globals.map Declaration.name).Nodup ∧
      ∃ fs, u.signatures.foldlM addSignature [] = .ok fs ∧
        x = ⟨u.functions.map Function.name, fs, u.globals, u.records.foldl addRecord []⟩ := by
  constructor
  · intro h
    obtain ⟨fs, gs, hfs, hgs, rfl⟩ := ofUnit_eq_ok h
    obtain ⟨hnodup, rfl⟩ := addGlobals_eq_ok_iff.1 hgs
    exact ⟨hnodup, fs, hfs, rfl⟩
  · rintro ⟨hnodup, fs, hfs, rfl⟩
    have hgs : u.globals.foldlM addGlobal [] = .ok u.globals :=
      addGlobals_eq_ok_iff.2 ⟨hnodup, rfl⟩
    rw [CompilationUnit.signatures] at hfs
    rw [ofUnit, hfs, hgs]
    rfl

theorem exists_ofUnit_iff {u : CompilationUnit} : (∃ x, ofUnit u = .ok x) ↔ u.IsUnambiguous := by
  constructor
  · rintro ⟨x, hx⟩
    obtain ⟨hnodup, fs, hfs, -⟩ := ofUnit_eq_ok_iff.1 hx
    exact ⟨exists_foldlM_addSignature_iff.1 ⟨fs, hfs⟩, hnodup⟩
  · rintro ⟨hconsistent, hnodup⟩
    obtain ⟨fs, hfs⟩ := exists_foldlM_addSignature_iff.2 hconsistent
    exact ⟨_, ofUnit_eq_ok_iff.2 ⟨hnodup, fs, hfs, rfl⟩⟩

theorem describes_of_ofUnit {u : CompilationUnit} {x : UnitIndex} (h : ofUnit u = .ok x) :
    x.Describes u := by
  obtain ⟨hnodup, fs, hfs, rfl⟩ := ofUnit_eq_ok_iff.1 h
  obtain ⟨hconsistent, hmem⟩ := foldlM_addSignature hfs fun _ hs => absurd hs List.not_mem_nil
  refine ⟨rfl, fun name s => ?_, fun name ty => find?_global_iff hnodup, fun name => ?_⟩
  · rw [function?, find?_key_eq_some_iff hconsistent, hmem]
    simp
  · rw [record?, find?_foldl_addRecord, List.find?_nil, Option.or_none]
    rfl

/-- Indices that describe the same declarations say the same. -/
theorem Describes.sameLookups {u u' : CompilationUnit} {x x' : UnitIndex} (h : x.Describes u)
    (h' : x'.Describes u') (hs : ∀ s, s ∈ u.signatures ↔ s ∈ u'.signatures)
    (hg : ∀ g, g ∈ u.globals ↔ g ∈ u'.globals)
    (hr : ∀ name, u.definitionsOf name = u'.definitionsOf name) : x.SameLookups x' where
  function? name := Option.ext fun s => by rw [h.function?, h'.function?, hs]
  global? name := Option.ext fun ty => by rw [h.global?, h'.global?, hg]
  record? name := by rw [h.record?, h'.record?, hr]

end UnitIndex

namespace Gimple.CompilationUnit.Reordered

variable {u u' : CompilationUnit} (h : u.Reordered u')

include h

theorem signatures_perm : u.signatures.Perm u'.signatures :=
  (h.functions.map Function.signature).append h.declarations

theorem isUnambiguous_iff : u'.IsUnambiguous ↔ u.IsUnambiguous := by
  have hs := h.signatures_perm
  have hg := (h.globals.map Declaration.name).nodup_iff
  exact ⟨fun ⟨hc, hn⟩ => ⟨hc.of_subset hs.subset, hg.2 hn⟩,
    fun ⟨hc, hn⟩ => ⟨hc.of_subset hs.symm.subset, hg.1 hn⟩⟩

/-- A record has the same definitions in the same order. -/
theorem definitionsOf_eq (name : String) : u.definitionsOf name = u'.definitionsOf name := by
  by_cases hone : 1 < (u.definitionsOf name).length
  · exact h.repeated name hone
  · have hperm : (u.definitionsOf name).Perm (u'.definitionsOf name) := h.records.filter _
    generalize u.definitionsOf name = rs at hperm hone
    match rs, hone with
    | [], _ => exact hperm.nil_eq
    | [r], _ => exact List.singleton_perm.1 hperm
    | _ :: _ :: _, hone => simp at hone

end Gimple.CompilationUnit.Reordered

namespace UnitIndex

/-- **The index depends on what is declared, and not on the order.** There is an index exactly if
all signatures of each function are equal and no global is declared twice. Each name means what is
declared for it, and nothing else has a meaning. Units that declare the same in another order have
indices together, which say the same of every name. -/
theorem ofUnit_describes (u : CompilationUnit) :
    ((∃ x, ofUnit u = .ok x) ↔ u.IsUnambiguous) ∧ (∀ x, ofUnit u = .ok x → x.Describes u) ∧
      ∀ u', u.Reordered u' → ((∃ x', ofUnit u' = .ok x') ↔ ∃ x, ofUnit u = .ok x) ∧
        ∀ x x', ofUnit u = .ok x → ofUnit u' = .ok x' → x.SameLookups x' := by
  refine ⟨exists_ofUnit_iff, fun x => describes_of_ofUnit, fun u' h => ⟨?_, fun x x' hx hx' => ?_⟩⟩
  · rw [exists_ofUnit_iff, exists_ofUnit_iff, h.isUnambiguous_iff]
  · exact (describes_of_ofUnit hx).sameLookups (describes_of_ofUnit hx')
      (fun _ => h.signatures_perm.mem_iff) (fun _ => h.globals.mem_iff) h.definitionsOf_eq

/-- A unit that declares a function before it defines it, and another one twice. One of its records
has two definitions. -/
def repeating : CompilationUnit where
  sourceFile := none
  functions := [⟨"main", [], some (.integer 32), 2, [], [⟨2, []⟩]⟩]
  globals := [⟨"count", .integer 64⟩, ⟨"ready", .boolean⟩]
  records := [⟨"node", []⟩, ⟨"pair", [⟨"x", .boolean⟩]⟩, ⟨"node", [⟨"value", .integer 32⟩]⟩]
  declarations := [⟨"puts", [.pointer (.integer 32)], none⟩, ⟨"main", [], some (.integer 32)⟩,
    ⟨"puts", [.pointer (.integer 32)], none⟩]

/-- The unit with its declarations in another order. -/
def rearranged : CompilationUnit where
  sourceFile := none
  functions := repeating.functions
  globals := repeating.globals.reverse
  records := [⟨"pair", [⟨"x", .boolean⟩]⟩, ⟨"node", []⟩, ⟨"node", [⟨"value", .integer 32⟩]⟩]
  declarations := repeating.declarations.rotate 1

theorem repeating_reordered : repeating.Reordered rearranged where
  functions := .refl _
  declarations := by decide
  globals := by decide
  records := by decide
  repeated name _ := by
    by_cases hnode : "node" = name
    · subst hnode
      decide
    · simp [CompilationUnit.definitionsOf, repeating, rearranged, List.filter_cons, hnode]

/-- The indices list their entries differently, and say the same. -/
theorem repeating_describes : ∃ x x', ofUnit repeating = .ok x ∧ ofUnit rearranged = .ok x' ∧
    x.globals ≠ x'.globals ∧ x.Describes repeating ∧ x.SameLookups x' ∧
      x.record? "node" = some ⟨"node", [⟨"value", .integer 32⟩]⟩ := by
  obtain ⟨x, hx⟩ : ∃ x, ofUnit repeating = .ok x := ⟨_, rfl⟩
  obtain ⟨-, hdescribes, hreordered⟩ := ofUnit_describes repeating
  obtain ⟨hiff, hsame⟩ := hreordered rearranged repeating_reordered
  obtain ⟨x', hx'⟩ := hiff.2 ⟨x, hx⟩
  refine ⟨x, x', hx, hx', ?_, hdescribes x hx, hsame x x' hx hx', ?_⟩
  · cases hx
    cases hx'
    decide
  · rw [(hdescribes x hx).record?]
    rfl

end UnitIndex

end GimpleLowering
