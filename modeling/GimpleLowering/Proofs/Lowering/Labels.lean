import GimpleLowering.Lowering.Check
import GimpleLowering.Proofs.Except
import Mathlib.Data.List.Induction
import Mathlib.Order.Defs.LinearOrder

/-!
# The labels of a switch

A label matches the values of a range. The labels are checked one after the other, each against
the ones before it, and the check for a common value only compares the ends of two ranges. It is
exact because a range that is empty is refused before it is compared with anything. So labels that
pass are pairwise disjoint whatever their order, and at most one of them matches a value.

## Main definitions

* `Gimple.Case.Matches` — a label matches a value
* `Lowering.Faulty`, `Lowering.Proper` — labels that are refused, and labels that pass
* `Lowering.Chooses` — where a switch goes for a value

## Main results

* `Lowering.validateCases_eq_error_iff` — exactly the faulty labels are refused
* `Lowering.Proper.chooses` — the first label that matches is the only one
* `Lowering.Chooses.perm` — the order of the labels does not matter
-/

namespace GimpleLowering

open Gimple

namespace Gimple.Case

/-- The label matches the value. -/
def Matches (c : Case) (v : Int) : Prop := c.low ≤ v ∧ v ≤ c.upper

instance (c : Case) (v : Int) : Decidable (c.Matches v) :=
  inferInstanceAs (Decidable (c.low ≤ v ∧ v ≤ c.upper))

/-- No value is matched by both labels. -/
def Apart (a b : Case) : Prop := ∀ v, a.Matches v → ¬ b.Matches v

theorem Apart.symm {a b : Case} (h : a.Apart b) : b.Apart a := fun v hb ha => h v ha hb

/-- Of labels that are not empty, those overlap that share a value: the greater of the lower
ends is one that they share. -/
theorem overlaps_eq_false_iff {a b : Case} (ha : a.low ≤ a.upper) (hb : b.low ≤ b.upper) :
    a.overlaps b = false ↔ a.Apart b := by
  constructor
  · intro h v hva hvb
    simp only [overlaps, Bool.and_eq_false_iff, decide_eq_false_iff_not, Int.not_le] at h
    simp only [Matches] at hva hvb
    omega
  · intro h
    by_contra hne
    simp only [overlaps, Bool.and_eq_false_iff, decide_eq_false_iff_not, not_or, not_not] at hne
    refine h (max a.low b.low) ?_ ?_
    · simp only [Matches]
      omega
    · simp only [Matches]
      omega

end Gimple.Case

namespace Lowering

variable {typ : Flo.Ty} {value : Expr} {cases cases' earlier : List Case} {c : Case}
  {default label : Nat} {v : Int}

/-! ### Labels that pass -/

/-- The label is in the range of the runtime type, and is not empty. -/
structure InRange (typ : Flo.Ty) (c : Case) : Prop where
  low : fits typ c.low = true
  upper : fits typ c.upper = true
  nonempty : c.low ≤ c.upper

/-- The labels are in the range of the runtime type, not empty, and disjoint. -/
structure Proper (typ : Flo.Ty) (cases : List Case) : Prop where
  inRange : ∀ c ∈ cases, InRange typ c
  apart : cases.Pairwise Case.Apart

/-- A label has a bound out of the range of the runtime type, or is empty, or shares a value with
an earlier one. -/
def Faulty (typ : Flo.Ty) (cases : List Case) : Prop :=
  ∃ earlier c later, cases = earlier ++ c :: later ∧
    (fits typ c.low = false ∨ fits typ c.upper = false ∨ c.upper < c.low ∨
      ∃ e ∈ earlier, ∃ v, e.Matches v ∧ c.Matches v)

theorem Proper.not_faulty (h : Proper typ cases) : ¬ Faulty typ cases := by
  rintro ⟨earlier, c, later, rfl, hfault⟩
  have hc := h.inRange c (by simp)
  rcases hfault with hlow | hupper | hempty | ⟨e, he, v, hev, hcv⟩
  · simp [hc.low] at hlow
  · simp [hc.upper] at hupper
  · exact absurd hc.nonempty (by omega)
  · exact (List.pairwise_append.1 h.apart).2.2 e he c List.mem_cons_self v hev hcv

/-- A fault among the first labels is a fault. -/
theorem Faulty.append (h : Faulty typ cases) (cases' : List Case) : Faulty typ (cases ++ cases') := by
  obtain ⟨earlier, c, later, rfl, hfault⟩ := h
  exact ⟨earlier, c, later ++ cases', by simp, hfault⟩

theorem proper_of_not_faulty (h : ¬ Faulty typ cases) : Proper typ cases := by
  induction cases using List.reverseRecOn with
  | nil => exact ⟨by simp, .nil⟩
  | append_singleton cases c ih =>
    have hcases := ih fun hf => h (hf.append [c])
    have hc : ¬ (fits typ c.low = false ∨ fits typ c.upper = false ∨ c.upper < c.low ∨
        ∃ e ∈ cases, ∃ v, e.Matches v ∧ c.Matches v) :=
      fun hfault => h ⟨cases, c, [], rfl, hfault⟩
    simp only [not_or, Bool.not_eq_false, Int.not_lt, not_exists, not_and] at hc
    obtain ⟨hlow, hupper, hempty, hshared⟩ := hc
    refine ⟨fun d hd => ?_, List.pairwise_append.2 ⟨hcases.apart, List.pairwise_singleton _ c, ?_⟩⟩
    · rcases List.mem_append.1 hd with hd | hd
      · exact hcases.inRange d hd
      · exact List.mem_singleton.1 hd ▸ ⟨hlow, hupper, hempty⟩
    · intro e he d hd v
      exact List.mem_singleton.1 hd ▸ hshared e he v

/-! ### The check -/

/-- The next label passes if it is in range and disjoint from the earlier ones, which are not
empty. -/
theorem validateCase_eq_ok_iff (he : ∀ e ∈ earlier, e.low ≤ e.upper) :
    validateCase value typ earlier c = .ok () ↔
      InRange typ c ∧ ∀ e ∈ earlier, e.Apart c := by
  have hfind : c.low ≤ c.upper → ((earlier.find? fun e => e.overlaps c) = none ↔
      ∀ e ∈ earlier, e.Apart c) := by
    intro hc
    rw [List.find?_eq_none]
    refine forall₂_congr fun e hmem => ?_
    rw [Bool.not_eq_true, Case.overlaps_eq_false_iff (he e hmem) hc]
  unfold validateCase
  dsimp only
  split
  · rename_i hfits
    refine ⟨nofun, fun h => ?_⟩
    simp [h.1.low, h.1.upper] at hfits
  rename_i hfits
  split
  · rename_i hempty
    exact ⟨nofun, fun h => absurd h.1.nonempty (by omega)⟩
  rename_i hempty
  have hc : InRange typ c := by
    simp only [Bool.not_eq_true, Bool.not_eq_false', Bool.and_eq_true] at hfits
    exact ⟨hfits.1, hfits.2, by omega⟩
  split
  · rename_i hnone
    exact ⟨fun _ => ⟨hc, (hfind hc.nonempty).1 hnone⟩, fun _ => rfl⟩
  · rename_i e hsome
    refine ⟨fun h => ?_, fun h => ?_⟩
    · split at h <;> cases h
    · simp [(hfind hc.nonempty).2 h.2] at hsome

/-- The labels pass if they are proper and disjoint from the earlier ones. -/
theorem validateCases_eq_ok_iff (he : ∀ e ∈ earlier, e.low ≤ e.upper) :
    validateCases value typ earlier cases = .ok () ↔
      Proper typ cases ∧ ∀ e ∈ earlier, ∀ c ∈ cases, e.Apart c := by
  induction cases generalizing earlier with
  | nil => exact ⟨fun _ => ⟨⟨by simp, .nil⟩, by simp⟩, fun _ => rfl⟩
  | cons c rest ih =>
    rw [validateCases]
    have he' : InRange typ c → ∀ e ∈ earlier ++ [c], e.low ≤ e.upper := by
      intro hrange e hmem
      rcases List.mem_append.1 hmem with hmem | hmem
      · exact he e hmem
      · exact List.mem_singleton.1 hmem ▸ hrange.nonempty
    constructor
    · intro h
      obtain ⟨u, hc, hrest⟩ := Except.of_bind h
      obtain ⟨hrange, happart⟩ := (validateCase_eq_ok_iff he).1 hc
      obtain ⟨hproper, hothers⟩ := (ih (he' hrange)).1 hrest
      refine ⟨⟨fun d hd => ?_, List.pairwise_cons.2 ⟨hothers c (by simp), hproper.apart⟩⟩,
        fun e hmem d hd => ?_⟩
      · rcases List.mem_cons.1 hd with rfl | hd
        · exact hrange
        · exact hproper.inRange d hd
      · rcases List.mem_cons.1 hd with rfl | hd
        · exact happart e hmem
        · exact hothers e (List.mem_append_left _ hmem) d hd
    · rintro ⟨hproper, hothers⟩
      have hrange := hproper.inRange c List.mem_cons_self
      obtain ⟨happart, hrest⟩ := List.pairwise_cons.1 hproper.apart
      have hc : validateCase value typ earlier c = .ok () :=
        (validateCase_eq_ok_iff he).2 ⟨hrange, fun e hmem => hothers e hmem c List.mem_cons_self⟩
      rw [hc]
      refine (ih (he' hrange)).2 ⟨⟨?_, hrest⟩, ?_⟩
      · exact fun d hd => hproper.inRange d (List.mem_cons_of_mem c hd)
      intro e hmem d hd
      rcases List.mem_append.1 hmem with hmem | hmem
      · exact hothers e hmem d (List.mem_cons_of_mem c hd)
      · exact List.mem_singleton.1 hmem ▸ happart d hd

/-- Labels are refused for what is wrong with them. -/
theorem exists_of_validateCases_error {e : Error}
    (h : validateCases value typ earlier cases = .error e) : ∃ fault, e = .malformedSwitch fault := by
  induction cases generalizing earlier with
  | nil => cases h
  | cons c rest ih =>
    rcases Except.error_of_bind h with h | ⟨_, -, h⟩
    · unfold validateCase at h
      dsimp only at h
      split at h
      · cases h
        exact ⟨_, rfl⟩
      split at h
      · cases h
        exact ⟨_, rfl⟩
      split at h
      · cases h
      · split at h <;> cases h <;> exact ⟨_, rfl⟩
    · exact ih h

/-- Exactly the faulty labels are refused. -/
theorem validateCases_eq_error_iff (value : Expr) :
    (∃ fault, validateCases value typ [] cases = .error (.malformedSwitch fault)) ↔
      Faulty typ cases := by
  have hok : validateCases value typ [] cases = .ok () ↔ Proper typ cases := by
    rw [validateCases_eq_ok_iff (by simp)]
    simp
  cases h : validateCases value typ [] cases with
  | ok u =>
    have hproper := hok.1 h
    refine ⟨?_, fun hf => absurd hf hproper.not_faulty⟩
    rintro ⟨fault, hfault⟩
    cases hfault
  | error e =>
    obtain ⟨fault, rfl⟩ := exists_of_validateCases_error h
    refine ⟨fun _ => ?_, fun _ => ⟨fault, rfl⟩⟩
    by_contra hf
    rw [hok.2 (proper_of_not_faulty hf)] at h
    cases h

/-! ### The label that matches -/

/-- The switch goes to the label for the value: that of the one case that matches, or the default
if none does. -/
def Chooses (cases : List Case) (default : Nat) (v : Int) (label : Nat) : Prop :=
  (∃ c, cases.filter (fun c => c.Matches v) = [c] ∧ label = c.block) ∨
    ((∀ c ∈ cases, ¬ c.Matches v) ∧ label = default)

/-- The order of the cases does not matter. -/
theorem Chooses.perm (h : Chooses cases default v label) (hp : cases'.Perm cases) :
    Chooses cases' default v label := by
  rcases h with ⟨c, hc, hlabel⟩ | ⟨hnone, hlabel⟩
  · refine .inl ⟨c, List.perm_singleton.1 ?_, hlabel⟩
    rw [← hc]
    exact hp.filter _
  · exact .inr ⟨fun c hc => hnone c (hp.mem_iff.1 hc), hlabel⟩

/-- The first case that matches is the only one. -/
theorem Proper.chooses (h : Proper typ cases) (default : Nat) (v : Int) :
    Chooses cases default v
      (((cases.find? fun c => c.Matches v).map Case.block).getD default) := by
  have happart := h.apart.filter fun c => decide (c.Matches v)
  rw [← List.head?_filter]
  cases hf : cases.filter fun c => decide (c.Matches v) with
  | nil =>
    refine .inr ⟨fun c hc => ?_, rfl⟩
    simpa using List.filter_eq_nil_iff.1 hf c hc
  | cons c rest =>
    have hmatches : ∀ d ∈ c :: rest, d.Matches v := by
      intro d hd
      rw [← hf] at hd
      simpa using (List.mem_filter.1 hd).2
    cases rest with
    | nil => exact .inl ⟨c, hf, rfl⟩
    | cons d rest =>
      rw [hf] at happart
      have hcd : c.Apart d := (List.pairwise_cons.1 happart).1 d List.mem_cons_self
      exact absurd (hmatches d (by simp)) (hcd v (hmatches c (by simp)))

end Lowering

end GimpleLowering
