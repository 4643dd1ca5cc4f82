import GimpleLowering.Pass.Basic
import GimpleLowering.Proofs.Except
import Mathlib.Data.Fintype.Sets
import Mathlib.Data.Fintype.EquivFin
import Mathlib.Data.List.Lex
import Mathlib.Logic.Relation

/-!
# The order of passes

`Pass.order` takes the first pass that is ready, again and again. `Places` is that loop without its
fuel: a run of it, one constructor for each turn. Two things carry all that is proved about it. The
passes that still wait are some of those that were provided, in their order, and whatever one of
them depends on was placed or waits as well (`Waits`). And as long as no pass depends on itself,
every pass that waits is ready or waits for one that is (`Waits.exists_ready`), so the loop never
gets stuck.

* **The order is complete and minimal.** Passes are ordered exactly if their keys are distinct,
  their dependencies are among them, and no pass depends on itself through others. Then the result
  has the passes in the arrangement that is lexicographically least, by the places at which they
  were provided, among those with every pass after all that it depends on (`order_isLeast`).

## Main definitions

* `Pass.Precedes` — which of two passes comes first in a list
* `Pass.Needs` — the dependency graph, between keys
* `Pass.Respects` — every pass comes after those it depends on
* `Pass.Orderable` — what it takes to order passes
* `Pass.positions` — the places at which passes were provided
-/

namespace GimpleLowering.Pass

open Relation

variable {κ σ ρ : Type} {passes pending others r : List (Pass κ σ ρ)} {placed : List κ}
  {p : Pass κ σ ρ} {a b c : κ}

/-! ### Precedence in a list -/

/-- In the list, a pass with the key `a` comes before one with the key `b`. -/
def Precedes (r : List (Pass κ σ ρ)) (a b : κ) : Prop := [a, b].Sublist (r.map Pass.key)

theorem precedes_cons :
    Precedes (p :: r) a b ↔ p.key = a ∧ b ∈ r.map Pass.key ∨ Precedes r a b := by
  rw [Precedes, List.map_cons, List.cons_sublist_cons', List.singleton_sublist, or_comm, eq_comm]
  rfl

theorem Precedes.left_mem (h : Precedes r a b) : a ∈ r.map Pass.key := h.subset (by simp)

theorem Precedes.right_mem (h : Precedes r a b) : b ∈ r.map Pass.key := h.subset (by simp)

theorem Precedes.mono (h : Precedes others a b) (hs : others.Sublist pending) :
    Precedes pending a b :=
  h.trans (hs.map Pass.key)

theorem precedes_append (ha : a ∈ pending.map Pass.key) (hb : b ∈ others.map Pass.key) :
    Precedes (pending ++ others) a b := by
  rw [Precedes, List.map_append]
  exact (List.singleton_sublist.2 ha).append (List.singleton_sublist.2 hb)

theorem Precedes.ne (h : Precedes r a b) (distinct : (r.map Pass.key).Nodup) : a ≠ b :=
  List.pairwise_iff_forall_sublist.1 distinct h

theorem Precedes.trans (hab : Precedes r a b) (hbc : Precedes r b c)
    (distinct : (r.map Pass.key).Nodup) : Precedes r a c := by
  induction r with
  | nil => cases hab
  | cons p r ih =>
    obtain ⟨hp, hr⟩ := List.nodup_cons.1 distinct
    rcases precedes_cons.1 hab with ⟨rfl, hb⟩ | hab
    · rcases precedes_cons.1 hbc with ⟨rfl, -⟩ | hbc
      · exact absurd hb hp
      · exact precedes_cons.2 (.inl ⟨rfl, hbc.right_mem⟩)
    · rcases precedes_cons.1 hbc with ⟨rfl, -⟩ | hbc
      · exact absurd hab.right_mem hp
      · exact precedes_cons.2 (.inr (ih hab hbc hr))

theorem Precedes.asymm (h : Precedes r a b) (distinct : (r.map Pass.key).Nodup) :
    ¬ Precedes r b a :=
  fun h' => (h.trans h' distinct).ne distinct rfl

theorem precedes_or (ha : a ∈ r.map Pass.key) (hb : b ∈ r.map Pass.key) (hne : a ≠ b) :
    Precedes r a b ∨ Precedes r b a := by
  induction r with
  | nil => cases ha
  | cons p r ih =>
    rw [List.map_cons, List.mem_cons] at ha hb
    simp only [precedes_cons]
    rcases ha with rfl | ha
    · exact .inl (.inl ⟨rfl, hb.resolve_left hne.symm⟩)
    · rcases hb with rfl | hb
      · exact .inr (.inl ⟨rfl, ha⟩)
      · exact (ih ha hb).imp .inr .inr

/-- The passes that come before one are those in front of it. -/
theorem precedes_key_iff (distinct : ((pending ++ p :: others).map Pass.key).Nodup) :
    Precedes (pending ++ p :: others) a p.key ↔ a ∈ pending.map Pass.key := by
  refine ⟨fun h => ?_, fun h => precedes_append h List.mem_cons_self⟩
  induction pending with
  | nil =>
    have hp : p.key ∉ others.map Pass.key := (List.nodup_cons.1 distinct).1
    rcases precedes_cons.1 h with ⟨-, hmem⟩ | h
    · exact absurd hmem hp
    · exact absurd h.right_mem hp
  | cons q pending ih =>
    rcases precedes_cons.1 h with ⟨rfl, -⟩ | h
    · exact List.mem_cons_self
    · exact List.mem_cons_of_mem _ (ih (List.nodup_cons.1 distinct).2 h)

/-- What comes before a pass is not touched by what is added at the end. -/
theorem Precedes.of_append (h : Precedes (pending ++ others) a b)
    (distinct : ((pending ++ others).map Pass.key).Nodup) (hb : b ∈ pending.map Pass.key) :
    Precedes pending a b := by
  induction pending with
  | nil => cases hb
  | cons q pending ih =>
    obtain ⟨hq, hdistinct⟩ := List.nodup_cons.1 distinct
    rcases List.mem_cons.1 hb with rfl | hb
    · rcases precedes_cons.1 h with ⟨-, hmem⟩ | h
      · exact absurd hmem hq
      · exact absurd h.right_mem hq
    · rcases precedes_cons.1 h with ⟨rfl, -⟩ | h
      · exact precedes_cons.2 (.inl ⟨rfl, hb⟩)
      · exact precedes_cons.2 (.inr (ih h hdistinct hb))

/-- A pass that is taken out of a list leaves the others in their order. -/
theorem Precedes.of_remove {skipped later : List (Pass κ σ ρ)}
    (h : Precedes (skipped ++ p :: later) a b) (ha : p.key ≠ a) (hb : p.key ≠ b) :
    Precedes (skipped ++ later) a b := by
  rw [Precedes, List.map_append, List.map_cons, List.sublist_append_iff] at h
  obtain ⟨front, back, heq, hfront, hback⟩ := h
  rw [Precedes, List.map_append, heq]
  refine hfront.append ?_
  rcases List.sublist_cons_iff.1 hback with hback | ⟨rest, rfl, -⟩
  · exact hback
  · have hmem : p.key ∈ [a, b] := heq ▸ by simp
    simp [ha, hb] at hmem

/-! ### Dependencies -/

/-- A pass with the key `a` depends on the one with the key `b`. -/
def Needs (passes : List (Pass κ σ ρ)) (a b : κ) : Prop :=
  ∃ p ∈ passes, p.key = a ∧ b ∈ p.depends

/-- Every pass of the list comes after those it depends on, as far as they were not placed before
the list. -/
def Respects (placed : List κ) (r : List (Pass κ σ ρ)) : Prop :=
  ∀ p ∈ r, ∀ d ∈ p.depends, d ∈ placed ∨ Precedes r d p.key

/-- Passes of which no two are the same, none depends on one that is not there, and none depends on
itself, directly or through others. -/
structure Orderable (passes : List (Pass κ σ ρ)) : Prop where
  distinct : (passes.map Pass.key).Nodup
  provided : ∀ p ∈ passes, ∀ d ∈ p.depends, d ∈ passes.map Pass.key
  acyclic : ∀ a, ¬ TransGen (Needs passes) a a

/-- Whatever a pass depends on through others comes before it. -/
theorem precedes_of_transGen (hr : Respects [] r) (perm : r.Perm passes)
    (distinct : (r.map Pass.key).Nodup) (h : TransGen (Needs passes) a b) : Precedes r b a := by
  have hdirect : ∀ {a b}, Needs passes a b → Precedes r b a := by
    rintro a b ⟨p, hp, rfl, hb⟩
    exact (hr p (perm.mem_iff.2 hp) b hb).resolve_left List.not_mem_nil
  induction h with
  | single h => exact hdirect h
  | tail _ h ih => exact (hdirect h).trans ih distinct

/-- Only passes that are orderable can be arranged with dependencies first. -/
theorem orderable_of_respects (hr : Respects [] r) (perm : r.Perm passes)
    (distinct : (passes.map Pass.key).Nodup) : Orderable passes := by
  have hkeys : (r.map Pass.key).Perm (passes.map Pass.key) := perm.map Pass.key
  have hdistinct : (r.map Pass.key).Nodup := hkeys.nodup_iff.2 distinct
  refine ⟨distinct, fun p hp d hd => ?_, fun a h => ?_⟩
  · have hbefore := (hr p (perm.mem_iff.2 hp) d hd).resolve_left List.not_mem_nil
    exact hkeys.mem_iff.1 hbefore.left_mem
  · exact (precedes_of_transGen hr perm hdistinct h).ne hdistinct rfl

variable [DecidableEq κ]

instance : Decidable (Precedes r a b) :=
  inferInstanceAs (Decidable ([a, b].Sublist (r.map Pass.key)))

instance : Decidable (Respects placed r) :=
  inferInstanceAs (Decidable (∀ p ∈ r, ∀ d ∈ p.depends, d ∈ placed ∨ Precedes r d p.key))

theorem isReady_iff : p.isReady placed = true ↔ ∀ d ∈ p.depends, d ∈ placed := by
  simp [isReady]

theorem respects_cons (distinct : ((p :: r).map Pass.key).Nodup) :
    Respects placed (p :: r) ↔ p.isReady placed = true ∧ Respects (p.key :: placed) r := by
  have hp : p.key ∉ r.map Pass.key := (List.nodup_cons.1 distinct).1
  unfold Respects
  rw [List.forall_mem_cons, isReady_iff]
  refine and_congr (forall₂_congr fun d _ => ?_)
    (forall₂_congr fun q hq => forall₂_congr fun d _ => ?_)
  · rw [precedes_cons]
    refine ⟨fun h => h.resolve_right ?_, .inl⟩
    rintro (⟨-, hmem⟩ | hbefore)
    · exact hp hmem
    · exact hp hbefore.right_mem
  · have hmem : q.key ∈ r.map Pass.key := List.mem_map_of_mem hq
    rw [precedes_cons, List.mem_cons, and_iff_left hmem, eq_comm (a := p.key), or_left_comm,
      or_assoc]

/-! ### Taking the first ready pass -/

/-- The pass that is taken is the first one that is ready, and all others stay where they are. -/
theorem exists_of_takeReady (h : takeReady placed pending = some (p, others)) :
    ∃ skipped later, pending = skipped ++ p :: later ∧ others = skipped ++ later ∧
      ∀ q ∈ skipped, ¬ q.isReady placed = true := by
  induction pending generalizing others with
  | nil => cases h
  | cons q rest ih =>
    rw [takeReady] at h
    split at h
    · cases h
      exact ⟨[], rest, rfl, rfl, by simp⟩
    · rename_i hq
      obtain ⟨⟨s, stay⟩, hs, heq⟩ := Option.map_eq_some_iff.1 h
      obtain ⟨rfl, rfl⟩ := Prod.mk.inj heq
      obtain ⟨skipped, later, rfl, rfl, hskipped⟩ := ih hs
      exact ⟨q :: skipped, later, rfl, rfl, List.forall_mem_cons.2 ⟨hq, hskipped⟩⟩

theorem sublist_of_takeReady (h : takeReady placed pending = some (p, others)) :
    others.Sublist pending := by
  obtain ⟨skipped, later, rfl, rfl, -⟩ := exists_of_takeReady h
  exact (List.sublist_cons_self p later).append_left skipped

theorem not_isReady_of_takeReady (h : takeReady placed pending = none) :
    ∀ q ∈ pending, ¬ q.isReady placed = true := by
  induction pending with
  | nil => simp
  | cons q rest ih =>
    rw [takeReady] at h
    split at h
    · cases h
    · rename_i hq
      exact List.forall_mem_cons.2 ⟨hq, ih (Option.map_eq_none_iff.1 h)⟩

/-- Placing passes one after the other. -/
inductive Places : List κ → List (Pass κ σ ρ) → List (Pass κ σ ρ) → Prop where
  | done {placed : List κ} : Places placed [] []
  | turn {placed : List κ} {pending others r : List (Pass κ σ ρ)} {p : Pass κ σ ρ}
      (taken : takeReady placed pending = some (p, others))
      (rest : Places (p.key :: placed) others r) : Places placed pending (p :: r)

theorem place_nil_eq_ok_iff {fuel : Nat} : place placed fuel [] = .ok r ↔ Places placed [] r := by
  have hplace : place placed fuel ([] : List (Pass κ σ ρ)) = .ok [] := by cases fuel <;> rfl
  rw [hplace]
  constructor
  · rintro ⟨⟩
    exact .done
  · rintro (_ | ⟨taken, -⟩)
    · rfl
    · cases taken

/-- The fuel does not run out. -/
theorem place_eq_ok_iff {fuel : Nat} (enough : pending.length ≤ fuel) :
    place placed fuel pending = .ok r ↔ Places placed pending r := by
  induction fuel generalizing placed pending r with
  | zero =>
    obtain rfl := List.length_eq_zero_iff.1 (Nat.le_zero.1 enough)
    exact place_nil_eq_ok_iff
  | succ fuel ih =>
    cases pending with
    | nil => exact place_nil_eq_ok_iff
    | cons q rest =>
      cases htaken : takeReady placed (q :: rest) with
      | none =>
        simp only [place, htaken, List.isEmpty_cons]
        refine ⟨nofun, ?_⟩
        rintro (_ | ⟨taken, -⟩)
        cases htaken.symm.trans taken
      | some taken =>
        obtain ⟨p, others⟩ := taken
        have hlength : others.length ≤ fuel := by
          have := (perm_of_takeReady htaken).length_eq
          simp only [List.length_cons] at this enough
          omega
        simp only [place, htaken, List.isEmpty_cons]
        constructor
        · intro h
          obtain ⟨r', hr', h⟩ := Except.of_bind h
          obtain rfl := Except.ok.inj h
          exact .turn htaken ((ih hlength).1 hr')
        · rintro (_ | ⟨taken, hrest⟩)
          obtain ⟨rfl, rfl⟩ := Prod.mk.inj (Option.some.inj (htaken.symm.trans taken))
          rw [(ih hlength).2 hrest]
          rfl

/-- The three things that are looked at. -/
theorem order_eq_ok_iff : order passes = .ok r ↔ (passes.map Pass.key).Nodup ∧
    (∀ p ∈ passes, ∀ d ∈ p.depends, d ∈ passes.map Pass.key) ∧ Places [] passes r := by
  have hfind : (passes.find? fun p => p.depends.any fun d => d ∉ passes.map Pass.key) = none ↔
      ∀ p ∈ passes, ∀ d ∈ p.depends, d ∈ passes.map Pass.key := by
    simp [List.find?_eq_none]
  rw [← hfind, ← place_eq_ok_iff le_rfl]
  simp only [order]
  split
  · exact ⟨nofun, fun h => absurd h.1 ‹_›⟩
  · rename_i distinct
    split
    · rename_i hfound
      exact ⟨nofun, fun h => nomatch hfound.symm.trans h.2.1⟩
    · rename_i hfound
      exact ⟨fun h => ⟨not_not.1 distinct, hfound, h⟩, fun h => h.2.2⟩

/-! ### Passes that wait -/

/-- The passes that still wait are some of those that were provided, and whatever one of them
depends on was placed or waits as well. -/
structure Waits (passes : List (Pass κ σ ρ)) (placed : List κ) (pending : List (Pass κ σ ρ)) :
    Prop where
  sublist : pending.Sublist passes
  closed : ∀ p ∈ pending, ∀ d ∈ p.depends, d ∈ placed ∨ d ∈ pending.map Pass.key

theorem Waits.turn (h : Waits passes placed pending)
    (taken : takeReady placed pending = some (p, others)) :
    Waits passes (p.key :: placed) others := by
  have hsub := sublist_of_takeReady taken
  refine ⟨hsub.trans h.sublist, fun q hq d hd => ?_⟩
  have hkeys : d ∈ pending.map Pass.key ↔ d = p.key ∨ d ∈ others.map Pass.key := by
    rw [← List.mem_cons, ← List.map_cons]
    exact ((perm_of_takeReady taken).map Pass.key).mem_iff.symm
  have hclosed := h.closed q (hsub.subset hq) d hd
  rw [hkeys] at hclosed
  rwa [List.mem_cons, or_assoc, or_left_comm]

/-- Among finitely many keys there is no endless way down from one to the next. -/
theorem wellFounded_needs (keys : List κ) (acyclic : ∀ a, ¬ TransGen (Needs passes) a a) :
    WellFounded fun a b : {k // k ∈ keys} => TransGen (Needs passes) b.1 a.1 := by
  have : IsTrans {k // k ∈ keys} fun a b => TransGen (Needs passes) b.1 a.1 :=
    ⟨fun _ _ _ hab hbc => hbc.trans hab⟩
  have : Std.Irrefl fun a b : {k // k ∈ keys} => TransGen (Needs passes) b.1 a.1 :=
    ⟨fun a => acyclic a.1⟩
  exact Finite.wellFounded_of_trans_of_irrefl _

/-- A pass that waits is ready, or waits for one that is. -/
theorem Waits.exists_ready (h : Waits passes placed pending)
    (acyclic : ∀ a, ¬ TransGen (Needs passes) a a) (hp : p ∈ pending) :
    ∃ q ∈ pending, q.isReady placed = true ∧ ReflTransGen (Needs passes) p.key q.key := by
  have wf := wellFounded_needs (pending.map Pass.key) acyclic
  induction hk : (⟨p.key, List.mem_map_of_mem hp⟩ : {k // k ∈ pending.map Pass.key})
    using wf.induction generalizing p with
  | _ k ih =>
    by_cases hready : p.isReady placed = true
    · exact ⟨p, hp, hready, .refl⟩
    · obtain ⟨d, hd, hmissing⟩ : ∃ d ∈ p.depends, d ∉ placed := by
        simpa [isReady_iff] using hready
      have hneeds : Needs passes p.key d := ⟨p, h.sublist.subset hp, rfl, hd⟩
      obtain ⟨s, hs, rfl⟩ := List.mem_map.1 ((h.closed p hp d hd).resolve_left hmissing)
      obtain ⟨q, hq, hready, hreach⟩ := ih _ (hk ▸ .single hneeds) hs rfl
      exact ⟨q, hq, hready, .head hneeds hreach⟩

/-- The loop does not get stuck. -/
theorem Waits.exists_places (h : Waits passes placed pending)
    (acyclic : ∀ a, ¬ TransGen (Needs passes) a a) : ∃ r, Places placed pending r := by
  induction hn : pending.length generalizing placed pending with
  | zero =>
    obtain rfl := List.length_eq_zero_iff.1 hn
    exact ⟨[], .done⟩
  | succ n ih =>
    obtain ⟨p, hp⟩ := List.exists_mem_of_length_pos (Nat.lt_of_lt_of_eq n.succ_pos hn.symm)
    obtain ⟨q, hq, hready, -⟩ := h.exists_ready acyclic hp
    cases htaken : takeReady placed pending with
    | none => exact absurd hready (not_isReady_of_takeReady htaken q hq)
    | some taken =>
      obtain ⟨first, others⟩ := taken
      have hlength := (perm_of_takeReady htaken).length_eq
      obtain ⟨r, hr⟩ := ih (h.turn htaken) (by simpa [hn] using hlength)
      exact ⟨first :: r, .turn htaken hr⟩

omit [DecidableEq κ] in
theorem Waits.start (provided : ∀ p ∈ passes, ∀ d ∈ p.depends, d ∈ passes.map Pass.key) :
    Waits passes [] passes :=
  ⟨.refl passes, fun p hp d hd => .inr (provided p hp d hd)⟩

/-- Passes that come after those they depend on stay where they are. -/
theorem places_self (distinct : (pending.map Pass.key).Nodup) (h : Respects placed pending) :
    Places placed pending pending := by
  induction pending generalizing placed with
  | nil => exact .done
  | cons p pending ih =>
    obtain ⟨hready, hrest⟩ := (respects_cons distinct).1 h
    refine .turn ?_ (ih (List.nodup_cons.1 distinct).2 hrest)
    rw [takeReady, if_pos hready]

/-! ### What is placed -/

theorem Places.perm (h : Places placed pending r) : r.Perm pending := by
  induction h with
  | done => exact .refl _
  | @turn placed pending others r p taken _ ih =>
    exact (ih.cons p).trans (perm_of_takeReady taken)

theorem Places.respects (h : Places placed pending r)
    (distinct : (pending.map Pass.key).Nodup) : Respects placed r := by
  induction h with
  | done => simp [Respects]
  | @turn placed pending others r p taken rest ih =>
    have hperm := perm_of_takeReady taken
    have hdistinct : ((p :: others).map Pass.key).Nodup := (hperm.map _).nodup_iff.2 distinct
    have hr : ((p :: r).map Pass.key).Nodup := ((rest.perm.cons p).map _).nodup_iff.2 hdistinct
    exact (respects_cons hr).2
      ⟨isReady_of_takeReady taken, ih (List.nodup_cons.1 hdistinct).2⟩

/-- Whoever places passes otherwise is behind at the first difference: a pass that comes before the
one that is taken was not ready. -/
theorem Places.least {rank : κ → Nat} (h : Places placed pending r)
    (ascending : (pending.map Pass.key).Pairwise (rank · < rank ·))
    (distinct : (pending.map Pass.key).Nodup) {r' : List (Pass κ σ ρ)} (perm : r'.Perm pending)
    (hr' : Respects placed r') :
    (r.map fun p => rank p.key) ≤ r'.map fun p => rank p.key := by
  induction h generalizing r' with
  | done =>
    obtain rfl := perm.eq_nil
    exact le_rfl
  | @turn placed pending others r p taken rest ih =>
    have htaken := perm_of_takeReady taken
    have hsub := (sublist_of_takeReady taken).map Pass.key
    obtain ⟨skipped, later, rfl, rfl, hskipped⟩ := exists_of_takeReady taken
    cases r' with
    | nil => exact absurd perm.length_eq (by simp)
    | cons q r' =>
      have hdistinct : ((q :: r').map Pass.key).Nodup := (perm.map _).nodup_iff.2 distinct
      obtain ⟨hq, hrest⟩ := (respects_cons hdistinct).1 hr'
      rw [List.map_cons, List.map_cons]
      rcases List.mem_append.1 (perm.subset List.mem_cons_self) with hmem | hmem
      · exact absurd hq (hskipped q hmem)
      · rcases List.mem_cons.1 hmem with rfl | hmem
        · have hothers : r'.Perm (skipped ++ later) :=
            (List.perm_cons q).1 (perm.trans htaken.symm)
          exact List.cons_le_cons _
            (ih (ascending.sublist hsub) (distinct.sublist hsub) hothers hrest)
        · rw [List.map_append, List.map_cons] at ascending
          have hlater := (List.pairwise_append.1 ascending).2.1
          exact le_of_lt (.rel ((List.pairwise_cons.1 hlater).1 q.key (List.mem_map_of_mem hmem)))

/-- The keys of the passes are provided at ascending places. -/
theorem ascending_idxOf {keys : List κ} (distinct : keys.Nodup) :
    keys.Pairwise (keys.idxOf · < keys.idxOf ·) := by
  refine List.pairwise_iff_getElem.2 fun i j hi hj hlt => ?_
  rwa [distinct.idxOf_getElem i hi, distinct.idxOf_getElem j hj]

theorem Orderable.exists_order (h : Orderable passes) : ∃ r, order passes = .ok r := by
  obtain ⟨r, hr⟩ := (Waits.start h.provided).exists_places h.acyclic
  exact ⟨r, order_eq_ok_iff.2 ⟨h.distinct, h.provided, hr⟩⟩

section

variable (h : order passes = .ok r)
include h

theorem perm_of_order : r.Perm passes := (order_eq_ok_iff.1 h).2.2.perm

theorem nodup_of_order : (r.map Pass.key).Nodup :=
  ((perm_of_order h).map _).nodup_iff.2 (order_eq_ok_iff.1 h).1

theorem respects_of_order : Respects [] r :=
  (order_eq_ok_iff.1 h).2.2.respects (order_eq_ok_iff.1 h).1

theorem orderable_of_order : Orderable passes :=
  orderable_of_respects (respects_of_order h) (perm_of_order h) (order_eq_ok_iff.1 h).1

/-- Whatever a pass depends on through others is placed before it. -/
theorem precedes_of_order (hab : TransGen (Needs passes) a b) : Precedes r b a :=
  precedes_of_transGen (respects_of_order h) (perm_of_order h) (nodup_of_order h) hab

end

/-- The places at which the passes of an arrangement were provided. -/
def positions (passes r : List (Pass κ σ ρ)) : List Nat :=
  r.map fun p => (passes.map Pass.key).idxOf p.key

/-- **Passes are ordered whenever they can be**, into the least of the arrangements in which every
pass comes after all that it depends on. -/
theorem order_isLeast (passes : List (Pass κ σ ρ)) :
    ((∃ r, order passes = .ok r) ↔ Orderable passes) ∧
    ∀ r, order passes = .ok r → r.Perm passes ∧ Respects [] r ∧
      ∀ r', r'.Perm passes → Respects [] r' → positions passes r ≤ positions passes r' := by
  refine ⟨⟨fun ⟨r, hr⟩ => orderable_of_order hr, Orderable.exists_order⟩, fun r hr => ?_⟩
  refine ⟨perm_of_order hr, respects_of_order hr, fun r' perm hr' => ?_⟩
  obtain ⟨distinct, -, hplaces⟩ := order_eq_ok_iff.1 hr
  exact hplaces.least (ascending_idxOf distinct) distinct perm hr'

/-- A pass that counts the passes that were executed before it. -/
def counting (key : Nat) (depends invalidates : List Nat) : Pass Nat Nat Nat where
  key := key
  name := "counting " ++ toString key
  depends := depends
  invalidates := invalidates
  execute n _ := .ok (n + 1, n)

/-- A pass that has to wait for the last one. -/
def waiting : List (Pass Nat Nat Nat) := [counting 0 [2] [], counting 1 [] [], counting 2 [] []]

/-- The pass in between goes first, which is less than to begin with the last one. -/
theorem order_waiting_least : Orderable waiting ∧ ∃ r, order waiting = .ok r ∧
    positions waiting r = [1, 2, 0] ∧ ∀ r', r'.Perm waiting → Respects [] r' →
      positions waiting r ≤ positions waiting r' := by
  obtain ⟨hiff, hleast⟩ := order_isLeast waiting
  exact ⟨hiff.1 ⟨_, rfl⟩, _, rfl, rfl, (hleast _ rfl).2.2⟩

end GimpleLowering.Pass
