import GimpleLowering.Proofs.Pass.Order

/-!
# The stability of the order

Two passes of which none depends on the other could keep the order in which they were provided, and
an order of passes is stable if all of them do. That cannot always be had: where the first of three
passes depends on the last one, and the second one is on its own, two pairs want to keep their order
and the dependency wants the opposite, whatever the arrangement (`order_waiting_not_stable`).

What holds is that nothing is moved without need. A pass is overtaken by one that was provided after
it only while it waits for a third pass that was provided even later (`Places.exists_delay`).

* **The order is as stable as possible.** It is known exactly which pairs keep their order, and all
  of them do if there is any arrangement that respects the dependencies in which they do
  (`order_keeps`).

## Main definitions

* `Pass.Unrelated` — passes of which none depends on the other
* `Pass.Stable` — an arrangement in which unrelated passes keep their order
-/

namespace GimpleLowering.Pass

open Relation

variable {κ σ ρ : Type} {passes pending r : List (Pass κ σ ρ)} {placed : List κ} {a b : κ}

/-- None of the two depends on the other, directly or through others. -/
structure Unrelated (passes : List (Pass κ σ ρ)) (a b : κ) : Prop where
  left : ¬ TransGen (Needs passes) a b
  right : ¬ TransGen (Needs passes) b a

/-- Unrelated passes come in the order in which they were provided. -/
def Stable (passes r : List (Pass κ σ ρ)) : Prop :=
  ∀ a b, Precedes passes a b → Unrelated passes a b → Precedes r a b

variable [DecidableEq κ]

/-- A pass that is skipped for one that it does not depend on waits for a pass behind that one. -/
theorem Waits.exists_later {skipped later : List (Pass κ σ ρ)} {p s : Pass κ σ ρ}
    (h : Waits passes placed (skipped ++ p :: later)) (acyclic : ∀ a, ¬ TransGen (Needs passes) a a)
    (distinct : ((skipped ++ p :: later).map Pass.key).Nodup)
    (hskipped : ∀ q ∈ skipped, ¬ q.isReady placed = true) (hs : s ∈ skipped)
    (hsp : ¬ TransGen (Needs passes) s.key p.key) :
    ∃ q ∈ later, TransGen (Needs passes) s.key q.key := by
  obtain ⟨q, hq, hready, hreach⟩ := h.exists_ready acyclic (List.mem_append_left _ hs)
  have hbehind : q ∈ p :: later :=
    (List.mem_append.1 hq).resolve_left fun hq => hskipped q hq hready
  have hne : q.key ≠ s.key := by
    rw [List.map_append, List.nodup_append] at distinct
    exact (distinct.2.2 _ (List.mem_map_of_mem hs) _ (List.mem_map_of_mem hbehind)).symm
  have hneeds : TransGen (Needs passes) s.key q.key :=
    (reflTransGen_iff_eq_or_transGen.1 hreach).resolve_left hne
  refine ⟨q, (List.mem_cons.1 hbehind).resolve_left ?_, hneeds⟩
  rintro rfl
  exact hsp hneeds

/-- A pass that is overtaken by one that it does not depend on waits for a pass that was provided
later than that one, and is placed later as well. -/
theorem Places.exists_delay (h : Places placed pending r) (waits : Waits passes placed pending)
    (acyclic : ∀ a, ¬ TransGen (Needs passes) a a) (distinct : (pending.map Pass.key).Nodup)
    (provided : Precedes pending a b) (overtaken : Precedes r b a)
    (hab : ¬ TransGen (Needs passes) a b) :
    ∃ d, TransGen (Needs passes) a d ∧ Precedes pending b d ∧ Precedes r b d := by
  induction h with
  | done => cases overtaken
  | @turn placed pending others r p taken rest ih =>
    have hwaits := waits.turn taken
    have hsub := sublist_of_takeReady taken
    have hr : ((p :: r).map Pass.key).Nodup :=
      (((rest.perm.cons p).trans (perm_of_takeReady taken)).map _).nodup_iff.2 distinct
    obtain ⟨skipped, later, rfl, rfl, hskipped⟩ := exists_of_takeReady taken
    rcases precedes_cons.1 overtaken with ⟨rfl, -⟩ | hrest
    · -- this is the turn of `b`, and `a` is skipped
      obtain ⟨s, hs, rfl⟩ := List.mem_map.1 ((precedes_key_iff distinct).1 provided)
      obtain ⟨q, hq, hneeds⟩ := waits.exists_later acyclic distinct hskipped hs hab
      have hplaced : q ∈ r := rest.perm.mem_iff.2 (List.mem_append_right _ hq)
      have hbehind : Precedes (p :: later) p.key q.key :=
        precedes_cons.2 (.inl ⟨rfl, List.mem_map_of_mem hq⟩)
      exact ⟨q.key, hneeds, hbehind.mono (List.sublist_append_right skipped _),
        precedes_cons.2 (.inl ⟨rfl, List.mem_map_of_mem hplaced⟩)⟩
    · have hp := (List.nodup_cons.1 hr).1
      have hprovided : Precedes (skipped ++ later) a b := provided.of_remove
        (fun h => hp (h ▸ hrest.right_mem)) fun h => hp (h ▸ hrest.left_mem)
      obtain ⟨d, had, hbd, hafter⟩ := ih hwaits (distinct.sublist (hsub.map _)) hprovided hrest
      exact ⟨d, had, hbd.mono hsub, precedes_cons.2 (.inr hafter)⟩

/-! ### Orders -/

section

variable (h : order passes = .ok r)
include h

/-- There is only one way in which passes lose the order in which they were provided. -/
theorem exists_delay_of_order (hab : Precedes passes a b) (hfree : ¬ TransGen (Needs passes) a b)
    (hlost : ¬ Precedes r a b) :
    ∃ d, TransGen (Needs passes) a d ∧ Precedes passes b d ∧ Precedes r b d := by
  obtain ⟨distinct, provided, hplaces⟩ := order_eq_ok_iff.1 h
  have hmem : ∀ {k}, k ∈ passes.map Pass.key → k ∈ r.map Pass.key :=
    (hplaces.perm.map _).mem_iff.2
  have hovertaken : Precedes r b a :=
    (precedes_or (hmem hab.left_mem) (hmem hab.right_mem) (hab.ne distinct)).resolve_left hlost
  exact hplaces.exists_delay (.start provided) (orderable_of_order h).acyclic distinct hab
    hovertaken hfree

/-- A pass stays before one that it does not depend on as long as it waits for nothing behind it. -/
theorem precedes_iff_of_order (hab : Precedes passes a b) (hfree : ¬ TransGen (Needs passes) a b) :
    Precedes r a b ↔
      ∀ d, TransGen (Needs passes) a d → Precedes passes b d → Precedes r d b := by
  refine ⟨fun hkept d had _ => (precedes_of_order h had).trans hkept (nodup_of_order h), ?_⟩
  intro hall
  by_contra hlost
  obtain ⟨d, had, hbd, hafter⟩ := exists_delay_of_order h hab hfree hlost
  exact hafter.asymm (nodup_of_order h) (hall d had hbd)

/-- If the order that `Pass.order` finds is not stable, then none is that respects the
dependencies. -/
theorem stable_of_order {r' : List (Pass κ σ ρ)} (perm : r'.Perm passes) (hr' : Respects [] r')
    (hstable : Stable passes r') : Stable passes r := by
  intro a b hab hfree
  have hdistinct : (r'.map Pass.key).Nodup :=
    (perm.map _).nodup_iff.2 (orderable_of_order h).distinct
  by_contra hlost
  obtain ⟨d, had, hbd, hafter⟩ := exists_delay_of_order h hab hfree.left hlost
  -- `b` and `d` are unrelated as well, so the other arrangement has `b`, `d` and `a` in this order
  have hfree' : Unrelated passes b d := by
    refine ⟨fun hbd' => ?_, fun hdb => hfree.left (had.trans hdb)⟩
    exact hafter.asymm (nodup_of_order h) (precedes_of_order h hbd')
  have hda : Precedes r' d a := precedes_of_transGen hr' perm hdistinct had
  have hba : Precedes r' b a := (hstable b d hbd hfree').trans hda hdistinct
  exact hba.asymm hdistinct (hstable a b hab hfree)

end

/-- **The order is as stable as possible.** Of two unrelated passes, the one that was provided first
stays first if and only if all that it waits for comes before the other one; so it does if whatever
it alone depends on was provided before the other one. And all unrelated passes keep their order if
they do in any arrangement that respects the dependencies. -/
theorem order_keeps (h : order passes = .ok r) :
    (∀ a b, Precedes passes a b → Unrelated passes a b →
      (Precedes r a b ↔
        ∀ d, TransGen (Needs passes) a d → Precedes passes b d → Precedes r d b) ∧
      ((∀ d, TransGen (Needs passes) a d → ¬ TransGen (Needs passes) b d → Precedes passes d b) →
        Precedes r a b)) ∧
    ((∃ r', r'.Perm passes ∧ Respects [] r' ∧ Stable passes r') → Stable passes r) := by
  refine ⟨fun a b hab hfree => ⟨precedes_iff_of_order h hab hfree.left, fun hearly => ?_⟩, ?_⟩
  · refine (precedes_iff_of_order h hab hfree.left).2 fun d had hbd => precedes_of_order h ?_
    by_contra hnot
    exact hbd.asymm (orderable_of_order h).distinct (hearly d had hnot)
  · rintro ⟨r', perm, hr', hstable⟩
    exact stable_of_order h perm hr' hstable

/-- Only one of the three depends on another one. -/
theorem needs_waiting {a b : Nat} (h : TransGen (Needs waiting) a b) : a = 0 ∧ b = 2 := by
  have hdirect : ∀ {a b}, Needs waiting a b → a = 0 ∧ b = 2 := by
    intro a b h
    simpa [Needs, waiting, counting, eq_comm] using h
  induction h with
  | single h => exact hdirect h
  | tail _ h ih => exact ⟨ih.1, (hdirect h).2⟩

theorem unrelated_waiting_zero_one : Unrelated waiting 0 1 :=
  ⟨fun h => by simpa using (needs_waiting h).2, fun h => by simpa using (needs_waiting h).1⟩

theorem unrelated_waiting_one_two : Unrelated waiting 1 2 :=
  ⟨fun h => by simpa using (needs_waiting h).1, fun h => by simpa using (needs_waiting h).1⟩

/-- The pass in the middle stays before the last one, and the first one loses its place. -/
theorem order_waiting_keeps : ∃ r, order waiting = .ok r ∧ Precedes r 1 2 ∧ ¬ Precedes r 0 1 := by
  refine ⟨_, rfl, ?_, fun h => ?_⟩
  · refine (((order_keeps rfl).1 1 2 (by decide) unrelated_waiting_one_two).1).2 fun d hd => ?_
    exact absurd (needs_waiting hd).1 (by decide)
  · have hneeds : TransGen (Needs waiting) 0 2 := .single ⟨_, List.mem_cons_self, rfl, by decide⟩
    have hwait := (((order_keeps rfl).1 0 1 (by decide) unrelated_waiting_zero_one).1).1 h 2 hneeds
    exact absurd (hwait (by decide)) (by decide)

/-- The order of these passes is not stable, and no arrangement of them can be. -/
theorem order_waiting_not_stable : (∃ r, order waiting = .ok r ∧ ¬ Stable waiting r) ∧
    ∀ r, r.Perm waiting → Respects [] r → ¬ Stable waiting r := by
  have hnone : ∀ r, r.Perm waiting → Respects [] r → ¬ Stable waiting r := by
    intro r perm hr hstable
    have hdistinct : (r.map Pass.key).Nodup := (perm.map _).nodup_iff.2 (by decide)
    have hfirst : Precedes r 0 1 := hstable 0 1 (by decide) unrelated_waiting_zero_one
    have hsecond : Precedes r 1 2 := hstable 1 2 (by decide) unrelated_waiting_one_two
    have hneeds : TransGen (Needs waiting) 0 2 := .single ⟨_, List.mem_cons_self, rfl, by decide⟩
    exact (hfirst.trans hsecond hdistinct).asymm hdistinct
      (precedes_of_transGen hr perm hdistinct hneeds)
  have horder : order waiting = .ok [counting 1 [] [], counting 2 [] [], counting 0 [2] []] := rfl
  exact ⟨⟨_, horder, hnone _ (perm_of_order horder) (respects_of_order horder)⟩, hnone⟩

end GimpleLowering.Pass
