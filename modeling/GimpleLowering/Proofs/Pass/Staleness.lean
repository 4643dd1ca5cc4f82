import GimpleLowering.Proofs.Pass.Execution
import GimpleLowering.Proofs.Pass.Stability

/-!
# Stale dependencies

Passes are ordered by their dependencies alone, and what they make stale is looked at only when they
run. So there can be an arrangement that runs to its end although the order that is found does not:
where a pass makes a result stale that a later one depends on, it would have to be put behind that
one, but it keeps its place (`order_spoiling_stops`).

Whether a list of passes runs to its end is seen from their declarations (`run_ok_iff`).

* **Runs find every stale dependency.** If any arrangement of the passes runs to its end, they are
  ordered, and the order is refused exactly if it is spoiled. That arrangement itself is kept as it
  is (`order_runs`).

## Main definitions

* `Pass.Spoiled` — a result is made stale before a pass that depends on it
* `Pass.Fresh` — a result that is there and was not made stale
-/

namespace GimpleLowering.Pass

variable {κ σ ρ : Type} {passes r : List (Pass κ σ ρ)} {events : List (Event κ σ ρ)} {start : σ}
  {d : κ}

/-- A result is made stale between the pass that gives it and one that depends on it. -/
def Spoiled (r : List (Pass κ σ ρ)) : Prop :=
  ∃ p ∈ r, ∃ c ∈ r, ∃ d ∈ p.depends,
    d ∈ c.invalidates ∧ Precedes r d c.key ∧ Precedes r c.key p.key

/-- After the passes, the result is there, and none of them has made it stale since. -/
def Fresh (passes : List (Pass κ σ ρ)) (d : κ) : Prop :=
  d ∈ passes.map Pass.key ∧ ∀ c ∈ passes, d ∈ c.invalidates → ¬ Precedes passes d c.key

theorem exists_remains_iff (distinct : ((events.map Event.pass).map Pass.key).Nodup) :
    (∃ result, Remains events d result) ↔ Fresh (events.map Event.pass) d := by
  constructor
  · rintro ⟨result, before, e, after, rfl, rfl, -, hkeeps⟩
    refine ⟨by simp, fun c hc hstale hlater => ?_⟩
    rw [List.map_append, List.map_cons] at hc hlater distinct
    rcases List.mem_append.1 hc with hc | hc
    · have hearlier := (precedes_key_iff distinct).2 (List.mem_map_of_mem hc)
      exact hlater.asymm distinct hearlier
    · rcases List.mem_cons.1 hc with rfl | hc
      · exact hlater.ne distinct rfl
      · obtain ⟨f, hf, rfl⟩ := List.mem_map.1 hc
        exact hkeeps f hf hstale
  · rintro ⟨hmem, hfresh⟩
    obtain ⟨e, he, rfl⟩ : ∃ e ∈ events, e.pass.key = d := by simpa using hmem
    obtain ⟨before, after, rfl⟩ := List.append_of_mem he
    refine ⟨e.result, before, e, after, rfl, rfl, rfl, fun f hf hstale => ?_⟩
    have hmem : f ∈ before ++ e :: after := List.mem_append_right _ (List.mem_cons_of_mem e hf)
    refine hfresh f.pass (List.mem_map_of_mem hmem) hstale ?_
    rw [List.map_append, List.map_cons]
    refine Precedes.mono ?_ (List.sublist_append_right _ _)
    exact precedes_cons.2 (.inl ⟨rfl, List.mem_map_of_mem (List.mem_map_of_mem hf)⟩)

/-- What has to hold when the turn of each pass comes, said of the list as a whole. -/
theorem respects_and_not_spoiled_iff (distinct : (r.map Pass.key).Nodup) :
    Respects [] r ∧ ¬ Spoiled r ↔
      ∀ before p after, r = before ++ p :: after → ∀ d ∈ p.depends, Fresh before d := by
  constructor
  · rintro ⟨hr, hspoiled⟩ before p after rfl d hd
    have hp : p ∈ before ++ p :: after := by simp
    have hsub : before.Sublist (before ++ p :: after) := List.sublist_append_left _ _
    refine ⟨?_, fun c hc hstale hlater => hspoiled ?_⟩
    · exact (precedes_key_iff distinct).1 ((hr p hp d hd).resolve_left List.not_mem_nil)
    · exact ⟨p, hp, c, hsub.subset hc, d, hd, hstale, hlater.mono hsub,
        (precedes_key_iff distinct).2 (List.mem_map_of_mem hc)⟩
  · intro hfresh
    refine ⟨fun p hp d hd => .inr ?_, ?_⟩
    · obtain ⟨before, after, rfl⟩ := List.append_of_mem hp
      exact (precedes_key_iff distinct).2 (hfresh before p after rfl d hd).1
    · rintro ⟨p, hp, c, hc, d, hd, hstale, hlater, hearlier⟩
      obtain ⟨before, after, rfl⟩ := List.append_of_mem hp
      have hkey : c.key ∈ before.map Pass.key := (precedes_key_iff distinct).1 hearlier
      obtain ⟨c', hc', hsame⟩ := List.mem_map.1 hkey
      have hsub : before.Sublist (before ++ p :: after) := List.sublist_append_left _ _
      obtain rfl := List.inj_on_of_nodup_map distinct (hsub.subset hc') hc hsame
      exact (hfresh before p after rfl d hd).2 c' hc' hstale (hlater.of_append distinct hkey)

variable [DecidableEq κ]

instance : Decidable (Spoiled r) :=
  inferInstanceAs (Decidable (∃ p ∈ r, ∃ c ∈ r, ∃ d ∈ p.depends,
    d ∈ c.invalidates ∧ Precedes r d c.key ∧ Precedes r c.key p.key))

variable [ToString κ]

/-- Whether passes run to their end is seen from what they declare. -/
theorem run_ok_iff (distinct : (r.map Pass.key).Nodup) (total : ∀ p ∈ r, p.Succeeds) :
    (∃ out, run r start = .ok out) ↔ Respects [] r ∧ ¬ Spoiled r := by
  rw [respects_and_not_spoiled_iff distinct]
  obtain ⟨events, rest, live, rfl, hrecords, hstuck⟩ := exists_records distinct total start
  have hevents : ((events.map Event.pass).map Pass.key).Nodup :=
    distinct.sublist ((List.sublist_append_left _ _).map _)
  cases rest with
  | nil =>
    rw [List.append_nil]
    refine ⟨fun _ before p after heq d hd => ?_, fun _ => ⟨_, hrecords.run⟩⟩
    obtain ⟨eb, ea, rfl, rfl, hea⟩ := List.map_eq_append_iff.1 heq
    obtain ⟨e, ea, rfl, rfl, rfl⟩ := List.map_eq_cons_iff.1 hea
    refine (exists_remains_iff ?_).1 ((hrecords.happens eb e ea rfl).met d hd)
    exact hevents.sublist (((List.sublist_append_left _ _).map _).map _)
  | cons p later =>
    obtain ⟨d, hmissing⟩ := hstuck p later rfl
    refine ⟨?_, fun hfresh => ?_⟩
    · rintro ⟨out, hrun⟩
      cases (hrecords.stop hmissing).symm.trans hrun
    · obtain ⟨met, unmet, hdepends, -, hmissing⟩ := hmissing
      have hd : d ∈ p.depends := by simp [hdepends]
      obtain ⟨result, hremains⟩ := (exists_remains_iff hevents).2 (hfresh _ p later rfl d hd)
      exact absurd hremains (hmissing result)

/-- Passes that do not fail by themselves are only refused for a missing dependency. -/
theorem run_ok_or_missing (distinct : (r.map Pass.key).Nodup) (total : ∀ p ∈ r, p.Succeeds)
    (start : σ) :
    (∃ out, run r start = .ok out) ∨ ∃ text, run r start = .error (.missingPassData text) := by
  obtain ⟨events, rest, live, rfl, hrecords, hstuck⟩ := exists_records distinct total start
  cases rest with
  | nil =>
    rw [List.append_nil]
    exact .inl ⟨_, hrecords.run⟩
  | cons p later =>
    obtain ⟨d, hmissing⟩ := hstuck p later rfl
    exact .inr ⟨_, hrecords.stop hmissing⟩

/-- **Runs find every stale dependency.** If any arrangement of the passes runs to its end, it is
kept as it is, and the passes are ordered however they are provided; a run of that order is refused,
for a missing dependency, if the order is spoiled, and comes to its end otherwise. -/
theorem order_runs {r' : List (Pass κ σ ρ)} {start' : σ} {out : σ × Results κ ρ}
    (distinct : (passes.map Pass.key).Nodup) (total : ∀ p ∈ passes, p.Succeeds)
    (perm : r'.Perm passes) (runs : run r' start' = .ok out) :
    (order r' = .ok r' ∧ ∀ start, ∃ out, run r' start = .ok out) ∧
    ∃ r, order passes = .ok r ∧ ∀ start,
      ((∃ text, run r start = .error (.missingPassData text)) ↔ Spoiled r) ∧
      ((∃ out, run r start = .ok out) ↔ ¬ Spoiled r) := by
  have htotal : ∀ {l : List (Pass κ σ ρ)}, l.Perm passes → ∀ p ∈ l, p.Succeeds :=
    fun hl p hp => total p (hl.mem_iff.1 hp)
  have hdistinct : (r'.map Pass.key).Nodup := (perm.map _).nodup_iff.2 distinct
  obtain ⟨hr', hspoiled⟩ := (run_ok_iff hdistinct (htotal perm)).1 ⟨out, runs⟩
  have hkept := orderable_of_respects hr' (.refl r') hdistinct
  refine ⟨⟨?_, fun start => ?_⟩, ?_⟩
  · exact order_eq_ok_iff.2 ⟨hdistinct, hkept.provided, places_self hdistinct hr'⟩
  · exact (run_ok_iff hdistinct (htotal perm)).2 ⟨hr', hspoiled⟩
  · obtain ⟨r, hr⟩ := (orderable_of_respects hr' perm distinct).exists_order
    refine ⟨r, hr, fun start => ?_⟩
    have hrtotal := htotal (perm_of_order hr)
    have hok : (∃ out, run r start = .ok out) ↔ ¬ Spoiled r :=
      (run_ok_iff (nodup_of_order hr) hrtotal).trans (and_iff_right (respects_of_order hr))
    refine ⟨⟨?_, fun hs => ?_⟩, hok⟩
    · rintro ⟨text, herror⟩
      by_contra hs
      obtain ⟨out, hout⟩ := hok.2 hs
      cases herror.symm.trans hout
    · refine (run_ok_or_missing (nodup_of_order hr) hrtotal start).resolve_left fun hout => ?_
      exact hok.1 hout hs

/-- The passes with the spoiling one at the end. -/
def tidied : List (Pass Nat Nat Nat) :=
  [counting 0 [] [], counting 2 [0] [], counting 1 [] [0, 1]]

theorem tidied_perm : tidied.Perm spoiling := .cons _ (.swap _ _ _)

/-- These passes run to their end if they are provided in one order, and never in another one. -/
theorem order_tidied_runs :
    (order tidied = .ok tidied ∧ ∀ start, ∃ out, run tidied start = .ok out) ∧
    ∃ r, order spoiling = .ok r ∧
      ∀ start, ∃ text, run r start = .error (.missingPassData text) := by
  have horder : order spoiling = .ok spoiling := rfl
  have hruns : ∃ out, run tidied 0 = .ok out := ⟨_, rfl⟩
  obtain ⟨out, hout⟩ := hruns
  obtain ⟨hkept, r, hr, hspoiled⟩ := order_runs (by decide) succeeds_spoiling tidied_perm hout
  obtain rfl := Except.ok.inj (horder.symm.trans hr)
  exact ⟨hkept, spoiling, horder, fun start => (hspoiled start).1.2 (by decide)⟩

/-- There is an arrangement of these passes that runs to its end, and the order that is found does
not. -/
theorem order_spoiling_stops : (spoiling.map Pass.key).Nodup ∧ (∀ p ∈ spoiling, p.Succeeds) ∧
    (∃ r out, r.Perm spoiling ∧ run r 0 = .ok out) ∧
    ∃ r, order spoiling = .ok r ∧ run r 0 = .error (.missingPassData "0 for counting 2") :=
  ⟨by decide, succeeds_spoiling, ⟨tidied, _, tidied_perm, rfl⟩, spoiling, rfl, rfl⟩

end GimpleLowering.Pass
