import GimpleLowering.Proofs.Pass.Order
import Mathlib.Data.List.Induction

/-!
# The execution of passes

What a pass receives is said without the steps of a run: the results that are live are those of the
passes before it, as they produced them, that no pass in between made stale (`Remains`). A pass that
makes itself stale keeps its result, since that result is stored after the old ones are cleared.

A history is a list of events, one for each pass that was executed. `Records` ties it to a run, and
is kept by one more pass (`Records.snoc`); where a result that a pass depends on does not remain,
the run is over whatever that pass and those behind it would do (`Records.stop`).

* **Live results are tracked exactly.** Every run of passes that do not fail has a history that
  ends at the first pass with a stale or absent dependency, if there is one (`run_tracks`).

## Main definitions

* `Pass.Event` — a pass that was executed, with what it received and what it gave
* `Pass.Remains`, `Pass.Results.Holds` — the results that are live after events
* `Pass.Event.Happens` — an event is the execution of its pass after others
* `Pass.Succeeds` — passes that do not fail by themselves
-/

namespace GimpleLowering.Pass

variable {κ σ ρ : Type}

/-- A pass that was executed, with what it received and what it gave. -/
structure Event (κ σ ρ : Type) where
  pass : Pass κ σ ρ
  state : σ
  live : Results κ ρ
  next : σ
  result : ρ

/-- The result was produced under the key, and no later event made it stale. -/
def Remains (events : List (Event κ σ ρ)) (key : κ) (result : ρ) : Prop :=
  ∃ before e after, events = before ++ e :: after ∧ e.pass.key = key ∧ e.result = result ∧
    ∀ f ∈ after, key ∉ f.pass.invalidates

/-- The state after events. -/
def leaves (start : σ) (events : List (Event κ σ ρ)) : σ := events.foldl (fun _ e => e.next) start

variable {events : List (Event κ σ ρ)} {e : Event κ σ ρ} {passes : List (Pass κ σ ρ)}
  {p : Pass κ σ ρ} {start state next : σ} {result : ρ} {key d : κ}

theorem leaves_snoc : leaves start (events ++ [e]) = e.next := by
  rw [leaves, List.foldl_append]
  rfl

theorem remains_snoc : Remains (events ++ [e]) key result ↔
    e.pass.key = key ∧ e.result = result ∨
      Remains events key result ∧ key ∉ e.pass.invalidates := by
  constructor
  · rintro ⟨before, f, after, heq, hkey, hresult, hkeeps⟩
    rcases List.eq_nil_or_concat after with rfl | ⟨after, g, rfl⟩
    · obtain ⟨-, rfl⟩ := List.append_singleton_inj.1 heq
      exact .inl ⟨hkey, hresult⟩
    · rw [List.concat_eq_append, ← List.cons_append, ← List.append_assoc] at heq
      obtain ⟨rfl, rfl⟩ := List.append_singleton_inj.1 heq
      rw [List.concat_eq_append, List.forall_mem_append, List.forall_mem_singleton] at hkeeps
      exact .inr ⟨⟨before, f, after, rfl, hkey, hresult, hkeeps.1⟩, hkeeps.2⟩
  · rintro (⟨hkey, hresult⟩ | ⟨⟨before, f, after, rfl, hkey, hresult, hkeeps⟩, hkeep⟩)
    · exact ⟨events, e, [], rfl, hkey, hresult, by simp⟩
    · refine ⟨before, f, after ++ [e], by simp, hkey, hresult, ?_⟩
      rw [List.forall_mem_append, List.forall_mem_singleton]
      exact ⟨hkeeps, hkeep⟩

theorem Remains.mem (h : Remains events key result) :
    key ∈ events.map fun e => e.pass.key := by
  obtain ⟨before, e, after, rfl, rfl, -, -⟩ := h
  simp

variable [DecidableEq κ]

/-! ### Live results -/

/-- The live results are exactly those that remain. -/
def Results.Holds (live : Results κ ρ) (events : List (Event κ σ ρ)) : Prop :=
  ∀ key result, live.get? key = some result ↔ Remains events key result

variable {live : Results κ ρ}

theorem Results.Holds.contains_iff (h : live.Holds events) :
    live.contains key = true ↔ ∃ result, Remains events key result := by
  rw [Results.contains, Option.isSome_iff_exists]
  exact exists_congr (h key)

theorem get?_foldl_clear (stale : List κ) :
    (stale.foldl Results.clear live).get? key = if key ∈ stale then none else live.get? key := by
  induction stale generalizing live with
  | nil => simp
  | cons k stale ih =>
    rw [List.foldl_cons, ih, Results.get?_clear]
    by_cases hk : key = k <;> by_cases hs : key ∈ stale <;> simp [hk, hs]

/-- What is stored after an event is what remains after it, unless the key occurred before. -/
theorem Results.Holds.snoc (h : live.Holds events)
    (fresh : e.pass.key ∉ events.map fun e => e.pass.key) :
    ((e.pass.invalidates.foldl Results.clear live).put e.pass.key e.result).Holds
      (events ++ [e]) := by
  intro key result
  rw [Results.get?_put, get?_foldl_clear, remains_snoc, ← h key result]
  by_cases hkey : key = e.pass.key
  · subst hkey
    have hnone : live.get? e.pass.key ≠ some result := fun hlive => fresh ((h _ _).1 hlive).mem
    simp [hnone]
  · have hkey' : ¬ e.pass.key = key := fun h => hkey h.symm
    by_cases hstale : key ∈ e.pass.invalidates <;> simp [hkey, hkey', hstale]

/-- The first dependency of the pass that does not remain after the events. -/
def FirstMissing (p : Pass κ σ ρ) (events : List (Event κ σ ρ)) (d : κ) : Prop :=
  ∃ met unmet, p.depends = met ++ d :: unmet ∧ (∀ c ∈ met, ∃ result, Remains events c result) ∧
    ∀ result, ¬ Remains events d result

/-- A pass finds what it depends on, or misses something first. -/
theorem Results.Holds.met_or_missing (h : live.Holds events) (p : Pass κ σ ρ) :
    (∀ d ∈ p.depends, live.contains d = true) ∨ ∃ d, FirstMissing p events d := by
  cases hfind : p.depends.find? fun d => ! live.contains d with
  | none =>
    left
    simpa [List.find?_eq_none] using hfind
  | some d =>
    right
    obtain ⟨hd, met, unmet, hdepends, hmet⟩ := List.find?_eq_some_iff_append.1 hfind
    refine ⟨d, met, unmet, hdepends, fun c hc => h.contains_iff.1 ?_, fun result hr => ?_⟩
    · simpa using hmet c hc
    · have hlive := h.contains_iff.2 ⟨result, hr⟩
      simp [hlive] at hd

/-! ### Runs -/

variable [ToString κ]

/-- The pass does not fail by itself, given what it depends on. -/
def Succeeds (p : Pass κ σ ρ) : Prop :=
  ∀ state live, (∀ d ∈ p.depends, live.contains d = true) →
    ∃ next result, p.execute state live = .ok (next, result)

theorem step_of_met (met : ∀ d ∈ p.depends, live.contains d = true)
    (executed : p.execute state live = .ok (next, result)) :
    p.step state live =
      .ok (next, (p.invalidates.foldl Results.clear live).put p.key result) := by
  have hnone : (p.depends.find? fun d => ! live.contains d) = none := by
    simpa [List.find?_eq_none] using met
  rw [step, hnone]
  simp only [executed]
  rfl

theorem step_of_missing (missing : (p.depends.find? fun d => ! live.contains d) = some d) :
    p.step state live = .error (.missingPassData (toString d ++ " for " ++ p.name)) := by
  rw [step, missing]

theorem runFrom_append {later : List (Pass κ σ ρ)} :
    runFrom state live (passes ++ later) =
      runFrom state live passes >>= fun s => runFrom s.1 s.2 later := by
  induction passes generalizing state live with
  | nil => rfl
  | cons p passes ih =>
    rw [List.cons_append, runFrom, runFrom]
    cases p.step state live with
    | error e => rfl
    | ok s => exact ih

/-- A run goes on where the passes so far ended. -/
theorem run_append {later : List (Pass κ σ ρ)} (h : run passes start = .ok (state, live)) :
    run (passes ++ later) start = runFrom state live later := by
  rw [run] at h ⊢
  rw [runFrom_append, h]
  rfl

/-- The event is the execution of its pass on what the run of the passes before it left. -/
structure Event.Happens (start : σ) (before : List (Event κ σ ρ)) (e : Event κ σ ρ) : Prop where
  received : run (before.map Event.pass) start = .ok (e.state, e.live)
  executed : e.pass.execute e.state e.live = .ok (e.next, e.result)
  threaded : e.state = leaves start before
  holds : e.live.Holds before
  met : ∀ d ∈ e.pass.depends, ∃ result, Remains before d result

/-- The events are the history of a run, and its live results are those that remain. -/
structure Records (start : σ) (events : List (Event κ σ ρ)) (live : Results κ ρ) : Prop where
  run : run (events.map Event.pass) start = .ok (leaves start events, live)
  holds : live.Holds events
  happens : ∀ before e after, events = before ++ e :: after → e.Happens start before

theorem Records.nil : Records start ([] : List (Event κ σ ρ)) .empty where
  run := rfl
  holds key result := by
    refine ⟨nofun, fun h => ?_⟩
    exact absurd h.mem (by simp)
  happens before e after heq := by simp at heq

/-- The history goes on with a pass that finds what it depends on. -/
theorem Records.snoc (h : Records start events live)
    (fresh : p.key ∉ events.map fun e => e.pass.key)
    (met : ∀ d ∈ p.depends, live.contains d = true)
    (executed : p.execute (leaves start events) live = .ok (next, result)) :
    Records start (events ++ [⟨p, leaves start events, live, next, result⟩])
      ((p.invalidates.foldl Results.clear live).put p.key result) where
  run := by
    rw [List.map_append, run_append h.run, leaves_snoc]
    simp only [List.map_cons, List.map_nil, runFrom, step_of_met met executed]
    rfl
  holds := h.holds.snoc (e := ⟨p, leaves start events, live, next, result⟩) fresh
  happens before e after heq := by
    rcases List.eq_nil_or_concat after with rfl | ⟨after, g, rfl⟩
    · obtain ⟨rfl, rfl⟩ := List.append_singleton_inj.1 heq
      exact ⟨h.run, executed, rfl, h.holds, fun d hd => h.holds.contains_iff.1 (met d hd)⟩
    · rw [List.concat_eq_append, ← List.cons_append, ← List.append_assoc] at heq
      obtain ⟨heq, -⟩ := List.append_singleton_inj.1 heq
      exact h.happens before e after heq

/-- Where a dependency is missing the run is over, whatever the pass and those behind it do. -/
theorem Records.stop (h : Records start events live) (missing : FirstMissing p events d)
    {later : List (Pass κ σ ρ)} :
    Pass.run (events.map Event.pass ++ p :: later) start =
      .error (.missingPassData (toString d ++ " for " ++ p.name)) := by
  obtain ⟨met, unmet, hdepends, hmet, hmissing⟩ := missing
  have hfind : (p.depends.find? fun d => ! live.contains d) = some d := by
    rw [hdepends, List.find?_append, List.find?_eq_none.2 fun c hc => ?_, Option.none_or,
      List.find?_cons_of_pos]
    · have hd : ¬ live.contains d = true :=
        fun hd => (h.holds.contains_iff.1 hd).elim fun result => hmissing result
      simpa using hd
    · simpa using h.holds.contains_iff.2 (hmet c hc)
  rw [run_append h.run, runFrom, step_of_missing hfind]
  rfl

/-- Passes that do not fail by themselves have a history up to the first one with a missing
dependency. -/
theorem exists_records (distinct : (passes.map Pass.key).Nodup)
    (total : ∀ p ∈ passes, p.Succeeds) (start : σ) :
    ∃ events rest live, passes = events.map Event.pass ++ rest ∧ Records start events live ∧
      ∀ p later, rest = p :: later → ∃ d, FirstMissing p events d := by
  induction passes using List.reverseRecOn with
  | nil => exact ⟨[], [], .empty, rfl, .nil, nofun⟩
  | append_singleton passes p ih =>
    rw [List.map_append, List.nodup_append] at distinct
    rw [List.forall_mem_append, List.forall_mem_singleton] at total
    obtain ⟨events, rest, live, rfl, hrecords, hstuck⟩ := ih distinct.1 total.1
    cases rest with
    | cons q later =>
      refine ⟨events, q :: (later ++ [p]), live, by simp, hrecords, ?_⟩
      rintro _ _ ⟨⟩
      exact hstuck q later rfl
    | nil =>
      rw [List.append_nil] at distinct ⊢
      rcases hrecords.holds.met_or_missing p with met | hmissing
      · obtain ⟨next, result, executed⟩ := total.2 _ live met
        have fresh : p.key ∉ events.map fun e => e.pass.key := by
          intro hmem
          exact distinct.2.2 p.key (by simpa using hmem) p.key (by simp) rfl
        exact ⟨_, [], _, by simp, hrecords.snoc fresh met executed, nofun⟩
      · refine ⟨events, [p], live, rfl, hrecords, ?_⟩
        rintro _ _ ⟨⟩
        exact hmissing

/-- The events are what happens when the passes are executed, and the rest are the passes that are
not executed, as the first of them misses a dependency. -/
structure Tracks (passes : List (Pass κ σ ρ)) (start : σ) (events : List (Event κ σ ρ))
    (rest : List (Pass κ σ ρ)) : Prop where
  split : passes = events.map Event.pass ++ rest
  happens : ∀ before e after, events = before ++ e :: after → e.Happens start before
  ends : rest = [] → ∃ live, run passes start = .ok (leaves start events, live) ∧ live.Holds events
  /-- The run is refused whatever the passes that are not executed would do. -/
  stops : ∀ p later, rest = p :: later → ∃ d, FirstMissing p events d ∧
    ∀ (q : Pass κ σ ρ) later', q.depends = p.depends → q.name = p.name →
      run (events.map Event.pass ++ q :: later') start =
        .error (.missingPassData (toString d ++ " for " ++ p.name))

/-- **Live results are tracked exactly.** The passes of a run, up to the first one that misses a
dependency, are executed one after the other, each on the state that the one before left and on
exactly the results of earlier passes that no pass in between made stale. A run that comes to its
end gives the last state and exactly the results that remain. -/
theorem run_tracks (distinct : (passes.map Pass.key).Nodup)
    (total : ∀ p ∈ passes, p.Succeeds) (start : σ) :
    ∃ events rest, Tracks passes start events rest := by
  obtain ⟨events, rest, live, rfl, hrecords, hstuck⟩ := exists_records distinct total start
  refine ⟨events, rest, rfl, hrecords.happens, ?_, fun p later hrest => ?_⟩
  · rintro rfl
    refine ⟨live, ?_, hrecords.holds⟩
    rw [List.append_nil]
    exact hrecords.run
  · obtain ⟨d, hmissing⟩ := hstuck p later hrest
    refine ⟨d, hmissing, fun q later' hdepends hname => ?_⟩
    have hmissing' : FirstMissing q events d := by
      rw [FirstMissing, hdepends]
      exact hmissing
    rw [hrecords.stop hmissing', hname]

theorem succeeds_counting (key : Nat) (depends invalidates : List Nat) :
    (counting key depends invalidates).Succeeds :=
  fun state _ _ => ⟨state + 1, state, rfl⟩

/-- A pass that makes itself and another one stale, before a pass that depends on the other one. -/
def spoiling : List (Pass Nat Nat Nat) :=
  [counting 0 [] [], counting 1 [] [0, 1], counting 2 [0] []]

theorem succeeds_spoiling : ∀ p ∈ spoiling, p.Succeeds := by
  simp [spoiling, succeeds_counting]

/-- The last pass is not executed. -/
theorem run_spoiling_tracks : ∃ events, Tracks spoiling 0 events [counting 2 [0] []] := by
  have hdistinct : (spoiling.map Pass.key).Nodup := by decide
  obtain ⟨events, rest, htracks⟩ := run_tracks hdistinct succeeds_spoiling 0
  cases rest with
  | nil =>
    obtain ⟨live, hrun, -⟩ := htracks.ends rfl
    have hstop : run spoiling 0 = .error (.missingPassData "0 for counting 2") := rfl
    cases hstop.symm.trans hrun
  | cons p later =>
    -- only the last one depends on anything
    obtain ⟨d, ⟨met, unmet, hdepends, -⟩, -⟩ := htracks.stops p later rfl
    have hd : d ∈ p.depends := by simp [hdepends]
    have hsplit := htracks.split
    rcases events with _ | ⟨e, _ | ⟨f, _ | ⟨g, events⟩⟩⟩
    · obtain ⟨rfl, -⟩ := List.cons.inj hsplit
      cases hd
    · obtain ⟨rfl, -⟩ := List.cons.inj (List.cons.inj hsplit).2
      cases hd
    · have hlast : p :: later = [counting 2 [0] []] :=
        (List.cons.inj (List.cons.inj hsplit).2).2.symm
      exact ⟨[e, f], hlast ▸ htracks⟩
    · exact absurd (congrArg List.length hsplit) (by simp [spoiling])

end GimpleLowering.Pass
