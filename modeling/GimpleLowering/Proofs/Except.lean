import Mathlib.Tactic.Common

/-!
# Outcomes that are results

A computation of several steps has a result only if each of its steps has one.

## Main results

* `Except.of_bind`, `Except.of_map` — the steps of a computation with a result
* `Except.error_of_bind` — the step at which a computation is refused
* `mem_of_mapM`, `mem_of_foldlM` — where the items of a list come from
* `mapM_map_eq_ok` — a list that is read back
* `forM_eq_ok`, `exists_of_forM_error`, `exists_of_foldlM_error` — a step for each item of a list
-/

namespace GimpleLowering

variable {ε α β : Type}

/-- A sequence has a result only if the first step has one. -/
theorem Except.of_bind {r : Except ε α} {f : α → Except ε β} {b : β} (h : r >>= f = .ok b) :
    ∃ a, r = .ok a ∧ f a = .ok b := by
  cases r with
  | error e => cases h
  | ok a => exact ⟨a, rfl, h⟩

/-- A sequence is refused if the first step is, or if the second one is after the first. -/
theorem Except.error_of_bind {r : Except ε α} {f : α → Except ε β} {e : ε}
    (h : r >>= f = .error e) : r = .error e ∨ ∃ a, r = .ok a ∧ f a = .error e := by
  cases r with
  | error e' =>
    cases h
    exact .inl rfl
  | ok a => exact .inr ⟨a, rfl, h⟩

theorem Except.of_map {f : α → β} {r : Except ε α} {b : β} (h : r.map f = .ok b) :
    ∃ a, r = .ok a ∧ b = f a := by
  cases r with
  | error e => cases h
  | ok a => exact ⟨a, rfl, (Except.ok.inj h).symm⟩

/-- Each item of a list was computed by itself. -/
theorem mem_of_mapM {read : β → Except ε α} {bs : List β} {as : List α}
    (h : bs.mapM read = .ok as) {a : α} (ha : a ∈ as) : ∃ b ∈ bs, read b = .ok a := by
  induction bs generalizing as with
  | nil =>
    cases h
    cases ha
  | cons b bs ih =>
    rw [List.mapM_cons] at h
    obtain ⟨first, hfirst, h⟩ := Except.of_bind h
    obtain ⟨rest, hrest, h⟩ := Except.of_bind h
    obtain rfl := Except.ok.inj h
    rcases List.mem_cons.1 ha with rfl | ha
    · exact ⟨b, List.mem_cons_self, hfirst⟩
    · obtain ⟨b', hb', hread⟩ := ih hrest ha
      exact ⟨b', List.mem_cons_of_mem _ hb', hread⟩

/-- What is found for a list was found for one of its items. -/
theorem mem_of_mapM_eq_some {f : α → Option β} {as : List α} {bs : List β}
    (h : as.mapM f = some bs) {b : β} (hb : b ∈ bs) : ∃ a ∈ as, f a = some b := by
  induction as generalizing bs with
  | nil =>
    obtain rfl := Option.some.inj h
    cases hb
  | cons a as ih =>
    simp only [List.mapM_cons, Option.bind_eq_bind, Option.bind_eq_some_iff, Option.pure_def,
      Option.some.injEq] at h
    obtain ⟨first, hfirst, rest, hrest, rfl⟩ := h
    rcases List.mem_cons.1 hb with rfl | hb
    · exact ⟨a, List.mem_cons_self, hfirst⟩
    · obtain ⟨a', ha', hfound⟩ := ih hrest hb
      exact ⟨a', List.mem_cons_of_mem _ ha', hfound⟩

/-- What was written item by item is read back if each item is. -/
theorem mapM_map_eq_ok {read : β → Except ε α} {write : α → β} {as : List α}
    (h : ∀ a ∈ as, read (write a) = .ok a) : (as.map write).mapM read = .ok as := by
  induction as with
  | nil => rfl
  | cons a as ih =>
    obtain ⟨ha, has⟩ := List.forall_mem_cons.1 h
    rw [List.map_cons, List.mapM_cons, ha, ih has]
    rfl

/-- What is added one by one, under conditions, comes from the list or was there before. -/
theorem mem_of_foldlM {add : List α → α → Except ε (List α)}
    (hadd : ∀ {xs xs' : List α} {a b : α}, add xs a = .ok xs' → b ∈ xs' → b ∈ xs ∨ b = a)
    {as xs ys : List α} (h : as.foldlM add xs = .ok ys) {b : α} (hb : b ∈ ys) :
    b ∈ xs ∨ b ∈ as := by
  induction as generalizing xs with
  | nil =>
    cases h
    exact .inl hb
  | cons a as ih =>
    rw [List.foldlM_cons] at h
    obtain ⟨xs', ha, h⟩ := Except.of_bind h
    rcases ih h with hb | hb
    · rcases hadd ha hb with hb | rfl
      · exact .inl hb
      · exact .inr (by simp)
    · exact .inr (by simp [hb])

/-- A check of all items of a list is a check of each of them. -/
theorem forM_eq_ok {check : α → Except ε Unit} {as : List α} (h : as.forM check = .ok ()) :
    ∀ a ∈ as, check a = .ok () := by
  induction as with
  | nil => simp
  | cons a as ih =>
    obtain ⟨_, ha, h⟩ := Except.of_bind h
    intro b hb
    rcases List.mem_cons.1 hb with rfl | hb
    · exact ha
    · exact ih h b hb

/-- A list is refused for one of its items. -/
theorem exists_of_forM_error {check : α → Except ε Unit} {as : List α} {e : ε}
    (h : as.forM check = .error e) : ∃ a ∈ as, check a = .error e := by
  induction as with
  | nil => cases h
  | cons a as ih =>
    rcases Except.error_of_bind h with ha | ⟨_, -, h⟩
    · exact ⟨a, List.mem_cons_self, ha⟩
    · obtain ⟨b, hb, he⟩ := ih h
      exact ⟨b, List.mem_cons_of_mem a hb, he⟩

/-- Adding one by one is refused for one of the items. -/
theorem exists_of_foldlM_error {add : β → α → Except ε β} {as : List α} {b : β} {e : ε}
    (h : as.foldlM add b = .error e) : ∃ c a, add c a = .error e := by
  induction as generalizing b with
  | nil => cases h
  | cons a as ih =>
    rw [List.foldlM_cons] at h
    rcases Except.error_of_bind h with ha | ⟨c, -, h⟩
    · exact ⟨b, a, ha⟩
    · exact ih h

end GimpleLowering
