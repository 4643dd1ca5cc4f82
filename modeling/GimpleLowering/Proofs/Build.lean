import GimpleLowering.Build
import GimpleLowering.Proofs.Except
import Mathlib.Order.Defs.Unbundled

/-!
# Runs of computations

A computation that ends well takes a state to a result and another state: `Build.Ran`. Taking a
computation apart means rewriting `Ran` of a whole into `Ran` of its steps, so every way of putting
computations together has one equivalence here, and no later proof unfolds the monad.

What holds whether a computation ends well or is refused is a relation between the state before and
the state after: `Build.Keeps`. It is what survives of a function that could not be lowered.

## Main definitions

* `Build.Ran` — a run that ends well
* `Build.Fails` — a run that is refused
* `Build.Keeps` — a relation between the states of all runs

## Main results

* `Build.ran_bind` and its companions — a run of a whole as runs of its parts
* `Build.Keeps.bind` — a transitive relation holds of a sequence if it holds of its steps
-/

namespace GimpleLowering.Build

variable {σ τ ε δ α β : Type}

/-! ### Runs that end well -/

/-- The computation ends well, with a result and a state. -/
def Ran (m : Build σ ε α) (s : σ) (a : α) (s' : σ) : Prop := m.runOn s = .ok (.ok a, s')

/-- The computation ends well, which can be found out by running it. -/
def endsWell (m : Build σ ε α) (s : σ) : Bool :=
  match m.runOn s with
  | .ok (.ok _, _) => true
  | _ => false

theorem exists_ran_of_endsWell {m : Build σ ε α} {s : σ} (h : m.endsWell s = true) :
    ∃ a s', m.Ran s a s' := by
  unfold endsWell at h
  split at h
  · exact ⟨_, _, ‹_›⟩
  · cases h

@[simp] theorem ran_pure {a b : α} {s s' : σ} :
    (pure a : Build σ ε α).Ran s b s' ↔ b = a ∧ s' = s := by
  simp only [Ran, runOn_pure, Except.ok.injEq, Prod.mk.injEq]
  exact ⟨fun ⟨h, h'⟩ => ⟨h.symm, h'.symm⟩, fun ⟨h, h'⟩ => ⟨h.symm, h'.symm⟩⟩

@[simp] theorem ran_throw {e : ε} {a : α} {s s' : σ} :
    (throw e : Build σ ε α).Ran s a s' ↔ False := by simp [Ran]

@[simp] theorem ran_unending {record : Gimple.Ty} {a : α} {s s' : σ} :
    (unending record : Build σ ε α).Ran s a s' ↔ False := by simp [Ran]

@[simp] theorem ran_present {index : Nat} {o : Option α} {a : α} {s s' : σ} :
    (present index o : Build σ ε α).Ran s a s' ↔ o = some a ∧ s' = s := by
  cases o with
  | none => simp [Ran]
  | some b =>
    rw [present_some, ran_pure, Option.some.injEq]
    exact and_congr_left' eq_comm

/-- A sequence ends well if both steps do, one after the other. -/
@[simp] theorem ran_bind {m : Build σ ε α} {f : α → Build σ ε β} {s s'' : σ} {b : β} :
    (m >>= f).Ran s b s'' ↔ ∃ a s', m.Ran s a s' ∧ (f a).Ran s' b s'' := by
  unfold Ran
  rw [runOn_bind]
  constructor
  · intro h
    split at h
    · exact ⟨_, _, ‹_›, h⟩
    · cases h
    · cases h
  · rintro ⟨a, s', h, h'⟩
    rw [h]
    exact h'

/-- What follows a computation only matters after the runs that end well. -/
theorem bind_congr_of_ran {m : Build σ ε α} {f g : α → Build σ ε β}
    (h : ∀ s a s', m.Ran s a s' → (f a).runOn s' = (g a).runOn s') : m >>= f = m >>= g := by
  funext s
  change (m >>= f).runOn s = (m >>= g).runOn s
  rw [runOn_bind, runOn_bind]
  split
  · exact h s _ _ ‹_›
  · rfl
  · rfl

@[simp] theorem ran_step {f : σ → α × σ} {s s' : σ} {a : α} :
    (step f : Build σ ε α).Ran s a s' ↔ a = (f s).1 ∧ s' = (f s).2 := by
  simp only [Ran, runOn_step, Except.ok.injEq, Prod.mk.injEq]
  exact ⟨fun ⟨h, h'⟩ => ⟨h.symm, h'.symm⟩, fun ⟨h, h'⟩ => ⟨h.symm, h'.symm⟩⟩

@[simp] theorem ran_ofExcept {r : Except ε α} {s s' : σ} {a : α} :
    (ofExcept r : Build σ ε α).Ran s a s' ↔ r = .ok a ∧ s' = s := by
  simp only [Ran, runOn_ofExcept, Except.ok.injEq, Prod.mk.injEq]
  exact ⟨fun ⟨h, h'⟩ => ⟨h, h'.symm⟩, fun ⟨h, h'⟩ => ⟨h, h'.symm⟩⟩

@[simp] theorem ran_get {s s' t : σ} : (get : Build σ ε σ).Ran s t s' ↔ t = s ∧ s' = s := by
  have h : (get : Build σ ε σ).runOn s = .ok (.ok s, s) := rfl
  simp only [Ran, h, Except.ok.injEq, Prod.mk.injEq]
  exact ⟨fun ⟨h, h'⟩ => ⟨h.symm, h'.symm⟩, fun ⟨h, h'⟩ => ⟨h.symm, h'.symm⟩⟩

@[simp] theorem ran_zoom {get : σ → τ} {set : σ → τ → σ} {m : Build τ ε α} {s s' : σ} {a : α} :
    (zoom get set m).Ran s a s' ↔ ∃ t, m.Ran (get s) a t ∧ s' = set s t := by
  simp only [Ran, zoom, runOn_ofRun]
  cases m.runOn (get s) with
  | error u => simp [bind, Except.bind]
  | ok r =>
    obtain ⟨r, t⟩ := r
    simp only [bind, Except.bind, pure, Except.pure, Except.ok.injEq, Prod.mk.injEq]
    exact ⟨fun ⟨h, h'⟩ => ⟨t, ⟨h, rfl⟩, h'.symm⟩, fun ⟨_, ⟨h, h'⟩, h''⟩ => ⟨h, by rw [h'', h']⟩⟩

@[simp] theorem ran_mapError {f : ε → δ} {m : Build σ ε α} {s s' : σ} {a : α} :
    (m.mapError f).Ran s a s' ↔ m.Ran s a s' := by
  simp only [Ran, mapError, runOn_ofRun]
  cases m.runOn s with
  | error u => simp [bind, Except.bind]
  | ok r =>
    obtain ⟨r, t⟩ := r
    cases r <;> simp [bind, Except.bind, pure, Except.pure, Except.mapError]

/-- What is tried ends well in any case. -/
@[simp] theorem ran_attempt {m : Build σ ε α} {r : Except ε α} {s s' : σ} :
    (m.attempt : Build σ δ (Except ε α)).Ran s r s' ↔ m.runOn s = .ok (r, s') := by
  simp only [Ran, attempt, runOn_ofRun]
  cases m.runOn s with
  | error u => simp [bind, Except.bind]
  | ok p =>
    obtain ⟨r', t⟩ := p
    simp [bind, Except.bind, pure, Except.pure]

/-- The runs of a list of computations, one after the other. -/
@[simp] theorem ran_mapM_nil {f : α → Build σ ε β} {s s' : σ} {bs : List β} :
    (([] : List α).mapM f).Ran s bs s' ↔ bs = [] ∧ s' = s := by
  rw [List.mapM_nil, ran_pure]

@[simp] theorem ran_mapM_cons {f : α → Build σ ε β} {a : α} {as : List α} {s s'' : σ}
    {bs : List β} :
    ((a :: as).mapM f).Ran s bs s'' ↔
      ∃ b s' rest, (f a).Ran s b s' ∧ (as.mapM f).Ran s' rest s'' ∧ bs = b :: rest := by
  rw [List.mapM_cons]
  simp only [ran_bind, ran_pure]
  constructor
  · rintro ⟨b, s₁, h, rest, s₂, h', rfl, rfl⟩
    exact ⟨b, s₁, rest, h, h', rfl⟩
  · rintro ⟨b, s₁, rest, h, h', rfl⟩
    exact ⟨b, s₁, h, rest, _, h', rfl, rfl⟩

/-- There is one result for each computation of a list. -/
theorem length_of_mapM_ran {f : α → Build σ ε β} {as : List α} {s s' : σ} {bs : List β}
    (h : (as.mapM f).Ran s bs s') : bs.length = as.length := by
  induction as generalizing s bs with
  | nil =>
    rw [(ran_mapM_nil.1 h).1]
    rfl
  | cons a as ih =>
    obtain ⟨b, s₁, rest, -, hrest, rfl⟩ := ran_mapM_cons.1 h
    rw [List.length_cons, List.length_cons, ih hrest]

@[simp] theorem ran_forM_nil {f : α → Build σ ε PUnit} {s s' : σ} {u : PUnit} :
    (forM ([] : List α) f).Ran s u s' ↔ s' = s := by
  rw [List.forM_nil, ran_pure]
  simp

@[simp] theorem ran_forM_cons {f : α → Build σ ε PUnit} {a : α} {as : List α} {s s'' : σ}
    {u : PUnit} :
    (forM (a :: as) f).Ran s u s'' ↔ ∃ s', (f a).Ran s ⟨⟩ s' ∧ (forM as f).Ran s' ⟨⟩ s'' := by
  rw [List.forM_cons]
  simp only [ran_bind]
  constructor
  · rintro ⟨_, s', h, h'⟩
    exact ⟨s', h, h'⟩
  · rintro ⟨s', h, h'⟩
    exact ⟨⟨⟩, s', h, h'⟩

/-! ### Runs that are refused -/

/-- The computation is refused with an error, and leaves a state behind. -/
def Fails (m : Build σ ε α) (s : σ) (e : ε) (s' : σ) : Prop := m.runOn s = .ok (.error e, s')

@[simp] theorem fails_pure {a : α} {e : ε} {s s' : σ} :
    (pure a : Build σ ε α).Fails s e s' ↔ False := by simp [Fails]

@[simp] theorem fails_throw {e e' : ε} {s s' : σ} :
    (throw e : Build σ ε α).Fails s e' s' ↔ e' = e ∧ s' = s := by
  simp only [Fails, runOn_throw, Except.ok.injEq, Except.error.injEq, Prod.mk.injEq]
  exact ⟨fun ⟨h, h'⟩ => ⟨h.symm, h'.symm⟩, fun ⟨h, h'⟩ => ⟨h.symm, h'.symm⟩⟩

@[simp] theorem fails_unending {record : Gimple.Ty} {e : ε} {s s' : σ} :
    (unending record : Build σ ε α).Fails s e s' ↔ False := by simp [Fails]

@[simp] theorem fails_present {index : Nat} {o : Option α} {e : ε} {s s' : σ} :
    (present index o : Build σ ε α).Fails s e s' ↔ False := by
  cases o <;> simp [Fails]

/-- A sequence is refused if the first step is, or if the second one is after the first. -/
@[simp] theorem fails_bind {m : Build σ ε α} {f : α → Build σ ε β} {s s'' : σ} {e : ε} :
    (m >>= f).Fails s e s'' ↔
      m.Fails s e s'' ∨ ∃ a s', m.Ran s a s' ∧ (f a).Fails s' e s'' := by
  unfold Fails Ran
  rw [runOn_bind]
  constructor
  · intro h
    split at h
    · exact .inr ⟨_, _, ‹_›, h⟩
    · cases h
      exact .inl ‹_›
    · cases h
  · rintro (h | ⟨a, s', h, h'⟩)
    · rw [h]
    · rw [h]
      exact h'

/-- A sequence that has an end goes on after its first step, or is refused there. -/
theorem of_runOn_bind {m : Build σ ε α} {f : α → Build σ ε β} {s s'' : σ} {r : Except ε β}
    (h : (m >>= f).runOn s = .ok (r, s'')) :
    (∃ a s', m.Ran s a s' ∧ (f a).runOn s' = .ok (r, s'')) ∨
      ∃ e, r = .error e ∧ m.Fails s e s'' := by
  rw [runOn_bind] at h
  split at h
  · exact .inl ⟨_, _, ‹_›, h⟩
  · cases h
    exact .inr ⟨_, rfl, ‹_›⟩
  · cases h

@[simp] theorem fails_step {f : σ → α × σ} {e : ε} {s s' : σ} :
    (step f : Build σ ε α).Fails s e s' ↔ False := by simp [Fails]

@[simp] theorem fails_ofExcept {r : Except ε α} {e : ε} {s s' : σ} :
    (ofExcept r : Build σ ε α).Fails s e s' ↔ r = .error e ∧ s' = s := by
  simp only [Fails, runOn_ofExcept, Except.ok.injEq, Prod.mk.injEq]
  exact ⟨fun ⟨h, h'⟩ => ⟨h, h'.symm⟩, fun ⟨h, h'⟩ => ⟨h, h'.symm⟩⟩

@[simp] theorem fails_get {e : ε} {s s' : σ} :
    (get : Build σ ε σ).Fails s e s' ↔ False := by
  have h : (get : Build σ ε σ).runOn s = .ok (.ok s, s) := rfl
  simp [Fails, h]

@[simp] theorem fails_attempt {m : Build σ ε α} {e : δ} {s s' : σ} :
    (m.attempt : Build σ δ (Except ε α)).Fails s e s' ↔ False := by
  simp only [Fails, attempt, runOn_ofRun]
  cases m.runOn s <;> simp [bind, Except.bind, pure, Except.pure]

/-! ### Errors in other terms -/

theorem mapError_pure (g : ε → δ) (a : α) : (pure a : Build σ ε α).mapError g = pure a := rfl

theorem mapError_bind (g : ε → δ) (m : Build σ ε α) (f : α → Build σ ε β) :
    (m >>= f).mapError g = m.mapError g >>= fun a => (f a).mapError g := by
  funext s
  change ((m >>= f).mapError g).runOn s = (m.mapError g >>= fun a => (f a).mapError g).runOn s
  rw [runOn_bind]
  simp only [mapError, runOn_ofRun]
  rw [runOn_bind]
  cases m.runOn s with
  | error u => rfl
  | ok p =>
    obtain ⟨r, t⟩ := p
    cases r <;> rfl

/-! ### Runs with an end -/

theorem of_mapError {f : ε → δ} {m : Build σ ε α} {s : σ} {p : Except δ α × σ}
    (h : (m.mapError f).runOn s = .ok p) :
    ∃ r t, m.runOn s = .ok (r, t) ∧ p = (r.mapError f, t) := by
  simp only [mapError, runOn_ofRun] at h
  obtain ⟨⟨r, t⟩, hr, h⟩ := Except.of_bind h
  exact ⟨r, t, hr, (Except.ok.inj h).symm⟩

theorem of_attempt {m : Build σ ε α} {s : σ} {p : Except δ (Except ε α) × σ}
    (h : m.attempt.runOn s = .ok p) : ∃ r t, m.runOn s = .ok (r, t) ∧ p = (.ok r, t) := by
  simp only [attempt, runOn_ofRun] at h
  obtain ⟨⟨r, t⟩, hr, h⟩ := Except.of_bind h
  exact ⟨r, t, hr, (Except.ok.inj h).symm⟩

theorem of_zoom {get : σ → τ} {set : σ → τ → σ} {m : Build τ ε α} {s : σ} {p : Except ε α × σ}
    (h : (zoom get set m).runOn s = .ok p) :
    ∃ r t, m.runOn (get s) = .ok (r, t) ∧ p = (r, set s t) := by
  simp only [zoom, runOn_ofRun] at h
  obtain ⟨⟨r, t⟩, hr, h⟩ := Except.of_bind h
  exact ⟨r, t, hr, (Except.ok.inj h).symm⟩

/-! ### All runs -/

/-- The relation holds between the states before and after every run that has an end, whether the
computation ends well or is refused. -/
def Keeps (m : Build σ ε α) (R : σ → σ → Prop) : Prop :=
  ∀ s r s', m.runOn s = .ok (r, s') → R s s'

theorem Keeps.ran {m : Build σ ε α} {R : σ → σ → Prop} (h : m.Keeps R) {s s' : σ} {a : α}
    (hm : m.Ran s a s') : R s s' :=
  h s _ s' hm

theorem Keeps.mono {m : Build σ ε α} {R R' : σ → σ → Prop} (h : m.Keeps R)
    (hR : ∀ s s', R s s' → R' s s') : m.Keeps R' :=
  fun s r s' hs => hR s s' (h s r s' hs)

section

variable {R : σ → σ → Prop}

theorem Keeps.pure [Std.Refl R] (a : α) : (Pure.pure a : Build σ ε α).Keeps R := by
  intro s r s' h
  rw [runOn_pure] at h
  cases h
  exact refl_of R s

theorem Keeps.throw [Std.Refl R] (e : ε) :
    (MonadExcept.throw e : Build σ ε α).Keeps R := by
  intro s r s' h
  cases h
  exact refl_of R s

theorem Keeps.unending (record : Gimple.Ty) :
    (Build.unending record : Build σ ε α).Keeps R := by
  intro s r s' h
  cases h

theorem Keeps.present [Std.Refl R] (index : Nat) (o : Option α) :
    (Build.present index o : Build σ ε α).Keeps R := by
  cases o with
  | none =>
    intro s r s' h
    cases h
  | some a => exact .pure a

/-- What is done with an entry is only done if it is there. -/
theorem Keeps.present_bind {index : Nat} {o : Option α} {f : α → Build σ ε β}
    (h : ∀ a, o = some a → (f a).Keeps R) : (Build.present index o >>= f).Keeps R := by
  cases o with
  | none =>
    intro s r s' hs
    cases hs
  | some a => exact h a rfl

theorem Keeps.get [Std.Refl R] : (MonadState.get : Build σ ε σ).Keeps R := by
  intro s r s' h
  cases h
  exact refl_of R s

theorem Keeps.ofExcept [Std.Refl R] (x : Except ε α) :
    (Build.ofExcept x : Build σ ε α).Keeps R := by
  intro s r s' h
  cases h
  exact refl_of R s

theorem Keeps.step {f : σ → α × σ} (h : ∀ s, R s (f s).2) :
    (Build.step f : Build σ ε α).Keeps R := by
  intro s r s' hs
  cases hs
  exact h s

/-- A sequence either fails in its first step, or the second step runs after the first has ended
well. -/
theorem Keeps.bind_of_ran {m : Build σ ε α} {f : α → Build σ ε β} (hm : m.Keeps R)
    (hf : ∀ s a s', m.Ran s a s' → ∀ r s'', (f a).runOn s' = .ok (r, s'') → R s s'') :
    (m >>= f).Keeps R := by
  intro s r s'' h
  rw [runOn_bind] at h
  split at h
  · rename_i a s' h'
    exact hf s a s' h' r s'' h
  · rename_i e s' h'
    cases h
    exact hm s _ _ h'
  · cases h

/-- What holds of two steps holds of the sequence. -/
theorem Keeps.bind [IsTrans σ R] {m : Build σ ε α}
    {f : α → Build σ ε β} (hm : m.Keeps R) (hf : ∀ a, (f a).Keeps R) : (m >>= f).Keeps R :=
  hm.bind_of_ran fun _ a s' h r s'' h' => trans_of R (hm.ran h) (hf a s' r s'' h')

theorem Keeps.mapError (f : ε → δ) {m : Build σ ε α} (hm : m.Keeps R) :
    (m.mapError f).Keeps R := by
  intro s r s' h
  obtain ⟨r', t, hr, heq⟩ := of_mapError h
  obtain ⟨-, rfl⟩ := Prod.mk.inj heq
  exact hm s r' _ hr

theorem Keeps.attempt {m : Build σ ε α} (hm : m.Keeps R) :
    (m.attempt : Build σ δ (Except ε α)).Keeps R := by
  intro s r s' h
  obtain ⟨r', t, hr, heq⟩ := of_attempt h
  obtain ⟨-, rfl⟩ := Prod.mk.inj heq
  exact hm s r' _ hr

theorem Keeps.zoom {T : τ → τ → Prop} {get : σ → τ} {set : σ → τ → σ} {m : Build τ ε α}
    (hm : m.Keeps T) (h : ∀ s t, T (get s) t → R s (set s t)) : (Build.zoom get set m).Keeps R := by
  intro s r s' hs
  obtain ⟨r', t, hr, heq⟩ := of_zoom hs
  obtain ⟨-, rfl⟩ := Prod.mk.inj heq
  exact h s t (hm _ r' t hr)

theorem Keeps.mapM [Std.Refl R] [IsTrans σ R]
    {f : α → Build σ ε β} (as : List α) (hf : ∀ a ∈ as, (f a).Keeps R) : (as.mapM f).Keeps R := by
  induction as with
  | nil =>
    rw [List.mapM_nil]
    exact .pure _
  | cons a as ih =>
    rw [List.mapM_cons]
    refine (hf a (by simp)).bind fun b => ?_
    exact (ih fun c hc => hf c (by simp [hc])).bind fun bs => .pure _

theorem Keeps.forM [Std.Refl R] [IsTrans σ R]
    {f : α → Build σ ε PUnit} (as : List α) (hf : ∀ a ∈ as, (f a).Keeps R) :
    (ForM.forM as f).Keeps R := by
  induction as with
  | nil =>
    rw [List.forM_nil]
    exact .pure _
  | cons a as ih =>
    rw [List.forM_cons]
    exact (hf a (by simp)).bind fun _ => ih fun c hc => hf c (by simp [hc])

end

end GimpleLowering.Build
