import GimpleLowering.Proofs.Build

/-!
# Computations that end well

A computation that does not end well breaks down or is refused. `Build.EndsUnless` names the
breakdowns and the errors that are possible from a given state, and so says that no others are.
There is one rule for each way of putting computations together; a step is only judged after the
runs of the steps before it that end well, so what these establish can be used.

Where the possible endings of all steps are the same and depend on the state by an invariant only,
the state need not be followed: `Build.Safe`.

## Main definitions

* `Build.EndsUnless` — the breakdowns and errors that are possible from a state
* `Build.Safe` — the same from every state with an invariant, which the computation keeps
-/

namespace GimpleLowering.Build

variable {σ τ ε δ α β : Type} {B : Breakdown → Prop} {E : ε → Prop}

/-! ### From a state -/

/-- From the state, the computation ends well unless it breaks down as in `B` or is refused with an
error as in `E`. -/
structure EndsUnless (m : Build σ ε α) (s : σ) (B : Breakdown → Prop) (E : ε → Prop) : Prop where
  breaks : ∀ {b : Breakdown}, m.runOn s = .error b → B b
  fails : ∀ {e : ε} {s' : σ}, m.Fails s e s' → E e

namespace EndsUnless

variable {m : Build σ ε α} {s : σ}

theorem mono {B' : Breakdown → Prop} {E' : ε → Prop} (h : m.EndsUnless s B E)
    (hB : ∀ b, B b → B' b) (hE : ∀ e, E e → E' e) : m.EndsUnless s B' E' :=
  ⟨fun hb => hB _ (h.breaks hb), fun he => hE _ (h.fails he)⟩

theorem pure (a : α) : (Pure.pure a : Build σ ε α).EndsUnless s B E :=
  ⟨fun h => by simp at h, fun h => by simp at h⟩

theorem throw {e : ε} (h : E e) : (MonadExcept.throw e : Build σ ε α).EndsUnless s B E :=
  ⟨fun hb => by simp at hb, fun he => (fails_throw.1 he).1 ▸ h⟩

theorem unending {record : Gimple.Ty} (h : B (.unending record)) :
    (Build.unending record : Build σ ε α).EndsUnless s B E :=
  ⟨fun hb => Except.error.inj hb ▸ h, fun he => by simp at he⟩

/-- An entry that is there is no reason to break down. -/
theorem present {index : Nat} {o : Option α} (h : o.isSome) :
    (Build.present index o : Build σ ε α).EndsUnless s B E := by
  obtain ⟨a, rfl⟩ := Option.isSome_iff_exists.1 h
  exact .pure a

theorem get : (MonadState.get : Build σ ε σ).EndsUnless s B E := by
  have hget : (MonadState.get : Build σ ε σ).runOn s = .ok (.ok s, s) := rfl
  exact ⟨fun h => by simp [hget] at h, fun h => by simp at h⟩

theorem step (f : σ → α × σ) : (Build.step f : Build σ ε α).EndsUnless s B E :=
  ⟨fun h => by simp at h, fun h => by simp at h⟩

theorem ofExcept {r : Except ε α} (h : ∀ e, r = .error e → E e) :
    (Build.ofExcept r : Build σ ε α).EndsUnless s B E :=
  ⟨fun hb => by simp at hb, fun he => h _ (fails_ofExcept.1 he).1⟩

/-- The second step is only taken after the first one has ended well. -/
theorem bind {f : α → Build σ ε β} (hm : m.EndsUnless s B E)
    (hf : ∀ a s', m.Ran s a s' → (f a).EndsUnless s' B E) : (m >>= f).EndsUnless s B E where
  breaks {b} h := by
    rw [runOn_bind] at h
    split at h
    · exact (hf _ _ ‹_›).breaks h
    · cases h
    · cases h
      exact hm.breaks ‹_›
  fails h := by
    rcases fails_bind.1 h with h | ⟨a, s', ha, h⟩
    · exact hm.fails h
    · exact (hf a s' ha).fails h

theorem zoom {get : σ → τ} {set : σ → τ → σ} {m : Build τ ε α}
    (h : m.EndsUnless (get s) B E) : (Build.zoom get set m).EndsUnless s B E where
  breaks {b} hb := by
    simp only [Build.zoom, runOn_ofRun] at hb
    cases hm : m.runOn (get s) with
    | error b' =>
      rw [hm] at hb
      cases hb
      exact h.breaks hm
    | ok p =>
      rw [hm] at hb
      cases hb
  fails he := by
    obtain ⟨r, t, hr, heq⟩ := of_zoom he
    exact h.fails (hr.trans (by rw [(Prod.mk.inj heq).1]))

theorem mapError {E' : δ → Prop} {f : ε → δ} (h : m.EndsUnless s B fun e => E' (f e)) :
    (m.mapError f).EndsUnless s B E' where
  breaks {b} hb := by
    simp only [Build.mapError, runOn_ofRun] at hb
    cases hm : m.runOn s with
    | error b' =>
      rw [hm] at hb
      cases hb
      exact h.breaks hm
    | ok p =>
      rw [hm] at hb
      cases hb
  fails he := by
    obtain ⟨r, t, hr, heq⟩ := of_mapError he
    obtain ⟨hr', rfl⟩ := Prod.mk.inj heq
    cases r with
    | ok a => cases hr'
    | error e =>
      cases hr'
      exact h.fails hr

/-- What is tried can break down, but it is not refused. -/
theorem attempt {E' : δ → Prop} (h : m.EndsUnless s B E) :
    (m.attempt : Build σ δ (Except ε α)).EndsUnless s B E' where
  breaks {b} hb := by
    simp only [Build.attempt, runOn_ofRun] at hb
    cases hm : m.runOn s with
    | error b' =>
      rw [hm] at hb
      cases hb
      exact h.breaks hm
    | ok p =>
      rw [hm] at hb
      cases hb
  fails he := by simp at he

end EndsUnless

/-! ### From all states with an invariant -/

/-- From every state in `I`, the computation ends well unless it breaks down as in `B` or is refused
with an error as in `E`, and the state stays in `I`. -/
structure Safe (I : σ → Prop) (B : Breakdown → Prop) (E : ε → Prop) (m : Build σ ε α) : Prop where
  ends : ∀ s, I s → m.EndsUnless s B E
  keeps : m.Keeps fun s s' => I s → I s'

namespace Safe

variable {I : σ → Prop} {m : Build σ ε α}

instance : Std.Refl fun s s' : σ => I s → I s' := ⟨fun _ h => h⟩

theorem mono {B' : Breakdown → Prop} {E' : ε → Prop} (h : m.Safe I B E) (hB : ∀ b, B b → B' b)
    (hE : ∀ e, E e → E' e) : m.Safe I B' E' :=
  ⟨fun s hs => (h.ends s hs).mono hB hE, h.keeps⟩

theorem pure (a : α) : (Pure.pure a : Build σ ε α).Safe I B E := ⟨fun _ _ => .pure a, .pure a⟩

theorem throw {e : ε} (h : E e) : (MonadExcept.throw e : Build σ ε α).Safe I B E :=
  ⟨fun _ _ => .throw h, .throw e⟩

theorem present {index : Nat} {o : Option α} (h : o.isSome) :
    (Build.present index o : Build σ ε α).Safe I B E :=
  ⟨fun _ _ => .present h, .present index o⟩

theorem get : (MonadState.get : Build σ ε σ).Safe I B E := ⟨fun _ _ => .get, .get⟩

theorem step {f : σ → α × σ} (h : ∀ s, I s → I (f s).2) :
    (Build.step f : Build σ ε α).Safe I B E :=
  ⟨fun _ _ => .step f, .step h⟩

theorem ofExcept {r : Except ε α} (h : ∀ e, r = .error e → E e) :
    (Build.ofExcept r : Build σ ε α).Safe I B E :=
  ⟨fun _ _ => .ofExcept h, .ofExcept r⟩

/-- The second step is only taken after the first one has ended well. -/
theorem bind_of_ran {f : α → Build σ ε β} (hm : m.Safe I B E)
    (hf : ∀ s a s', I s → m.Ran s a s' → (f a).Safe I B E) : (m >>= f).Safe I B E where
  ends s hs := (hm.ends s hs).bind fun a s' h => (hf s a s' hs h).ends s' (hm.keeps.ran h hs)
  keeps := hm.keeps.bind_of_ran fun s a s' h r s'' h' hs =>
    (hf s a s' hs h).keeps s' r s'' h' (hm.keeps.ran h hs)

theorem bind {f : α → Build σ ε β} (hm : m.Safe I B E) (hf : ∀ a, (f a).Safe I B E) :
    (m >>= f).Safe I B E :=
  hm.bind_of_ran fun _ a _ _ _ => hf a

theorem mapError {E' : δ → Prop} {f : ε → δ} (h : m.Safe I B fun e => E' (f e)) :
    (m.mapError f).Safe I B E' :=
  ⟨fun s hs => (h.ends s hs).mapError, h.keeps.mapError f⟩

theorem mapM {f : α → Build σ ε β} (as : List α) (hf : ∀ a ∈ as, (f a).Safe I B E) :
    (as.mapM f).Safe I B E := by
  induction as with
  | nil =>
    rw [List.mapM_nil]
    exact .pure _
  | cons a as ih =>
    rw [List.mapM_cons]
    refine (hf a (by simp)).bind fun b => ?_
    exact (ih fun c hc => hf c (by simp [hc])).bind fun bs => .pure _

theorem forM {f : α → Build σ ε PUnit} (as : List α) (hf : ∀ a ∈ as, (f a).Safe I B E) :
    (ForM.forM as f).Safe I B E := by
  induction as with
  | nil =>
    rw [List.forM_nil]
    exact .pure _
  | cons a as ih =>
    rw [List.forM_cons]
    exact (hf a (by simp)).bind fun _ => ih fun c hc => hf c (by simp [hc])

end Safe

end GimpleLowering.Build
