import GimpleLowering.Proofs.Build
import Mathlib.Data.List.Forall2

/-!
# Comparing computations

Two computations are compared by running them side by side, from two states that belong together.
They are in step if they end the same way whenever both of them have an end: with results that
correspond and states that belong together again, or with errors that count as the same.

Results can depend on the states for what they mean, as an id does on the table that handed it out.
States only grow, and what corresponds keeps corresponding as they do. The judgment is therefore
made at a pair of states, and it speaks of all runs from states that continue these two.

## Main definitions

* `Build.Comparison` — what it means for states and errors to belong together
* `Build.Comparison.InStep` — two computations end the same way

## Main results

* `Build.Comparison.InStep.bind` and its companions — one rule for each way of putting computations
  together
-/

namespace GimpleLowering.Build

variable {σ τ ε δ α β γ κ : Type}

/-- What the two sides of a comparison have in common. -/
structure Comparison (σ ε : Type) where
  /-- States that belong together. -/
  twins : σ → σ → Prop
  /-- The second state continues the first. -/
  grows : σ → σ → Prop
  /-- Errors that count as the same. -/
  errors : ε → ε → Prop
  refl : ∀ s, grows s s
  trans : ∀ {s t u}, grows s t → grows t u → grows s u

namespace Comparison

/-- How two runs end the same way. What is said of the results may depend on the states. -/
inductive Ends (C : Comparison σ ε) (A : σ → σ → α → β → Prop) (s s' : σ) :
    Except ε α × σ → Except ε β × σ → Prop where
  | ok {a : α} {b : β} {t t' : σ} (grows : C.grows s t) (grows' : C.grows s' t')
      (twins : C.twins t t') (results : A t t' a b) : Ends C A s s' (.ok a, t) (.ok b, t')
  | error {e e' : ε} {t t' : σ} (errors : C.errors e e') :
      Ends C A s s' (.error e, t) (.error e', t')

/-- From all states that belong together and continue two given ones, the computations end the same
way, if both of them have an end. -/
def InStep (C : Comparison σ ε) (q q' : σ) (A : σ → σ → α → β → Prop) (m : Build σ ε α)
    (m' : Build σ ε β) : Prop :=
  ∀ s s', C.grows q s → C.grows q' s' → C.twins s s' →
    ∀ p p', m.runOn s = .ok p → m'.runOn s' = .ok p' → C.Ends A s s' p p'

/-- The same states, with other errors. -/
def withErrors (C : Comparison σ ε) (errors : δ → δ → Prop) : Comparison σ δ :=
  ⟨C.twins, C.grows, errors, C.refl, C.trans⟩

/-- Results that are equal. -/
def Same (_ _ : σ) (a b : α) : Prop := a = b

/-- The computation is in step with itself, from any states. -/
def Steady (C : Comparison σ ε) (m : Build σ ε α) : Prop := ∀ q q', C.InStep q q' Same m m

variable {C : Comparison σ ε} {q q' : σ} {A A' : σ → σ → α → β → Prop} {m : Build σ ε α}
  {m' : Build σ ε β}

/-! ### Rules -/

namespace InStep

theorem mono (h : C.InStep q q' A m m') (hA : ∀ s s' a b, A s s' a b → A' s s' a b) :
    C.InStep q q' A' m m' := by
  intro s s' hs hs' ht p p' hp hp'
  cases h s s' hs hs' ht p p' hp hp' with
  | ok grows grows' twins results => exact .ok grows grows' twins (hA _ _ _ _ results)
  | error errors => exact .error errors

/-- What holds at two states holds at those that continue them. -/
theorem continued {t t' : σ} (h : C.InStep q q' A m m') (hg : C.grows q t) (hg' : C.grows q' t') :
    C.InStep t t' A m m' :=
  fun s s' hs hs' => h s s' (C.trans hg hs) (C.trans hg' hs')

theorem pure {a : α} {b : β}
    (h : ∀ s s', C.grows q s → C.grows q' s' → C.twins s s' → A s s' a b) :
    C.InStep q q' A (Pure.pure a) (Pure.pure b) := by
  intro s s' hs hs' ht p p' hp hp'
  cases hp
  cases hp'
  exact .ok (C.refl s) (C.refl s') ht (h s s' hs hs' ht)

theorem throw {e e' : ε} (h : C.errors e e') :
    C.InStep q q' A (MonadExcept.throw e) (MonadExcept.throw e') := by
  intro s s' hs hs' ht p p' hp hp'
  cases hp
  cases hp'
  exact .error h

theorem step {f : σ → α × σ} {f' : σ → β × σ}
    (h : ∀ s s', C.grows q s → C.grows q' s' → C.twins s s' →
      C.grows s (f s).2 ∧ C.grows s' (f' s').2 ∧ C.twins (f s).2 (f' s').2 ∧
        A (f s).2 (f' s').2 (f s).1 (f' s').1) :
    C.InStep q q' A (Build.step f) (Build.step f') := by
  intro s s' hs hs' ht p p' hp hp'
  cases hp
  cases hp'
  obtain ⟨hg, hg', htwins, hresults⟩ := h s s' hs hs' ht
  exact .ok hg hg' htwins hresults

/-- The second steps are compared where the first ones have ended. -/
theorem bind {B : σ → σ → γ → κ → Prop} {f : α → Build σ ε γ} {f' : β → Build σ ε κ}
    (hm : C.InStep q q' A m m')
    (hf : ∀ s s' a b, C.grows q s → C.grows q' s' → A s s' a b →
      C.InStep s s' B (f a) (f' b)) : C.InStep q q' B (m >>= f) (m' >>= f') := by
  intro s s' hs hs' ht p p' hp hp'
  rw [runOn_bind] at hp hp'
  cases hr : m.runOn s with
  | error u => simp [hr] at hp
  | ok o =>
    cases hr' : m'.runOn s' with
    | error u => simp [hr'] at hp'
    | ok o' =>
      have hends := hm s s' hs hs' ht o o' hr hr'
      rw [hr] at hp
      rw [hr'] at hp'
      cases hends with
      | error errors =>
        cases hp
        cases hp'
        exact .error errors
      | @ok a b t t' grows grows' twins results =>
        have hrest := hf t t' a b (C.trans hs grows) (C.trans hs' grows') results t t' (C.refl t)
          (C.refl t') twins p p' hp hp'
        cases hrest with
        | error errors => exact .error errors
        | ok grows₁ grows₁' twins₁ results₁ =>
          exact .ok (C.trans grows grows₁) (C.trans grows' grows₁') twins₁ results₁

/-- The two sides may look at their states, which belong together. -/
theorem get_bind {f : σ → Build σ ε α} {f' : σ → Build σ ε β}
    (h : ∀ s s', C.grows q s → C.grows q' s' → C.twins s s' →
      C.InStep s s' A (f s) (f' s')) : C.InStep q q' A (get >>= f) (get >>= f') := by
  intro s s' hs hs' ht p p' hp hp'
  exact h s s' hs hs' ht s s' (C.refl s) (C.refl s') ht p p' hp hp'

theorem mapError {E : δ → δ → Prop} {g : ε → δ} (h : C.InStep q q' A m m')
    (errors : ∀ e e', C.errors e e' → E (g e) (g e')) :
    (C.withErrors E).InStep q q' A (m.mapError g) (m'.mapError g) := by
  intro s s' hs hs' ht p p' hp hp'
  obtain ⟨r, t, hr, rfl⟩ := of_mapError hp
  obtain ⟨r', t', hr', rfl⟩ := of_mapError hp'
  cases h s s' hs hs' ht _ _ hr hr' with
  | ok hg hg' htwins results => exact .ok hg hg' htwins results
  | error h => exact .error (errors _ _ h)

/-- A part of the state can be compared by itself. -/
theorem zoom {D : Comparison τ ε} {B : τ → τ → α → β → Prop} {get : σ → τ} {set : σ → τ → σ}
    {n : Build τ ε α} {n' : Build τ ε β} (h : D.InStep (get q) (get q') B n n')
    (start : ∀ s s', C.twins s s' → D.twins (get s) (get s'))
    (grows : ∀ s t, C.grows s t → D.grows (get s) (get t))
    (errors : ∀ e e', D.errors e e' → C.errors e e')
    (back : ∀ s s' t t', C.twins s s' → D.grows (get s) t → D.grows (get s') t' → D.twins t t' →
      C.grows s (set s t) ∧ C.grows s' (set s' t') ∧ C.twins (set s t) (set s' t'))
    (results : ∀ s s' t t' a b, B t t' a b → A (set s t) (set s' t') a b) :
    C.InStep q q' A (Build.zoom get set n) (Build.zoom get set n') := by
  intro s s' hs hs' ht p p' hp hp'
  obtain ⟨r, t, hr, rfl⟩ := of_zoom hp
  obtain ⟨r', t', hr', rfl⟩ := of_zoom hp'
  cases h _ _ (grows _ _ hs) (grows _ _ hs') (start s s' ht) _ _ hr hr' with
  | error h => exact .error (errors _ _ h)
  | ok hg hg' htwins h =>
    obtain ⟨hback, hback', htwins⟩ := back s s' t t' ht hg hg' htwins
    exact .ok hback hback' htwins (results s s' t t' _ _ h)

/-- Lists of computations that are in step one by one. What is said of a result has to stay true. -/
theorem mapM {as : List γ} {bs : List κ} {f : γ → Build σ ε α} {f' : κ → Build σ ε β}
    (stays : ∀ s s' t t' a b, C.grows s t → C.grows s' t' → A s s' a b → A t t' a b)
    (h : List.Forall₂ (fun c d => C.InStep q q' A (f c) (f' d)) as bs) :
    C.InStep q q' (fun s s' => List.Forall₂ (A s s')) (as.mapM f) (bs.mapM f') := by
  induction h with
  | nil =>
    rw [List.mapM_nil, List.mapM_nil]
    exact .pure fun _ _ _ _ _ => .nil
  | cons head tail ih =>
    rw [List.mapM_cons, List.mapM_cons]
    refine head.bind fun s s' a b hs hs' hab => ?_
    have htail := ih.continued hs hs'
    refine htail.bind fun t t' as bs ht ht' hrest => .pure fun u u' hu hu' _ => ?_
    refine .cons (stays s s' u u' a b (C.trans ht hu) (C.trans ht' hu') hab) ?_
    exact hrest.imp fun a b => stays t t' u u' a b hu hu'

/-- A step with equal results. -/
theorem bind_same {B : σ → σ → γ → κ → Prop} {m m' : Build σ ε α} {f : α → Build σ ε γ}
    {f' : α → Build σ ε κ} (hm : C.InStep q q' Same m m')
    (hf : ∀ a, C.InStep q q' B (f a) (f' a)) : C.InStep q q' B (m >>= f) (m' >>= f') := by
  refine hm.bind fun s s' a b hs hs' hab => ?_
  obtain rfl : a = b := hab
  exact (hf a).continued hs hs'

/-- Lists of computations with equal results. -/
theorem mapM_same {as : List γ} {bs : List κ} {f : γ → Build σ ε α} {f' : κ → Build σ ε α}
    (h : List.Forall₂ (fun c d => C.InStep q q' Same (f c) (f' d)) as bs) :
    C.InStep q q' Same (as.mapM f) (bs.mapM f') := by
  refine (mapM (fun _ _ _ _ _ _ _ _ h => h) h).mono fun s s' as bs hab => ?_
  have heq : List.Forall₂ Eq as bs := hab
  rwa [List.forall₂_eq_eq_eq] at heq

end InStep

/-! ### Computations that are in step with themselves -/

namespace Steady

variable {n : Build σ ε α}

theorem pure (a : α) : C.Steady (Pure.pure a : Build σ ε α) :=
  fun _ _ => .pure fun _ _ _ _ _ => rfl

theorem throw {e : ε} (h : C.errors e e) : C.Steady (MonadExcept.throw e : Build σ ε α) :=
  fun _ _ => .throw h

theorem present (index : Nat) (o : Option α) : C.Steady (Build.present index o : Build σ ε α) := by
  cases o with
  | none =>
    intro q q' s s' _ _ _ p p' hp
    cases hp
  | some a => exact pure a

theorem step {f : σ → α × σ} (h : ∀ s s', C.twins s s' →
    C.grows s (f s).2 ∧ C.grows s' (f s').2 ∧ C.twins (f s).2 (f s').2 ∧ (f s).1 = (f s').1) :
    C.Steady (Build.step f : Build σ ε α) :=
  fun _ _ => .step fun s s' _ _ => h s s'

theorem ofExcept (h : ∀ e, C.errors e e) (r : Except ε α) :
    C.Steady (Build.ofExcept r : Build σ ε α) := by
  cases r with
  | ok a => exact pure a
  | error e => exact throw (h e)

theorem bind {f : α → Build σ ε γ} (hn : C.Steady n) (hf : ∀ a, C.Steady (f a)) :
    C.Steady (n >>= f) :=
  fun q q' => (hn q q').bind_same fun a => hf a q q'

theorem get_bind {f : σ → Build σ ε α}
    (h : ∀ s s', C.twins s s' → C.InStep s s' Same (f s) (f s')) : C.Steady (get >>= f) :=
  fun _ _ => .get_bind fun s s' _ _ => h s s'

theorem mapError {E : δ → δ → Prop} {g : ε → δ} (hn : C.Steady n)
    (errors : ∀ e e', C.errors e e' → E (g e) (g e')) : (C.withErrors E).Steady (n.mapError g) :=
  fun q q' => (hn q q').mapError errors

theorem mapM (as : List γ) {f : γ → Build σ ε α} (h : ∀ a ∈ as, C.Steady (f a)) :
    C.Steady (as.mapM f) :=
  fun q q' => .mapM_same (List.forall₂_same.2 fun a ha => h a ha q q')

theorem forM (as : List γ) {f : γ → Build σ ε PUnit} (h : ∀ a ∈ as, C.Steady (f a)) :
    C.Steady (ForM.forM as f) := by
  induction as with
  | nil =>
    rw [List.forM_nil]
    exact pure _
  | cons a as ih =>
    rw [List.forM_cons]
    exact (h a (by simp)).bind fun _ => ih fun c hc => h c (by simp [hc])

end Steady

end Comparison

end GimpleLowering.Build
