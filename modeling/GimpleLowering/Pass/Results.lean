/-!
# Results of passes

The live results of the passes that have run so far, each under the key of its pass. A pass has a
result once it has run, and loses it when a later pass invalidates it.
-/

namespace GimpleLowering.Pass

/-- The live results, at most one for each key. -/
structure Results (κ ρ : Type) where
  entries : List (κ × ρ)
  deriving Repr

namespace Results

variable {κ ρ : Type}

/-- No pass has run. -/
def empty : Results κ ρ := ⟨[]⟩

instance : Inhabited (Results κ ρ) := ⟨empty⟩

variable [DecidableEq κ]

/-- The live result of a pass. -/
def get? (rs : Results κ ρ) (key : κ) : Option ρ :=
  (rs.entries.find? fun e => e.1 = key).map Prod.snd

/-- The result of a pass is live. -/
def contains (rs : Results κ ρ) (key : κ) : Bool := (rs.get? key).isSome

/-- Forgets the result of a pass. -/
def clear (rs : Results κ ρ) (key : κ) : Results κ ρ :=
  ⟨rs.entries.filter fun e => e.1 ≠ key⟩

/-- Stores the result of a pass in place of an earlier one. -/
def put (rs : Results κ ρ) (key : κ) (result : ρ) : Results κ ρ :=
  ⟨(rs.clear key).entries ++ [(key, result)]⟩

/-! ### Interface lemmas -/

@[simp] theorem get?_empty (key : κ) : (empty : Results κ ρ).get? key = none := rfl

@[simp] theorem get?_clear (rs : Results κ ρ) (key k : κ) :
    (rs.clear key).get? k = if k = key then none else rs.get? k := by
  simp only [clear, get?, List.find?_filter]
  by_cases h : k = key
  · subst h
    simp
  · simp only [h, if_false]
    congr 2
    funext e
    by_cases he : e.1 = k <;> simp [he, h]

@[simp] theorem get?_put (rs : Results κ ρ) (key k : κ) (result : ρ) :
    (rs.put key result).get? k = if k = key then some result else rs.get? k := by
  have h := get?_clear rs key k
  simp only [put, get?, List.find?_append] at h ⊢
  by_cases hk : k = key
  · subst hk
    simp only [if_true, Option.map_eq_none_iff] at h
    simp [h]
  · have hne : ¬ key = k := fun e => hk e.symm
    simp only [hk, if_false] at h
    simp [hk, hne, h]

end Results

end GimpleLowering.Pass
