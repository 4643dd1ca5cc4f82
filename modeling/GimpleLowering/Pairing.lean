/-!
# One-to-one pairings

A pairing relates names of two kinds so that each name has at most one partner. Inserting a pair
removes every earlier pair that shares either side with it, and puts the new one last.

## Main results

* `Pairing.mem_insert` — what a pairing holds after an insertion
* `Pairing.eq_of_fst_eq`, `eq_of_snd_eq` — either side determines the pair
-/

namespace GimpleLowering

/-- A finite one-to-one relation, with its pairs in the order of insertion. -/
structure Pairing (α β : Type) where
  pairs : List (α × β)
  left_nodup : (pairs.map Prod.fst).Nodup
  right_nodup : (pairs.map Prod.snd).Nodup

namespace Pairing

variable {α β : Type}

/-- Nothing is paired. -/
def empty : Pairing α β := ⟨[], List.nodup_nil, List.nodup_nil⟩

instance : Inhabited (Pairing α β) := ⟨empty⟩

instance [DecidableEq α] [DecidableEq β] : DecidableEq (Pairing α β) := fun p q =>
  decidable_of_iff (p.pairs = q.pairs) (by cases p; cases q; simp)

instance : Membership (α × β) (Pairing α β) := ⟨fun p x => x ∈ p.pairs⟩

@[simp] theorem mem_pairs {p : Pairing α β} {x : α × β} : x ∈ p.pairs ↔ x ∈ p := Iff.rfl

@[simp] theorem pairs_empty : (empty : Pairing α β).pairs = [] := rfl

/-- The left side determines the pair. -/
theorem eq_of_fst_eq {p : Pairing α β} {x y : α × β} (hx : x ∈ p) (hy : y ∈ p)
    (h : x.1 = y.1) : x = y := by
  have key : ∀ l : List (α × β), (l.map Prod.fst).Nodup → x ∈ l → y ∈ l → x = y := by
    intro l
    induction l with
    | nil => simp
    | cons z l ih =>
      intro hl hx hy
      simp only [List.map_cons, List.nodup_cons, List.mem_map, not_exists, not_and] at hl
      rcases List.mem_cons.1 hx with rfl | hx' <;> rcases List.mem_cons.1 hy with rfl | hy'
      · rfl
      · exact absurd h.symm (hl.1 y hy')
      · exact absurd h (hl.1 x hx')
      · exact ih hl.2 hx' hy'
  exact key p.pairs p.left_nodup hx hy

/-- The right side determines the pair. -/
theorem eq_of_snd_eq {p : Pairing α β} {x y : α × β} (hx : x ∈ p) (hy : y ∈ p)
    (h : x.2 = y.2) : x = y := by
  have key : ∀ l : List (α × β), (l.map Prod.snd).Nodup → x ∈ l → y ∈ l → x = y := by
    intro l
    induction l with
    | nil => simp
    | cons z l ih =>
      intro hl hx hy
      simp only [List.map_cons, List.nodup_cons, List.mem_map, not_exists, not_and] at hl
      rcases List.mem_cons.1 hx with rfl | hx' <;> rcases List.mem_cons.1 hy with rfl | hy'
      · rfl
      · exact absurd h.symm (hl.1 y hy')
      · exact absurd h (hl.1 x hx')
      · exact ih hl.2 hx' hy'
  exact key p.pairs p.right_nodup hx hy

/-- The partner of a name of the first kind. -/
def ofLeft? [DecidableEq α] (p : Pairing α β) (a : α) : Option β :=
  (p.pairs.find? fun x => x.1 = a).map Prod.snd

/-- The partner of a name of the second kind. -/
def ofRight? [DecidableEq β] (p : Pairing α β) (b : β) : Option α :=
  (p.pairs.find? fun x => x.2 = b).map Prod.fst

/-- Pairs two names, at the expense of the pairs that share one of them. -/
def insert [DecidableEq α] [DecidableEq β] (p : Pairing α β) (a : α) (b : β) : Pairing α β where
  pairs := (p.pairs.filter fun x => x.1 ≠ a ∧ x.2 ≠ b) ++ [(a, b)]
  left_nodup := by
    rw [List.map_append, List.nodup_append]
    refine ⟨?_, by simp, ?_⟩
    · exact p.left_nodup.sublist (List.filter_sublist.map _)
    · intro x hx y hy
      simp only [List.mem_map, List.mem_filter] at hx
      obtain ⟨z, ⟨_, hz⟩, rfl⟩ := hx
      simp only [List.map_cons, List.map_nil, List.mem_singleton] at hy
      simp only [ne_eq, decide_eq_true_eq] at hz
      exact hy ▸ hz.1
  right_nodup := by
    rw [List.map_append, List.nodup_append]
    refine ⟨?_, by simp, ?_⟩
    · exact p.right_nodup.sublist (List.filter_sublist.map _)
    · intro x hx y hy
      simp only [List.mem_map, List.mem_filter] at hx
      obtain ⟨z, ⟨_, hz⟩, rfl⟩ := hx
      simp only [List.map_cons, List.map_nil, List.mem_singleton] at hy
      simp only [ne_eq, decide_eq_true_eq] at hz
      exact hy ▸ hz.2

/-- A pairing after an insertion holds the new pair and the old ones that share no side with it. -/
theorem mem_insert [DecidableEq α] [DecidableEq β] {p : Pairing α β} {a : α} {b : β}
    {x : α × β} : x ∈ p.insert a b ↔ x = (a, b) ∨ (x ∈ p ∧ x.1 ≠ a ∧ x.2 ≠ b) := by
  show x ∈ (p.pairs.filter fun x => x.1 ≠ a ∧ x.2 ≠ b) ++ [(a, b)] ↔ _
  simp [or_comm]

/-- The pairing of a list of pairs, inserted one after the other. -/
def ofList [DecidableEq α] [DecidableEq β] (xs : List (α × β)) : Pairing α β :=
  xs.foldl (fun p x => p.insert x.1 x.2) empty

/-- What an insertion overwrites. -/
inductive Overwritten where
  /-- No pair shares a side with the new one. -/
  | neither
  /-- One pair, with the same left side and another right side. -/
  | left
  /-- One pair, with the same right side and another left side. -/
  | right
  /-- The very same pair. -/
  | pair
  /-- Two pairs, one for each side. -/
  | both
  deriving DecidableEq, Repr

/-- What inserting a pair would overwrite. -/
def overwrites [DecidableEq α] [DecidableEq β] (p : Pairing α β) (a : α) (b : β) : Overwritten :=
  match p.ofLeft? a, p.ofRight? b with
  | none, none => .neither
  | some _, none => .left
  | none, some _ => .right
  | some b', some _ => if b' = b then .pair else .both

end Pairing

end GimpleLowering
