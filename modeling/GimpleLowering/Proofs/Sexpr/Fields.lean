import GimpleLowering.Proofs.Except
import GimpleLowering.Proofs.Text.First
import GimpleLowering.Sexpr.Fields
import Mathlib.Algebra.Group.Nat.Defs

/-!
# What readers of s-expressions give

What the readers of its parts promise of their values, a record or an alternative keeps, whatever
the order of its fields in the text. So a promise about everything that a reader may return is put
together like the reader.

## Main definitions

* `Sexpr.Reads.Yields`, `Sexpr.Fields.Yields` — whatever is read has a property

## Main results

* `Sexpr.asWord64_yields`, `asLine_yields` — numbers are read within their bounds
* `Sexpr.Fields.Yields.map`, `Yields.seq`, `record_yields` — records, field by field
* `Sexpr.asVariant_yields` — alternatives, one by one
-/

namespace GimpleLowering.Sexpr

variable {α β : Type}

/-- Whatever is read has the property. -/
def Reads.Yields (read : Reads α) (P : α → Prop) : Prop := ∀ s a, read s = .ok a → P a

namespace Reads

variable {read : Reads α} {P : α → Prop}

/-- Of every reader it can be said that it gives some value. -/
theorem Yields.any : Yields read fun _ => True := fun _ _ _ => trivial

/-- A value that is made of one that was read. -/
theorem Yields.map {Q : β → Prop} {f : α → β} (h : Yields read P) (hf : ∀ a, P a → Q (f a)) :
    Yields (fun s => f <$> read s) Q := by
  intro s b hb
  obtain ⟨a, ha, rfl⟩ := Except.of_map hb
  exact hf a (h _ a ha)

end Reads

open Reads

/-! ### Single values -/

theorem asNat_yields {bound : Nat} {kind : String} : Yields (asNat bound kind) (· < bound) := by
  intro s n h
  unfold asNat at h
  split at h
  · split at h
    · split at h
      · rename_i hlt
        exact Except.ok.inj h ▸ hlt
      · cases h
    · cases h
  · cases h

theorem asWord64_yields : Yields asWord64 (· < 2 ^ 64) := asNat_yields

/-- A line is a positive number. -/
theorem asLine_yields : Yields asLine fun n => n ≠ 0 ∧ n < 2 ^ 32 := by
  intro s n h
  unfold asLine at h
  obtain ⟨m, hm, h⟩ := Except.of_bind h
  split at h
  · cases h
  · rename_i hpos
    obtain rfl := Except.ok.inj h
    exact ⟨hpos, asNat_yields _ _ hm⟩

section

variable {read : Reads α} {P : α → Prop}

theorem asList_yields (h : Yields read P) : Yields (asList read) fun as => ∀ a ∈ as, P a := by
  intro s as hs a ha
  cases s with
  | symbol name => cases hs
  | list items =>
    obtain ⟨item, -, hitem⟩ := mem_of_mapM hs ha
    exact h _ _ hitem

theorem asOption_yields (h : Yields read P) : Yields (asOption read) fun o => ∀ a ∈ o, P a := by
  intro s o hs a ha
  unfold asOption at hs
  split at hs
  · cases hs
    cases ha
  · obtain ⟨b, hb, rfl⟩ := Except.of_map hs
    exact Option.some.inj ha ▸ h _ _ hb

theorem asMap_yields (h : Yields read P) : Yields (asMap read) fun ps => ∀ p ∈ ps, P p.2 := by
  intro s ps hs p hp
  cases s with
  | symbol name => cases hs
  | list items =>
    obtain ⟨values, hvalues, hs⟩ := Except.of_bind (show (_ >>= _ : Except _ _) = _ from hs)
    split at hs
    · obtain rfl := Except.ok.inj hs
      obtain ⟨⟨key, value⟩, -, hread⟩ := mem_of_mapM hvalues hp
      obtain ⟨a, ha, hread⟩ := Except.of_bind hread
      exact Except.ok.inj hread ▸ h _ _ ha
    · cases hs

end

/-! ### Records -/

namespace Fields

/-- Whatever the fields give has the property. -/
def Yields (fs : Fields α) (P : α → Prop) : Prop :=
  ∀ total ps a, fs.read total ps = .ok a → P a

variable {P : α → Prop} {Q : β → Prop} {name : String} {read : Reads α}

theorem Yields.field {absent : Option α} (h : Reads.Yields read P) (habsent : ∀ a ∈ absent, P a) :
    (field name read absent).Yields P := by
  intro total ps a hread
  simp only [Fields.field] at hread
  split at hread
  · cases absent with
    | none => cases hread
    | some b => exact Except.ok.inj hread ▸ habsent b rfl
  · exact h _ _ (First.of_located hread)
  · obtain ⟨g, u, -, hdefect, -⟩ := First.of_seq hread
    cases hdefect

theorem Yields.required (h : Reads.Yields read P) : (required name read).Yields P :=
  Yields.field h fun _ ha => by cases ha

theorem Yields.optional (h : Reads.Yields read P) :
    (optional name read).Yields fun o => ∀ a ∈ o, P a :=
  Yields.field (asOption_yields h) fun _ ho _ ha => by
    cases ho
    cases ha

theorem Yields.map {fs : Fields α} {f : α → β} (h : fs.Yields P) (hf : ∀ a, P a → Q (f a)) :
    (f <$> fs).Yields Q := by
  intro total ps b hread
  obtain ⟨g, a, hg, ha, rfl⟩ := First.of_seq hread
  obtain rfl := Except.ok.inj hg
  exact hf a (h _ _ _ ha)

/-- The fields so far promise something for every value that the next one gives. -/
theorem Yields.seq {fs : Fields (α → β)} {xs : Fields α}
    (h : fs.Yields fun f => ∀ a, P a → Q (f a)) (hxs : xs.Yields P) : (fs <*> xs).Yields Q := by
  intro total ps b hread
  obtain ⟨f, a, hf, ha, rfl⟩ := First.of_seq hread
  exact h _ _ _ hf a (hxs _ _ _ ha)

theorem record_yields {fs : Fields α} (h : fs.Yields P) : Reads.Yields (record fs) P := by
  intro s a hs
  cases s with
  | symbol name => cases hs
  | list items =>
    simp only [record] at hs
    generalize hread : (fun _ a => a) <$> _ <*> fs.read items.length (pairs items).1 = outcome at hs
    cases outcome with
    | error e => cases hs
    | ok b =>
      obtain rfl : b = a := Except.ok.inj hs
      obtain ⟨g, c, hg, hc, rfl⟩ := First.of_seq hread
      obtain ⟨k, u, hk, -, rfl⟩ := First.of_seq hg
      obtain rfl := Except.ok.inj hk
      exact h _ _ _ hc

end Fields

/-! ### Alternatives -/

/-- Whatever the alternative gives has the property. -/
def Alternative.Yields (P : α → Prop) : Alternative α → Prop
  | .unit a => P a
  | .one read => Reads.Yields read P
  | .two _ read => ∀ s readSecond, read s = .ok readSecond → Reads.Yields readSecond P

variable {P : α → Prop}

theorem Alternative.Yields.alone {alt : Alternative α} (h : alt.Yields P) {a : α}
    (ha : alt.alone = .ok a) : P a := by
  cases alt with
  | unit b => exact Except.ok.inj ha ▸ h
  | one read => cases ha
  | two title read => cases ha

theorem Alternative.Yields.ofParts {alt : Alternative α} (h : alt.Yields P) {parts : List Sexpr}
    {a : α} (ha : alt.ofParts parts = .ok a) : P a := by
  cases alt with
  | unit b => exact Except.ok.inj ha ▸ h
  | one read =>
    cases parts with
    | nil => cases ha
    | cons s rest => exact h _ _ ha
  | two title read =>
    cases parts with
    | nil => cases ha
    | cons s rest =>
      obtain ⟨readSecond, hs, ha⟩ := Except.of_bind ha
      cases rest with
      | nil => cases ha
      | cons s' rest => exact h _ _ hs _ _ ha

theorem asVariant_yields {alternatives : List (String × Alternative α)}
    (h : ∀ alt ∈ alternatives, alt.2.Yields P) : Yields (asVariant alternatives) P := by
  have hfind : ∀ {name : String} {alt : Alternative α},
      alternatives.lookup name = some alt → alt.Yields P := by
    intro name alt hlookup
    obtain ⟨before, after, hmem, -⟩ := List.lookup_eq_some_iff.1 hlookup
    exact h (name, alt) (by simp [hmem])
  intro s a hs
  unfold asVariant at hs
  split at hs
  · obtain ⟨alt, halt, hs⟩ := Except.of_bind hs
    beta_reduce at halt
    split at halt
    · rename_i hfound
      obtain rfl := Except.ok.inj halt
      exact (hfind hfound).alone hs
    · cases halt
  · cases hs
  · obtain ⟨alt, halt, hs⟩ := Except.of_bind hs
    beta_reduce at halt
    split at halt
    · rename_i hfound
      obtain rfl := Except.ok.inj halt
      exact (hfind hfound).ofParts hs
    · cases halt
  · cases hs

end GimpleLowering.Sexpr
