import GimpleLowering.Flo.Text.Reader
import GimpleLowering.Flo.Text.Writer
import GimpleLowering.Proofs.Except
import GimpleLowering.Proofs.Sexpr.Text
import Mathlib.Algebra.Group.Nat.Defs

/-!
# Reading back what was written

The readers of single values, of records and of alternatives undo the writers, provided that the
numbers have room: identifiers are read as numbers of sixty-four bits and lines as numbers of
thirty-two. A record is written with all of its fields, and each reader of a field finds its own.

## Main definitions

* `Sexpr.Fields.Finds` — some fields are found among the pairs of a record

## Main results

* `Sexpr.asNat_atom`, `asList_map`, `asOption_optionSexpr` — single values
* `Sexpr.Fields.Finds.required`, `Finds.optional`, `Finds.map`, `Finds.seq` — fields, one by one
* `Sexpr.Fields.record_recordSexpr` — a record with all its fields
* `Sexpr.asVariant_symbol`, `asVariant_one`, `asVariant_two` — alternatives
-/

namespace GimpleLowering

open Flo

namespace Sexpr

/-! ### Single values -/

/-- The decimal digits of a number have its value. -/
theorem digits?_toString (n : Nat) : digits? (toString n).toList = some n := by
  have hdigit : ∀ c ∈ Nat.toDigits 10 n, '0' ≤ c ∧ c ≤ '9' := by
    intro c hc
    have h := Nat.isDigit_of_mem_toDigits (by decide) (by decide) hc
    simp only [Char.isDigit, ge_iff_le, Bool.and_eq_true, decide_eq_true_eq] at h
    exact ⟨h.1, h.2⟩
  have hplus : ∀ rest, Nat.toDigits 10 n ≠ '+' :: rest := by
    intro rest heq
    exact absurd (hdigit '+' (heq ▸ List.mem_cons_self)) (by decide)
  have hfold : (Nat.toDigits 10 n).foldl (fun n c => 10 * n + (c.toNat - 48)) 0 = n :=
    Nat.ofDigitChars_ten_toDigits
  rw [Nat.toString_eq_repr, Nat.toList_repr, digits?.eq_2 _ hplus, if_neg, hfold]
  rintro (h | h)
  · exact Nat.toDigits_ne_nil (List.isEmpty_iff.1 h)
  · obtain ⟨c, hc, hn⟩ := List.any_eq_true.1 h
    exact of_decide_eq_true hn (hdigit c hc)

theorem asNat_atom {n bound : Nat} (h : n < bound) (kind : String) :
    asNat bound kind (atom n) = .ok n := by
  simp only [atom, asNat, digits?_toString, if_pos h]

theorem asWord64_atom {n : Nat} (h : n < 2 ^ 64) : asWord64 (atom n) = .ok n := asNat_atom h _

theorem asLine_atom {n : Nat} (h : n < 2 ^ 32) (hpos : n ≠ 0) : asLine (atom n) = .ok n := by
  simp only [asLine, asNat_atom (show n < 4294967296 from h), bind, Except.bind, if_neg hpos]

theorem asBool_atom (b : Bool) : asBool (atom b) = .ok b := by
  cases b <;> rfl

/-- A list is read back if its elements are. -/
theorem asList_map {α : Type} {read : Reads α} {write : α → Sexpr} {as : List α}
    (h : ∀ a ∈ as, read (write a) = .ok a) : asList read (.list (as.map write)) = .ok as := by
  rw [asList, mapM_map_eq_ok h]

theorem readIds_ids {xs : List Nat} (h : ∀ x ∈ xs, x < 2 ^ 64) : readIds (ids xs) = .ok xs :=
  asList_map fun x hx => asWord64_atom (h x hx)

/-- A value that may be absent is read back if it is not written like an absent one. -/
theorem asOption_optionSexpr {α : Type} {read : Reads α} {write : α → Sexpr} {o : Option α}
    (h : ∀ a ∈ o, read (write a) = .ok a) (hne : ∀ a, write a ≠ .list []) :
    asOption read (optionSexpr write o) = .ok o := by
  cases o with
  | none => rfl
  | some a =>
    rw [optionSexpr, asOption.eq_2 _ _ (hne a), h a rfl]
    rfl

theorem atom_ne_nil {α : Type} [ToString α] (a : α) : atom a ≠ .list [] := nofun

/-! ### Fields -/

namespace Fields

variable {α β : Type} {ps : List (String × Sexpr)}

/-- The fields have this value in a record with these pairs, however long the record is. -/
def Finds (fs : Fields α) (ps : List (String × Sexpr)) (a : α) : Prop :=
  ∀ total, fs.read total ps = pure a

theorem Finds.field {name : String} {read : Reads α} {absent : Option α} {i : Nat} {s : Sexpr}
    {a : α} (hs : occurrences name 0 ps = [(i, s)]) (h : read s = .ok a) :
    (Fields.field name read absent).Finds ps a := by
  intro total
  simp only [Fields.field, hs, h, First.located_ok]

theorem Finds.required {name : String} {read : Reads α} {i : Nat} {s : Sexpr} {a : α}
    (hs : occurrences name 0 ps = [(i, s)]) (h : read s = .ok a) :
    (Fields.required name read).Finds ps a :=
  Finds.field hs h

theorem Finds.optional {name : String} {read : Reads α} {write : α → Sexpr} {i : Nat}
    {o : Option α} (hs : occurrences name 0 ps = [(i, optionSexpr write o)])
    (h : ∀ a ∈ o, read (write a) = .ok a) (hne : ∀ a, write a ≠ .list []) :
    (Fields.optional name read).Finds ps o :=
  Finds.field hs (asOption_optionSexpr h hne)

theorem Finds.map {fs : Fields α} {a : α} (f : α → β) (h : fs.Finds ps a) :
    (f <$> fs).Finds ps (f a) := by
  intro total
  change (pure f <*> fs.read total ps : First Defect β) = _
  rw [h total, First.pure_seq_pure]

theorem Finds.seq {fs : Fields (α → β)} {f : α → β} {xs : Fields α} {a : α}
    (h : fs.Finds ps f) (h' : xs.Finds ps a) : (fs <*> xs).Finds ps (f a) := by
  intro total
  change (fs.read total ps <*> xs.read total ps : First Defect β) = _
  rw [h total, h' total, First.pure_seq_pure]

/-- The pairs of a list are what was written there. -/
theorem pairs_map (write : β → Sexpr) (ps : List (String × β)) :
    pairs (ps.map fun (name, value) => .list [.symbol name, write value]) =
      (ps.map fun p => (p.1, write p.2), none) := by
  induction ps with
  | nil => rfl
  | cons p ps ih => rw [List.map_cons, pairs, ih, List.map_cons]

/-- A record is read back if its fields are found. -/
theorem record_recordSexpr {fs : Fields α} {a : α} (h : fs.Finds ps a) :
    record fs (recordSexpr ps) = .ok a := by
  have hpairs := pairs_map id ps
  rw [show (ps.map fun p => (p.1, id p.2)) = ps from List.map_id ps] at hpairs
  rw [recordSexpr, record]
  simp only [id_eq] at hpairs
  simp only [hpairs]
  rw [h]
  rfl

end Fields

/-- A map is read back if its values are. -/
theorem asMap_map {α : Type} {read : Reads α} {write : α → Sexpr} {ps : List (String × α)}
    (h : ∀ p ∈ ps, read (write p.2) = .ok p.2) :
    asMap read (.list (ps.map fun (name, a) => .list [.symbol name, write a])) = .ok ps := by
  have hvalues : (ps.map fun p => (p.1, write p.2)).mapM
      (fun p => do return (p.1, ← read p.2)) = .ok ps := by
    induction ps with
    | nil => rfl
    | cons p ps ih =>
      rw [List.map_cons, List.mapM_cons, ih fun q hq => h q (by simp [hq])]
      simp only [h p List.mem_cons_self]
      rfl
  rw [asMap, Fields.pairs_map]
  refine Eq.trans (congrArg (· >>= fun values => Except.ok values) hvalues) ?_
  rfl

/-! ### Alternatives -/

section

variable {α : Type} {alternatives : List (String × Alternative α)} {name : String}

theorem asVariant_symbol {a : α} (h : alternatives.lookup name = some (.unit a)) :
    asVariant alternatives (.symbol name) = .ok a := by
  simp only [asVariant, h]
  rfl

theorem asVariant_one {read : Reads α} (h : alternatives.lookup name = some (.one read))
    {s : Sexpr} {a : α} (hs : read s = .ok a) :
    asVariant alternatives (variantSexpr name [s]) = .ok a := by
  simp only [asVariant, variantSexpr, h]
  exact hs

theorem asVariant_two {title : String} {read : Sexpr → Except Defect (Sexpr → Except Defect α)}
    (h : alternatives.lookup name = some (.two title read)) {s s' : Sexpr} {a : α}
    (hs : (read s >>= fun readSecond => readSecond s') = .ok a) :
    asVariant alternatives (variantSexpr name [s, s']) = .ok a := by
  simp only [asVariant, variantSexpr, h]
  exact hs

end

end Sexpr

end GimpleLowering
