import GimpleLowering.Proofs.Gimple.Documents
import GimpleLowering.Proofs.Json.Text

/-!
# Units survive being written

A text can say the same thing in many ways: fields under second names, in any order or by their
positions, fields left out that have a default, fields that nobody reads. Writing the unit that was
read and reading it again leaves nothing of this but the unit. It takes room, since a written record
nests where an array of fields did not need to name them, and it takes numbers that are written
so that they are read back.

## Main definitions

* `Gimple.CompilationUnit.IsWrittenAs` — the JSON texts of a unit

## Main results

* `Gimple.CompilationUnit.ofText_of_isWrittenAs` — a unit that was read, written and read again is
  the same unit
-/

namespace GimpleLowering.Gimple

open Json

namespace CompilationUnit

/-- The text is JSON for everything about the unit, with its real numbers as `write` has them. -/
def IsWrittenAs (write : Double → Numeral) (u : CompilationUnit) (text : String) : Prop :=
  Padded (u.documentWith write).IsText text.toList

variable {write : Double → Numeral} {u : CompilationUnit}

theorem exists_isWrittenAs (h : (u.documentWith write).IsWhole) :
    ∃ text, u.IsWrittenAs write text := by
  obtain ⟨s, hs⟩ := h.text
  refine ⟨String.ofList s, ?_⟩
  rw [IsWrittenAs, String.toList_ofList]
  exact padded_self hs

/-- A unit that was read from a text can be written, and is the one that is read from whatever it
is written as. -/
theorem ofText_of_isWrittenAs {text : String} (read : ofText text = .ok u)
    (reals : WritesBack write u.reals) (room : (u.documentWith write).nesting < 128) :
    (∃ t, u.IsWrittenAs write t) ∧ ∀ t, u.IsWrittenAs write t → ofText t = .ok u := by
  have hholds := (fits_of_ofText read).holds reals
  refine ⟨exists_isWrittenAs hholds.whole, fun t ht => ?_⟩
  have hdocument := Document.ofText_of_isText ht
  have hread : CompilationUnit.read nestingLimit (u.documentWith write) = .ok u :=
    hholds.reads (Nat.le_of_lt_succ room)
  refine ofText_eq_ok.2 ⟨readText_eq_ok.2 ⟨?_, ?_⟩, (ofText_eq_ok.1 read).2⟩
  · rw [hdocument, hread]
  · rw [hdocument]

/-- A unit in which almost nothing is written the way it is written back: keys are out of order,
unknown, second names, or missing, and records are arrays. -/
def roundaboutText : String :=
  "\x7b\"functions\": [\x7b\"entry_block\": 2, \"name\": \"f\", \"remark\": [null],
    \"blocks\": [[2, [[\"return\",
      \x7b\"value\": 2.5, \"type\": \x7b\"precision\": 64, \"type\": \"real_type\"\x7d,
        \"code\": \"real_cst\"\x7d]]]]\x7d]\x7d"

/-- A function that returns two and a half. -/
def roundabout : CompilationUnit :=
  ⟨none,
    [⟨"f", [], none, 2, [], [⟨2, [.ret (some (.real (.real 64) ⟨0x4004000000000000⟩)) none]⟩]⟩],
    [], [], []⟩

/-- Two and a half. -/
def twoAndAHalf : Numeral := .decimal false 2 [5] 0

theorem roundabout_isWrittenAs :
    ofText roundaboutText = .ok roundabout ∧ WritesBack (fun _ => twoAndAHalf) roundabout.reals ∧
      (roundabout.documentWith fun _ => twoAndAHalf).nesting < 128 ∧
      (∃ t, roundabout.IsWrittenAs (fun _ => twoAndAHalf) t) ∧
      ∀ t, roundabout.IsWrittenAs (fun _ => twoAndAHalf) t → ofText t = .ok roundabout := by
  have hread : ofText roundaboutText = .ok roundabout := by
    have h : (ofText roundaboutText).toOption = some roundabout := by decide +kernel
    cases hread : ofText roundaboutText with
    | error e =>
      rw [hread] at h
      cases h
    | ok u =>
      rw [hread] at h
      rw [Option.some.inj h]
  have hreals : WritesBack (fun _ => twoAndAHalf) roundabout.reals := by
    refine List.forall_mem_singleton.2 ⟨by decide +kernel, ['2', '.', '5'], ?_⟩
    have hwhole : IsWholePart ['2'] := by simp [IsWholePart, AreDigits, Reader.isDigit]
    have hfraction : IsFraction (some ['5']) ['.', '5'] :=
      .point (by simp [AreDigits, Reader.isDigit])
    exact @Numeral.IsText.mk false _ _ _ _ none hwhole hfraction .absent
  have hroom : (roundabout.documentWith fun _ => twoAndAHalf).nesting < 128 := by decide +kernel
  exact ⟨hread, hreals, hroom, ofText_of_isWrittenAs hread hreals hroom⟩

end CompilationUnit

end GimpleLowering.Gimple
