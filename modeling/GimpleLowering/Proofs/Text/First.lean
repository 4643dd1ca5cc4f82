import GimpleLowering.Text.First

/-!
# Readings that succeed

A reading of several parts succeeds only if each part was read. These are the inversions that the
readers of documents and of s-expressions have in common.

## Main results

* `First.of_located`, `First.of_seq` — what a combined reading is made of
-/

namespace GimpleLowering

variable {ε α β : Type}

theorem First.of_located {i : Nat} {r : Except ε α} {a : α} (h : First.located i r = .ok a) :
    r = .ok a := by
  cases r with
  | error e => cases h
  | ok b => exact congrArg _ (Except.ok.inj h)

theorem First.of_seq {f : First ε (α → β)} {r : First ε α} {b : β} (h : f <*> r = .ok b) :
    ∃ g a, f = .ok g ∧ r = .ok a ∧ b = g a := by
  change First.seq f r = .ok b at h
  unfold First.seq at h
  split at h
  · exact ⟨_, _, rfl, rfl, (Except.ok.inj h).symm⟩
  all_goals cases h

end GimpleLowering
