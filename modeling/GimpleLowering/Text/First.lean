/-!
# The frontmost defect

A text is read part by part, and the parts need not come in the order in which their values are
wanted. Each reading carries the position of its part, and combining two readings keeps the defect
that stands further to the front, so that the first defect of the text is the one reported.
-/

namespace GimpleLowering

/-- The outcome of reading a part of a text: a value, or a defect and its position. -/
def First (ε α : Type) : Type := Except (Nat × ε) α

namespace First

variable {ε α β : Type}

/-- The outcome of reading the part at a position. -/
def located (position : Nat) : Except ε α → First ε α
  | .ok a => .ok a
  | .error e => .error (position, e)

/-- A defect at a position. -/
def defect (position : Nat) (e : ε) : First ε α := .error (position, e)

/-- Two readings together. Of two defects the one further to the front is kept, and of two at one
position the first. -/
def seq (f : First ε (α → β)) (x : First ε α) : First ε β :=
  match f, x with
  | .ok f, .ok a => .ok (f a)
  | .error e, .ok _ => .error e
  | .ok _, .error e => .error e
  | .error e, .error e' => .error (if e'.1 < e.1 then e' else e)

instance : Applicative (First ε) where
  pure a := .ok a
  seq f x := seq f (x ())

/-- The outcome without the position. -/
def outcome : First ε α → Except ε α
  | .ok a => .ok a
  | .error e => .error e.2

@[simp] theorem outcome_pure (a : α) : (pure a : First ε α).outcome = .ok a := rfl

@[simp] theorem pure_seq_pure (f : α → β) (a : α) :
    ((pure f : First ε (α → β)) <*> (pure a : First ε α)) = pure (f a) := rfl

@[simp] theorem located_ok (i : Nat) (a : α) : located i (.ok a : Except ε α) = pure a := rfl

end First

end GimpleLowering
