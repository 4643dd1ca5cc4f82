import GimpleLowering.Gimple.Expr
import GimpleLowering.Gimple.Operator

/-!
# Statements

Three-address statements. An assignment or a call is followed by the next statement of its block;
the others transfer control and can only stand at the end of a block.
-/

namespace GimpleLowering.Gimple

/-- One label of a switch: the values from `low` up to and including `high`, or `low` alone. -/
structure Case where
  low : Int
  high : Option Int
  block : Nat
  deriving DecidableEq, Repr, Inhabited

namespace Case

/-- The label of one value. -/
def single (value : Int) (block : Nat) : Case := ⟨value, none, block⟩

/-- The greatest value of the label. -/
def upper (c : Case) : Int := c.high.getD c.low

/-- The two labels have a value in common, provided that neither is empty. -/
def overlaps (a b : Case) : Bool := a.low ≤ b.upper && b.low ≤ a.upper

/-- The label as it is written in C. -/
def text (c : Case) : String :=
  match c.high with
  | some high => if high ≠ c.low then toString c.low ++ " ... " ++ toString high else toString c.low
  | none => toString c.low

end Case

/-- A statement, with the source line that it comes from where that is known. -/
inductive Statement where
  /-- `lhs = operator(operands…)`. -/
  | assign (operator : Operator) (lhs : Expr) (operands : List Expr) (line : Option Nat)
  /-- Calls a function and stores its result in `lhs`, if there is one. -/
  | call (function : String) (arguments : List Expr) (lhs : Option Expr) (line : Option Nat)
  /-- Continues at one of two blocks. -/
  | conditional (operator : Operator) (operands : List Expr) (trueLabel falseLabel : Nat)
      (line : Option Nat)
  /-- Leaves the function, with a value unless it is void. -/
  | ret (value : Option Expr) (line : Option Nat)
  /-- Continues at a block. -/
  | goto (target : Nat) (line : Option Nat)
  /-- Continues at the block of the label that matches the value, or at the default. -/
  | switch (value : Expr) (cases : List Case) (defaultLabel : Nat) (line : Option Nat)
  deriving DecidableEq, Inhabited

namespace Statement

/-- The source line of a statement. -/
def line : Statement → Option Nat
  | assign _ _ _ line | call _ _ _ line | conditional _ _ _ _ line | ret _ line | goto _ line
  | switch _ _ _ line => line

/-- Statements that transfer control. -/
def isTerminator : Statement → Bool
  | conditional .. | ret .. | goto .. | switch .. => true
  | assign .. | call .. => false

/-- The kind of a statement, which is also its tag in documents. -/
def kindName : Statement → String
  | assign .. => "assign"
  | call .. => "call"
  | conditional .. => "conditional"
  | ret .. => "return"
  | goto .. => "goto"
  | switch .. => "switch"

/-- The labels that a terminator can continue at. -/
def targets : Statement → List Nat
  | conditional _ _ t f _ => [t, f]
  | goto target _ => [target]
  | switch _ cases default _ => cases.map Case.block ++ [default]
  | assign .. | call .. | ret .. => []

end Statement

end GimpleLowering.Gimple
