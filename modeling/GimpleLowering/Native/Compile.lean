import GimpleLowering.Compilation
import GimpleLowering.Native.Config

/-!
# Compiling a source file

What comes of a run of the native compiler: if it ended well, its standard output is the
description of a unit, which is then compiled.

## Main definitions

* `Native.Outcome` — how a run of the native compiler ended
* `Native.unitText` — the description of the unit
* `Native.compile` — from a run of the native compiler to a manifest
-/

namespace GimpleLowering.Native

open Gimple

/-- How a run of the native compiler ended. -/
inductive Outcome where
  /-- It could not be started. -/
  | notStarted (reason : String)
  /-- It was stopped because it took too long. -/
  | stopped
  /-- It ended by itself with a status, or was killed. -/
  | ended (status : Option Nat) (stdout stderr : String)
  deriving DecidableEq, Repr

/-- Why a source file could not be compiled. -/
inductive RootError where
  | native (fault : Fault)
  | compile (error : Error)
  deriving DecidableEq

/-- The words for an error. -/
def RootError.message : RootError → String
  | native fault => fault.message
  | compile error => error.message

/-- The description of the unit, which is the standard output of a run that ended well. -/
def unitText (c : Config) : Outcome → Except Fault String
  | .notStarted reason => .error (.notStarted reason)
  | .stopped => .error (.timedOut (c.timeout.getD 0))
  | .ended status stdout stderr =>
    if status = some 0 then .ok stdout else .error (.failed status stderr)

/-- The unit for a source file. The file is named after the one that was given if the description
does not name it. -/
def unitOf (c : Config) (source : String) (outcome : Outcome) :
    Except RootError CompilationUnit := do
  let text ← (unitText c outcome).mapError .native
  let u ← (CompilationUnit.ofText text).mapError .compile
  return { u with sourceFile := some (u.sourceFile.getD source) }

/-- Compiles a source file, given how the native compiler ended. -/
def compile (c : Config) (polyfills : Polyfills) (source : String) (outcome : Outcome) :
    Except Breakdown (Except RootError Manifest) :=
  match unitOf c source outcome with
  | .error e => .ok (.error e)
  | .ok u => do
    return (← { Compiler.standard with polyfills }.run u).mapError .compile

end GimpleLowering.Native
