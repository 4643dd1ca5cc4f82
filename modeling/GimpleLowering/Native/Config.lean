/-!
# How the native compiler is run

The native compiler is run with a plugin that writes what it knows about a source file to the
standard output. Running it is left to the surroundings; what is said here is which arguments it
gets, and what its failures are called.

## Main definitions

* `Native.Config`, `Native.Config.arguments`
* `Native.Fault` — the failures of the native compiler
-/

namespace GimpleLowering.Native

/-! ### Failures -/

/-- A time span in seconds, or in milliseconds if it is less than one second. -/
def durationText (millis : Nat) : String :=
  if millis = 0 then "0ns"
  else if millis < 1000 then toString millis ++ "ms"
  else
    let digits := toString (1000 + millis % 1000)
    let fraction := ((digits.toList.drop 1).reverse.dropWhile (· = '0')).reverse
    let point := if fraction.isEmpty then "" else "."
    toString (millis / 1000) ++ point ++ String.ofList fraction ++ "s"

/-- The failures of the native compiler. -/
inductive Fault where
  | pluginNotFound (path : String)
  /-- The compiler ended with a status other than zero, or with none at all because it was
  killed. -/
  | failed (status : Option Nat) (stderr : String)
  | timedOut (millis : Nat)
  /-- The operating system would not run the compiler. -/
  | notStarted (reason : String)
  deriving DecidableEq, Repr

/-- The words for a failure. -/
def Fault.message : Fault → String
  | pluginNotFound path => "The GIMPLE plugin could not be found at `" ++ path ++ "`"
  | failed _ stderr => "Native compilation failed:\n" ++ stderr
  | timedOut millis => "Native compilation did not finish within " ++ durationText millis
  | notStarted reason => "IO Error: " ++ reason

/-! ### Configuration -/

/-- How to run the native compiler. -/
structure Config where
  compiler : String
  /-- The plugin that describes the unit. -/
  plugin : String
  /-- The directories of headers, in the order of the search. -/
  includeDirs : List String
  /-- The milliseconds after which the compiler is stopped, if ever. -/
  timeout : Option Nat
  deriving DecidableEq, Repr

namespace Config

/-- The compiler that is run if no other is asked for. -/
def defaultCompiler : String := "gcc"

/-- The configuration for a plugin, which has to exist. -/
def ofPlugin (plugin : String) (pluginExists : Bool) : Except Fault Config :=
  if pluginExists then .ok ⟨defaultCompiler, plugin, [], none⟩ else .error (.pluginNotFound plugin)

/-- The arguments for compiling a source file. The compiler's own output is thrown away. -/
def arguments (c : Config) (source : String) : List String :=
  ["-c", "-S", "-O0", "-fplugin=" ++ c.plugin] ++ c.includeDirs.flatMap (["-I", ·])
    ++ [source, "-o", "/dev/null"]

end Config

end GimpleLowering.Native
