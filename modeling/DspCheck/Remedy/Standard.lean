import DspCheck.Remedy.Basic

/-!
# The standard remedies

Special remedies come before general ones that match the same errors: all composition errors speak
of signal counts, and an endless evaluation often comes with a stack overflow.
-/

namespace DspCheck
namespace Remedy

/-- A remedy with a sample of a wrong program and of the corrected one. -/
def standard (rule message cause fix bad good : Text) : Remedy :=
  ⟨⟨rule⟩, message, cause, fix, some bad, some good⟩

/-- Definitions that evaluate themselves without end. -/
def endlessEvaluation : Remedy :=
  standard
    "endless evaluation|evaluation cycle"
    "Endless evaluation cycle detected"
    ("A definition refers to itself without a delay, usually because a local binding shadows "
      ++ "a library prefix (for example `os = os.osc(440);`).")
    ("Rename the local binding so it no longer shadows the library prefix, or break the cycle "
      ++ "with `~` and an explicit delay.")
    "os = os.osc(440);\nprocess = os;"
    "tone = os.osc(440);\nprocess = tone;"

/-- Recursion too deep for the compiler. -/
def stackOverflow : Remedy :=
  standard
    "stack overflow|stack size|recursion depth"
    "Compiler stack overflow"
    ("Unbounded recursion in a definition, typically a recursive pattern or an iteration "
      ++ "(`par`, `seq`, `sum`) with a huge or non-constant count.")
    ("Check recursive definitions for a terminating case and keep iteration counts small "
      ++ "compile-time constants.")
    "f(n) = f(n+1);\nprocess = f(0);"
    "f(0) = 0;\nf(n) = n + f(n-1);\nprocess = f(4);"

/-- Sequential compositions whose signals do not fit. -/
def sequentialComposition : Remedy :=
  standard
    "sequential composition"
    "Sequential composition A : B has mismatched signals"
    "The number of outputs of A is not equal to the number of inputs of B."
    ("Make A produce as many outputs as B takes inputs, for example by inserting `<:` to "
      ++ "duplicate or `:>` to mix signals.")
    "process = os.osc(440) : fi.resonlp(1000, 5, 1) : _, _;"
    "process = os.osc(440) : fi.resonlp(1000, 5, 1) <: _, _;"

/-- Split compositions whose signals do not fit. -/
def splitComposition : Remedy :=
  standard
    "split composition"
    "Split composition A <: B has incompatible signals"
    "The number of inputs of B must be a multiple of the number of outputs of A."
    "Adjust B so its input count is a multiple of A's outputs."
    "process = _, _ <: _, _, _;"
    "process = _, _ <: _, _, _, _;"

/-- Merge compositions whose signals do not fit. -/
def mergeComposition : Remedy :=
  standard
    "merge composition"
    "Merge composition A :> B has incompatible signals"
    "The number of outputs of A must be a multiple of the number of inputs of B."
    "Adjust A so its output count is a multiple of B's inputs."
    "process = _, _, _ :> _, _;"
    "process = _, _, _, _ :> _, _;"

/-- Feedback whose signals do not fit. -/
def recursiveComposition : Remedy :=
  standard
    "recursive composition"
    "Recursive composition A ~ B has incompatible signals"
    "B needs no more inputs than A has outputs, and A at least as many inputs as B has outputs."
    ("Make the feedback path B take and return a signal count that A can route, usually `_` "
      ++ "for a single feedback line.")
    "process = + ~ (_, _);"
    "process = + ~ _;"

/-- Names without a definition. -/
def undefinedSymbol : Remedy :=
  standard
    "undefined symbol|unknown identifier|undefined identifier"
    "Undefined symbol"
    "An identifier is used without being defined or imported."
    ("Check the spelling, define the symbol, or import the library that provides it with "
      ++ "`import(\"stdfaust.lib\");`.")
    "process = osc(440);"
    "import(\"stdfaust.lib\");\nprocess = os.osc(440);"

/-- Functions that a library does not have. -/
def unknownFunction : Remedy :=
  standard
    "unknown function|no such function|function not found"
    "Unknown library function"
    "The function does not exist in the referenced library."
    "Look the function up in the library documentation and use its exact name."
    "process = os.oscillator(440);"
    "process = os.osc(440);"

/-- Calls with the wrong number of arguments. -/
def wrongArgCount : Remedy :=
  standard
    "wrong number of arguments|number of arguments|too many arguments|not enough arguments"
    "Wrong number of arguments"
    "A function is called with a different number of arguments than it declares."
    "Pass exactly the parameters listed in the function's usage."
    "process = fi.lowpass(1000);"
    "process = fi.lowpass(2, 1000);"

/-- Signals of the wrong type. -/
def typeIncompatibility : Remedy :=
  standard
    "incompatible type|type mismatch|type.*incompatib"
    "Incompatible signal types"
    "A signal of one type (int, float, UI element) is used where another is expected."
    ("Convert explicitly with `int(...)` or `float(...)`, and pass numbers where constant "
      ++ "parameters are required.")
    "process = de.delay(48000, hslider(\"d\", 0.5, 0, 1, 0.01));"
    "process = de.delay(48000, int(hslider(\"d\", 0.5, 0, 1, 0.01) * 48000));"

/-- Divisors that reach zero. -/
def divisionByZero : Remedy :=
  standard
    "division by zero|divide by zero|floating point exception"
    "Division by zero"
    "A divisor can reach zero, producing infinite or NaN samples."
    "Guard the divisor, for example `x / max(ma.EPSILON, d)`."
    "gain = hslider(\"gain\", 0, 0, 1, 0.01);\nprocess = _ / gain;"
    "gain = hslider(\"gain\", 0, 0, 1, 0.01);\nprocess = _ / max(ma.EPSILON, gain);"

/-- Strings in the place of values. -/
def stringAssignment : Remedy :=
  standard
    "string.*not allowed|string.*used as|string as a value|not a valid signal.*string"
    "String used as a value"
    "String literals are only valid in `declare` metadata and UI labels."
    "Move the text into a `declare` statement or a UI label."
    "name = \"my synth\";\nprocess = _;"
    "declare name \"my synth\";\nprocess = _;"

/-- Imported files that do not exist. -/
def fileNotFound : Remedy :=
  standard
    "file not found|unable to open|can't open|cannot open|no such file"
    "Imported file not found"
    "An `import` or `library` directive names a file the compiler cannot locate."
    ("Check the file name and the library search path; the standard libraries are imported "
      ++ "with `import(\"stdfaust.lib\");`.")
    "import(\"stdfaus.lib\");"
    "import(\"stdfaust.lib\");"

/-- Delays without a bound or beyond it. -/
def invalidDelay : Remedy :=
  standard
    "invalid delay|delay.*too large|delay.*negative|maximum delay|delay.*out of range"
    "Invalid delay length"
    "A delay length is negative, not bounded, or larger than the allowed maximum."
    ("Use a bounded, non-negative delay; size `de.delay` with a constant maximum and clamp "
      ++ "the variable length.")
    "process = _ @ 10000000;"
    "process = de.delay(96000, min(96000, d));"

/-- Selections that compute the branch not taken. -/
def select2BothBranches : Remedy :=
  standard
    "select2.*both|both branches"
    "select2 evaluates both branches"
    ("`select2` computes both of its inputs every sample; selecting away from an unsafe "
      ++ "branch does not stop it from producing NaN or infinity.")
    ("Make each branch safe on its own, for example guard a division inside the branch rather "
      ++ "than relying on the selector.")
    "process = select2(d == 0, 1 / d, 0);"
    "process = select2(d == 0, 1 / max(ma.EPSILON, d), 0);"

end Remedy

namespace RemedyCatalog

/-- The standard remedies by id, in their order. -/
def standardEntries : List (Text × Remedy) :=
  [("endless_evaluation", Remedy.endlessEvaluation),
    ("stack_overflow", Remedy.stackOverflow),
    ("sequential_composition", Remedy.sequentialComposition),
    ("split_composition", Remedy.splitComposition),
    ("merge_composition", Remedy.mergeComposition),
    ("recursive_composition", Remedy.recursiveComposition),
    ("undefined_symbol", Remedy.undefinedSymbol),
    ("unknown_function", Remedy.unknownFunction),
    ("wrong_arg_count", Remedy.wrongArgCount),
    ("type_incompatibility", Remedy.typeIncompatibility),
    ("division_by_zero", Remedy.divisionByZero),
    ("string_assignment", Remedy.stringAssignment),
    ("file_not_found", Remedy.fileNotFound),
    ("invalid_delay", Remedy.invalidDelay),
    ("select2_both_branches", Remedy.select2BothBranches)]

/-- The catalog of the standard remedies. -/
def standard : RemedyCatalog :=
  ofList "curated" standardEntries

end RemedyCatalog
end DspCheck
