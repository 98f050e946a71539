import DspCheck.Text.Search

/-!
# Arguments of the command line

The arguments name a command, its operands and its options.  An option takes a value: the next
argument, or the rest of its own one, as in `--catalog c.json`, `--catalog=c.json`, `-o c.json` and
`-oc.json`.  Two options are known before and behind the name of the command; behind it they count
more.  No option may be given twice on one side.  Two dashes alone make operands of all arguments
behind them.
-/

namespace DspCheck

/-- The forms in which a verdict is shown. -/
inductive ReportFormat
  /-- Drawn for a user. -/
  | text
  /-- The plain report. -/
  | llm
  /-- The document of the verdict. -/
  | json
  deriving DecidableEq, Repr

/-- A command with its operands and options. -/
inductive Command
  | buildCatalog (directory output : Text)
  | buildRemedies (directory? : Option Text) (output : Text)
  | validate (input : Text) (catalog? : Option Text) (format : ReportFormat)
  | explain (input? : Option Text)
  | lookup (name : Text) (catalog? : Option Text)
  deriving DecidableEq, Repr

/-- What a user asks for. -/
structure Invocation where
  command : Command
  /-- The file of the configuration. -/
  configuration? : Option Text
  /-- How much is said about the work itself. -/
  logLevel : Text
  deriving DecidableEq, Repr

/-- The options. -/
inductive Flag
  | configuration
  | logLevel
  | output
  | catalog
  | format
  deriving DecidableEq, Repr

namespace Flag

/-- The long name of an option, without its dashes. -/
def longName : Flag → Text
  | configuration => "config"
  | logLevel => "log-level"
  | output => "output"
  | catalog => "catalog"
  | format => "format"

/-- The short name of an option. -/
def shortName? : Flag → Option Char
  | configuration => some 'c'
  | output => some 'o'
  | logLevel | catalog | format => none

/-- The options that all commands know. -/
def common : List Flag :=
  [configuration, logLevel]

end Flag

/-- What a single argument is. -/
inductive Argument
  | operand (t : Text)
  /-- An option, with its value if the argument holds it. -/
  | option (flag : Flag) (value? : Option Text)
  /-- Two dashes alone. -/
  | separator
  deriving DecidableEq, Repr

namespace Argument

/-- The option of a long name with or without a value behind an equals sign. -/
def ofLong? (known : List Flag) (t : Text) : Option Argument :=
  match Text.breakAt? "=" t with
  | some (name, value) =>
      (known.find? fun f => f.longName = name).map (option · (some value))
  | none => (known.find? fun f => f.longName = t).map (option · none)

/-- The value behind a short name in the same argument. -/
def attached? : Text → Option Text
  | [] => none
  | c :: t => if c = '=' then some t else some (c :: t)

/-- The option of a short name with or without a value behind it. -/
def ofShort? (known : List Flag) (c : Char) (t : Text) : Option Argument :=
  (known.find? fun f => f.shortName? = some c).map (option · (attached? t))

/-- What an argument is, if its options are among the known ones. -/
def read? (known : List Flag) : Text → Option Argument
  | ['-', '-'] => some separator
  | '-' :: '-' :: t => ofLong? known t
  | '-' :: c :: t => ofShort? known c t
  | t => some (operand t)

/-- Whether an argument can be the value of the option before it. -/
def isValue : Text → Bool
  | ['-'] => true
  | '-' :: _ => false
  | _ => true

end Argument

/-- The options and operands of a command. -/
structure ArgumentSet where
  options : List (Flag × Text)
  operands : List Text
  deriving DecidableEq, Repr

namespace ArgumentSet

/-- The set with another option. -/
def withOption (flag : Flag) (value : Text) (s : ArgumentSet) : ArgumentSet :=
  { s with options := (flag, value) :: s.options }

/-- The set with another operand. -/
def withOperand (t : Text) (s : ArgumentSet) : ArgumentSet :=
  { s with operands := t :: s.operands }

/-- The options and operands that arguments give. -/
def read? (known : List Flag) : List Text → Option ArgumentSet
  | [] => some ⟨[], []⟩
  | a :: as =>
      match Argument.read? known a with
      | none => none
      | some .separator => some ⟨[], as⟩
      | some (.operand t) => (read? known as).map (withOperand t)
      | some (.option flag (some value)) => (read? known as).map (withOption flag value)
      | some (.option flag none) =>
          match as with
          | [] => none
          | value :: as =>
              if Argument.isValue value then (read? known as).map (withOption flag value)
              else none

/-- Whether no option is given twice. -/
def isUnique (options : List (Flag × Text)) : Bool :=
  decide (options.map Prod.fst).Nodup

/-- The value of an option. -/
def value? (options : List (Flag × Text)) (flag : Flag) : Option Text :=
  (options.find? fun o => o.1 = flag).map Prod.snd

end ArgumentSet

namespace Command

/-- The options of a command beside the common ones. -/
def flagsOf? (name : Text) : Option (List Flag) :=
  if name = "build-catalog" then some [.output]
  else if name = "build-error-catalog" then some [.output]
  else if name = "validate" then some [.catalog, .format]
  else if name = "translate" then some []
  else if name = "lookup" then some [.catalog]
  else none

/-- The form that a word names. -/
def formatOf? (t : Text) : Option ReportFormat :=
  if t = "text" then some .text
  else if t = "llm" then some .llm
  else if t = "json" then some .json
  else none

/-- The operand of a command that takes one or none. -/
def optionalOperand? : List Text → Option (Option Text)
  | [] => some none
  | [t] => some (some t)
  | _ => none

/-- The operand of a command that takes one. -/
def operand? : List Text → Option Text
  | [t] => some t
  | _ => none

/-- The command of a name with options and operands. -/
def ofParts? (name : Text) (s : ArgumentSet) : Option Command := do
  let value? := ArgumentSet.value? s.options
  if name = "build-catalog" then
    return .buildCatalog (← operand? s.operands) ((value? .output).getD "catalog.json")
  else if name = "build-error-catalog" then
    return .buildRemedies (← optionalOperand? s.operands) ((value? .output).getD "errors.json")
  else if name = "validate" then
    let format ← formatOf? ((value? .format).getD "text")
    return .validate (← operand? s.operands) (value? .catalog) format
  else if name = "translate" then return .explain (← optionalOperand? s.operands)
  else if name = "lookup" then return .lookup (← operand? s.operands) (value? .catalog)
  else none

end Command

namespace Invocation

/-- The options before the name of the command, the name, and the arguments behind it. -/
def split? : List Text → Option (List (Flag × Text) × Text × List Text)
  | [] => none
  | a :: as =>
      match Argument.read? Flag.common a with
      | none => none
      | some .separator => none
      | some (.operand name) => some ([], name, as)
      | some (.option flag (some value)) =>
          (split? as).map fun p => ((flag, value) :: p.1, p.2)
      | some (.option flag none) =>
          match as with
          | [] => none
          | value :: as =>
              if Argument.isValue value then
                (split? as).map fun p => ((flag, value) :: p.1, p.2)
              else none

/-- What the arguments ask for. -/
def ofArguments? (arguments : List Text) : Option Invocation := do
  let (outer, name, rest) ← split? arguments
  let flags ← Command.flagsOf? name
  let inner ← ArgumentSet.read? (flags ++ Flag.common) rest
  if !ArgumentSet.isUnique outer || !ArgumentSet.isUnique inner.options then none
  else
    let common? := ArgumentSet.value? (inner.options ++ outer)
    return {
      command := ← Command.ofParts? name inner
      configuration? := common? .configuration
      logLevel := (common? .logLevel).getD "warn" }

end Invocation
end DspCheck
