import DspCheck.Check.Validation
import DspCheck.Json.Writer
import DspCheck.Remedy.Explanation

/-!
# Documents

The values that verdicts and explanations are written as in JSON.  Fields without a value are left
out.
-/

namespace DspCheck

namespace Span

/-- The document of a span. -/
def toValue (s : Span) : Value :=
  .record [("start", .natural s.start), ("end", .natural s.stop)]

end Span

namespace Diagnostic

/-- The document of a diagnostic. -/
def toValue (d : Diagnostic) : Value :=
  .recordOf [
    ("severity", some (.text d.severity.name)),
    ("code", d.code?.map (.text ·.tag)),
    ("message", some (.text d.message)),
    ("line", some (.natural d.line)),
    ("column", some (.natural d.column)),
    ("span", d.span?.map Span.toValue),
    ("suggestion", d.suggestion?.map .text)]

end Diagnostic

namespace Verdict

/-- The document of a verdict. -/
def toValue (v : Verdict) : Value :=
  .record [
    ("valid", .bool v.isValid),
    ("errors", .list (v.errors.map Diagnostic.toValue)),
    ("warnings", .list (v.warnings.map Diagnostic.toValue)),
    ("suggestions", Value.ofTexts v.suggestions)]

/-- A verdict as JSON. -/
def toJson (v : Verdict) : Text :=
  Json.write v.toValue

end Verdict

namespace Explanation

/-- The document of an explanation. -/
def toValue (e : Explanation) : Value :=
  .recordOf [
    ("original", some (.text e.report)),
    ("patternId", e.remedyId?.map .text),
    ("message", some (.text e.message)),
    ("cause", some (.text e.cause)),
    ("fix", some (.text e.fix)),
    ("exampleBad", e.badSample?.map .text),
    ("exampleGood", e.goodSample?.map .text),
    ("line", e.line?.map .natural)]

end Explanation
end DspCheck
