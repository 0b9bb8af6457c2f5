import Timeline.Failure
import Timeline.Journal.Record

/-! Which stylesheets can be converted: those without faults and with a keyframes rule. -/
namespace Timeline

open Journal (Logged Record)
open Sheet (Stylesheet)

/-- A stylesheet that can be converted. -/
structure ValidSheet where
  sheet : Stylesheet
  no_diagnostics : sheet.diagnostics = []
  keyframes_ne_nil : sheet.keyframes ≠ []

/-- Every fault is logged as a warning before all of them are refused. -/
def validate : Node → Logged (Except ValidationError ValidSheet)
  | .rule _ => ⟨[], .error (.notAStylesheet .rule)⟩
  | .stylesheet sheet =>
    if hd : sheet.diagnostics = [] then
      if hk : sheet.keyframes = [] then ⟨[], .error .noKeyframes⟩
      else ⟨[], .ok ⟨sheet, hd, hk⟩⟩
    else
      ⟨sheet.diagnostics.map fun d => Record.own .warn d.message, .error (.hasDiagnostics sheet.diagnostics)⟩

end Timeline
