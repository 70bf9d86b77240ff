import RaisingEffects.Verdict

/-!
# Reports

A verdict as data (`Verdict.report`) and as lines of text (`Verdict.text`).
-/

namespace RaisingEffects

namespace Verdict

def sortedEffects (v : Verdict) : Table Effect :=
  v.effects.mergeSort fun a b => a.1 ≤ b.1

def report (v : Verdict) (file : Option String) : Payload :=
  .record <|
    [("status", .text (if v.isClean then "ok" else "failed")),
      ("diagnostic_count", .number v.diagnostics.length)] ++
    (file.map fun f => ("file", Payload.text f)).toList ++
    (if v.isClean then []
      else [("diagnostics", .list (v.diagnostics.map fun d => .record d.fields))]) ++
    match v.sortedEffects with
    | [] => []
    | effects => [("functions", .record (effects.map fun (name, e) => (name, .text e.text)))]

end Verdict

def Diagnostic.line (d : Diagnostic) (file : String) : String :=
  let location := d.pos.elim file fun p => s!"{file}:{p.text}"
  let place := d.function.elim "" fun f => if f.isEmpty then "" else s!" (in {f})"
  s!"{location}: {d.cause.kind}: {d.cause.message}{place}"

namespace Verdict

/-- The last line of a report: how many diagnostics there are. -/
def summary (v : Verdict) : String :=
  let count := v.diagnostics.length
  if count = 1 then s!"{count} diagnostic" else s!"{count} diagnostics"

def lines (v : Verdict) (file : String) : List String :=
  v.diagnostics.map (fun d => d.line file) ++ [v.summary]

def text (v : Verdict) (file : String) : String := "\n".intercalate (v.lines file)

end Verdict

end RaisingEffects
