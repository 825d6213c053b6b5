import FlowTyping.Inference.Result
import FlowTyping.Text.Document

/-!
# Reports

A digest of a run as an indented document.
-/

namespace FlowTyping

open Text (Document)

/-- A digest of what was inferred about one routine. -/
structure RoutineReport where
  routine : RoutineId
  result : String
  summary : Summary
  effects : Effects
  diagnostics : List Diagnostic
  visits : List Nat
  kinds : Nat
  overflowed : Bool
  deriving Inhabited

namespace RoutineReport

/-- The report on a routine, from all that was inferred about it. -/
def ofResult (r : RoutineResult) : Except Fault RoutineReport := do
  return {
    routine := r.routine
    result := ← r.display r.result
    summary := ← r.summary
    effects := r.effects
    diagnostics := r.diagnostics
    visits := r.visits.toList
    kinds := r.table.size
    overflowed := r.table.overflowed }

end RoutineReport

mutual

/-- A description as a document, in which objects and arrays are records of one field. -/
def Desc.document : Desc → Document
  | .null => .text "Null"
  | .bool => .text "Bool"
  | .long => .text "Long"
  | .double => .text "Double"
  | .string => .text "String"
  | .resource => .text "Resource"
  | .array any ref void subclasses kinds =>
    .record [("Array", .record [("any", .bool any), ("is_ref", .bool ref), ("void", .bool void),
      ("subclasses", .bool subclasses), ("types", .list (Desc.documents kinds))])]
  | .object cls => .record [("Class", .text cls.text)]

/-- Descriptions as documents, one after the other. -/
def Desc.documents : List Desc → List Document
  | [] => []
  | d :: ds => Desc.document d :: Desc.documents ds

end

/-- A summary as a document. -/
def Summary.document (s : Summary) : Document :=
  .record [("any", .bool s.any), ("is_ref", .bool s.ref), ("void", .bool s.void),
    ("subclasses", .bool s.subclasses), ("types", .list (Desc.documents s.kinds))]

/-- The effects of a routine as a document. -/
def Effects.document (e : Effects) : Document :=
  .record [("uses_dynamic_locals", .bool e.dynamicLocals),
    ("uses_late_static_binding", .bool e.lateStaticBinding), ("is_generator", .bool e.generator)]

/-- A diagnostic as a document that tells its kind by the name of a field. -/
def Diagnostic.document (d : Diagnostic) : Document :=
  .record [("expr", .number d.expr),
    ("kind", .record [("ByRefArgumentNotLValue",
      .record [("callee", .number d.callee), ("parameter", .text d.parameter)])])]

/-- A report as a document. -/
def RoutineReport.document (r : RoutineReport) : Document :=
  .record [("routine", .number r.routine), ("result", .text r.result),
    ("summary", r.summary.document), ("effects", r.effects.document),
    ("diagnostics", .list (r.diagnostics.map Diagnostic.document)),
    ("block_visits", .list (r.visits.map .number)), ("type_refs", .number r.kinds),
    ("overflowed", .bool r.overflowed)]

/-- The digest of a whole run. -/
def InferResult.report (r : InferResult) : Except Fault String := do
  let routines ← r.routines.values.mapM RoutineReport.ofResult
  let document : Document := .record [("iterations", .number r.iterations),
    ("rounds", .number r.rounds), ("converged", .bool r.converged),
    ("routines", .list (routines.map RoutineReport.document))]
  return document.pretty

end FlowTyping
