namespace QuantGraph

/-! What a run reports. -/

structure PhaseReport where
  name : String
  revisions : Nat
  nodesBefore : Nat
  nodesAfter : Nat
  deriving DecidableEq, Repr

structure RunReport where
  initialNodes : Nat
  finalNodes : Nat
  initialEdges : Nat
  finalEdges : Nat
  /-- The phases in the order in which they ran. -/
  phases : List PhaseReport
  deriving DecidableEq, Repr

/-- Runs are not timed, so every time in a report is zero. -/
def elapsedText : String := "0ns"

/-- A number before and after. -/
def changeText (before after : Nat) : String := toString before ++ " → " ++ toString after

def PhaseReport.text (phase : PhaseReport) : String :=
  "    " ++ phase.name ++ " - " ++ toString phase.revisions ++ " rewrites, nodes " ++
    changeText phase.nodesBefore phase.nodesAfter ++ " (" ++ elapsedText ++ ")\n"

namespace RunReport

def totalRevisions (report : RunReport) : Nat := 
  (report.phases.map PhaseReport.revisions).foldl (· + ·) 0

/-- The first phase of a name. -/
def phase? (report : RunReport) (name : String) : Option PhaseReport :=
  report.phases.find? fun phase => phase.name == name

/-- The revisions of a phase, zero for one that there is not. -/
def revisions (report : RunReport) (name : String) : Nat :=
  ((report.phase? name).map PhaseReport.revisions).getD 0

def text (report : RunReport) : String :=
  let phases :=
    if report.phases.isEmpty then ""
    else "  Phase details:\n" ++ String.join (report.phases.map PhaseReport.text)
  "Low-Precision Transformation Statistics:\n" ++
    "  Nodes: " ++ changeText report.initialNodes report.finalNodes ++ "\n" ++
    "  Edges: " ++ changeText report.initialEdges report.finalEdges ++ "\n" ++
    "  Total rewrites: " ++ toString report.totalRevisions ++ "\n" ++
    "  Total time: " ++ elapsedText ++ "\n" ++ phases

end RunReport

end QuantGraph
