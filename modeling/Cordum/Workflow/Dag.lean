import Cordum.Graph.Dfs
import Cordum.Workflow.Status

/-!
# Validation of dependencies

The gateway takes a definition only if its dependencies name steps and are acyclic, in whatever order
the maps are ranged over. It reads a dependency without the white space around it and passes over a
blank one.
-/

namespace Cordum.Flow

open GoString Graph

variable (steps : GoMap Step)

/-- The dependencies of a step as `validateDAG` reads them. -/
def dependencies (id : String) : List String :=
  match steps.lookup id with
  | none => []
  | some step => (step.dependsOn.map trimSpace).filter (· ≠ "")

/-- What is wrong with a definition. -/
inductive DagError
  | missing (id dep : String)
  | circular (path : List String)
deriving DecidableEq

/-- The keys of the map as one loop comes to them. -/
abbrev StepOrder := { l : List String // l.Perm steps.keys }

/-- `validateDAG`, with the orders of its two loops; the error is `none` if the search did not end. -/
def validateDAG (order order' : StepOrder steps) : Except (Option DagError) Unit :=
  match order.1.findSome? fun id => ((dependencies steps id).find? (· ∉ steps)).map
    (DagError.missing id) with
  | some e => .error e
  | none =>
    match search (dependencies steps) (steps.keys.length + 1) order'.1 with
    | .error path => .error (path.map .circular)
    | .ok _ => .ok ()

end Cordum.Flow
