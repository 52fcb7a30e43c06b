/-
  DataNexus.Evals.PlanIntegrity — the evaluator's check of a plan (`validate_plan` in
  `semantic_eval/evaluator.py`).

  `validatePlan` takes any JSON value and collects what is wrong with it; a lookup in a
  dictionary that lacks the key is a KeyError. The loops have as many rounds as they need
  at most, and one that had not ended would say so (`unfinished`). Python leaves the order
  of a set open: it is a parameter (`SetOrder`), as is `str` of a value.

  A loop of the source that collects several things is here one function for each.
-/

import DataNexus.Lib.Dict
import DataNexus.Lib.KahnStack

namespace DataNexus.Evals

open Lib

/-! ## JSON values -/

/-- A decoded JSON value; a number is its value. -/
inductive Json where
  | null
  | bool (value : Bool)
  | num (value : ℚ)
  | str (value : String)
  | arr (items : List Json)
  | obj (members : List (String × Json))

abbrev Members := List (String × Json)

namespace Json

/-- A bool is a number to `==`. -/
def number? : Json → Option ℚ
  | bool value => some (if value then 1 else 0)
  | num value => some value
  | _ => none

mutual

/-- `==`. -/
def same : Json → Json → Bool
  | null, null => true
  | str s, str t => s == t
  | arr xs, arr ys => sameAll xs ys
  | obj ms, obj ns => ms.length == ns.length && sameMembers ms ns
  | bool a, y => y.number? == some (if a then 1 else 0)
  | num x, y => y.number? == some x
  | _, _ => false

def sameAll : List Json → List Json → Bool
  | [], [] => true
  | x :: xs, y :: ys => same x y && sameAll xs ys
  | _, _ => false

def sameMembers : Members → Members → Bool
  | [], _ => true
  | (key, x) :: ms, ns => (ns.lookup key).any (same x ·) && sameMembers ms ns

end

/-- A non-empty string. -/
def text? : Json → Option String
  | str s => if s = "" then none else some s
  | _ => none

def members? : Json → Option Members
  | obj ms => some ms
  | _ => none

end Json

/-- `mapping.get(name, [])`, if it is a list. -/
def listField (members : Members) (name : String) : Option (List Json) :=
  match members.lookup name with
  | none => some []
  | some (.arr xs) => some xs
  | some _ => none

/-- The order in which a set is gone through. -/
structure SetOrder where
  list : List String → List String
  perm : ∀ xs, (list xs).Perm xs

/-- How the check ends when it does not return. -/
inductive Raised where
  | keyError (key : String)
  | unfinished
  deriving DecidableEq

/-- `d[key]`. -/
def getItem {β : Type} (d : Dict String β) (key : String) : Except Raised β :=
  match d.get? key with
  | some b => .ok b
  | none => .error (.keyError key)

def commas (names : List String) : String := ", ".intercalate (Kahn.sorted names)

/-- One error, where the condition holds. -/
def errorIf (condition : Bool) (message : String) : List String := if condition then [message] else []

/-! ## Nodes and edges -/

/-- `valid_nodes`. -/
def validNodes (nodes : List Json) : List Members := nodes.filterMap Json.members?

/-- `node_ids`. -/
def nodeIds (nodes : List Json) : List Json := (validNodes nodes).map fun node => (node.lookup "id").getD .null

/-- `string_ids`. -/
def stringIds (nodes : List Json) : List String := (nodeIds nodes).filterMap Json.text?

/-- `known`. -/
def known (nodes : List Json) : List String := (stringIds nodes).dedup

def duplicateIds (nodes : List Json) : List String := (known nodes).filter fun id => (stringIds nodes).count id > 1

/-- `node_operators`. -/
def nodeOperators (nodes : List Json) : List Json :=
  (validNodes nodes).map fun node => (node.lookup "operator").getD .null

/-- What is said before the loops. -/
def headErrors (operators edges nodes : List Json) : List String :=
  errorIf (!nodes.isEmpty && operators.isEmpty) "plan has nodes but no operators" ++
  errorIf (!edges.isEmpty && nodes.isEmpty) "plan has edges but no executable nodes" ++
  errorIf (operators.any fun operator => operator.text?.isNone) "every operator must be a non-empty string" ++
  errorIf ((validNodes nodes).length != nodes.length) "every node must be an object" ++
  errorIf ((nodeIds nodes).any fun id => id.text?.isNone) "every node must have a non-empty string ID" ++
  errorIf (!(duplicateIds nodes).isEmpty) ("duplicate node IDs: " ++ commas (duplicateIds nodes)) ++
  errorIf (!Json.sameAll (nodeOperators nodes) operators) "node operator sequence does not match plan operators"

/-- An edge, of two non-empty strings. -/
def readEdge : Json → Option (String × String)
  | .arr [source, target] =>
    match source.text?, target.text? with
    | some source, some target => some (source, target)
    | _, _ => none
  | _ => none

def edgeErrors (ids : List String) (edge : Json) : List String :=
  match readEdge edge with
  | none => ["every edge must contain two non-empty string node IDs"]
  | some (source, target) =>
    let missing := [source, target].dedup.filter (· ∉ ids)
    errorIf (!missing.isEmpty) ("edge " ++ source ++ "->" ++ target ++ " has missing nodes: " ++ commas missing)

/-- `declared_edges`, before repeated ones are dropped. -/
def declaredEdges (edges : List Json) : List (String × String) := edges.filterMap readEdge

/-- What a node says of itself, as sets. -/
structure Sanitized where
  dependsOn : List String
  inputs : List String
  outputs : List String
  deriving DecidableEq

/-- `raw_values`. -/
def rawValues (node : Members) (fieldName : String) : List Json := (listField node fieldName).getD []

def fieldValues (node : Members) (fieldName : String) : List String := (rawValues node fieldName).filterMap Json.text?

def sanitized (node : Members) : Sanitized :=
  ⟨(fieldValues node "depends_on").dedup, (fieldValues node "inputs").dedup, (fieldValues node "outputs").dedup⟩

/-- The id a node goes by in the second loop. -/
def loopId (node : Members) : Json := (node.lookup "id").getD (.str "<missing>")

/-- `node_data`, after one node. -/
def addNode (data : Dict String Sanitized) (node : Members) : Dict String Sanitized :=
  match (loopId node).text? with
  | some id => data.set id (sanitized node)
  | none => data

def nodeData (nodes : List Json) : Dict String Sanitized := (validNodes nodes).foldl addNode Dict.empty

section

variable (str : Json → String)

def fieldErrors (node : Members) (fieldName : String) : List String :=
  let id := str (loopId node)
  let values := fieldValues node fieldName
  errorIf (listField node fieldName).isNone (id ++ " " ++ fieldName ++ " must be a list") ++
  errorIf (values.length != (rawValues node fieldName).length) (id ++ " has invalid " ++ fieldName) ++
  errorIf (values.dedup.length != values.length) (id ++ " has duplicate " ++ fieldName)

def nodeErrors (node : Members) : List String :=
  ["depends_on", "inputs", "outputs"].flatMap (fieldErrors str node) ++
  errorIf (sanitized node).outputs.isEmpty (str (loopId node) ++ " must declare at least one output")

end

/-- `upstream_outputs`. -/
def upstreamOutputs (data : Dict String Sanitized) (entry : Sanitized) : List String :=
  entry.dependsOn.flatMap fun dependency => (data.get? dependency).elim [] (·.outputs)

def entryErrors (data : Dict String Sanitized) (ids : List String) (entry : String × Sanitized) : List String :=
  let missing := entry.2.dependsOn.filter (· ∉ ids)
  let missingInputs := entry.2.inputs.filter (· ∉ upstreamOutputs data entry.2)
  errorIf (!missing.isEmpty) (entry.1 ++ " has missing dependencies: " ++ commas missing) ++
  if !entry.2.dependsOn.isEmpty && entry.2.inputs.isEmpty then [entry.1 ++ " must declare inputs from its dependencies"]
  else errorIf (!entry.2.dependsOn.isEmpty && !missingInputs.isEmpty)
    (entry.1 ++ " has unavailable inputs: " ++ commas missingInputs)

/-! ## The graph -/

/-- What the loop over the dependencies fills in. -/
structure Links where
  dependencyEdges : List (String × String)
  adjacency : Dict String (List String)
  undirected : Dict String (List String)
  indegree : Dict String Int

/-- `{node_id: value for node_id in known}`. -/
def table {β : Type} (ids : List String) (value : β) : Dict String β := ids.foldl (·.set · value) Dict.empty

def emptyLinks (ids : List String) : Links := ⟨[], table ids [], table ids [], table ids 0⟩

/-- `d[key].add(value)`. -/
def addTo (d : Dict String (List String)) (key value : String) : Except Raised (Dict String (List String)) := do
  let values ← getItem d key
  return d.set key (if value ∈ values then values else values ++ [value])

def linkDependency (id : String) (links : Links) (dependency : String) : Except Raised Links := do
  let undirected ← addTo links.undirected dependency id
  let undirected ← addTo undirected id dependency
  let downstream ← getItem links.adjacency dependency
  let dependencyEdges := (dependency, id) :: links.dependencyEdges
  if id ∈ downstream then return { links with dependencyEdges, undirected }
  else do
    let degree ← getItem links.indegree id
    return ⟨dependencyEdges, links.adjacency.set dependency (downstream ++ [id]), undirected, links.indegree.set id (degree + 1)⟩

section

variable (order : SetOrder)

def linkNode (ids : List String) (links : Links) (entry : String × Sanitized) : Except Raised Links :=
  (order.list (entry.2.dependsOn.filter (· ∈ ids))).foldlM (linkDependency entry.1) links

/-- What the loop over the ready nodes goes on with. -/
structure Draining where
  indegree : Dict String Int
  ready : List String
  visited : Nat

/-- One dependency of a node is met. -/
def meet (s : Draining) (downstream : String) : Except Raised Draining := do
  let degree ← getItem s.indegree downstream
  return { s with
    indegree := s.indegree.set downstream (degree - 1)
    ready := if degree - 1 = 0 then s.ready ++ [downstream] else s.ready }

/-- `while ready`. -/
def drain (adjacency : Dict String (List String)) : Nat → Draining → Except Raised Draining
  | fuel, s =>
    match s.ready.getLast?, fuel with
    | none, _ => .ok s
    | some _, 0 => .error .unfinished
    | some id, fuel + 1 => do
      let downstream ← getItem adjacency id
      let met ← (order.list downstream).foldlM meet { s with ready := s.ready.dropLast, visited := s.visited + 1 }
      drain adjacency fuel met

/-- `while pending`. -/
def connect (undirected : Dict String (List String)) : Nat → List String → List String → Except Raised (List String)
  | fuel, pending, connected =>
    match pending.getLast?, fuel with
    | none, _ => .ok connected
    | some _, 0 => .error .unfinished
    | some id, fuel + 1 =>
      if id ∈ connected then connect undirected fuel pending.dropLast connected
      else do
        let neighbours ← getItem undirected id
        connect undirected fuel (pending.dropLast ++ order.list (neighbours.filter (· ∉ id :: connected))) (id :: connected)

/-- Everything the walk from the first node comes to; `none` where there is no node. -/
def connected (ids : List String) (undirected : Dict String (List String)) : Except Raised (Option (List String)) :=
  match order.list ids with
  | [] => .ok none
  | start :: _ => some <$> connect order undirected (1 + ids.length * ids.length) [start] []

variable (str : Json → String)

/-- Everything that was found, in the order it is said. -/
def foundErrors (operators edges nodes : List Json) (links : Links) (visited : Nat) (reached : Option (List String)) :
    List String :=
  let ids := known nodes
  headErrors operators edges nodes ++
  edges.flatMap (edgeErrors ids) ++
  errorIf ((declaredEdges edges).dedup.length != (declaredEdges edges).length) "plan contains duplicate edges" ++
  (validNodes nodes).flatMap (nodeErrors str) ++
  (nodeData nodes).entries.flatMap (entryErrors (nodeData nodes) ids) ++
  errorIf ((declaredEdges edges).toFinset != links.dependencyEdges.toFinset) "plan edges do not match node dependencies" ++
  errorIf (visited != ids.length) "plan graph contains a dependency cycle" ++
  errorIf (reached.any fun reached => reached.toFinset != ids.toFinset) "plan graph contains disconnected nodes"

/-- `validate_plan`, of the three lists. -/
def validateGraph (operators edges nodes : List Json) : Except Raised (List String) := do
  let ids := known nodes
  let links ← (nodeData nodes).entries.foldlM (linkNode order ids) (emptyLinks (order.list ids))
  let ready := (links.indegree.entries.filter (·.2 = 0)).map (·.1)
  let drained ← drain order links.adjacency ids.length ⟨links.indegree, ready, 0⟩
  let reached ← connected order ids links.undirected
  return foundErrors str operators edges nodes links drained.visited reached

/-- `validate_plan`. -/
def validatePlan : Json → Except Raised (List String)
  | .obj members =>
    match listField members "operators", listField members "edges", listField members "nodes" with
    | none, _, _ => .ok ["operators must be a list"]
    | some _, none, _ => .ok ["edges must be a list"]
    | some _, some _, none => .ok ["nodes must be a list"]
    | some operators, some edges, some nodes =>
      if !operators.isEmpty && nodes.isEmpty then .ok ["plan has operators but no executable nodes"]
      else validateGraph order str operators edges nodes
  | _ => .ok ["plan must be an object"]

end

end DataNexus.Evals
