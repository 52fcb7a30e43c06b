/-
  DataNexus.Evals.CaseEvaluation — the evaluation of one case (`evaluate_case` and what it calls in
  `semantic_eval/evaluator.py`).

  A golden case and a candidate are JSON values, as `_sanitize_json_value` leaves them: keys are
  strings, floats finite, and there are no dates, so that `_normalize_temporal` changes nothing
  and is left out. Each of the five dimensions has a list of checks; the differences are one
  list, empty where the case passes. What is looked up where it is not there, or in what is no
  object, raises.

  Python's texts of floats, of string literals and of values in messages, the decimals of
  `_numbers_equal` and the weighted sum of the scores are parameters (`Python`).
-/

import DataNexus.Evals.PlanIntegrity
import DataNexus.Lib.Double
import DataNexus.Lib.KeySort

namespace DataNexus.Evals

open Lib

/-! ## Values -/

/-- A decoded JSON value; numbers are ints or finite floats. -/
inductive Document where
  | null
  | bool (value : Bool)
  | int (value : ℤ)
  | float (value : Number) (isFinite : value.IsFinite)
  | str (value : String)
  | arr (items : List Document)
  | obj (members : List (String × Document))

abbrev Fields := List (String × Document)

namespace Document

/-- What `==` sees of the value: an int and a float are their numbers. -/
def number (n : Number) : ℚ := n.worth.getD 0

mutual

def plain : Document → Json
  | null => .null
  | bool b => .bool b
  | int n => .num n
  | float n _ => .num (number n)
  | str s => .str s
  | arr items => .arr (plainItems items)
  | obj members => .obj (plainMembers members)

def plainItems : List Document → List Json
  | [] => []
  | v :: items => plain v :: plainItems items

def plainMembers : Fields → Members
  | [] => []
  | (key, v) :: members => (key, plain v) :: plainMembers members

end

/-- `_strict_equal`, of two dictionaries: the keys of the second are keys of the first. -/
def keysIn (ns ms : Fields) : Bool := ns.all fun n => ms.any fun m => m.1 == n.1

mutual

/-- `_strict_equal`. -/
def strictEqual : Document → Document → Bool
  | null, null => true
  | bool a, bool b => a == b
  | int m, int n => m == n
  | float m _, float n _ => number m == number n
  | str s, str t => s == t
  | arr xs, arr ys => strictItems xs ys
  | obj ms, obj ns => keysIn ns ms && strictMembers ms ns
  | _, _ => false

def strictItems : List Document → List Document → Bool
  | [], [] => true
  | x :: xs, y :: ys => strictEqual x y && strictItems xs ys
  | _, _ => false

def strictMembers : Fields → Fields → Bool
  | [], _ => true
  | (key, x) :: ms, ns => (ns.lookup key).any (strictEqual x ·) && strictMembers ms ns

end

/-- `type(value).__name__`. -/
def typeName : Document → String
  | null => "NoneType"
  | bool _ => "bool"
  | int _ => "int"
  | float _ _ => "float"
  | str _ => "str"
  | arr _ => "list"
  | obj _ => "dict"

/-- `bool(value)`. -/
def truthy : Document → Bool
  | null => false
  | bool b => b
  | int n => n != 0
  | float n _ => number n != 0
  | str s => s != ""
  | arr items => !items.isEmpty
  | obj members => !members.isEmpty

def isObject : Document → Bool
  | obj _ => true
  | _ => false

/-- An object or a list. -/
def isContainer : Document → Bool
  | obj _ | arr _ => true
  | _ => false

/-- The value of a key of an object. -/
def field? (v : Document) (key : String) : Option Document :=
  match v with
  | obj members => members.lookup key
  | _ => none

end Document

open Document

/-! ## What Python supplies -/

structure Python where
  /-- `float.__repr__`. -/
  floatRepr : Number → String
  /-- `str.__repr__`. -/
  strRepr : String → String
  /-- `str` of a value, and `repr` of one, in messages. -/
  str : Document → String
  repr : Document → String
  plainStr : Json → String
  setOrder : SetOrder
  /-- The decimals of two numbers differ by no more than the tolerance; false where one of them
      is no decimal. -/
  withinTolerance : Document → Document → Document → Bool
  /-- The weighted mean of the scores, rounded, with the weights that `_resolve_weights` gives. -/
  weigh : List (String × ℚ) → Option (List (String × ℚ)) → ℚ

/-! ## `_compare_exact` -/

section

variable (python : Python)

mutual

/-- `canonical`. -/
def canonical : Document → Document
  | .arr items => .arr (canonicalItems items)
  | .obj members => .arr ((sortBy (fun m => python.strRepr m.1) (canonicalMembers members)).map fun m =>
      .arr [.str ("str:" ++ python.strRepr m.1), m.2])
  | v => v

def canonicalItems : List Document → List Document
  | [] => []
  | v :: items => canonical v :: canonicalItems items

def canonicalMembers : Fields → Fields
  | [] => []
  | (key, v) :: members => (key, canonical v) :: canonicalMembers members

end

/-- The escape of a character in a JSON string. -/
def escapeChar (c : Char) : String :=
  if c = '"' then "\\\""
  else if c = '\\' then "\\\\"
  else if c = '\n' then "\\n"
  else if c = '\r' then "\\r"
  else if c = '\t' then "\\t"
  else if c.toNat = 12 then "\\f"
  else if c.toNat = 8 then "\\b"
  else if c.toNat < 32 then
    "\\u00" ++ String.ofList [Nat.digitChar (c.toNat / 16), Nat.digitChar (c.toNat % 16)]
  else c.toString

def dumpString (s : String) : String := "\"" ++ String.join (s.toList.map escapeChar) ++ "\""

mutual

/-- `json.dumps`, without escapes of what is not ASCII. -/
def dumps : Document → String
  | .null => "null"
  | .bool true => "true"
  | .bool false => "false"
  | .int n => toString n
  | .float n _ => python.floatRepr n
  | .str s => dumpString s
  | .arr items => "[" ++ ", ".intercalate (dumpItems items) ++ "]"
  | .obj members => "\x7b" ++ ", ".intercalate (dumpMembers members) ++ "\x7d"

def dumpItems : List Document → List String
  | [] => []
  | v :: items => dumps v :: dumpItems items

def dumpMembers : Fields → List String
  | [] => []
  | (key, v) :: members => (dumpString key ++ ": " ++ dumps v) :: dumpMembers members

end

/-- `sort_key`. -/
def sortKey (v : Document) : String := dumps python (canonical python v)

/-- What is compared: a list that is unordered is sorted. -/
def arranged (unordered : Bool) : Document → Document
  | .arr items => .arr (if unordered then sortBy (sortKey python) items else items)
  | v => v

structure Difference where
  dimension : String
  path : String
  expected : Document
  actual : Document
  message : String

/-- What `_compare_exact` returns. -/
def accepts (unordered : Bool) (expected actual : Document) : Bool :=
  strictEqual (arranged python unordered expected) (arranged python unordered actual)

/-- `_compare_exact`: its result, and the difference it adds. -/
def compareExact (dimension path : String) (unordered : Bool) (expected actual : Document) :
    Bool × List Difference :=
  if accepts python unordered expected actual then (true, [])
  else (false, [⟨dimension, path, expected, actual, path ++ " differs"⟩])

end

/-! ## `_container_type_errors` -/

/-- The lists whose items are objects, lists or scalars even where none is expected. -/
def objectLists : List String := ["plan.nodes", "result.schema", "result.rows"]

def scalarLists : List String :=
  ["semantic.entities", "semantic.fields", "semantic.metrics", "semantic.relations", "plan.operators", "result.grain",
    "result.order_by", "lineage.entities", "lineage.fields"]

def indexed (path : String) (index : Nat) : String := path ++ "[" ++ toString index ++ "]"

/-- An error for each item that a test refuses. -/
def itemErrors (path must : String) (refused : Document → Bool) (items : List Document) : List String :=
  items.zipIdx.flatMap fun item => if refused item.1 then [indexed path item.2 ++ must] else []

mutual

def containerTypeErrors : Document → Document → String → List String
  | .obj expected, actual, path =>
    match actual with
    | .obj members => memberErrors expected members path
    | _ => [path ++ " must be an object"]
  | .arr [], actual, path =>
    match actual with
    | .arr items =>
      if path ∈ objectLists then itemErrors path " must be an object" (fun v => !v.isObject) items
      else if path = "plan.edges" then
        itemErrors path " must be a list" (fun v => !v.isContainer || v.isObject) items
      else if path ∈ scalarLists then itemErrors path " must be a scalar" isContainer items
      else []
    | _ => [path ++ " must be a list"]
  | .arr (first :: _), actual, path =>
    match actual with
    | .arr items =>
      if first.isContainer then
        items.zipIdx.flatMap fun item => containerTypeErrors first item.1 (indexed path item.2)
      else itemErrors path " must be a scalar" isContainer items
    | _ => [path ++ " must be a list"]
  | _, actual, path => if actual.isContainer then [path ++ " must be a scalar"] else []

def memberErrors : Fields → Fields → String → List String
  | [], _, _ => []
  | (key, expected) :: rest, members, path =>
    ((members.lookup key).elim [] fun actual => containerTypeErrors expected actual (path ++ "." ++ key)) ++
      memberErrors rest members path

end

/-! ## `compare_rows` -/

section

variable (python : Python)

def isNumeric : Document → Bool
  | .int _ | .float _ _ => true
  | _ => false

/-- `_numbers_equal`. -/
def numbersEqual (expected actual tolerance : Document) : Bool :=
  match expected, actual with
  | .null, .null => true
  | .null, _ => false
  | _, .null => false
  | .bool a, .bool b => a == b
  | .bool _, _ => false
  | _, .bool _ => false
  | .int m, .int n => m == n
  | expected, actual =>
    if isNumeric expected && isNumeric actual then python.withinTolerance expected actual tolerance
    else Json.same expected.plain actual.plain

/-- What is said of a row, if its columns or one of its values differ. -/
def rowMessage (tolerance : Document) (index : Nat) (expected actual : Document) : Option String :=
  match expected, actual with
  | .obj expected, .obj actual =>
    if keysIn expected actual && keysIn actual expected then
      expected.findSome? fun column =>
        let actualValue := (actual.lookup column.1).getD .null
        if numbersEqual python column.2 actualValue tolerance then none
        else some ("row " ++ toString index ++ " column " ++ column.1 ++ " differs: expected " ++ python.repr column.2 ++
          ", got " ++ python.repr actualValue)
    else some ("row " ++ toString index ++ " columns differ")
  | _, _ => some ("row " ++ toString index ++ " must be an object")

/-- `compare_rows`: what differs, if anything does. -/
def compareRows (expected actual tolerance : Document) : Option String :=
  match expected, actual with
  | .arr expected, .arr actual =>
    if expected.length != actual.length then
      some ("row count differs: expected " ++ toString expected.length ++ ", got " ++ toString actual.length)
    else ((expected.zip actual).zipIdx).findSome? fun row => rowMessage python tolerance row.2 row.1.1 row.1.2
  | _, _ => some "rows must be lists"

end

/-! ## `evaluate_case` -/

/-- How the evaluation ends when it does not return. -/
inductive Failure where
  | keyError (key : String)
  | attributeError
  | typeError
  | planCheck (raised : Raised)
  deriving DecidableEq

/-- `value[key]`. -/
def getKey (v : Document) (key : String) : Except Failure Document :=
  match v with
  | .obj members => match members.lookup key with
    | some w => .ok w
    | none => .error (.keyError key)
  | _ => .error .typeError

/-- `value.get(key, default)`. -/
def getDefault (v : Document) (key : String) (default : Document) : Except Failure Document :=
  match v with
  | .obj members => .ok ((members.lookup key).getD default)
  | _ => .error .attributeError

def empty : Document := .obj []

def noItems : Document := .arr []

/-- The value, if it is an object, and the empty object otherwise. -/
def objectOr (v : Document) : Document := if v.isObject then v else empty

/-- `actual.get(key, default)`, of a candidate. -/
def candidateField (actual : Fields) (key : String) (default : Document) : Document :=
  (actual.lookup key).getD default

def dimensions : List String := ["semantic", "plan", "execution_result", "governance", "observability"]

/-- `dimension_paths`. -/
def dimensionPaths : List (String × String) :=
  [("semantic", "semantic"), ("time_range", "semantic"), ("member_normalization", "semantic"), ("plan", "plan"),
    ("result", "execution_result"), ("behavior", "governance"), ("governance", "governance"),
    ("diagnostics", "governance"), ("lineage", "observability")]

/-- `_dimension_score`, in doubles. -/
def dimensionScore (checks : List Bool) : ℚ :=
  if checks.isEmpty then 100
  else nearestDouble (nearestDouble (100 * nearestDouble (checks.count true)) / checks.length)

/-- `round(value, 2)`. -/
def roundTwo (value : ℚ) : ℚ := nearestDouble (roundHalfEven (value * 100) / 100)

structure CaseReport where
  caseId : Document
  score : ℚ
  dimensionScores : List (String × ℚ)
  differences : List Difference

def CaseReport.passed (report : CaseReport) : Bool := report.differences.isEmpty

/-- Some checks, and the differences they add. -/
structure Checks where
  results : List Bool
  differences : List Difference

namespace Checks

def none : Checks := ⟨[], []⟩

def append (a b : Checks) : Checks := ⟨a.results ++ b.results, a.differences ++ b.differences⟩

def one (check : Bool × List Difference) : Checks := ⟨[check.1], check.2⟩

def all (checks : List Checks) : Checks := checks.foldr append none

end Checks

section

variable (python : Python)

/-- What the shape of a path is compared with. -/
def shapeExpected (expected : Document) (path : String) : Except Failure Document :=
  if path = "lineage" then do
    let semantic ← getKey expected "semantic"
    let entities ← getDefault semantic "entities" noItems
    let fields ← getDefault semantic "fields" noItems
    return .obj [("entities", entities), ("fields", fields)]
  else getDefault expected path empty

/-- The checks and differences of the shape of one path of the candidate. -/
def shapeCheck (expected : Document) (actual : Fields) (path dimension : String) : Except Failure Checks :=
  match actual.lookup path with
  | none => .ok .none
  | some value => do
    let expectedValue ← shapeExpected expected path
    let errors := containerTypeErrors expectedValue value path
    let code := if dimension = "plan" then "INVALID_PLAN_SHAPE" else "INVALID_CANDIDATE_SHAPE"
    return ⟨if errors.isEmpty then [] else [false],
      errors.map fun error => ⟨dimension, path, .str expectedValue.typeName, value, code ++ ": " ++ error⟩⟩

/-- `shape_checks`, of one dimension. -/
def shapeChecks (expected : Document) (actual : Fields) (dimension : String) : Except Failure Checks := do
  let checks ← (dimensionPaths.filter (·.2 = dimension)).mapM fun entry => shapeCheck expected actual entry.1 entry.2
  return .all checks

/-- The comparison of a part of the candidate. -/
def fieldCheck (dimension : String) (expected : Document) (actual : Fields) (key : String) : Except Failure Checks := do
  let expectedValue ← getDefault expected key empty
  return .one (compareExact python dimension key false expectedValue (candidateField actual key empty))

/-- The comparison of a list of a part. -/
def listCheck (dimension part : String) (unordered : Bool) (expectedPart actualPart : Document) (key : String) :
    Except Failure Checks := do
  let expectedValue ← getDefault expectedPart key noItems
  return .one (compareExact python dimension (part ++ "." ++ key) unordered expectedValue
    ((actualPart.field? key).getD noItems))

/-- The comparison of a value of a part, if it is expected. -/
def valueCheck (dimension part : String) (expectedPart actualPart : Document) (expectedKey actualKey : String) : Checks :=
  match expectedPart.field? expectedKey with
  | none => .none
  | some expectedValue => .one (compareExact python dimension (part ++ "." ++ actualKey) false expectedValue
      ((actualPart.field? actualKey).getD .null))

def semanticLists : List String := ["entities", "fields", "metrics", "relations"]

def semanticChecks (expected : Document) (actual : Fields) : Except Failure Checks := do
  let semantic ← getKey expected "semantic"
  let lists ← semanticLists.mapM
    (listCheck python "semantic" "semantic" true semantic (objectOr (candidateField actual "semantic" empty)))
  let others ← ["member_normalization", "time_range"].mapM (fieldCheck python "semantic" expected actual)
  return .all (lists ++ others)

def planChecks (expected : Document) (actual : Fields) : Except Failure Checks := do
  let expectedPlan ← getDefault expected "plan" empty
  let actualPlanValue := candidateField actual "plan" empty
  let actualPlan := objectOr actualPlanValue
  let lists ← ["operators", "edges", "nodes"].mapM (listCheck python "plan" "plan" false expectedPlan actualPlan)
  let output := valueCheck python "plan" "plan" expectedPlan actualPlan "output_node_id" "output_node_id"
  let planErrors ← (validatePlan python.setOrder python.plainStr actualPlanValue.plain).mapError .planCheck
  let graph : Checks := if planErrors.isEmpty then ⟨[true], []⟩
    else ⟨[false], [⟨"plan", "plan.nodes", .str "valid graph", .arr (planErrors.map .str), "; ".intercalate planErrors⟩]⟩
  return .all (lists ++ [output, graph])

def resultChecks (expected : Document) (actual : Fields) : Except Failure Checks := do
  let expectedResult ← getDefault expected "result" empty
  let actualResult := objectOr (candidateField actual "result" empty)
  let lists ← ["schema", "grain", "order_by"].mapM
    (listCheck python "execution_result" "result" false expectedResult actualResult)
  let scalars := ["row_count", "truncated"].map fun key =>
    valueCheck python "execution_result" "result" expectedResult actualResult key key
  let tolerance := (expectedResult.field? "tolerance").getD (.int 0)
  let expectedRows := (expectedResult.field? "rows").getD noItems
  let actualRows := (actualResult.field? "rows").getD noItems
  let rows : Checks := match compareRows python expectedRows actualRows tolerance with
    | none => ⟨[true], []⟩
    | some message => ⟨[false], [⟨"execution_result", "result.rows", expectedRows, actualRows, message⟩]⟩
  return .all (lists ++ scalars ++ [rows])

def governanceChecks (expected : Document) (actual : Fields) : Except Failure Checks := do
  let both ← ["behavior", "governance"].mapM (fieldCheck python "governance" expected actual)
  let diagnostics : Checks := match expected.field? "diagnostics", actual.lookup "diagnostics" with
    | none, _ => .none
    | some expectedValue, none => ⟨[false], [⟨"governance", "diagnostics", expectedValue, .str "<missing>",
        "required candidate diagnostics are missing"⟩]⟩
    | some expectedValue, some actualValue =>
      .append ⟨[true], []⟩ (.one (compareExact python "governance" "diagnostics" false expectedValue actualValue))
  return .all (both ++ [diagnostics])

/-- `observability_fields`. -/
def observabilityFields : List (String × String) :=
  [("lineage_fields", "fields"), ("artifact", "artifact"), ("runtime_node_count", "runtime_node_count"),
    ("runtime_edge_count", "runtime_edge_count"), ("connector_provenance", "connector_provenance"),
    ("relations", "relations"), ("edge_semantics_valid", "edge_semantics_valid"), ("topology", "topology"),
    ("topology_sha256", "topology_sha256"), ("result_identity_valid", "result_identity_valid")]

/-- `actual_lineage`. -/
def actualLineage (actual : Fields) : Document :=
  let value := candidateField actual "lineage" .null
  if value.isObject then value else .null

/-- That there is lineage where it is required. -/
def lineagePresence (required : Bool) (lineage : Document) : Checks :=
  if !required || lineage.truthy then ⟨[true], []⟩
  else ⟨[false], [⟨"observability", "lineage", .str "present", lineage, "required lineage is missing"⟩]⟩

/-- The checks of lineage that is required and there. -/
def lineageChecks (expected expectedObservability lineage : Document) : Except Failure Checks := do
  let semantic ← getKey expected "semantic"
  let entities ← listCheck python "observability" "lineage" true semantic lineage "entities"
  let fields := observabilityFields.map fun (expectedKey, actualKey) =>
    valueCheck python "observability" "lineage" expectedObservability lineage expectedKey actualKey
  return .all (entities :: fields)

def observabilityChecks (expected : Document) (actual : Fields) : Except Failure Checks := do
  let expectedObservability ← getDefault expected "observability" empty
  let required ← getDefault expectedObservability "lineage_required" (.bool false)
  let lineage := actualLineage actual
  let present := lineagePresence required.truthy lineage
  if required.truthy && lineage.truthy then
    let checks ← lineageChecks python expected expectedObservability lineage
    return .append present checks
  else return present

/-- The checks of one dimension, those of the shape first. -/
def dimensionChecks (expected : Document) (actual : Fields) : String → Except Failure Checks
  | "semantic" => semanticChecks python expected actual
  | "plan" => planChecks python expected actual
  | "execution_result" => resultChecks python expected actual
  | "governance" => governanceChecks python expected actual
  | _ => observabilityChecks python expected actual

/-- The report of a candidate that is no object. -/
def refusedCase (caseId actual : Document) (expected message : String) : CaseReport :=
  ⟨caseId, 0, dimensions.map fun dimension => (dimension, 0),
    dimensions.map fun dimension => ⟨dimension, "cases." ++ python.str caseId, .str expected, actual, message⟩⟩

/-- `evaluate_case`, of a golden case and a candidate. -/
def evaluateCase (golden actual : Document) (weights : Option (List (String × ℚ))) : Except Failure CaseReport := do
  let caseId ← getKey golden "id"
  let expected ← getKey golden "expected"
  match actual with
  | .null => return refusedCase python caseId .null "candidate case" "candidate case is missing"
  | .obj members => do
    let shapes ← dimensions.mapM (shapeChecks expected members)
    let checks ← dimensions.mapM (dimensionChecks python expected members)
    let scores := dimensions.zip (List.zipWith (fun s c => dimensionScore (s.results ++ c.results)) shapes checks)
    return {
      caseId
      score := python.weigh scores weights
      dimensionScores := scores.map fun s => (s.1, roundTwo s.2)
      differences := (shapes ++ checks).flatMap (·.differences) }
  | actual =>
    return refusedCase python caseId actual "candidate case object"
      "INVALID_CANDIDATE_SHAPE: candidate case must be an object"

end

end DataNexus.Evals
