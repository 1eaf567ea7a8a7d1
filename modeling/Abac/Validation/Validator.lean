import Abac.Decision
import Abac.Schema.Declaration
import Abac.Validation.Breach
import Abac.Validation.Form

/-!
Validation of conditions before they are used. The written form of a condition is checked against
a schema of conditions, and every comparison against the rules: its left path starts at a root, its
operator is known and, where contexts have a schema, its paths are declared. All breaches are
reported, in the order of the document.
-/

namespace Abac

/-- What conditions and contexts are checked against. -/
structure Validator where
  /-- The number of levels that conditions may nest. -/
  maxDepth : Nat
  /-- The schema of contexts. -/
  schema? : Option Schema
  deriving Inhabited

namespace Validator

def plain (maxDepth : Nat) : Validator := ⟨maxDepth, none⟩

/-- A validator that checks paths and contexts against a schema, whose document is compiled by
`compile`. -/
def withSchemaBy (compile : Json → Except String Schema.Check) (maxDepth : Nat)
    (document : Json) : Except Fault Validator :=
  match compile document with
  | .ok check => .ok ⟨maxDepth, some ⟨document, check⟩⟩
  | .error reason => .error (.config ("invalid context schema: " ++ reason))

def withSchema : Nat → Json → Except Fault Validator := withSchemaBy Schema.compile

/-- The breaches of the schema of conditions in a document. -/
def formBreaches (document : Json) : List Breach :=
  ((conditionForm.check document).get (conditionForm_ends document)).map .form

/-- A document passes the schema of conditions just when it has the form. -/
theorem formBreaches_eq_nil_iff (document : Json) :
    formBreaches document = [] ↔ document.hasForm = true := by
  obtain ⟨violations, hfound, hpasses⟩ := Schema.exists_of_verdict (verdict_conditionForm document)
  simp [formBreaches, hfound, ← hpasses]

/-- The paths of a comparison that a schema of contexts has to declare. -/
def checkedPaths (requiresResource : Bool) (comparison : Comparison) : List String :=
  (if isPath requiresResource comparison.left then [comparison.left] else []) ++
    (comparison.rightPath? requiresResource).toList

def comparisonBreaches (validator : Validator) (requiresResource : Bool) (location : String)
    (comparison : Comparison) : List Breach :=
  let unrooted :=
    if isPath requiresResource comparison.left then []
    else [.unrooted location comparison.left requiresResource]
  let unknown :=
    if comparison.op.isKnown then [] else [.unknownOperator location comparison.op.name]
  let undeclared := match validator.schema? with
    | none => []
    | some schema =>
      ((checkedPaths requiresResource comparison).filter fun path =>
        !schema.declares (Context.segments path)).map (.undeclared location)
  unrooted ++ unknown ++ undeclared

/-- The breaches of the rules in a condition. -/
def ruleBreaches (validator : Validator) (requiresResource : Bool) (condition : Condition) :
    List Breach :=
  let levels := condition.levels
  (if validator.maxDepth < levels then [.tooDeep levels validator.maxDepth] else []) ++
    condition.comparisons.flatMap fun (place, comparison) =>
      validator.comparisonBreaches requiresResource place comparison

/-- All breaches in a condition. The written form of one that is nested too deeply is not
checked. -/
def conditionBreaches (validator : Validator) (requiresResource : Bool) (condition : Condition) :
    List Breach :=
  (if condition.exceeds validator.maxDepth then [] else formBreaches condition.toJson) ++
    validator.ruleBreaches requiresResource condition

def checkCondition (validator : Validator) (requiresResource : Bool) (condition : Condition) :
    Report :=
  .ofBreaches (validator.conditionBreaches requiresResource condition)

/-- Checks a written condition. One that violates the schema of conditions is not read. -/
def checkDocument (validator : Validator) (requiresResource : Bool) (document : Json) : Report :=
  match formBreaches document with
  | [] =>
    match Condition.ofJson? .json document with
    | some condition => validator.checkCondition requiresResource condition
    | none => .ofBreaches [.notACondition]
  | breaches => .ofBreaches breaches

def checkPolicy (validator : Validator) (policy : Policy) : Report :=
  validator.checkCondition policy.requiresResource policy.conditions

/-- The traces of checking a condition. -/
def conditionTraces (validator : Validator) (requiresResource : Bool) (condition : Condition) :
    List Trace :=
  (validator.conditionBreaches requiresResource condition).filterMap Breach.trace?

/-- A failure with the place of the policy in front. -/
def placed (id : Nat) (action : String) (failure : Failure) : Failure :=
  { failure with
    message := "entitlement " ++ toString id ++ " '" ++ action ++ "': " ++ failure.message }

def checkEntitlement (validator : Validator) (entitlement : Entitlement) : List Failure :=
  entitlement.policies.flatMap fun (action, policy) =>
    (validator.checkPolicy policy).failures.map (placed entitlement.id action)

def checkEntitlements (validator : Validator) (entitlements : List Entitlement) : Report :=
  ⟨entitlements.flatMap validator.checkEntitlement⟩

/-- The traces of checking all policies. -/
def entitlementTraces (validator : Validator) (entitlements : List Entitlement) : List Trace :=
  entitlements.flatMap fun entitlement => entitlement.policies.flatMap fun (_, policy) =>
    validator.conditionTraces policy.requiresResource policy.conditions

/-- The breaches of the schema of contexts, if there is one, in a context. They are not known when
its check does not come to an end. -/
def contextBreaches? (validator : Validator) (context : Context) : Option (List Breach) :=
  match validator.schema? with
  | none => some []
  | some schema => (schema.check context.toJson).map fun violations => violations.map .context

def checkContext? (validator : Validator) (context : Context) : Option Report :=
  (validator.contextBreaches? context).map .ofBreaches

/-- Checks the conditions of a lookup together. -/
def checkLookup (validator : Validator) (requiresResource : Bool) (conditions : List Condition) :
    Report :=
  conditions.foldl (fun report condition =>
    report.merge (validator.checkCondition requiresResource condition)) .empty

/-- Lets an answer of a policy source through only if all its conditions are valid. -/
def screen (validator : Validator) (request : Request) :
    Outcome (List Condition) → Outcome (List Condition)
  | .done conditions =>
    let report := validator.checkLookup request.requiresResource conditions
    if report.passed then .done conditions else .failed (.invalidPolicy report.summary)
  | outcome => outcome

/-- The trace of an answer that is not let through. -/
def refusalTrace (request : Request) (report : Report) : Trace :=
  ⟨"policy source returned invalid condition trees", [("resource_type", request.resourceType),
    ("action", request.action), ("failure_count", toString report.failures.length)]⟩

/-- The traces of screening the conditions that a policy source answers a request with. -/
def screenTraces (validator : Validator) (request : Request) (conditions : List Condition) :
    List Trace :=
  let report := validator.checkLookup request.requiresResource conditions
  conditions.flatMap (validator.conditionTraces request.requiresResource) ++
    if report.passed then [] else [refusalTrace request report]

end Validator

/-- Collaborators whose policy source is behind a screen. -/
def Collaborators.screened {m : Type → Type} [Monad m] (validator : Validator)
    (collaborators : Collaborators m) : Collaborators m :=
  { collaborators with
    lookup := fun request => do return validator.screen request (← collaborators.lookup request) }

end Abac
