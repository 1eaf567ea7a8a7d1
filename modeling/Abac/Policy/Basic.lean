import Abac.ActionSet
import Abac.Condition.Json
import Abac.Evaluation

/-!
Policies: for a type of resource, an entitlement says under which conditions each action is
granted. A configuration has the actions and the entitlements; earlier entitlements come first.
-/

namespace Abac

structure Policy where
  /-- Do the conditions speak of one resource, and not only of its type? -/
  requiresResource : Bool
  conditions : Condition
  deriving Inhabited

/-- The policies of one type of resource, under their actions. -/
structure Entitlement where
  id : Nat
  title : String
  description : String
  resourceType : String
  policies : List (String × Policy)
  sorted : Keyed.Sorted policies

structure Configuration where
  actions : ActionSet
  /-- The number of levels that conditions may nest. -/
  maxDepth : Nat
  entitlements : List Entitlement

/-- A request to a policy source. -/
structure Request where
  resourceType : String
  action : String
  /-- Is the request about one resource, and not about a type? -/
  requiresResource : Bool
  deriving DecidableEq, Inhabited

def Entitlement.policy? (entitlement : Entitlement) (action : String) : Option Policy :=
  entitlement.policies.lookup action

namespace Configuration

inductive Flaw where
  | zeroDepth
  | repeatedId (id : Nat)
  | blankResourceType (id : Nat)
  | unknownAction (id : Nat) (action : String)
  deriving DecidableEq, Inhabited

def Flaw.reason : Flaw → String
  | zeroDepth => "max_depth must be at least 1"
  | repeatedId id => "duplicate entitlement id " ++ toString id
  | blankResourceType id => "entitlement " ++ toString id ++ " has an empty resource_type"
  | unknownAction id action =>
    "entitlement " ++ toString id ++ " defines a policy for unknown action '" ++ action ++ "'"

/-- The first flaw of an entitlement that follows others with the given identifiers. -/
def entitlementFlaw? (actions : ActionSet) (seen : List Nat) (entitlement : Entitlement) :
    Option Flaw :=
  if entitlement.id ∈ seen then some (.repeatedId entitlement.id)
  else if Text.allBlank entitlement.resourceType then some (.blankResourceType entitlement.id)
  else
    (entitlement.policies.find? fun entry => !actions.contains entry.1).map fun entry =>
      .unknownAction entitlement.id entry.1

def entitlementsFlaw? (actions : ActionSet) (seen : List Nat) : List Entitlement → Option Flaw
  | [] => none
  | entitlement :: rest =>
    (entitlementFlaw? actions seen entitlement).or
      (entitlementsFlaw? actions (entitlement.id :: seen) rest)

/-- The first flaw of a configuration. One without a flaw can be used. -/
def flaw? (config : Configuration) : Option Flaw :=
  if config.maxDepth = 0 then some .zeroDepth
  else entitlementsFlaw? config.actions [] config.entitlements

/-- Does a policy answer a request of its type and action? A request about a type is not answered
by a policy that speaks of one resource. -/
def admits (request : Request) (policy : Policy) : Bool :=
  request.requiresResource || !policy.requiresResource

/-- The conditions that apply to a request, in the order of the entitlements. -/
def lookup (config : Configuration) (request : Request) : List Condition :=
  ((config.entitlements.filter (·.resourceType = request.resourceType)).filterMap
    (·.policy? request.action)).filter (admits request) |>.map (·.conditions)

def policyCount (config : Configuration) : Nat :=
  config.entitlements.foldl (fun count entitlement => count + entitlement.policies.length) 0

end Configuration

end Abac
