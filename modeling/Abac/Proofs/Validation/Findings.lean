import Abac.Proofs.Policy.Lookup
import Abac.Proofs.Validation.Lookup

/-!
What reports list. A comparison can break a rule in four aspects, and a report has one failure for
each aspect of each comparison that breaks its rule, ordered by position and then by aspect. Reports
on entitlements are put together from the reports on their policies.
-/

namespace Abac

/-- What the rules ask about a comparison. -/
inductive Aspect where
  /-- Does the left path start at a root? -/
  | root
  | operator
  /-- Is the left path declared? -/
  | left
  /-- Is the right operand, if it is a path, declared? -/
  | right
  deriving DecidableEq

/-- The place of an aspect in the order of the checks. -/
def Aspect.rank : Aspect → Nat
  | root => 0
  | operator => 1
  | left => 2
  | right => 3

/-- The rule that speaks of an aspect. -/
def Aspect.rule : Aspect → String
  | root => "left-path-root"
  | operator => "unknown-operator"
  | left | right => "unknown-path"

def Aspect.all : List Aspect := [.root, .operator, .left, .right]

theorem Aspect.mem_all (aspect : Aspect) : aspect ∈ all := by
  cases aspect <;> simp [all]

namespace Validator

variable {validator : Validator} {requiresResource : Bool} {comparison : Comparison}
  {condition : Condition} {way : List Nat} {finding : Finding}

/-- The breach of a path that the schema of contexts, if there is one, does not declare. -/
def undeclared? (validator : Validator) (place path : String) : Option Breach :=
  match validator.schema? with
  | none => none
  | some schema =>
    if schema.declares (Context.segments path) then none else some (.undeclared place path)

/-- The breach in one aspect of a comparison at a written place. -/
def offence? (validator : Validator) (requiresResource : Bool) (place : String)
    (comparison : Comparison) : Aspect → Option Breach
  | .root =>
    if isPath requiresResource comparison.left then none
    else some (.unrooted place comparison.left requiresResource)
  | .operator =>
    if comparison.op.isKnown then none else some (.unknownOperator place comparison.op.name)
  | .left =>
    if isPath requiresResource comparison.left then validator.undeclared? place comparison.left
    else none
  | .right => (comparison.rightPath? requiresResource).bind (validator.undeclared? place)

private theorem Aspect.filterMap_all {α : Type} (f : Aspect → Option α) :
    Aspect.all.filterMap f = (f .root).toList ++ (f .operator).toList ++
      ((f .left).toList ++ (f .right).toList) := by
  cases hroot : f .root <;> cases hop : f .operator <;> cases hleft : f .left <;>
    cases hright : f .right <;> simp [Aspect.all, hroot, hop, hleft, hright]

/-- The paths of a comparison that are not declared, on the left and then on the right. -/
theorem filter_checkedPaths {schema : Schema} (hschema : validator.schema? = some schema)
    (place : String) (comparison : Comparison) :
    ((checkedPaths requiresResource comparison).filter fun path =>
      !schema.declares (Context.segments path)).map (Breach.undeclared place) =
      (validator.offence? requiresResource place comparison .left).toList ++
        (validator.offence? requiresResource place comparison .right).toList := by
  have hpath : ∀ path, ([path].filter fun path =>
      !schema.declares (Context.segments path)).map (Breach.undeclared place) =
      (validator.undeclared? place path).toList := by
    intro path
    cases hdeclares : schema.declares (Context.segments path) <;>
      simp [undeclared?, hschema, hdeclares]
  rw [checkedPaths, List.filter_append, List.map_append]
  congr 1
  · unfold offence?
    split
    · exact hpath comparison.left
    · rfl
  · unfold offence?
    cases comparison.rightPath? requiresResource with
    | none => rfl
    | some path => exact hpath path

/-- The breaches of a comparison are those in its aspects, one after the other. -/
theorem comparisonBreaches_eq_filterMap (place : String) (comparison : Comparison) :
    validator.comparisonBreaches requiresResource place comparison =
      Aspect.all.filterMap (validator.offence? requiresResource place comparison) := by
  rw [Aspect.filterMap_all, comparisonBreaches]
  congr 1
  · congr 1
    · unfold offence?
      split <;> rfl
    · unfold offence?
      split <;> rfl
  · cases hschema : validator.schema? with
    | none =>
      have hundeclared : validator.undeclared? place = fun _ => none := by
        funext path
        rw [undeclared?, hschema]
      simp [offence?, hundeclared]
    | some schema => exact filter_checkedPaths hschema place comparison

private theorem rule_of_undeclared? {place path : String} {breach : Breach}
    (hbreach : validator.undeclared? place path = some breach) : breach.rule = "unknown-path" := by
  unfold undeclared? at hbreach
  split at hbreach
  · cases hbreach
  · split at hbreach
    · cases hbreach
    · cases hbreach
      rfl

/-- A breach names the rule of its aspect. -/
theorem rule_of_offence? {place : String} {aspect : Aspect} {breach : Breach}
    (hbreach : validator.offence? requiresResource place comparison aspect = some breach) :
    breach.rule = aspect.rule := by
  cases aspect with
  | root =>
    obtain ⟨-, hbreach⟩ := Option.ite_none_left_eq_some.1 hbreach
    cases hbreach
    rfl
  | operator =>
    obtain ⟨-, hbreach⟩ := Option.ite_none_left_eq_some.1 hbreach
    cases hbreach
    rfl
  | left =>
    obtain ⟨-, hbreach⟩ := Option.ite_none_right_eq_some.1 hbreach
    exact rule_of_undeclared? hbreach
  | right =>
    obtain ⟨path, -, hbreach⟩ := Option.bind_eq_some_iff.1 hbreach
    exact rule_of_undeclared? hbreach

end Validator

end Abac
