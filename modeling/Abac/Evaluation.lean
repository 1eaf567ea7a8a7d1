import Abac.Context
import Abac.Fault
import Abac.Operand.Basic

/-!
Evaluation of conditions in a context. Every condition has a truth value; a guard refuses those
that are nested too deeply.
-/

namespace Abac

/-- The operands of a comparison in a context. -/
def Comparison.leftOperand (comparison : Comparison) (context : Context) : Operand :=
  context.resolve? comparison.left

def Comparison.rightOperand (comparison : Comparison) (context : Context) : Operand :=
  match comparison.rightPath? context.hasResource with
  | some path => context.resolve? path
  | none => some comparison.right

def Comparison.evaluate (comparison : Comparison) (context : Context) : Bool :=
  comparison.op.holds (comparison.leftOperand context) (comparison.rightOperand context)

namespace Condition

mutual

/-- An empty `and` holds, an empty `or` does not. -/
def evaluate (context : Context) : Condition → Bool
  | leaf comparison => comparison.evaluate context
  | group .and conditions => all context conditions
  | group .or conditions => any context conditions

def all (context : Context) : List Condition → Bool
  | [] => true
  | condition :: rest => evaluate context condition && all context rest

def any (context : Context) : List Condition → Bool
  | [] => false
  | condition :: rest => evaluate context condition || any context rest

end

/-- The number of levels that conditions may nest unless a configuration says otherwise. -/
def defaultBound : Nat := 32

/-- The truth value of a condition of at most `bound` levels. -/
def evaluateWithin (bound : Nat) (context : Context) (condition : Condition) :
    Except Fault Bool :=
  if condition.exceeds bound then .error (.nestingTooDeep bound)
  else .ok (condition.evaluate context)

end Condition

end Abac
