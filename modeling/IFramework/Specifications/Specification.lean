import IFramework.Theory.Binding
import Mathlib.Data.Fin.VecNotation

/-!
# Specifications as expression trees

A specification gives a predicate as an expression tree, `GetExpression`, and `IsSatisfiedBy`
compiles that tree. Parameters are objects and are compared as such. `AllSpecification` and
`NoneSpecification` make a new one in every call, so a call of `GetExpression` counts the parameters
that were made before it. `And` and `Or` put the second body behind the first one, with the
parameter of the second lambda replaced by that of the first wherever it stands.

What the nodes of an expression do is left open but for the operators that the specifications build:
an `Interpretation` reads them as C# does.
-/

namespace IFramework.Specifications

open Binding

/-! ## Expressions -/

/-- The nodes of an expression: those of the specifications, and any others. -/
inductive NodeType (κ : Type) where
  | constant (value : Bool)
  | not
  | andAlso
  | orElse
  | other (k : κ)
  deriving DecidableEq, Repr

/-- A `ParameterExpression`: one that is given, or one that a specification has made. -/
abbrev ParameterExpression (ι : Type) := ι ⊕ Nat

/-- An `Expression`; the binders are its nested lambdas. -/
abbrev Expression (κ ι : Type) := Term (NodeType κ) (ParameterExpression ι)

namespace Expression

variable {κ ι : Type}

/-- `Expression.Constant(value)`. -/
def constant (value : Bool) : Expression κ ι := .node (.constant value) 0 ![]

/-- `Expression.Not(e)`. -/
def not (e : Expression κ ι) : Expression κ ι := .node .not 1 ![e]

/-- `Expression.AndAlso(left, right)`. -/
def andAlso (left right : Expression κ ι) : Expression κ ι := .node .andAlso 2 ![left, right]

/-- `Expression.OrElse(left, right)`. -/
def orElse (left right : Expression κ ι) : Expression κ ι := .node .orElse 2 ![left, right]

end Expression

/-- An `Expression<Func<T, bool>>`. Such a lambda has one parameter. -/
structure LambdaExpression (κ ι : Type) where
  body : Expression κ ι
  parameter : ParameterExpression ι

/-- A predicate that is given: no nested lambda has a parameter twice, and no other parameter is
free. -/
structure Predicate (κ ι : Type) where
  parameter : ι
  body : Term (NodeType κ) ι
  distinct : body.Distinct
  closed : body.Scoped [parameter]

/-- `ArgumentException` of the factory of a lambda, and `InvalidOperationException` of `Compile`. -/
inductive SpecificationException where
  | argument
  | invalidOperation
  deriving DecidableEq, Repr

section Expressions

variable {κ ι : Type} [DecidableEq ι]

/-- `lambda.Parameters`. -/
def LambdaExpression.parameters (lambda : LambdaExpression κ ι) : List (ParameterExpression ι) :=
  [lambda.parameter]

omit [DecidableEq ι] in
/-- `Expression.Lambda<Func<T, bool>>(body, parameters)`: a wrong number of parameters throws. -/
def lambda (body : Expression κ ι) :
    List (ParameterExpression ι) → Except SpecificationException (LambdaExpression κ ι)
  | [parameter] => .ok ⟨body, parameter⟩
  | _ => .error .argument

/-- `ParameterRebinder.VisitParameter(p)`. -/
def visitParameter (map : List (ParameterExpression ι × ParameterExpression ι))
    (p : ParameterExpression ι) : ParameterExpression ι :=
  match map.find? fun m => m.1 = p with
  | some m => m.2
  | none => p

/-- `ParameterRebinder.ReplaceParameters(map, exp)`: parameters are visited where they occur and
where they are declared. The factory refuses a nested lambda that has a parameter twice then. -/
def replaceParameters (map : List (ParameterExpression ι × ParameterExpression ι))
    (exp : Expression κ ι) : Except SpecificationException (Expression κ ι) :=
  let replaced := exp.rename (visitParameter map)
  if replaced.Distinct then .ok replaced else .error .argument

namespace LambdaExpression

/-- `first.Compose(second, merge)`. -/
def compose (first second : LambdaExpression κ ι)
    (merge : Expression κ ι → Expression κ ι → Expression κ ι) :
    Except SpecificationException (LambdaExpression κ ι) := do
  let map := second.parameters.zip first.parameters
  let secondBody ← replaceParameters map second.body
  lambda (merge first.body secondBody) first.parameters

/-- `first.And(second)`. -/
def and (first second : LambdaExpression κ ι) :
    Except SpecificationException (LambdaExpression κ ι) :=
  first.compose second .andAlso

/-- `first.Or(second)`. -/
def or (first second : LambdaExpression κ ι) :
    Except SpecificationException (LambdaExpression κ ι) :=
  first.compose second .orElse

end LambdaExpression

/-! ## Specifications -/

/-- A call that may make parameters. An `ISpecification<T>` is its `GetExpression`. -/
abbrev Call := StateT Nat (Except SpecificationException)

omit [DecidableEq ι] in
/-- `Expression.Parameter(typeof(T))`. -/
def newParameter : Call (ParameterExpression ι) :=
  fun next => .ok (.inr next, next + 1)

omit [DecidableEq ι] in
/-- `o => true`. -/
def allSpecification : Call (LambdaExpression κ ι) := do
  let o ← newParameter
  return ⟨.constant true, o⟩

omit [DecidableEq ι] in
/-- `o => false`. -/
def noneSpecification : Call (LambdaExpression κ ι) := do
  let o ← newParameter
  return ⟨.constant false, o⟩

omit [DecidableEq ι] in
/-- `ExpressionSpecification`. -/
def expressionSpecification (e : Predicate κ ι) : Call (LambdaExpression κ ι) :=
  return ⟨e.body.rename .inl, .inl e.parameter⟩

/-- `AndSpecification`. -/
def andSpecification (left right : Call (LambdaExpression κ ι)) :
    Call (LambdaExpression κ ι) := do
  let first ← left
  let second ← right
  first.and second

/-- `OrSpecification`. -/
def orSpecification (left right : Call (LambdaExpression κ ι)) :
    Call (LambdaExpression κ ι) := do
  let first ← left
  let second ← right
  first.or second

omit [DecidableEq ι] in
/-- `NotSpecification`: the body is that of one call of `GetExpression`, the parameters are those
of another. -/
def notSpecification (spec : Call (LambdaExpression κ ι)) : Call (LambdaExpression κ ι) := do
  let body := Expression.not (← spec).body
  lambda body (← spec).parameters

/-- `AndNotSpecification`. -/
def andNotSpecification (left right : Call (LambdaExpression κ ι)) :
    Call (LambdaExpression κ ι) := do
  let bodyNot ← lambda (Expression.not (← right).body) []
  (← left).and bodyNot

/-! ## Values -/

omit [DecidableEq ι] in
/-- What compiled expressions do: any values, results of any kind, and what a result of type `bool`
is. The operators are those of C#; the right operand counts if it is reached. -/
structure Interpretation (κ : Type) where
  Value : Type
  Result : Type
  Exc : Type
  algebra : Algebra (NodeType κ) Value Result
  test : Result → Except Exc Bool
  test_constant : ∀ value args, test (algebra.node (.constant value) 0 args) = .ok value
  test_not : ∀ args, test (algebra.node .not 1 args) = (test (args 0)).map Bool.not
  test_andAlso : ∀ args, test (algebra.node .andAlso 2 args) =
    test (args 0) >>= fun left => if left then test (args 1) else .ok false
  test_orElse : ∀ args, test (algebra.node .orElse 2 args) =
    test (args 0) >>= fun left => if left then .ok true else test (args 1)

/-- The value of a predicate on an object. Its body has no other parameter. -/
def Predicate.value (e : Predicate κ ι) (I : Interpretation κ) (obj : I.Value) :
    Except I.Exc Bool :=
  I.test (e.body.eval I.algebra fun _ => obj)

/-- `lambda.Compile()`: a body with another free parameter throws. -/
def LambdaExpression.compile (lambda : LambdaExpression κ ι) (I : Interpretation κ) :
    Except SpecificationException (I.Value → Except I.Exc Bool) :=
  if lambda.body.Scoped [lambda.parameter] then
    .ok fun obj => I.test (lambda.body.eval I.algebra fun _ => obj)
  else .error .invalidOperation

/-- `IsSatisfiedBy(obj)`. -/
def isSatisfiedBy (spec : Call (LambdaExpression κ ι)) (I : Interpretation κ) (obj : I.Value) :
    Call (Except I.Exc Bool) := do
  let compiled ← (← spec).compile I
  return compiled obj

end Expressions

end IFramework.Specifications
