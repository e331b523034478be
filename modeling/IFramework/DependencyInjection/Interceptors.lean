import IFramework.Infrastructure.ConcurrencyProcessor
import IFramework.Theory.Comparer
import IFramework.Theory.ListUnion
import Mathlib.Data.Int.Order.Basic

/-!
# Intercepted calls

`DefaultInterceptor` wraps the call of a method in the interceptor attributes of the method, of its
type, and of the two behind them that are really called. Attributes that are equal count once; they
are sorted by `Order`, and each is put around those before it, so that the last one is entered first
(`outermostFirst`). Where the orders are the same the attribute that is found later is outside.

Of the attributes, `ConcurrentProcess` repeats what is inside it and `Transaction` puts it into a
transaction. A call is a function of a world, in which there may be a transaction under way, and in
which nobody else writes. The synchronous and the asynchronous versions of each function do the
same, but for the call of the target: when the proxy is its own target, an asynchronous attempt is
made with `invocation.Proceed()`, which after an `await` enters `Intercept` again. An `Invocation`
is one that does not take this branch.
-/

namespace IFramework.DependencyInjection

open Infrastructure Infrastructure.ConcurrencyProcessor ListUnion

/-- What a call finds: the data that are committed, those that the ambient transaction sees, if
there is one, how often the target has been called and how many scopes have been completed. -/
structure World (D : Type) where
  durable : D
  current : Option D
  invoked : Nat
  completed : Nat
  deriving DecidableEq

/-- `Func<T>`, or an action. -/
abbrev Func (D T : Type) := World D → Outcome T × World D

variable {D T : Type}

namespace World

/-- The data that a call sees. -/
def visible (w : World D) : D := w.current.getD w.durable

/-- The call writes into the transaction, if there is one. -/
def write (w : World D) (data : D) : World D :=
  match w.current with
  | some _ => { w with current := some data }
  | none => { w with durable := data }

end World

/-- The call of the target: by `Process`, which proceeds, or by `InvokeTargetMethod`, by reflection.
`target n` is what the method does to the data that it sees when it is called after `n` other calls;
it begins no transaction of its own and does not suppress the one that there is. -/
def invokeTargetMethod (target : Nat → D → Outcome T × D) : Func D T := fun w =>
  let (outcome, data) := target w.invoked w.visible
  (outcome, { w.write data with invoked := w.invoked + 1 })

/-! ## The attributes -/

inductive TransactionScopeOption where
  | required
  | requiresNew
  | suppress
  deriving DecidableEq

inductive IsolationLevel where
  | serializable
  | repeatableRead
  | readCommitted
  | readUncommitted
  | snapshot
  | chaos
  | unspecified
  deriving DecidableEq

/-- `ConcurrentProcessAttribute` and `TransactionAttribute`. -/
inductive InterceptorAttribute where
  | concurrentProcess (order : Int) (uniqueConstrainNames : Names) (retryTimes : Int)
  | transaction (order : Int) (scope : TransactionScopeOption) (isolationLevel : IsolationLevel)
  deriving DecidableEq

/-- `Order`. -/
def InterceptorAttribute.order : InterceptorAttribute → Int
  | .concurrentProcess order .. => order
  | .transaction order .. => order

/-- `ConcurrencyProcessor.Process` with what is left of the budget; a negative one is as good as
none. -/
def retry (parser : Parser) (uniqueConstrainNames : Names) (func : Func D T) : Nat → Func D T
  | retryCount, w =>
    match func w with
    | (.returned value, w') => (.returned value, w')
    | (.thrown ex, w') =>
      match needRetry parser uniqueConstrainNames ex with
      | .error e => (.thrown e, w')
      | .ok false => (.thrown ex, w')
      | .ok true =>
        match retryCount with
        | 0 => (.thrown ex, w')
        | retryCount + 1 => retry parser uniqueConstrainNames func retryCount w'

/-- The end of a scope that began a transaction. `dispose n` is what `Dispose` throws after `n`
scopes have been completed, if it throws; nothing is committed then, so that a transaction in doubt
is left out. -/
def disposeScope (dispose : Nat → Option ConcurrencyProcessor.Exn) :
    Outcome T × World D → Outcome T × World D
  | (.returned value, w) =>
    let ended := { w with current := none, completed := w.completed + 1 }
    match dispose w.completed with
    | none => (.returned value, { ended with durable := w.visible })
    | some ex => (.thrown ex, ended)
  | (.thrown ex, w) => (.thrown ex, { w with current := none })

/-- `TransactionExtension.DoInTransaction`. In a transaction nothing is done about another. -/
def doInTransaction (dispose : Nat → Option ConcurrencyProcessor.Exn)
    (scopeOption : TransactionScopeOption) (func : Func D T) : Func D T := fun w =>
  match w.current with
  | some _ => func w
  | none =>
    match scopeOption with
    | .suppress => func w
    | .required | .requiresNew =>
      disposeScope dispose (func { w with current := some w.durable })

section Intercept

variable (parser : Parser) (dispose : Nat → Option ConcurrencyProcessor.Exn)

/-- `InterceptorAttribute.Process`. -/
def InterceptorAttribute.process (func : Func D T) : InterceptorAttribute → Func D T
  | .concurrentProcess _ uniqueConstrainNames retryTimes =>
    retry parser uniqueConstrainNames func retryTimes.toNat
  | .transaction _ scope _ => doInTransaction dispose scope func

/-- Attributes are compared by `Order`. -/
def byOrder : Comparer InterceptorAttribute where
  compare a b := compare a.order b.order
  trans :=
    { eq_swap := Std.OrientedCmp.eq_swap
      isLE_trans := Std.TransCmp.isLE_trans }

/-- `GetInterceptorAttributes`: those of the method, of its type, of the target method and of its
type, in this order. -/
def getInterceptorAttributes (sources : List (List InterceptorAttribute)) :
    List InterceptorAttribute :=
  byOrder.sort (unionAll sources)

/-- Each attribute is put around those before it. -/
def wrap (func : Func D T) (attributes : List InterceptorAttribute) : Func D T :=
  attributes.foldl (fun func interceptor => interceptor.process parser dispose func) func

/-- `DefaultInterceptor.Intercept`. -/
def intercept (sources : List (List InterceptorAttribute)) (target : Nat → D → Outcome T × D) :
    Func D T :=
  match getInterceptorAttributes sources with
  | [] => invokeTargetMethod target
  | interceptor :: attributes =>
    wrap parser dispose (invokeTargetMethod target) (interceptor :: attributes)

end Intercept

/-- An `IInvocation`, with the attributes of its method, of the type of it, of the target method and
of the type of that. Its target can be called again: the method returns no task, or the target is
not the proxy. -/
structure Invocation where
  isTaskResult : Bool
  targetIsProxy : Bool
  not_reentered : ¬(isTaskResult = true ∧ targetIsProxy = true)
  attributes : List (List InterceptorAttribute)

/-- `DefaultInterceptor.Intercept`, on such an invocation. -/
def Invocation.intercept (invocation : Invocation) (parser : Parser)
    (dispose : Nat → Option ConcurrencyProcessor.Exn) (target : Nat → D → Outcome T × D) :
    Func D T :=
  DependencyInjection.intercept parser dispose invocation.attributes target

/-! ## The order -/

section Order

variable {parser : Parser} {dispose : Nat → Option ConcurrencyProcessor.Exn}
  {sources : List (List InterceptorAttribute)}
  {target : Nat → D → Outcome T × D}

theorem byOrder_le {a b : InterceptorAttribute} : byOrder.le a b = true ↔ a.order ≤ b.order :=
  Int.isLE_compare

theorem intercept_eq : intercept parser dispose sources target =
    wrap parser dispose (invokeTargetMethod target) (getInterceptorAttributes sources) := by
  unfold intercept
  split
  · next h => rw [h]; rfl
  · next h => rw [h]

theorem mem_getInterceptorAttributes {a : InterceptorAttribute} :
    a ∈ getInterceptorAttributes sources ↔ a ∈ unionAll sources :=
  (byOrder.sort_perm _).mem_iff

/-- What holds from each attribute to the ones around it. -/
theorem pairwise_getInterceptorAttributes {R : InterceptorAttribute → InterceptorAttribute → Prop} :
    (getInterceptorAttributes sources).Pairwise R ↔
      (unionAll sources).Pairwise fun a b => if a.order ≤ b.order then R a b else R b a := by
  simp only [getInterceptorAttributes, Comparer.pairwise_sort_iff, byOrder_le]

theorem wrap_concat {func : Func D T} {attributes : List InterceptorAttribute}
    {a : InterceptorAttribute} : wrap parser dispose func (attributes ++ [a]) =
      a.process parser dispose (wrap parser dispose func attributes) := by
  simp [wrap]

end Order

end IFramework.DependencyInjection
