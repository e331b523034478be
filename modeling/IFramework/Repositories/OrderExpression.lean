import IFramework.Base
import IFramework.Theory.Comparer
import IFramework.Theory.Separator

/-!
# Sorting by order expressions

`MergeOrderExpression` takes the key of an `OrderExpression`, prints it and reads the text again as
a path of members: one unary node on the outside is stripped, and all up to the first dot is
dropped. What is left has a member of that name at every step, so no parenthesis and no sign is in
it, and it is the path of the members in the key (`behind_toString`). The unary nodes and the
conversions before the first dot are lost without an exception.

So `FindAll` sorts by the members of each key, looked up by name from the type of the entities, and
this is the order of the given keys only where the two agree on the entities (`sorts_iff`). They do
for keys that compare like their members (`agree_of_compare_eq`), as a chain of members does in
which each is found by its name (`KeyExpression.Found.follow_path`).
-/

namespace IFramework.Repositories

open Separator

/-- Names and the texts of expressions. -/
abbrev Text := List Char

inductive SortOrder where
  | unspecified
  | ascending
  | descending
  deriving DecidableEq, Repr

/-! ## Key expressions -/

/-- The unary nodes that have a value and no effect. -/
inductive UnaryNodeType where
  | negate
  | negateChecked
  | unaryPlus
  | not
  | onesComplement
  | isTrue
  | isFalse
  | arrayLength
  | increment
  | decrement
  | unbox
  | convert
  | convertChecked
  | typeAs
  deriving DecidableEq, Repr

namespace UnaryNodeType

/-- What is printed before the operand. -/
def opening : UnaryNodeType → Text
  | .negate | .negateChecked => "-".toList
  | .unaryPlus => "+".toList
  | .not => "Not(".toList
  | .onesComplement => "~(".toList
  | .isTrue => "IsTrue(".toList
  | .isFalse => "IsFalse(".toList
  | .arrayLength => "ArrayLength(".toList
  | .increment => "Increment(".toList
  | .decrement => "Decrement(".toList
  | .unbox => "Unbox(".toList
  | .convert => "Convert(".toList
  | .convertChecked => "ConvertChecked(".toList
  | .typeAs => "(".toList

/-- What is printed behind the operand; a conversion names its type. -/
def closing (typeName : Text) : UnaryNodeType → Text
  | .negate | .negateChecked | .unaryPlus => []
  | .convert | .convertChecked => ", ".toList ++ typeName ++ ")".toList
  | .typeAs => " As ".toList ++ typeName ++ ")".toList
  | _ => ")".toList

end UnaryNodeType

/-- The body of a key: members of the parameter, and unary nodes around them. -/
inductive KeyExpression (Member Op : Type) where
  | parameter (name : Option Text)
  | member (operand : KeyExpression Member Op) (member : Member)
  | unary (op : Op) (operand : KeyExpression Member Op)

/-- The characters that are printed for unary nodes and are in no name. -/
def marks : List Char := "()+-~".toList

/-- A text without these. -/
def Plain (text : Text) : Prop := ∀ c ∈ text, c ∉ marks

instance (text : Text) : Decidable (Plain text) :=
  List.decidableBAll (fun c => c ∉ marks) text

/-- The types of the entities and what the runtime gives: members by name, the values of members
and of unary nodes with their type and method, and how values are compared. -/
structure Runtime (Ty Member Op V : Type) where
  typeName : Ty → Text
  memberName : Member → Text
  memberType : Member → Ty
  nodeType : Op → UnaryNodeType
  opType : Op → Ty
  /-- `Expression.PropertyOrField`, which throws where the type has no such member. -/
  propertyOrField : Ty → Text → Option Member
  plain_of_propertyOrField : ∀ {type name m}, propertyOrField type name = some m → Plain name
  get : Member → V → V
  apply : Op → V → V
  comparer : Comparer V

variable {Ty Member Op V : Type} (S : Runtime Ty Member Op V)

/-- How a parameter is printed. -/
def parameterName : Option Text → Text
  | none | some [] => "Param_0".toList
  | some name => name

namespace KeyExpression

/-- The printed expression. -/
def toString : KeyExpression Member Op → Text
  | .parameter name => parameterName name
  | .member operand m => operand.toString ++ '.' :: S.memberName m
  | .unary op operand =>
    (S.nodeType op).opening ++ operand.toString ++
      (S.nodeType op).closing (S.typeName (S.opType op))

/-- The type of an expression over a parameter of the given type. -/
def type (entityType : Ty) : KeyExpression Member Op → Ty
  | .parameter _ => entityType
  | .member _ m => S.memberType m
  | .unary op _ => S.opType op

/-- The value for an entity. -/
def value (entity : V) : KeyExpression Member Op → V
  | .parameter _ => entity
  | .member operand m => S.get m (operand.value entity)
  | .unary op operand => S.apply op (operand.value entity)

/-- The operand of a unary node, and other expressions themselves. -/
def strip : KeyExpression Member Op → KeyExpression Member Op
  | .unary _ operand => operand
  | e => e

end KeyExpression

/-- `Expression.PropertyOrField(body, member)`. -/
def propertyOrField (type : Ty) (body : KeyExpression Member Op) (name : Text) :
    Option (KeyExpression Member Op) :=
  (S.propertyOrField (body.type S type) name).map body.member

/-- `GetLambdaExpression` for a property name. -/
def getLambdaExpression (type : Ty) (propertyName : Text) : Option (KeyExpression Member Op) :=
  (propertyName.splitOn '.').foldlM (propertyOrField S type) (.parameter none)

/-- `GetLambdaExpression` for an expression. -/
def getLambdaExpressionOf (type : Ty) (expression : KeyExpression Member Op) :
    Option (KeyExpression Member Op) :=
  getLambdaExpression S type (behind '.' (expression.toString S))

/-! ## Queries -/

/-- A query: the elements it starts from, and the comparers of the sorts on them. -/
structure Queryable (V : Type) where
  source : List V
  comparers : List (Comparer V)

namespace Queryable

variable (query : Queryable V)

/-- The result of the query. -/
def elements : List V := (Comparer.lexicographic query.comparers).sort query.source

def where_ (predicate : V → Bool) : Queryable V := ⟨query.elements.filter predicate, []⟩

def orderBy (c : Comparer V) (key : V → V) : Queryable V := ⟨query.elements, [c.on key]⟩

def orderByDescending (c : Comparer V) (key : V → V) : Queryable V :=
  ⟨query.elements, [(c.on key).reverse]⟩

def thenBy (c : Comparer V) (key : V → V) : Queryable V :=
  ⟨query.source, query.comparers ++ [c.on key]⟩

def thenByDescending (c : Comparer V) (key : V → V) : Queryable V :=
  ⟨query.source, query.comparers ++ [(c.on key).reverse]⟩

end Queryable

/-- The key of an order expression: a field, or the body of a lambda. -/
inductive OrderKey (Member Op : Type) where
  | orderByField (field : Option String)
  | orderByExpression (body : KeyExpression Member Op)

structure OrderExpression (Member Op : Type) where
  key : OrderKey Member Op
  sortOrder : SortOrder

/-- The lambda `le` of `MergeOrderExpression`, null for a field that is null or white space. -/
def OrderKey.lambda (type : Ty) : OrderKey Member Op → Option (KeyExpression Member Op)
  | .orderByExpression body => getLambdaExpressionOf S type body.strip
  | .orderByField field =>
    if isNullOrWhiteSpace field then none
    else getLambdaExpression S type (field.getD "").toList

/-- `MergeOrderExpression`; without the lambda it throws. -/
def mergeOrderExpression (type : Ty) (query : Queryable V) (o : OrderExpression Member Op)
    (hasSorted : Bool) : Option (Queryable V) := do
  let le ← o.key.lambda S type
  let key (entity : V) : V := le.value S entity
  return if hasSorted then
      if o.sortOrder = .descending then query.thenByDescending S.comparer key
      else query.thenBy S.comparer key
    else
      if o.sortOrder = .descending then query.orderByDescending S.comparer key
      else query.orderBy S.comparer key

/-- One order expression of `FindAll`: the query and `hasSorted`. -/
def mergeNext (type : Ty) (state : Queryable V × Bool) (o : OrderExpression Member Op) :
    Option (Queryable V × Bool) := do
  let query ← mergeOrderExpression S type state.1 o state.2
  return (query, true)

/-- `FindAll` of an expression, which may be null. -/
def findAll (type : Ty) (query : Queryable V) (expression : Option (V → Bool))
    (orderExpressions : List (OrderExpression Member Op)) : Option (Queryable V) := do
  let query := match expression with
    | some predicate => query.where_ predicate
    | none => query
  let state ← orderExpressions.foldlM (mergeNext S type) (query, false)
  return state.1

/-! ## The order of the given keys -/

/-- Follow the members of these names from a value of the type. -/
def follow : Ty → List Text → V → V
  | _, [], v => v
  | type, name :: names, v =>
    match S.propertyOrField type name with
    | none => v
    | some m => follow (S.memberType m) names (S.get m v)

/-- The names in a key, without its unary nodes: that of the parameter and those of the members. -/
def KeyExpression.names : KeyExpression Member Op → List Text
  | .parameter name => (parameterName name).splitOn '.'
  | .member operand m => operand.names ++ (S.memberName m).splitOn '.'
  | .unary _ operand => operand.names

/-- The names of the members; the parameter itself is taken for a member. -/
def KeyExpression.path (body : KeyExpression Member Op) : List Text := dropFirst (body.names S)

/-- The value of a key for an entity. -/
def OrderKey.value (type : Ty) (key : OrderKey Member Op) (entity : V) : V :=
  match key with
  | .orderByField field => follow S type ((field.getD "").toList.splitOn '.') entity
  | .orderByExpression body => body.value S entity

/-- What the members of a key give, each looked up by its name, without the unary nodes. -/
def OrderKey.memberValue (type : Ty) (key : OrderKey Member Op) (entity : V) : V :=
  match key with
  | .orderByField field => follow S type ((field.getD "").toList.splitOn '.') entity
  | .orderByExpression body => follow S type (body.path S) entity

/-- Keys are compared in the direction of the sort order. -/
def keyComparer (key : V → V) (sortOrder : SortOrder) : Comparer V :=
  if sortOrder = .descending then (S.comparer.on key).reverse else S.comparer.on key

/-- The comparer of a given key. -/
def OrderExpression.comparer (type : Ty) (o : OrderExpression Member Op) : Comparer V :=
  keyComparer S (o.key.value S type) o.sortOrder

/-- The comparer of the members in a key. -/
def OrderExpression.memberComparer (type : Ty) (o : OrderExpression Member Op) : Comparer V :=
  keyComparer S (o.key.memberValue S type) o.sortOrder

/-- The entities that satisfy the filter. -/
def satisfying (query : Queryable V) (expression : Option (V → Bool)) : List V :=
  match expression with
  | some predicate => query.elements.filter predicate
  | none => query.elements

/-- The result has the entities that satisfy the filter, sorted by the given keys. -/
def Sorts (type : Ty) (query : Queryable V) (expression : Option (V → Bool))
    (orderExpressions : List (OrderExpression Member Op)) (result : Queryable V) : Prop :=
  result.elements.Perm (satisfying query expression) ∧
    result.elements.Pairwise fun a b =>
      (Comparer.lexicographic (orderExpressions.map (OrderExpression.comparer S type))).le a b

/-- The order of the members puts no entity before another one that has to stand before it. -/
def Agree (type : Ty) (orderExpressions : List (OrderExpression Member Op))
    (entities : List V) : Prop :=
  let given := Comparer.lexicographic (orderExpressions.map (OrderExpression.comparer S type))
  let members := Comparer.lexicographic
    (orderExpressions.map (OrderExpression.memberComparer S type))
  entities.Pairwise fun a b =>
    if members.le a b then given.le a b = true else given.le b a = true

/-! ## The text of a key -/

variable {S} {type : Ty} {e : KeyExpression Member Op}

theorem UnaryNodeType.opening_eq_nil_of_plain {n : UnaryNodeType} (h : Plain n.opening) :
    n.opening = [] := by
  revert h
  cases n <;> decide

theorem UnaryNodeType.dot_not_mem_opening (n : UnaryNodeType) : '.' ∉ n.opening := by
  cases n <;> decide

theorem UnaryNodeType.closing_eq (n : UnaryNodeType) (typeName : Text) :
    n.closing typeName = [] ∨ ∃ text, n.closing typeName = text ++ [')'] := by
  cases n with
  | negate => exact .inl rfl
  | negateChecked => exact .inl rfl
  | unaryPlus => exact .inl rfl
  | convert => exact .inr ⟨_, rfl⟩
  | convertChecked => exact .inr ⟨_, rfl⟩
  | typeAs => exact .inr ⟨_, rfl⟩
  | _ => exact .inr ⟨[], rfl⟩

namespace KeyExpression

variable (S) in
/-- The text of a key without its unary nodes. -/
def text : KeyExpression Member Op → Text
  | .parameter name => parameterName name
  | .member operand m => operand.text ++ '.' :: S.memberName m
  | .unary _ operand => operand.text

theorem splitOn_text : (e.text S).splitOn '.' = e.names S := by
  induction e with
  | parameter name => rfl
  | member operand m ih => rw [text, List.splitOn_append_cons_self, ih, names]
  | unary op operand ih => exact ih

theorem dot_mem_toString (h : '.' ∈ e.text S) : '.' ∈ e.toString S := by
  induction e with
  | parameter name => exact h
  | member operand m ih => simp [toString]
  | unary op operand ih => simp [toString, ih h]

/-- Where no mark is printed behind the first dot, nothing but the members is. -/
theorem behind_toString (h : Plain (behind '.' (e.toString S))) :
    ('.' ∈ e.toString S → '.' ∈ e.text S) ∧
      behind '.' (e.toString S) = behind '.' (e.text S) := by
  induction e with
  | parameter name => exact ⟨id, rfl⟩
  | member operand m ih =>
    refine ⟨fun _ => by simp [text], ?_⟩
    rw [toString] at h ⊢
    by_cases hdot : '.' ∈ operand.toString S
    · rw [behind_append hdot] at h ⊢
      have hplain : Plain (behind '.' (operand.toString S)) := fun c hc =>
        h c (List.mem_append_left _ hc)
      obtain ⟨htext, hbehind⟩ := ih hplain
      rw [text, behind_append (htext hdot), hbehind]
    · have htext : '.' ∉ operand.text S := fun h => hdot (dot_mem_toString h)
      rw [text, behind_append_cons hdot, behind_append_cons htext]
  | unary op operand ih =>
    rw [toString] at h ⊢
    have hclosing : (S.nodeType op).closing (S.typeName (S.opType op)) = [] := by
      refine ((S.nodeType op).closing_eq _).resolve_right ?_
      rintro ⟨text, htext⟩
      rw [htext, ← List.append_assoc] at h
      exact h ')' (mem_behind_concat (by decide)) (by decide)
    rw [hclosing, List.append_nil] at h ⊢
    have hopening := (S.nodeType op).dot_not_mem_opening
    by_cases hdot : '.' ∈ operand.toString S
    · rw [behind_append_of_not_mem hopening hdot] at h ⊢
      exact ⟨fun _ => (ih h).1 hdot, (ih h).2⟩
    · have hnone : '.' ∉ (S.nodeType op).opening ++ operand.toString S := by
        simp [hopening, hdot]
      rw [behind_of_not_mem hnone] at h ⊢
      have hnil : (S.nodeType op).opening = [] :=
        UnaryNodeType.opening_eq_nil_of_plain fun c hc => h c (List.mem_append_left _ hc)
      rw [hnil, List.nil_append] at h ⊢
      rw [← behind_of_not_mem hdot] at h
      obtain ⟨htext, hbehind⟩ := ih h
      rw [behind_of_not_mem hdot] at hbehind
      exact ⟨htext, hbehind⟩

theorem names_strip : e.strip.names S = e.names S := by
  cases e <;> rfl

end KeyExpression

/-! ## What is read from it -/

/-- The loop of `GetLambdaExpression` follows the names, and each is the name of a member. -/
theorem foldlM_propertyOrField {names : List Text} {body le : KeyExpression Member Op}
    (h : names.foldlM (propertyOrField S type) body = some le) :
    (∀ entity, le.value S entity = follow S (body.type S type) names (body.value S entity)) ∧
      ∀ name ∈ names, Plain name := by
  induction names generalizing body with
  | nil =>
    obtain rfl : body = le := Option.some.inj h
    simp [follow]
  | cons name names ih =>
    rw [List.foldlM_cons, propertyOrField] at h
    cases hmember : S.propertyOrField (body.type S type) name with
    | none => simp [hmember] at h
    | some m =>
      rw [hmember] at h
      obtain ⟨hvalue, hplain⟩ := ih h
      refine ⟨fun entity => ?_, List.forall_mem_cons.2 ⟨?_, hplain⟩⟩
      · rw [hvalue, follow, hmember]
        rfl
      · exact S.plain_of_propertyOrField hmember

theorem plain_of_splitOn {text : Text} (h : ∀ name ∈ text.splitOn '.', Plain name) :
    Plain text := by
  intro c hc
  by_cases hdot : c = '.'
  · rw [hdot]
    decide
  · obtain ⟨name, hname, hmem⟩ := exists_mem_splitOn hc hdot
    exact h name hname c hmem

theorem value_of_getLambdaExpression {propertyName : Text} {le : KeyExpression Member Op}
    (h : getLambdaExpression S type propertyName = some le) (entity : V) :
    le.value S entity = follow S type (propertyName.splitOn '.') entity :=
  (foldlM_propertyOrField h).1 entity

/-- The key that is read from the text of another one follows its members. -/
theorem value_of_getLambdaExpressionOf {le : KeyExpression Member Op}
    (h : getLambdaExpressionOf S type e = some le) (entity : V) :
    le.value S entity = follow S type (e.path S) entity := by
  have hplain := plain_of_splitOn (foldlM_propertyOrField h).2
  rw [value_of_getLambdaExpression h, (KeyExpression.behind_toString hplain).2, splitOn_behind,
    KeyExpression.splitOn_text, KeyExpression.path]

/-! ## The query -/

variable {query result : Queryable V} {expression : Option (V → Bool)} {hasSorted : Bool}
  {o : OrderExpression Member Op} {orderExpressions : List (OrderExpression Member Op)}

theorem value_of_lambda {key : OrderKey Member Op} {le : KeyExpression Member Op}
    (h : key.lambda S type = some le) (entity : V) :
    le.value S entity = key.memberValue S type entity := by
  cases key with
  | orderByExpression body =>
    rw [value_of_getLambdaExpressionOf h, KeyExpression.path, KeyExpression.names_strip]
    rfl
  | orderByField field =>
    obtain ⟨-, hle⟩ := Option.ite_none_left_eq_some.1 h
    rw [value_of_getLambdaExpression hle]
    rfl

/-- One order expression adds the comparer of its members. -/
theorem mergeOrderExpression_eq_some
    (h : mergeOrderExpression S type query o hasSorted = some result) :
    result =
      if hasSorted then ⟨query.source, query.comparers ++ [o.memberComparer S type]⟩
      else ⟨query.elements, [o.memberComparer S type]⟩ := by
  obtain ⟨le, hle, h⟩ := Option.bind_eq_some_iff.1 h
  obtain rfl := Option.some.inj h
  have hkey : (fun entity => le.value S entity) = o.key.memberValue S type :=
    funext (value_of_lambda hle)
  rw [hkey, OrderExpression.memberComparer, keyComparer]
  by_cases hdesc : o.sortOrder = .descending
  · simp [hdesc, Queryable.thenByDescending, Queryable.orderByDescending]
  · simp [hdesc, Queryable.thenBy, Queryable.orderBy]

/-- The rest of the order expressions, when one has been merged. -/
theorem foldlM_mergeNext {state : Queryable V × Bool}
    (h : orderExpressions.foldlM (mergeNext S type) (query, true) = some state) :
    state.1 = ⟨query.source,
      query.comparers ++ orderExpressions.map (OrderExpression.memberComparer S type)⟩ := by
  induction orderExpressions generalizing query with
  | nil =>
    obtain rfl := Option.some.inj h
    simp
  | cons o orderExpressions ih =>
    rw [List.foldlM_cons] at h
    obtain ⟨state', hnext, h⟩ := Option.bind_eq_some_iff.1 h
    obtain ⟨query', hmerge, hstate⟩ := Option.bind_eq_some_iff.1 hnext
    obtain rfl := Option.some.inj hstate
    rw [ih h, mergeOrderExpression_eq_some hmerge]
    simp

theorem elements_of_findAll
    (h : findAll S type query expression orderExpressions = some result) :
    result.elements =
      (Comparer.lexicographic (orderExpressions.map (OrderExpression.memberComparer S type))).sort
        (satisfying query expression) := by
  obtain ⟨state, hstate, hresult⟩ := Option.bind_eq_some_iff.1 h
  obtain rfl := Option.some.inj hresult
  obtain ⟨filtered, hfiltered, hstate⟩ : ∃ filtered : Queryable V,
      filtered.elements = satisfying query expression ∧
        orderExpressions.foldlM (mergeNext S type) (filtered, false) = some state := by
    cases expression with
    | none => exact ⟨query, rfl, hstate⟩
    | some predicate => exact ⟨query.where_ predicate, Comparer.sort_indifferent _, hstate⟩
  rw [← hfiltered]
  cases orderExpressions with
  | nil =>
    obtain rfl := Option.some.inj hstate
    exact (Comparer.sort_indifferent _).symm
  | cons o orderExpressions =>
    rw [List.foldlM_cons] at hstate
    obtain ⟨state', hnext, hrest⟩ := Option.bind_eq_some_iff.1 hstate
    obtain ⟨query', hmerge, hstate'⟩ := Option.bind_eq_some_iff.1 hnext
    obtain rfl := Option.some.inj hstate'
    rw [foldlM_mergeNext hrest, mergeOrderExpression_eq_some hmerge]
    rfl

/-- Where `FindAll` builds a query, its result is sorted by the given keys exactly when the order
of their members agrees with them on the entities that satisfy the filter. -/
theorem sorts_iff (h : findAll S type query expression orderExpressions = some result) :
    Sorts S type query expression orderExpressions result ↔
      Agree S type orderExpressions (satisfying query expression) := by
  rw [Sorts, elements_of_findAll h, Comparer.pairwise_sort_iff]
  exact and_iff_right (Comparer.sort_perm _ _)

/-! ## Keys that keep their order -/

variable (S type) in
/-- A chain of members of the parameter, each of them the one that is found by its name. -/
def KeyExpression.Found : KeyExpression Member Op → Prop
  | .parameter name => '.' ∉ parameterName name
  | .member operand m =>
    operand.Found ∧ '.' ∉ S.memberName m ∧
      S.propertyOrField (operand.type S type) (S.memberName m) = some m
  | .unary _ _ => False

namespace KeyExpression

theorem names_ne_nil (e : KeyExpression Member Op) : e.names S ≠ [] := by
  rw [← splitOn_text]
  exact List.splitOn_ne_nil _ _

theorem Found.follow_append (h : e.Found S type) (names : List Text) (entity : V) :
    follow S type ((e.names S).tail ++ names) entity =
      follow S (e.type S type) names (e.value S entity) := by
  induction e generalizing names with
  | parameter name =>
    rw [KeyExpression.names, List.splitOn_eq_singleton h]
    rfl
  | member operand m ih =>
    obtain ⟨hoperand, hdot, hfound⟩ := h
    rw [KeyExpression.names, List.splitOn_eq_singleton hdot,
      List.tail_append_of_ne_nil operand.names_ne_nil, List.append_assoc, ih hoperand,
      List.singleton_append, follow, hfound]
    rfl
  | unary op operand => exact h.elim

theorem Found.follow_path {m : Member} (h : (member e m).Found S type) (entity : V) :
    follow S type ((member e m).path S) entity = (member e m).value S entity := by
  have hpath : (member e m).path S = ((member e m).names S).tail := by
    rw [path, KeyExpression.names, List.splitOn_eq_singleton h.2.1]
    cases hnames : e.names S with
    | nil => exact absurd hnames e.names_ne_nil
    | cons name names => cases names <;> rfl
  rw [hpath, ← List.append_nil ((member e m).names S).tail, h.follow_append]
  rfl

end KeyExpression

/-- The members agree with the given keys if no two entities compare differently by them. -/
theorem agree_of_compare_eq
    (h : ∀ o ∈ orderExpressions, ∀ a b,
      S.comparer.compare (o.key.memberValue S type a) (o.key.memberValue S type b) =
        S.comparer.compare (o.key.value S type a) (o.key.value S type b))
    (entities : List V) : Agree S type orderExpressions entities := by
  have hmap : orderExpressions.map (OrderExpression.memberComparer S type) =
      orderExpressions.map (OrderExpression.comparer S type) := by
    refine List.map_congr_left fun o ho => ?_
    have hon : S.comparer.on (o.key.memberValue S type) = S.comparer.on (o.key.value S type) :=
      Comparer.ext (funext fun a => funext fun b => h o ho a b)
    rw [OrderExpression.memberComparer, OrderExpression.comparer, keyComparer, keyComparer, hon]
  rw [Agree, hmap]
  refine List.pairwise_of_forall fun a b => ?_
  split
  · assumption
  · next hle =>
    have htotal := Comparer.le_total
      (.lexicographic (orderExpressions.map (OrderExpression.comparer S type))) a b
    exact (Bool.or_eq_true_iff.1 htotal).resolve_left hle

/-! ## A sample -/

inductive SampleType where
  | person
  | int
  | object
  deriving DecidableEq, Repr

inductive SampleMember where
  | age
  deriving DecidableEq, Repr

/-- Persons with an age; a person is given by it. -/
def sampleRuntime : Runtime SampleType SampleMember (UnaryNodeType × SampleType) Int where
  typeName
    | .person => "Person".toList
    | .int => "Int32".toList
    | .object => "Object".toList
  memberName _ := "Age".toList
  memberType _ := .int
  nodeType := Prod.fst
  opType := Prod.snd
  propertyOrField type name :=
    if type = .person ∧ name.map Char.toLower = "age".toList then some .age else none
  plain_of_propertyOrField := by
    intro type name m h c hc hmark
    obtain ⟨⟨-, hname⟩, -⟩ := Option.ite_none_right_eq_some.1 h
    have hmem : c.toLower ∈ "age".toList := hname ▸ List.mem_map_of_mem hc
    have hmarks : marks.all (fun c => c.toLower ∉ "age".toList) := by decide
    exact of_decide_eq_true (List.all_eq_true.1 hmarks c hmark) hmem
  get _ age := age
  apply
    | (.negate, _), age | (.negateChecked, _), age => -age
    | (.not, _), age | (.onesComplement, _), age => -age - 1
    | (.increment, _), age => age + 1
    | (.decrement, _), age => age - 1
    | _, age => age
  comparer := ⟨compare, inferInstance⟩

/-- `x => -x.Age`, with the conversion to `object` around it. -/
def minusAge : KeyExpression SampleMember (UnaryNodeType × SampleType) :=
  .unary (.convert, .object) (.unary (.negate, .int) (.member (.parameter (some "x".toList)) .age))

example : minusAge.toString sampleRuntime = "Convert(-x.Age, Object)".toList := by decide

/-- Two persons. -/
def samplePersons : Queryable Int := ⟨[1, 2], []⟩

/-- Sorted by `minusAge`. -/
def sampleOrder : List (OrderExpression SampleMember (UnaryNodeType × SampleType)) :=
  [⟨.orderByExpression minusAge, .ascending⟩]

theorem exists_findAll_sampleOrder :
    ∃ result, findAll sampleRuntime .person samplePersons none sampleOrder = some result :=
  Option.isSome_iff_exists.1 (by decide)

theorem sorts_iff_sampleOrder :
    ∃ result, findAll sampleRuntime .person samplePersons none sampleOrder = some result ∧
      (Sorts sampleRuntime .person samplePersons none sampleOrder result ↔
        Agree sampleRuntime .person sampleOrder (satisfying samplePersons none)) :=
  exists_findAll_sampleOrder.imp fun _ h => ⟨h, sorts_iff h⟩

/-- The query is built, and the younger person comes first in its result. -/
theorem not_sorts_sampleOrder :
    ∃ result, findAll sampleRuntime .person samplePersons none sampleOrder = some result ∧
      ¬Sorts sampleRuntime .person samplePersons none sampleOrder result := by
  obtain ⟨result, h⟩ := exists_findAll_sampleOrder
  refine ⟨result, h, ?_⟩
  have hpersons : satisfying samplePersons none = [1, 2] := Comparer.sort_indifferent _
  rw [Sorts, elements_of_findAll h, Comparer.pairwise_sort_iff, hpersons]
  rintro ⟨-, hpairwise⟩
  revert hpairwise
  decide

end IFramework.Repositories
