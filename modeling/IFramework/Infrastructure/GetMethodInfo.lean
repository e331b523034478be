import IFramework.Theory.Memo
import Mathlib.Data.Option.Basic

/-!
# The cache of method infos

`GetMethodInfo` finds the method of a type that takes given arguments, and keeps it under a key that
is the concatenation of metadata tokens and the name of the method. A token identifies a type inside
its module only, all instantiations of a generic type show the same one, and neither the overload
nor the static flag is part of the key. `getMethodInfo_eq_search_iff` says which calls still get
the method that a search finds; `getMethodInfo_of_ordinary` says that none of this matters while all
calls are of one kind and use types that their tokens tell apart.
-/

namespace IFramework.Infrastructure

/-- A method, as reflection describes it. -/
structure MethodInfo (τ : Type) where
  declaringType : τ
  metadataToken : Nat
  name : String
  isGenericMethod : Bool
  parameterTypes : List τ
  deriving DecidableEq, Repr

/-- What reflection tells about the types of a process. A token identifies a type definition inside
its module; an instantiation of a generic type shows the token of its definition. -/
structure Reflection (τ : Type) where
  module : τ → Nat
  metadataToken : τ → Nat
  definition : τ → τ
  name : τ → String
  genericTypeArguments : τ → List τ
  genericParameterPosition : τ → Option Nat
  isValueType : τ → Bool
  isAssignableFrom : τ → τ → Bool
  getMethods : τ → Bool → List (MethodInfo τ)
  assignable_refl : ∀ t, isAssignableFrom t t = true
  assignable_trans : ∀ t₁ t₂ t₃, isAssignableFrom t₁ t₂ = true → isAssignableFrom t₂ t₃ = true →
    isAssignableFrom t₁ t₃ = true
  module_definition : ∀ t, module (definition t) = module t
  token_definition : ∀ t, metadataToken (definition t) = metadataToken t
  token_unique : ∀ t t', module t = module t' → metadataToken t = metadataToken t' →
    definition t = definition t'

/-- What a search throws when the position of a generic parameter is not among the given types. -/
structure IndexOutOfRangeException where
  deriving DecidableEq, Repr

/-- A call of one of the two overloads, `genericTypes` being `none` for the one without them. An
argument is `null` (`none`) or an object, of which only the type is looked at. -/
structure MethodCall (τ : Type) where
  type : τ
  method : String
  args : List (Option τ)
  genericTypes : Option (List τ)
  staticMethod : Bool
  deriving DecidableEq, Repr

namespace Reflection

variable {τ : Type} (r : Reflection τ)

/-! ## The key -/

def tokenString (t : τ) : String := toString (r.metadataToken t)

def argString (arg : Option τ) : String :=
  match arg with
  | some t => r.tokenString t
  | none => "null"

/-- The key of a call in the `MethodInfoDictionary`. -/
def methodInfoKey (c : MethodCall τ) : String :=
  let keyAttributes := c.args.map r.argString ++ [r.tokenString c.type, c.method]
  String.join (keyAttributes ++ (c.genericTypes.getD []).map r.tokenString)

/-! ## The search -/

/-- No object is an instance of `null`, and `null` is no instance. -/
def isInstanceOfType (type : τ) (arg : Option τ) : Bool :=
  match arg with
  | some t => r.isAssignableFrom type t
  | none => false

/-- Two types have the same name, and so have their generic arguments. -/
def genericTypeAssignable (sourceType : Option τ) (targetType : τ) : Bool :=
  match sourceType with
  | none => true
  | some sourceType =>
    r.name sourceType = r.name targetType &&
      (r.genericTypeArguments sourceType).map r.name =
        (r.genericTypeArguments targetType).map r.name

/-- The test of one parameter in the overload without generic types. -/
def parameterFits (parameterType : τ) (arg : Option τ) :
    Except IndexOutOfRangeException Bool :=
  return !((arg.isSome || r.isValueType parameterType) && !r.isInstanceOfType parameterType arg)

/-- The test of one parameter in the overload with generic types. -/
def genericParameterFits (genericTypes : List τ) (parameterType : τ) (arg : Option τ) :
    Except IndexOutOfRangeException Bool := do
  let parameterType ←
    match r.genericParameterPosition parameterType with
    | some position =>
      match genericTypes[position]? with
      | some genericType => pure genericType
      | none => throw ⟨⟩
    | none => pure parameterType
  return !((arg.isSome || r.isValueType parameterType) && !r.isInstanceOfType parameterType arg &&
    !r.genericTypeAssignable arg parameterType)

/-- The loop over the parameters, which ends at the first one that does not fit. -/
def equalParameters (fits : τ → Option τ → Except IndexOutOfRangeException Bool) :
    List τ → List (Option τ) → Except IndexOutOfRangeException Bool
  | parameterType :: parameterTypes, arg :: args => do
    if ← fits parameterType arg then equalParameters fits parameterTypes args else return false
  | _, _ => return true

/-- The loop over the methods, which ends at the first one whose parameters fit. -/
def findMethod (fits : τ → Option τ → Except IndexOutOfRangeException Bool)
    (args : List (Option τ)) :
    List (MethodInfo τ) → Except IndexOutOfRangeException (Option (MethodInfo τ))
  | [] => return none
  | m :: methods => do
    if ← equalParameters fits m.parameterTypes args then return some m
    else findMethod fits args methods

/-- The search of the methods of the type. -/
def search (c : MethodCall τ) : Except IndexOutOfRangeException (Option (MethodInfo τ)) :=
  let methods := (r.getMethods c.type c.staticMethod).filter fun m =>
    m.name = c.method && m.isGenericMethod = c.genericTypes.isSome &&
      m.parameterTypes.length = c.args.length
  match c.genericTypes with
  | none => findMethod r.parameterFits c.args methods
  | some genericTypes => findMethod (r.genericParameterFits genericTypes) c.args methods

/-! ## The cache -/

/-- The `MethodInfoDictionary`, in which a method that was not found is kept as `null`. -/
abbrev MethodInfoDictionary (τ : Type) := String → Option (Option (MethodInfo τ))

/-- The dictionary after these calls. -/
def dictionaryAfter (calls : List (MethodCall τ)) : MethodInfoDictionary τ :=
  Memo.after r.methodInfoKey r.search calls

/-- What a call returns: `GetOrAdd` with the search as the factory. -/
def getMethodInfo (dictionary : MethodInfoDictionary τ) (c : MethodCall τ) :
    Except IndexOutOfRangeException (Option (MethodInfo τ)) :=
  Memo.answer r.methodInfoKey r.search dictionary c

/-- The first of these calls that has the key and does not throw. -/
def firstWithKey (calls : List (MethodCall τ)) (key : String) : Option (MethodCall τ) :=
  Memo.firstOf r.methodInfoKey r.search calls key

/-- A call returns what a search finds exactly if the first call that had its key finds the same. -/
theorem getMethodInfo_eq_search_iff (earlier : List (MethodCall τ)) (c : MethodCall τ) :
    r.getMethodInfo (r.dictionaryAfter earlier) c = r.search c ↔
      ∀ c₀, r.firstWithKey earlier (r.methodInfoKey c) = some c₀ → r.search c₀ = r.search c :=
  Memo.answer_eq_compute_iff r.methodInfoKey r.search earlier c

/-! Two events of one generic type: the handler of the first one answers for the second one. -/

inductive SampleType where
  | account
  | created
  | createdOfInt
  | createdOfString
  | int32
  | string
  deriving DecidableEq, Repr

open SampleType in
def sampleHandler (token : Nat) (event : SampleType) : MethodInfo SampleType :=
  ⟨account, token, "Handle", false, [event]⟩

open SampleType in
def sample : Reflection SampleType where
  module
    | int32 | string => 0
    | _ => 1
  metadataToken
    | account => 0x02000002
    | created | createdOfInt | createdOfString => 0x02000003
    | int32 => 0x02000004
    | string => 0x02000005
  definition
    | createdOfInt | createdOfString => created
    | t => t
  name
    | account => "Account"
    | created | createdOfInt | createdOfString => "Created"
    | int32 => "Int32"
    | string => "String"
  genericTypeArguments
    | createdOfInt => [int32]
    | createdOfString => [string]
    | _ => []
  genericParameterPosition _ := none
  isValueType t := t = int32
  isAssignableFrom t t' := t = t'
  getMethods
    | account, false =>
      [sampleHandler 0x06000001 createdOfInt, sampleHandler 0x06000002 createdOfString]
    | _, _ => []
  assignable_refl := by simp
  assignable_trans := by simp
  module_definition t := by cases t <;> rfl
  token_definition t := by cases t <;> rfl
  token_unique t t' := by cases t <;> cases t' <;> simp

/-- `HandleEvent` of an event. -/
def sampleCall (event : SampleType) : MethodCall SampleType :=
  ⟨.account, "Handle", [some event], none, false⟩

theorem handler_of_other_instantiation :
    ¬∀ (earlier : List (MethodCall SampleType)) (c : MethodCall SampleType),
      sample.getMethodInfo (sample.dictionaryAfter earlier) c = sample.search c := by
  intro h
  have hkey : sample.methodInfoKey (sampleCall .createdOfInt) =
      sample.methodInfoKey (sampleCall .createdOfString) := rfl
  have hfirst : Memo.firstOf sample.methodInfoKey sample.search [sampleCall .createdOfInt]
      (sample.methodInfoKey (sampleCall .createdOfString)) = some (sampleCall .createdOfInt) := by
    rw [← hkey, Memo.firstOf_cons, if_pos ⟨rfl, by decide⟩]
  have heq := (Memo.answer_eq_compute_iff _ _ _ _).1
    (h [sampleCall .createdOfInt] (sampleCall .createdOfString)) _ hfirst
  exact absurd heq (by decide)

/-- It is enough that the earlier calls of the key are the same call. -/
theorem getMethodInfo_eq_search_of_key {earlier : List (MethodCall τ)} {c : MethodCall τ}
    (h : ∀ c₀ ∈ earlier, r.methodInfoKey c₀ = r.methodInfoKey c → c₀ = c) :
    r.getMethodInfo (r.dictionaryAfter earlier) c = r.search c :=
  Memo.answer_eq_compute_of_key r.methodInfoKey r.search fun c₀ hmem hkey => by
    rw [h c₀ hmem hkey]

/-! ## Keys that tell the calls apart -/

/-- A type of the module that is no instantiation and shows the token of a type definition, whose
table has the number 2. -/
structure IsOrdinary (module : Nat) (t : τ) : Prop where
  module_eq : r.module t = module
  definition_eq : r.definition t = t
  token_ge : 0x02000000 ≤ r.metadataToken t
  token_lt : r.metadataToken t < 0x03000000

/-- All types of the call are ordinary types of the module. -/
structure IsOrdinaryCall (module : Nat) (c : MethodCall τ) : Prop where
  type : r.IsOrdinary module c.type
  args : ∀ t, some t ∈ c.args → r.IsOrdinary module t
  genericTypes : ∀ t ∈ c.genericTypes.getD [], r.IsOrdinary module t

namespace IsOrdinary

variable {r} {module : Nat} {t t' : τ}

theorem length_token (h : r.IsOrdinary module t) : (r.tokenString t).toList.length = 8 := by
  have hge := h.token_ge
  have hlt := h.token_lt
  have hle : (Nat.toDigits 10 (r.metadataToken t)).length ≤ 8 :=
    (Nat.length_toDigits_le_iff (by decide) (by decide)).2 (by omega)
  have hnot : ¬(Nat.toDigits 10 (r.metadataToken t)).length ≤ 7 := fun h7 => by
    have := (Nat.length_toDigits_le_iff (by decide) (by decide)).1 h7
    omega
  simp only [tokenString, Nat.toString_eq_repr, Nat.toList_repr]
  omega

theorem eq_of_token (h : r.IsOrdinary module t) (h' : r.IsOrdinary module t')
    (htoken : r.tokenString t = r.tokenString t') : t = t' := by
  have heq : r.metadataToken t = r.metadataToken t' := by
    have hdigits := congrArg String.toList htoken
    simp only [tokenString, Nat.toString_eq_repr, Nat.toList_repr] at hdigits
    rw [← Nat.ofDigitChars_ten_toDigits (n := r.metadataToken t), hdigits,
      Nat.ofDigitChars_ten_toDigits]
  have hdef := r.token_unique t t' (h.module_eq.trans h'.module_eq.symm) heq
  rwa [h.definition_eq, h'.definition_eq] at hdef

theorem append_inj (h : r.IsOrdinary module t) (h' : r.IsOrdinary module t') {l l' : List Char}
    (heq : (r.tokenString t).toList ++ l = (r.tokenString t').toList ++ l') : t = t' ∧ l = l' := by
  obtain ⟨htoken, hl⟩ := List.append_inj heq (by rw [h.length_token, h'.length_token])
  exact ⟨h.eq_of_token h' (String.toList_inj.1 htoken), hl⟩

end IsOrdinary

theorem null_append_ne (t : τ) (l l' : List Char) :
    "null".toList ++ l ≠ (r.tokenString t).toList ++ l' := by
  intro heq
  have hdigits : (r.tokenString t).toList = Nat.toDigits 10 (r.metadataToken t) := by
    simp only [tokenString, Nat.toString_eq_repr, Nat.toList_repr]
  obtain ⟨d, ds, hcons⟩ := List.exists_cons_of_ne_nil
    (Nat.toDigits_ne_nil (n := r.metadataToken t) (b := 10))
  have hd : d.isDigit = true :=
    Nat.isDigit_of_mem_toDigits (by decide) (by decide) (hcons ▸ List.mem_cons_self)
  rw [hdigits, hcons] at heq
  have hn : 'n' = d := (List.cons.inj heq).1
  rw [← hn] at hd
  exact absurd hd (by decide)

/-- The string of an ordinary argument can be read off the front of a key. -/
theorem argString_append_inj {module : Nat} {arg arg' : Option τ}
    (h : ∀ t, arg = some t → r.IsOrdinary module t)
    (h' : ∀ t, arg' = some t → r.IsOrdinary module t) {l l' : List Char}
    (heq : (r.argString arg).toList ++ l = (r.argString arg').toList ++ l') :
    arg = arg' ∧ l = l' := by
  cases arg with
  | none =>
    cases arg' with
    | none => exact ⟨rfl, List.append_cancel_left heq⟩
    | some t' => exact absurd heq (r.null_append_ne t' l l')
  | some t =>
    cases arg' with
    | none => exact absurd heq.symm (r.null_append_ne t l' l)
    | some t' =>
      obtain ⟨ht, hl⟩ := (h t rfl).append_inj (h' t' rfl) heq
      exact ⟨by rw [ht], hl⟩

theorem flatMap_argString_inj {module : Nat} {args args' : List (Option τ)}
    (h : ∀ t, some t ∈ args → r.IsOrdinary module t)
    (h' : ∀ t, some t ∈ args' → r.IsOrdinary module t) (hlen : args.length = args'.length)
    {l l' : List Char}
    (heq : args.flatMap (fun a => (r.argString a).toList) ++ l =
      args'.flatMap (fun a => (r.argString a).toList) ++ l') : args = args' ∧ l = l' := by
  induction args generalizing args' with
  | nil =>
    cases List.length_eq_zero_iff.1 hlen.symm
    exact ⟨rfl, heq⟩
  | cons a args ih =>
    obtain ⟨a', args', rfl⟩ := List.exists_cons_of_length_eq_add_one hlen.symm
    rw [List.flatMap_cons, List.flatMap_cons, List.append_assoc, List.append_assoc] at heq
    obtain ⟨ha, hrest⟩ := r.argString_append_inj (fun t ht => h t (ht ▸ List.mem_cons_self))
      (fun t ht => h' t (ht ▸ List.mem_cons_self)) heq
    obtain ⟨hargs, hl⟩ := ih (fun t ht => h t (List.mem_cons_of_mem a ht))
      (fun t ht => h' t (List.mem_cons_of_mem a' ht)) (by simpa using hlen) hrest
    exact ⟨by rw [ha, hargs], hl⟩

theorem toList_methodInfoKey (c : MethodCall τ) :
    (r.methodInfoKey c).toList =
      c.args.flatMap (fun a => (r.argString a).toList) ++
        ((r.tokenString c.type).toList ++ (c.method.toList ++
          ((c.genericTypes.getD []).map some).flatMap fun a => (r.argString a).toList)) := by
  simp [methodInfoKey, String.toList_join, List.flatMap_map, argString]

/-- As many ordinary arguments make strings of one length. -/
theorem length_flatMap_argString {module : Nat} {ts : List τ}
    (h : ∀ t ∈ ts, r.IsOrdinary module t) :
    ((ts.map some).flatMap fun a => (r.argString a).toList).length = 8 * ts.length := by
  induction ts with
  | nil => rfl
  | cons t ts ih =>
    have hlen := (h t List.mem_cons_self).length_token
    rw [List.map_cons, List.flatMap_cons, List.length_append,
      ih fun t' ht' => h t' (List.mem_cons_of_mem t ht'), List.length_cons]
    simp only [argString, hlen]
    omega

theorem length_getD (gs : Option (List τ)) :
    (gs.getD []).length = (gs.map List.length).getD 0 := by
  cases gs <;> rfl

/-- The overload and the number of generic types complete the generic types of the key. -/
theorem genericTypes_eq {gs gs' : Option (List τ)}
    (hlen : gs.map List.length = gs'.map List.length) (h : gs.getD [] = gs'.getD []) :
    gs = gs' := by
  cases gs with
  | none =>
    cases gs' with
    | none => rfl
    | some ts' => cases hlen
  | some ts =>
    cases gs' with
    | none => cases hlen
    | some ts' => exact congrArg some h

/-- The key determines a call among the calls of one overload, of one static flag and with as many
arguments and generic types, as long as their types are ordinary types of one module. -/
theorem eq_of_methodInfoKey {module : Nat} {c c' : MethodCall τ} (hc : r.IsOrdinaryCall module c)
    (hc' : r.IsOrdinaryCall module c') (hstatic : c.staticMethod = c'.staticMethod)
    (hargs : c.args.length = c'.args.length)
    (hgeneric : c.genericTypes.map List.length = c'.genericTypes.map List.length)
    (hkey : r.methodInfoKey c = r.methodInfoKey c') : c = c' := by
  have hchars := congrArg String.toList hkey
  rw [toList_methodInfoKey, toList_methodInfoKey] at hchars
  obtain ⟨hargs', hrest⟩ := r.flatMap_argString_inj hc.args hc'.args hargs hchars
  obtain ⟨htype, hrest⟩ := hc.type.append_inj hc'.type hrest
  have hlen : (c.genericTypes.getD []).length = (c'.genericTypes.getD []).length := by
    rw [length_getD, length_getD, hgeneric]
  obtain ⟨hmethod, hgen⟩ := List.append_inj' hrest (by
    rw [r.length_flatMap_argString hc.genericTypes, r.length_flatMap_argString hc'.genericTypes,
      hlen])
  have hmem : ∀ {c : MethodCall τ}, r.IsOrdinaryCall module c →
      ∀ t, some t ∈ (c.genericTypes.getD []).map some → r.IsOrdinary module t :=
    fun hc t ht => hc.genericTypes t (by simpa using ht)
  obtain ⟨htypes, -⟩ := r.flatMap_argString_inj (hmem hc) (hmem hc') (by simpa using hlen)
    (congrArg (· ++ ([] : List Char)) hgen)
  have hgs := genericTypes_eq hgeneric
    (List.map_injective_iff.2 (Option.some_injective τ) htypes)
  cases c
  cases c'
  simp only [MethodCall.mk.injEq]
  exact ⟨htype, String.toList_inj.1 hmethod, hargs', hgs, hstatic⟩

/-- While all calls are of one kind and use ordinary types of one module, the cache is not seen. -/
theorem getMethodInfo_of_ordinary {module : Nat} {earlier : List (MethodCall τ)} {c : MethodCall τ}
    (hc : r.IsOrdinaryCall module c)
    (hearlier : ∀ c₀ ∈ earlier, r.IsOrdinaryCall module c₀ ∧ c₀.staticMethod = c.staticMethod ∧
      c₀.args.length = c.args.length ∧
      c₀.genericTypes.map List.length = c.genericTypes.map List.length) :
    r.getMethodInfo (r.dictionaryAfter earlier) c = r.search c := by
  apply getMethodInfo_eq_search_of_key
  intro c₀ hmem hkey
  obtain ⟨hc₀, hstatic, hargs, hgeneric⟩ := hearlier c₀ hmem
  exact r.eq_of_methodInfoKey hc₀ hc hstatic hargs hgeneric hkey

end Reflection

end IFramework.Infrastructure
