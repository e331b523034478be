import IFramework.Theory.ListUnion
import Mathlib.Logic.Function.Basic

/-!
# Registrations of handlers

`HandlerProvider` keeps a list of handlers under each message type. When the registrations are made,
`RegisterInheritedMessageHandlers` goes through all pairs of keys and merges the list of a class
into those of its subclasses, in place. A query for a type that is no key merges the lists of the
keys it is a subclass of, and keeps the result as a new key. The dictionary may be enumerated in any
order, which may be another one each time: `Queried` is what registrations, the merges and any
queries lead to.

`Closed` says what every list holds when the merges are done: the entries that are registered for
the type and its superclasses, each once, and those of one of these types first.
-/

namespace IFramework.Handlers

open ListUnion

/-! ## Types -/

/-- What `Register` reads of a method: the types of its parameters, and whether it returns a
`Task`. -/
structure HandlerMethod (Ty : Type) where
  parameterTypes : List Ty
  returnsTask : Bool
  deriving DecidableEq, Repr

/-- The classes of the loaded assemblies: the superclasses of a type, the nearest one first, which
are those of the nearest one but for itself, and the methods of a type. -/
structure Types (Ty : Type) where
  superclasses : Ty → List Ty
  superclasses_of_cons : ∀ t s rest, superclasses t = s :: rest → superclasses s = rest
  getMethods : Ty → List (HandlerMethod Ty)

namespace Types

variable {Ty : Type} (types : Types Ty)

/-- `type.IsSubclassOf(other)`. -/
abbrev IsSubclassOf (t s : Ty) : Prop := s ∈ types.superclasses t

/-- A type and its superclasses. -/
def lineage (t : Ty) : List Ty := t :: types.superclasses t

variable {types} {r s t : Ty}

theorem superclasses_of_append {pre rest : List Ty}
    (h : types.superclasses t = pre ++ s :: rest) : types.superclasses s = rest := by
  induction pre generalizing t with
  | nil => exact types.superclasses_of_cons t s rest h
  | cons r pre ih => exact ih (types.superclasses_of_cons t r _ h)

theorem IsSubclassOf.trans (h : types.IsSubclassOf t s) (h' : types.IsSubclassOf s r) :
    types.IsSubclassOf t r := by
  obtain ⟨pre, rest, heq⟩ := List.append_of_mem h
  rw [IsSubclassOf, superclasses_of_append heq] at h'
  rw [IsSubclassOf, heq]
  exact List.mem_append_right _ (List.mem_cons_of_mem s h')

@[simp] theorem mem_lineage : s ∈ types.lineage t ↔ s = t ∨ types.IsSubclassOf t s :=
  List.mem_cons

theorem IsSubclassOf.mem_lineage (h : types.IsSubclassOf t s) (hr : r ∈ types.lineage s) :
    r ∈ types.lineage t := by
  rcases Types.mem_lineage.1 hr with rfl | hr
  · exact Types.mem_lineage.2 (.inr h)
  · exact Types.mem_lineage.2 (.inr (h.trans hr))

variable (types) [DecidableEq Ty]

/-- The flag that `Register` finds: the first method with a parameter of the message type. -/
def isAsync (messageType handlerType : Ty) : Bool :=
  match (types.getMethods handlerType).find? fun m => messageType ∈ m.parameterTypes with
  | some handleMethod => handleMethod.returnsTask
  | none => false

end Types

/-! ## The provider -/

/-- A `HandlerTypeInfo`. It has no equality of its own: `ref` tells one object from another. -/
structure HandlerTypeInfo (Ty : Type) where
  ref : Nat
  type : Ty
  isAsync : Bool
  deriving DecidableEq, Repr

/-- A `HandlerProvider`; `nextRef` is the identity of the next object. No list is null. -/
structure HandlerProvider (Ty : Type) where
  handlerTypes : Ty → Option (List (HandlerTypeInfo Ty))
  discardKeyTypes : Ty → Bool
  nextRef : Nat

namespace HandlerProvider

variable {Ty : Type} [DecidableEq Ty] (types : Types Ty)

/-- Nothing is registered. -/
def empty : HandlerProvider Ty := ⟨fun _ => none, fun _ => false, 0⟩

/-- `Register(messageType, handlerType)`. -/
def register (provider : HandlerProvider Ty) (messageType handlerType : Ty) :
    HandlerProvider Ty :=
  let isAsync := types.isAsync messageType handlerType
  let info : HandlerTypeInfo Ty := ⟨provider.nextRef, handlerType, isAsync⟩
  match provider.handlerTypes messageType with
  | some registered =>
    if registered.any fun ht => ht.type == handlerType && ht.isAsync == isAsync then
      provider
    else
      { provider with
        handlerTypes := Function.update provider.handlerTypes messageType
          (some (registered ++ [info]))
        nextRef := provider.nextRef + 1 }
  | none =>
    { provider with
      handlerTypes := Function.update provider.handlerTypes messageType (some [info])
      nextRef := provider.nextRef + 1 }

/-- These registrations of a handler type for a message type, in this order. -/
def registerAll (registrations : List (Ty × Ty)) : HandlerProvider Ty :=
  registrations.foldl (fun provider r => provider.register types r.1 r.2) empty

/-- The list of `messageType` is merged into that of `type`. -/
def inherit (provider : HandlerProvider Ty) (messageType type : Ty) : HandlerProvider Ty :=
  match provider.handlerTypes type, provider.handlerTypes messageType with
  | some own, some inherited =>
    { provider with
      handlerTypes := Function.update provider.handlerTypes type (some (union own inherited)) }
  | _, _ => provider

/-- `RegisterInheritedMessageHandlers`. The keys are enumerated in the order `outer`, and for each
of them once more, in the order `inner`. -/
def registerInheritedMessageHandlers (provider : HandlerProvider Ty) (outer : List Ty)
    (inner : Ty → List Ty) : HandlerProvider Ty :=
  outer.foldl
    (fun provider messageType =>
      ((inner messageType).filter fun type => types.IsSubclassOf type messageType).foldl
        (fun provider type => provider.inherit messageType type) provider)
    provider

/-- The loop of `GetHandlerTypes` over the dictionary. -/
def avaliableHandlerTypes (provider : HandlerProvider Ty) (order : List Ty) (messageType : Ty) :
    List (HandlerTypeInfo Ty) :=
  order.foldl
    (fun avaliable key =>
      if types.IsSubclassOf messageType key then
        match provider.handlerTypes key with
        | some handlerTypes =>
          if handlerTypes.length > 0 then union avaliable handlerTypes else avaliable
        | none => avaliable
      else avaliable)
    []

/-- `GetHandlerTypes(messageType)`, with the order in which it enumerates the dictionary. -/
def getHandlerTypes (provider : HandlerProvider Ty) (order : List Ty) (messageType : Ty) :
    List (HandlerTypeInfo Ty) × HandlerProvider Ty :=
  match provider.handlerTypes messageType with
  | some handlerTypes => (if handlerTypes.length > 0 then handlerTypes else [], provider)
  | none =>
    if provider.discardKeyTypes messageType then
      ([], provider)
    else
      let avaliable := provider.avaliableHandlerTypes types order messageType
      if avaliable.length = 0 then
        ([], { provider with
          discardKeyTypes := Function.update provider.discardKeyTypes messageType true })
      else
        (avaliable, { provider with
          handlerTypes := Function.update provider.handlerTypes messageType (some avaliable) })

omit [DecidableEq Ty] in
/-- The list has every key of the dictionary once. -/
def Enumerates (provider : HandlerProvider Ty) (order : List Ty) : Prop :=
  order.Nodup ∧ ∀ key, key ∈ order ↔ provider.handlerTypes key ≠ none

/-- The providers after these registrations, the merges and any queries. -/
inductive Queried (registrations : List (Ty × Ty)) : HandlerProvider Ty → Prop
  | initialised {outer : List Ty} {inner : Ty → List Ty}
      (houter : (registerAll types registrations).Enumerates outer)
      (hinner : ∀ messageType, (registerAll types registrations).Enumerates (inner messageType)) :
      Queried registrations
        ((registerAll types registrations).registerInheritedMessageHandlers types outer inner)
  | query {provider : HandlerProvider Ty} (h : Queried registrations provider) {order : List Ty}
      (horder : provider.Enumerates order) (messageType : Ty) :
      Queried registrations (provider.getHandlerTypes types order messageType).2

/-! ## Registrations -/

omit [DecidableEq Ty] in
/-- The list under a key, empty without one. -/
def listed (provider : HandlerProvider Ty) (key : Ty) : List (HandlerTypeInfo Ty) :=
  (provider.handlerTypes key).getD []

/-- The handler types that are registered for a message type, in this order. -/
def handlersFor (registrations : List (Ty × Ty)) (messageType : Ty) : List Ty :=
  (registrations.filter fun r => r.1 = messageType).map Prod.snd

variable {types} {registrations : List (Ty × Ty)} {provider : HandlerProvider Ty}
  {messageType handlerType : Ty}

theorem mem_handlersFor :
    handlerType ∈ handlersFor registrations messageType ↔
      (messageType, handlerType) ∈ registrations := by
  simp [handlersFor]

/-- An entry with the same handler type and flag, or a new one at the end. -/
theorem register_cases (types : Types Ty) (provider : HandlerProvider Ty)
    (messageType handlerType : Ty) :
    (∃ ht ∈ provider.listed messageType,
        ht.type = handlerType ∧ ht.isAsync = types.isAsync messageType handlerType) ∧
      provider.register types messageType handlerType = provider ∨
    (¬∃ ht ∈ provider.listed messageType,
        ht.type = handlerType ∧ ht.isAsync = types.isAsync messageType handlerType) ∧
      provider.register types messageType handlerType =
        { provider with
          handlerTypes := Function.update provider.handlerTypes messageType
            (some (provider.listed messageType ++
              [⟨provider.nextRef, handlerType, types.isAsync messageType handlerType⟩]))
          nextRef := provider.nextRef + 1 } := by
  unfold register listed
  cases hlist : provider.handlerTypes messageType with
  | none => exact .inr (by simp)
  | some registered =>
    by_cases hex : ∃ ht ∈ registered,
        ht.type = handlerType ∧ ht.isAsync = types.isAsync messageType handlerType
    · exact .inl ⟨hex, if_pos (by simpa using hex)⟩
    · exact .inr ⟨hex, if_neg (by simpa using hex)⟩

/-- What registrations make of an empty provider. -/
structure Registered (types : Types Ty) (registrations : List (Ty × Ty))
    (provider : HandlerProvider Ty) : Prop where
  ne_nil : ∀ key, provider.handlerTypes key ≠ some []
  map_type : ∀ key,
    (provider.listed key).map HandlerTypeInfo.type = (handlersFor registrations key).eraseDups
  isAsync : ∀ key, ∀ i ∈ provider.listed key, i.isAsync = types.isAsync key i.type
  ref_lt : ∀ key, ∀ i ∈ provider.listed key, i.ref < provider.nextRef
  key_unique : ∀ key key', ∀ i ∈ provider.listed key, i ∈ provider.listed key' → key = key'
  discard : ∀ key, provider.discardKeyTypes key = false

theorem Registered.register (h : Registered types registrations provider) :
    Registered types (registrations ++ [(messageType, handlerType)])
      (provider.register types messageType handlerType) := by
  have hfor : ∀ key, handlersFor (registrations ++ [(messageType, handlerType)]) key =
      handlersFor registrations key ++ if messageType = key then [handlerType] else [] := by
    intro key
    by_cases hkey : messageType = key <;> simp [handlersFor, hkey]
  have hmem : handlerType ∈ handlersFor registrations messageType ↔
      ∃ ht ∈ provider.listed messageType,
        ht.type = handlerType ∧ ht.isAsync = types.isAsync messageType handlerType := by
    rw [← List.mem_eraseDups, ← h.map_type, List.mem_map]
    constructor
    · rintro ⟨ht, hht, rfl⟩
      exact ⟨ht, hht, rfl, h.isAsync messageType ht hht⟩
    · rintro ⟨ht, hht, htype, -⟩
      exact ⟨ht, hht, htype⟩
  rcases register_cases types provider messageType handlerType with ⟨hex, heq⟩ | ⟨hex, heq⟩
  · -- the class is registered for the type
    rw [heq]
    refine { h with map_type := ?_ }
    intro key
    rw [h.map_type, hfor]
    by_cases hkey : messageType = key
    · subst hkey
      rw [if_pos rfl, eraseDups_concat, if_pos (hmem.2 hex)]
    · rw [if_neg hkey, List.append_nil]
  · have hlisted : ∀ key, (provider.register types messageType handlerType).listed key =
        provider.listed key ++ if messageType = key then
          [⟨provider.nextRef, handlerType, types.isAsync messageType handlerType⟩] else [] := by
      intro key
      rw [heq]
      by_cases hkey : messageType = key
      · subst hkey
        simp [listed]
      · simp [listed, hkey, Function.update_of_ne (Ne.symm hkey)]
    have hnew : ∀ key, ∀ i ∈ (provider.register types messageType handlerType).listed key,
        i ∈ provider.listed key ∨ messageType = key ∧
          i = ⟨provider.nextRef, handlerType, types.isAsync messageType handlerType⟩ := by
      intro key i hi
      rw [hlisted, List.mem_append] at hi
      refine hi.imp_right fun hi => ?_
      split at hi
      · next hkey => exact ⟨hkey, List.mem_singleton.1 hi⟩
      · cases hi
    refine ⟨?_, ?_, ?_, ?_, ?_, ?_⟩
    · intro key
      rw [heq]
      by_cases hkey : key = messageType
      · subst hkey
        simp
      · simpa [hkey] using h.ne_nil key
    · intro key
      rw [hlisted, List.map_append, h.map_type, hfor]
      by_cases hkey : messageType = key
      · subst hkey
        rw [if_pos rfl, if_pos rfl, eraseDups_concat, if_neg fun hmem' => hex (hmem.1 hmem')]
        rfl
      · simp [hkey]
    · intro key i hi
      rcases hnew key i hi with hi | ⟨rfl, rfl⟩
      · exact h.isAsync key i hi
      · rfl
    · intro key i hi
      rw [heq]
      rcases hnew key i hi with hi | ⟨rfl, rfl⟩
      · exact Nat.lt_succ_of_lt (h.ref_lt key i hi)
      · exact Nat.lt_succ_self _
    · intro key key' i hi hi'
      rcases hnew key i hi with hi | ⟨rfl, rfl⟩
      · rcases hnew key' i hi' with hi' | ⟨rfl, rfl⟩
        · exact h.key_unique key key' i hi hi'
        · exact absurd (h.ref_lt key _ hi) (Nat.lt_irrefl _)
      · rcases hnew key' _ hi' with hi' | ⟨rfl, -⟩
        · exact absurd (h.ref_lt key' _ hi') (Nat.lt_irrefl _)
        · rfl
    · intro key
      rw [heq]
      exact h.discard key

theorem registered_registerAll (types : Types Ty) (registrations : List (Ty × Ty)) :
    Registered types registrations (registerAll types registrations) := by
  induction registrations using List.reverseRecOn with
  | nil =>
    exact ⟨by simp [registerAll, empty], by simp [registerAll, empty, listed, handlersFor],
      by simp [registerAll, empty, listed], by simp [registerAll, empty, listed],
      by simp [registerAll, empty, listed], by simp [registerAll, empty]⟩
  | append_singleton registrations r ih =>
    rw [registerAll, List.foldl_append]
    exact ih.register

/-- The entries that are registered for a message type. -/
abbrev own (types : Types Ty) (registrations : List (Ty × Ty)) (messageType : Ty) :
    List (HandlerTypeInfo Ty) :=
  (registerAll types registrations).listed messageType

theorem exists_own_iff (types : Types Ty) :
    (∃ i ∈ own types registrations messageType, i.type = handlerType) ↔
      (messageType, handlerType) ∈ registrations := by
  rw [← List.mem_map, (registered_registerAll types registrations).map_type, List.mem_eraseDups,
    mem_handlersFor]

theorem nodup_own (types : Types Ty) (registrations : List (Ty × Ty)) (key : Ty) :
    (own types registrations key).Nodup := by
  have hmap := (registered_registerAll types registrations).map_type key
  exact List.Nodup.of_map HandlerTypeInfo.type (hmap ▸ nodup_eraseDups _)

omit [DecidableEq Ty] in
theorem listed_of_eq {handlerTypes : List (HandlerTypeInfo Ty)} {key : Ty}
    (h : provider.handlerTypes key = some handlerTypes) : provider.listed key = handlerTypes := by
  rw [listed, h, Option.getD_some]

/-- The keys are the message types with a registration. -/
theorem handlerTypes_registerAll_ne_none (types : Types Ty) (registrations : List (Ty × Ty))
    (key : Ty) :
    (registerAll types registrations).handlerTypes key ≠ none ↔
      own types registrations key ≠ [] := by
  have hne := (registered_registerAll types registrations).ne_nil key
  unfold own listed
  cases hlist : (registerAll types registrations).handlerTypes key with
  | none => simp
  | some l =>
    rw [hlist] at hne
    simpa using hne

/-! ## Closed lists -/

/-- The list holds the entries for the type and its superclasses, each once, and those for one of
these types first, for the type itself if it has some. -/
structure Resolves (types : Types Ty) (entries : Ty → List (HandlerTypeInfo Ty)) (messageType : Ty)
    (handlerTypes : List (HandlerTypeInfo Ty)) : Prop where
  mem : ∀ i, i ∈ handlerTypes ↔ ∃ M ∈ types.lineage messageType, i ∈ entries M
  nodup : handlerTypes.Nodup
  first : handlerTypes ≠ [] → ∃ M ∈ types.lineage messageType,
    entries M ≠ [] ∧ entries M <+: handlerTypes ∧ (entries messageType ≠ [] → M = messageType)

/-- Every list of the dictionary is that of its key, and what is discarded has no handler. -/
structure Closed (types : Types Ty) (entries : Ty → List (HandlerTypeInfo Ty))
    (provider : HandlerProvider Ty) : Prop where
  key : ∀ key, entries key ≠ [] → provider.handlerTypes key ≠ none
  resolves : ∀ key handlerTypes, provider.handlerTypes key = some handlerTypes →
    handlerTypes ≠ [] ∧ Resolves types entries key handlerTypes
  discard : ∀ key, provider.discardKeyTypes key = true → ∀ M ∈ types.lineage key, entries M = []

/-! ### The merges -/

/-- In the course of the merges: the lists begin with what is registered and hold nothing but
entries for the superclasses besides. -/
structure Merging (types : Types Ty) (entries : Ty → List (HandlerTypeInfo Ty))
    (provider : HandlerProvider Ty) : Prop where
  key : ∀ key, provider.handlerTypes key ≠ none ↔ entries key ≠ []
  entries_prefix : ∀ key, entries key <+: provider.listed key
  mem : ∀ key, ∀ i ∈ provider.listed key, ∃ M ∈ types.lineage key, i ∈ entries M
  nodup : ∀ key, (provider.listed key).Nodup
  discard : ∀ key, provider.discardKeyTypes key = false

theorem merging_registerAll (types : Types Ty) (registrations : List (Ty × Ty)) :
    Merging types (own types registrations) (registerAll types registrations) where
  key := handlerTypes_registerAll_ne_none types registrations
  entries_prefix _ := List.prefix_rfl
  mem key _ hi := ⟨key, Types.mem_lineage.2 (.inl rfl), hi⟩
  nodup := nodup_own types registrations
  discard := (registered_registerAll types registrations).discard

/-- Where one of the types is no key, nothing happens. -/
theorem inherit_cases (provider : HandlerProvider Ty) (messageType type : Ty) :
    (provider.handlerTypes type = none ∨ provider.handlerTypes messageType = none) ∧
        provider.inherit messageType type = provider ∨
      provider.handlerTypes type ≠ none ∧ provider.handlerTypes messageType ≠ none ∧
        provider.inherit messageType type =
          { provider with
            handlerTypes := Function.update provider.handlerTypes type
              (some (union (provider.listed type) (provider.listed messageType))) } := by
  unfold inherit listed
  cases provider.handlerTypes type with
  | none => exact .inl ⟨.inl rfl, rfl⟩
  | some own =>
    cases provider.handlerTypes messageType with
    | none => exact .inl ⟨.inr rfl, rfl⟩
    | some inherited => exact .inr (by simp)

theorem listed_update (provider : HandlerProvider Ty) (key key' : Ty)
    (handlerTypes : List (HandlerTypeInfo Ty)) :
    ({ provider with
      handlerTypes := Function.update provider.handlerTypes key (some handlerTypes) }).listed key' =
      if key' = key then handlerTypes else provider.listed key' := by
  by_cases hkey : key' = key
  · subst hkey
    simp [listed]
  · simp [listed, hkey]

variable {entries : Ty → List (HandlerTypeInfo Ty)} {type : Ty}

theorem Merging.inherit (h : Merging types entries provider)
    (hsub : types.IsSubclassOf type messageType) :
    Merging types entries (provider.inherit messageType type) := by
  rcases inherit_cases provider messageType type with ⟨-, heq⟩ | ⟨htype, -, heq⟩
  · rw [heq]
    exact h
  · rw [heq]
    refine ⟨?_, ?_, ?_, ?_, h.discard⟩
    · intro key
      by_cases hkey : key = type
      · subst hkey
        simpa using (h.key key).1 htype
      · simpa [hkey] using h.key key
    · intro key
      rw [listed_update]
      split
      · next hkey =>
        subst hkey
        exact (h.entries_prefix key).trans (prefix_union (h.nodup key) _)
      · exact h.entries_prefix key
    · intro key i hi
      rw [listed_update] at hi
      split at hi
      · next hkey =>
        subst hkey
        rcases mem_union.1 hi with hi | hi
        · exact h.mem key i hi
        · obtain ⟨M, hM, hiM⟩ := h.mem messageType i hi
          exact ⟨M, hsub.mem_lineage hM, hiM⟩
      · exact h.mem key i hi
    · intro key
      rw [listed_update]
      split
      · exact nodup_union _ _
      · exact h.nodup key

theorem mem_listed_inherit {key : Ty} {i : HandlerTypeInfo Ty} (hi : i ∈ provider.listed key) :
    i ∈ (provider.inherit messageType type).listed key := by
  rcases inherit_cases provider messageType type with ⟨-, heq⟩ | ⟨-, -, heq⟩
  · rw [heq]
    exact hi
  · rw [heq, listed_update]
    split
    · next hkey => exact mem_union.2 (.inl (hkey ▸ hi))
    · exact hi

theorem Merging.mem_listed_inherit_of_mem (h : Merging types entries provider)
    (htype : entries type ≠ []) {i : HandlerTypeInfo Ty} (hi : i ∈ entries messageType) :
    i ∈ (provider.inherit messageType type).listed type := by
  have hkeys : provider.handlerTypes type ≠ none ∧ provider.handlerTypes messageType ≠ none :=
    ⟨(h.key type).2 htype, (h.key messageType).2 (List.ne_nil_of_mem hi)⟩
  rcases inherit_cases provider messageType type with ⟨hnone, -⟩ | ⟨-, -, heq⟩
  · exact absurd hnone (by simp [hkeys.1, hkeys.2])
  · rw [heq, listed_update, if_pos rfl]
    exact mem_union.2 (.inr ((h.entries_prefix messageType).subset hi))

/-- The merges, as pairs of a class and a subclass. -/
def inheritAll (provider : HandlerProvider Ty) (pairs : List (Ty × Ty)) : HandlerProvider Ty :=
  pairs.foldl (fun provider pair => provider.inherit pair.1 pair.2) provider

theorem registerInheritedMessageHandlers_eq (types : Types Ty) (provider : HandlerProvider Ty)
    (outer : List Ty) (inner : Ty → List Ty) :
    provider.registerInheritedMessageHandlers types outer inner =
      provider.inheritAll (outer.flatMap fun messageType =>
        ((inner messageType).filter fun type => types.IsSubclassOf type messageType).map
          fun type => (messageType, type)) := by
  simp only [registerInheritedMessageHandlers, inheritAll, List.foldl_flatMap, List.foldl_map]

theorem Merging.inheritAll {pairs : List (Ty × Ty)} (h : Merging types entries provider)
    (hpairs : ∀ pair ∈ pairs, types.IsSubclassOf pair.2 pair.1) :
    Merging types entries (provider.inheritAll pairs) := by
  induction pairs generalizing provider with
  | nil => exact h
  | cons pair pairs ih =>
    obtain ⟨hpair, hpairs⟩ := List.forall_mem_cons.1 hpairs
    exact ih (h.inherit hpair) hpairs

theorem mem_listed_inheritAll {key : Ty} {i : HandlerTypeInfo Ty} (pairs : List (Ty × Ty))
    (hi : i ∈ provider.listed key) : i ∈ (provider.inheritAll pairs).listed key := by
  induction pairs generalizing provider with
  | nil => exact hi
  | cons pair pairs ih => exact ih (mem_listed_inherit hi)

/-- After the merges every list has the entries of the superclasses it was merged with. -/
theorem Merging.mem_listed_inheritAll_of_mem {pairs : List (Ty × Ty)}
    (h : Merging types entries provider)
    (hpairs : ∀ pair ∈ pairs, types.IsSubclassOf pair.2 pair.1)
    (hpair : (messageType, type) ∈ pairs) (htype : entries type ≠ []) {i : HandlerTypeInfo Ty}
    (hi : i ∈ entries messageType) : i ∈ (provider.inheritAll pairs).listed type := by
  induction pairs generalizing provider with
  | nil => cases hpair
  | cons pair pairs ih =>
    obtain ⟨hsub, hpairs⟩ := List.forall_mem_cons.1 hpairs
    rcases List.mem_cons.1 hpair with rfl | hpair
    · exact mem_listed_inheritAll pairs (h.mem_listed_inherit_of_mem htype hi)
    · exact ih (h.inherit hsub) hpairs hpair

theorem mem_pairs {outer : List Ty} {inner : Ty → List Ty} {pair : Ty × Ty} :
    pair ∈ (outer.flatMap fun messageType =>
      ((inner messageType).filter fun type => types.IsSubclassOf type messageType).map
        fun type => (messageType, type)) ↔
      pair.1 ∈ outer ∧ pair.2 ∈ inner pair.1 ∧ types.IsSubclassOf pair.2 pair.1 := by
  obtain ⟨messageType, type⟩ := pair
  simp

theorem Merging.registerInheritedMessageHandlers (h : Merging types entries provider)
    (outer : List Ty) (inner : Ty → List Ty) :
    Merging types entries
      (provider.registerInheritedMessageHandlers types outer inner) := by
  rw [registerInheritedMessageHandlers_eq]
  exact h.inheritAll fun pair hpair => (mem_pairs.1 hpair).2.2

/-- Whatever the orders are, the merges close the lists. -/
theorem Merging.closed {outer : List Ty} {inner : Ty → List Ty}
    (h : Merging types entries provider) (houter : provider.Enumerates outer)
    (hinner : ∀ messageType, provider.Enumerates (inner messageType)) :
    Closed types entries (provider.registerInheritedMessageHandlers types outer inner) := by
  have hmerged := h.registerInheritedMessageHandlers outer inner
  -- a registered superclass is merged into every registered subclass
  have hall : ∀ messageType type, types.IsSubclassOf type messageType → entries type ≠ [] →
      ∀ i ∈ entries messageType,
        i ∈ (provider.registerInheritedMessageHandlers types outer inner).listed type := by
    intro messageType type hsub htype i hi
    have houter' := (houter.2 messageType).2 ((h.key messageType).2 (List.ne_nil_of_mem hi))
    have hinner' := ((hinner messageType).2 type).2 ((h.key type).2 htype)
    rw [registerInheritedMessageHandlers_eq]
    exact h.mem_listed_inheritAll_of_mem (fun pair hpair => (mem_pairs.1 hpair).2.2)
      (mem_pairs.2 ⟨houter', hinner', hsub⟩) htype hi
  refine ⟨fun key => (hmerged.key key).2, ?_, ?_⟩
  · intro key handlerTypes hlist
    have hown : entries key ≠ [] := (hmerged.key key).1 (by simp [hlist])
    have hprefix := hmerged.entries_prefix key
    have hnodup := hmerged.nodup key
    have hmemlist := hmerged.mem key
    rw [listed_of_eq hlist] at hprefix hnodup hmemlist
    refine ⟨?_, ?_, hnodup, ?_⟩
    · rintro rfl
      exact hown (List.prefix_nil.1 hprefix)
    · intro i
      refine ⟨hmemlist i, ?_⟩
      rintro ⟨M, hM, hi⟩
      rcases Types.mem_lineage.1 hM with rfl | hM
      · exact hprefix.subset hi
      · rw [← listed_of_eq hlist]
        exact hall M key hM hown i hi
    · intro _
      exact ⟨key, Types.mem_lineage.2 (.inl rfl), hown, hprefix, fun _ => rfl⟩
  · intro key hdiscard
    rw [hmerged.discard key] at hdiscard
    cases hdiscard

end HandlerProvider

end IFramework.Handlers
