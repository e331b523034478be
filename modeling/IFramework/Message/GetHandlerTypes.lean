import IFramework.Message.HandlerProvider

/-!
# The handlers of a message type

A query keeps every list closed, whatever the dictionary looks like and however it is enumerated. So
the handlers of a type are those of the type and its superclasses (`mem_getHandlerTypes_iff`).

An entry is an object of its own for each registration, and `Union` compares objects: a class that
is registered for two types of one lineage is found twice (`nodup_getHandlerTypes_iff`). A query for
a type without handlers of its own puts those of its superclasses behind one another as the
dictionary is enumerated, so that the first one is a matter of chance unless the superclasses agree
about it (`dispatches_iff`).
-/

namespace IFramework.Handlers

open ListUnion

namespace HandlerProvider

variable {Ty : Type} [DecidableEq Ty] {types : Types Ty} {registrations : List (Ty × Ty)}
  {provider : HandlerProvider Ty} {entries : Ty → List (HandlerTypeInfo Ty)} {order : List Ty}
  {messageType handlerType : Ty}

/-! ## Queries -/

/-- The lists that a query merges. -/
def inherited (types : Types Ty) (provider : HandlerProvider Ty) (order : List Ty)
    (messageType : Ty) : List (List (HandlerTypeInfo Ty)) :=
  order.filterMap fun key =>
    if types.IsSubclassOf messageType key then
      (provider.handlerTypes key).filter fun handlerTypes => handlerTypes.length > 0
    else none

theorem avaliableHandlerTypes_eq (types : Types Ty) (provider : HandlerProvider Ty)
    (order : List Ty) (messageType : Ty) :
    provider.avaliableHandlerTypes types order messageType =
      unionAll (provider.inherited types order messageType) := by
  rw [avaliableHandlerTypes, unionAll, inherited, List.foldl_filterMap]
  congr 1
  funext avaliable key
  by_cases hsub : types.IsSubclassOf messageType key
  · rw [if_pos hsub, if_pos hsub]
    cases provider.handlerTypes key with
    | none => rfl
    | some handlerTypes =>
      by_cases hlength : handlerTypes.length > 0 <;> simp [Option.filter, hlength]
  · rw [if_neg hsub, if_neg hsub]

theorem Closed.mem_inherited (h : Closed types entries provider)
    (horder : provider.Enumerates order) {handlerTypes : List (HandlerTypeInfo Ty)} :
    handlerTypes ∈ provider.inherited types order messageType ↔
      ∃ key, types.IsSubclassOf messageType key ∧
        provider.handlerTypes key = some handlerTypes := by
  rw [inherited, List.mem_filterMap]
  constructor
  · rintro ⟨key, -, hkey⟩
    split at hkey
    · next hsub => exact ⟨key, hsub, (Option.filter_eq_some_iff.1 hkey).1⟩
    · cases hkey
  · rintro ⟨key, hsub, hkey⟩
    refine ⟨key, (horder.2 key).2 (by simp [hkey]), ?_⟩
    have hne := (h.resolves key handlerTypes hkey).1
    rw [if_pos hsub, hkey, Option.filter_some_pos (by simpa [List.length_pos_iff] using hne)]

/-- The lists of the superclasses that are keys make the list of a type that is none. -/
theorem Closed.resolves_unionAll (h : Closed types entries provider)
    (horder : provider.Enumerates order) (hnone : provider.handlerTypes messageType = none) :
    Resolves types entries messageType
      (unionAll (provider.inherited types order messageType)) := by
  have hown : entries messageType = [] := by
    by_contra hne
    exact h.key messageType hne hnone
  refine ⟨?_, nodup_unionAll _, ?_⟩
  · intro i
    rw [mem_unionAll]
    constructor
    · rintro ⟨handlerTypes, hmem, hi⟩
      obtain ⟨key, hsub, hkey⟩ := (h.mem_inherited horder).1 hmem
      obtain ⟨M, hM, hiM⟩ := ((h.resolves key handlerTypes hkey).2.mem i).1 hi
      exact ⟨M, hsub.mem_lineage hM, hiM⟩
    · rintro ⟨M, hM, hiM⟩
      rcases Types.mem_lineage.1 hM with rfl | hsub
      · rw [hown] at hiM
        cases hiM
      · obtain ⟨handlerTypes, hkey⟩ :=
          Option.ne_none_iff_exists'.1 (h.key M (List.ne_nil_of_mem hiM))
        exact ⟨handlerTypes, (h.mem_inherited horder).2 ⟨M, hsub, hkey⟩,
          ((h.resolves M handlerTypes hkey).2.mem i).2 ⟨M, Types.mem_lineage.2 (.inl rfl), hiM⟩⟩
  · intro hne
    cases hlists : provider.inherited types order messageType with
    | nil =>
      rw [hlists] at hne
      exact absurd rfl hne
    | cons first rest =>
      obtain ⟨key, hsub, hkey⟩ := (h.mem_inherited horder).1 (hlists ▸ List.mem_cons_self)
      obtain ⟨hfirst, hresolves⟩ := h.resolves key first hkey
      obtain ⟨M, hM, hneM, hprefix, -⟩ := hresolves.first hfirst
      exact ⟨M, hsub.mem_lineage hM, hneM,
        hprefix.trans (prefix_unionAll hresolves.nodup rest), fun hne' => absurd hown hne'⟩

/-- A type for which nothing resolves can be discarded. -/
theorem Closed.discardKeyType (h : Closed types entries provider) {messageType : Ty}
    (hresolves : Resolves types entries messageType []) :
    Closed types entries { provider with
      discardKeyTypes := Function.update provider.discardKeyTypes messageType true } where
  key := h.key
  resolves := h.resolves
  discard := by
    intro key hkey M hM
    by_cases heq : key = messageType
    · subst heq
      refine List.eq_nil_iff_forall_not_mem.2 fun i hi => ?_
      exact List.not_mem_nil ((hresolves.mem i).2 ⟨M, hM, hi⟩)
    · exact h.discard key (by simpa [heq] using hkey) M hM

theorem Closed.keep (h : Closed types entries provider) {messageType : Ty}
    {handlerTypes : List (HandlerTypeInfo Ty)} (hne : handlerTypes ≠ [])
    (hresolves : Resolves types entries messageType handlerTypes) :
    Closed types entries { provider with
      handlerTypes := Function.update provider.handlerTypes messageType (some handlerTypes) } where
  key := by
    intro key hkey
    by_cases heq : key = messageType
    · subst heq
      simp
    · simpa [heq] using h.key key hkey
  resolves := by
    intro key handlerTypes' hkey
    by_cases heq : key = messageType
    · subst heq
      obtain rfl : handlerTypes = handlerTypes' := by simpa using hkey
      exact ⟨hne, hresolves⟩
    · exact h.resolves key handlerTypes' (by simpa [heq] using hkey)
  discard := h.discard

omit [DecidableEq Ty] in
theorem Closed.resolves_nil (h : Closed types entries provider) {messageType : Ty}
    (hdiscard : provider.discardKeyTypes messageType = true) :
    Resolves types entries messageType [] := by
  refine ⟨?_, List.nodup_nil, fun hne => absurd rfl hne⟩
  intro i
  refine iff_of_false List.not_mem_nil ?_
  rintro ⟨M, hM, hi⟩
  rw [h.discard messageType hdiscard M hM] at hi
  cases hi

theorem Closed.getHandlerTypes (h : Closed types entries provider)
    (horder : provider.Enumerates order) (messageType : Ty) :
    Resolves types entries messageType (provider.getHandlerTypes types order messageType).1 ∧
      Closed types entries (provider.getHandlerTypes types order messageType).2 := by
  unfold HandlerProvider.getHandlerTypes
  cases hlist : provider.handlerTypes messageType with
  | some handlerTypes =>
    obtain ⟨hne, hresolves⟩ := h.resolves messageType handlerTypes hlist
    have hlength : handlerTypes.length > 0 := List.length_pos_iff.2 hne
    refine ⟨?_, h⟩
    simpa only [if_pos hlength] using hresolves
  | none =>
    cases hdiscard : provider.discardKeyTypes messageType with
    | true => exact ⟨h.resolves_nil hdiscard, h⟩
    | false =>
      have hresolves := h.resolves_unionAll horder hlist
      rw [← avaliableHandlerTypes_eq] at hresolves
      generalize provider.avaliableHandlerTypes types order messageType = avaliable at *
      simp only [Bool.false_eq_true, if_false]
      by_cases hnil : avaliable = []
      · subst hnil
        exact ⟨hresolves, h.discardKeyType hresolves⟩
      · have hlength : avaliable.length ≠ 0 := by simpa using hnil
        rw [if_neg hlength]
        exact ⟨hresolves, h.keep hnil hresolves⟩

/-- Every provider is closed, whatever was asked of it. -/
theorem Queried.closed (h : Queried types registrations provider) :
    Closed types (own types registrations) provider := by
  induction h with
  | initialised houter hinner =>
    exact (merging_registerAll types registrations).closed houter hinner
  | query _ horder messageType ih => exact (ih.getHandlerTypes horder messageType).2

theorem Queried.resolves (h : Queried types registrations provider)
    (horder : provider.Enumerates order) (messageType : Ty) :
    Resolves types (own types registrations) messageType
      (provider.getHandlerTypes types order messageType).1 :=
  (h.closed.getHandlerTypes horder messageType).1

/-! ## A sample -/

/-- The types of a sample application: three events, each derived from the one before it, and two
handlers. -/
inductive SampleType where
  | orderEvent
  | orderChanged
  | orderPaid
  | billing
  | shipping
  deriving DecidableEq, Repr

open SampleType

/-- `Billing` handles every `OrderEvent`, and both handle an `OrderChanged`. -/
def sampleTypes : Types SampleType where
  superclasses
    | orderChanged => [orderEvent]
    | orderPaid => [orderChanged, orderEvent]
    | _ => []
  superclasses_of_cons := by
    intro t s rest h
    cases t <;> cases h <;> rfl
  getMethods
    | billing => [⟨[orderEvent], true⟩, ⟨[orderChanged], false⟩]
    | shipping => [⟨[orderChanged], true⟩]
    | _ => []

/-- Each of the first two events has a handler. -/
def sampleRegistrations : List (SampleType × SampleType) :=
  [(orderEvent, billing), (orderChanged, shipping)]

/-- One handler for both of them. -/
def repeatedRegistrations : List (SampleType × SampleType) :=
  [(orderEvent, billing), (orderChanged, billing)]

/-- The provider after the merges. -/
def sampleProvider (registrations : List (SampleType × SampleType)) : HandlerProvider SampleType :=
  (registerAll sampleTypes registrations).registerInheritedMessageHandlers sampleTypes
    [orderEvent, orderChanged] fun _ => [orderEvent, orderChanged]

theorem sampleProvider_queried :
    Queried sampleTypes sampleRegistrations (sampleProvider sampleRegistrations) ∧
      (sampleProvider sampleRegistrations).Enumerates [orderEvent, orderChanged] := by
  refine ⟨.initialised ⟨by decide, ?_⟩ fun _ => ⟨by decide, ?_⟩, by decide, ?_⟩ <;>
    intro key <;> cases key <;> decide

theorem repeatedProvider_queried :
    Queried sampleTypes repeatedRegistrations (sampleProvider repeatedRegistrations) ∧
      (sampleProvider repeatedRegistrations).Enumerates [orderEvent, orderChanged] := by
  refine ⟨.initialised ⟨by decide, ?_⟩ fun _ => ⟨by decide, ?_⟩, by decide, ?_⟩ <;>
    intro key <;> cases key <;> decide

/-! ## The set of the handlers -/

/-- For all registrations, every hierarchy, any orders of enumeration and any earlier queries: the
handler types of a message type are those registered for it or for one of its superclasses. -/
theorem mem_getHandlerTypes_iff (h : Queried types registrations provider)
    (horder : provider.Enumerates order) (messageType handlerType : Ty) :
    handlerType ∈ (provider.getHandlerTypes types order messageType).1.map HandlerTypeInfo.type ↔
      ∃ M, (M = messageType ∨ types.IsSubclassOf messageType M) ∧
        (M, handlerType) ∈ registrations := by
  have hresolves := h.resolves horder messageType
  rw [List.mem_map]
  constructor
  · rintro ⟨i, hi, htype⟩
    obtain ⟨M, hM, hiM⟩ := (hresolves.mem i).1 hi
    exact ⟨M, Types.mem_lineage.1 hM, (exists_own_iff types).1 ⟨i, hiM, htype⟩⟩
  · rintro ⟨M, hM, hreg⟩
    obtain ⟨i, hiM, htype⟩ := (exists_own_iff types).2 hreg
    exact ⟨i, (hresolves.mem i).2 ⟨M, Types.mem_lineage.2 hM, hiM⟩, htype⟩

theorem mem_getHandlerTypes_orderPaid :
    billing ∈ ((sampleProvider sampleRegistrations).getHandlerTypes sampleTypes
        [orderEvent, orderChanged] orderPaid).1.map HandlerTypeInfo.type ↔
      ∃ M, (M = orderPaid ∨ sampleTypes.IsSubclassOf orderPaid M) ∧
        (M, billing) ∈ sampleRegistrations :=
  mem_getHandlerTypes_iff sampleProvider_queried.1 sampleProvider_queried.2 orderPaid billing

/-! ## Handlers that are found twice -/

/-- A class that is registered for one type has one entry for it. -/
theorem own_inj {i j : HandlerTypeInfo Ty} (hi : i ∈ own types registrations messageType)
    (hj : j ∈ own types registrations messageType) (htype : i.type = j.type) : i = j := by
  have hnodup : ((own types registrations messageType).map HandlerTypeInfo.type).Nodup := by
    rw [(registered_registerAll types registrations).map_type]
    exact nodup_eraseDups _
  exact List.inj_on_of_nodup_map hnodup hi hj htype

/-- No class is found twice exactly when none is registered for two types of the lineage. -/
theorem nodup_getHandlerTypes_iff (h : Queried types registrations provider)
    (horder : provider.Enumerates order) (messageType : Ty) :
    ((provider.getHandlerTypes types order messageType).1.map HandlerTypeInfo.type).Nodup ↔
      ∀ handlerType M M', M ∈ types.lineage messageType → M' ∈ types.lineage messageType →
        (M, handlerType) ∈ registrations → (M', handlerType) ∈ registrations → M = M' := by
  have hresolves := h.resolves horder messageType
  rw [List.nodup_map_iff_inj_on hresolves.nodup]
  constructor
  · intro hinj handlerType M M' hM hM' hreg hreg'
    obtain ⟨i, hi, rfl⟩ := (exists_own_iff types).2 hreg
    obtain ⟨j, hj, htype⟩ := (exists_own_iff types).2 hreg'
    have heq := hinj i ((hresolves.mem i).2 ⟨M, hM, hi⟩) j ((hresolves.mem j).2 ⟨M', hM', hj⟩)
      htype.symm
    exact (registered_registerAll types registrations).key_unique M M' i hi (heq ▸ hj)
  · intro hone i hi j hj htype
    obtain ⟨M, hM, hiM⟩ := (hresolves.mem i).1 hi
    obtain ⟨M', hM', hjM'⟩ := (hresolves.mem j).1 hj
    obtain rfl := hone i.type M M' hM hM' ((exists_own_iff types).1 ⟨i, hiM, rfl⟩)
      ((exists_own_iff types).1 ⟨j, hjM', htype.symm⟩)
    exact own_inj hiM hjM' htype

theorem nodup_getHandlerTypes_orderPaid :
    (((sampleProvider sampleRegistrations).getHandlerTypes sampleTypes
        [orderEvent, orderChanged] orderPaid).1.map HandlerTypeInfo.type).Nodup ↔
      ∀ handlerType M M', M ∈ sampleTypes.lineage orderPaid → M' ∈ sampleTypes.lineage orderPaid →
        (M, handlerType) ∈ sampleRegistrations → (M', handlerType) ∈ sampleRegistrations → M = M' :=
  nodup_getHandlerTypes_iff sampleProvider_queried.1 sampleProvider_queried.2 orderPaid

/-- A handler of an event and of the event it is derived from runs twice. -/
theorem not_nodup_getHandlerTypes_orderChanged :
    Queried sampleTypes repeatedRegistrations (sampleProvider repeatedRegistrations) ∧
      (sampleProvider repeatedRegistrations).Enumerates [orderEvent, orderChanged] ∧
      ¬(((sampleProvider repeatedRegistrations).getHandlerTypes sampleTypes
        [orderEvent, orderChanged] orderChanged).1.map HandlerTypeInfo.type).Nodup :=
  ⟨repeatedProvider_queried.1, repeatedProvider_queried.2, by decide⟩

/-! ## The handler that runs -/

omit [DecidableEq Ty] in
/-- What is read of an entry to run it. -/
def handlerOf (info : HandlerTypeInfo Ty) : Ty × Bool := (info.type, info.isAsync)

/-- The first handler that is registered for a message type. -/
def firstHandler (types : Types Ty) (registrations : List (Ty × Ty)) (messageType : Ty) :
    Option (Ty × Bool) :=
  (registrations.find? fun r => r.1 = messageType).map fun r =>
    (r.2, types.isAsync messageType r.2)

/-- The most derived class among the type and its superclasses that has a registration. -/
def mostDerived (types : Types Ty) (registrations : List (Ty × Ty)) (messageType : Ty) :
    Option Ty :=
  (types.lineage messageType).find? fun M => registrations.any fun r => r.1 = M

/-- `GetHandlerTypes(messageType).FirstOrDefault()` is this handler, whatever was asked before and
however the dictionary is enumerated. -/
def Dispatches (types : Types Ty) (registrations : List (Ty × Ty)) (messageType : Ty)
    (handler : Ty × Bool) : Prop :=
  ∀ provider order, Queried types registrations provider → provider.Enumerates order →
    (provider.getHandlerTypes types order messageType).1.head?.map handlerOf = some handler

theorem map_head?_own (types : Types Ty) (registrations : List (Ty × Ty)) (messageType : Ty) :
    (own types registrations messageType).head?.map handlerOf =
      firstHandler types registrations messageType := by
  have hregistered := registered_registerAll types registrations
  have hhead : ((own types registrations messageType).head?).map HandlerTypeInfo.type =
      (registrations.find? fun r => r.1 = messageType).map Prod.snd := by
    rw [← List.head?_map, hregistered.map_type, head?_eraseDups, handlersFor, List.head?_map,
      List.head?_filter]
  cases hown : (own types registrations messageType).head? with
  | none =>
    rw [hown, Option.map_none, eq_comm, Option.map_eq_none_iff] at hhead
    rw [firstHandler, hhead, Option.map_none, Option.map_none]
  | some i =>
    rw [hown, Option.map_some, eq_comm, Option.map_eq_some_iff] at hhead
    obtain ⟨r, hfind, htype⟩ := hhead
    have hasync := hregistered.isAsync messageType i (List.mem_of_head? hown)
    rw [firstHandler, hfind, Option.map_some, Option.map_some, htype, handlerOf, hasync]

theorem own_ne_nil_iff (types : Types Ty) :
    own types registrations messageType ≠ [] ↔
      ∃ handlerType, (messageType, handlerType) ∈ registrations := by
  constructor
  · intro hne
    obtain ⟨i, hi⟩ := List.exists_mem_of_ne_nil _ hne
    exact ⟨i.type, (exists_own_iff types).1 ⟨i, hi, rfl⟩⟩
  · rintro ⟨handlerType, hreg⟩
    obtain ⟨i, hi, -⟩ := (exists_own_iff types).2 hreg
    exact List.ne_nil_of_mem hi

theorem mostDerived_spec {M : Ty} (h : mostDerived types registrations messageType = some M) :
    M ∈ types.lineage messageType ∧ own types registrations M ≠ [] ∧
      (own types registrations messageType ≠ [] → M = messageType) := by
  have hany : ∀ M,
      (registrations.any fun r => r.1 = M) = true ↔ own types registrations M ≠ [] := by
    intro M
    rw [own_ne_nil_iff types]
    simp
  refine ⟨List.mem_of_find?_eq_some h, (hany M).1 (by simpa using List.find?_some h), ?_⟩
  intro hown
  rw [mostDerived, Types.lineage, List.find?_cons, (hany messageType).2 hown] at h
  exact (Option.some.inj h).symm

/-- The first entry is that of a registered class of the lineage, and of the type itself if it is
registered. -/
theorem Queried.head? (h : Queried types registrations provider)
    (horder : provider.Enumerates order) {M : Ty} (hM : M ∈ types.lineage messageType)
    (hown : own types registrations M ≠ []) :
    ∃ M' ∈ types.lineage messageType, own types registrations M' ≠ [] ∧
      (provider.getHandlerTypes types order messageType).1.head?.map handlerOf =
        firstHandler types registrations M' ∧
      (own types registrations messageType ≠ [] → M' = messageType) := by
  have hresolves := h.resolves horder messageType
  obtain ⟨i, hi⟩ := List.exists_mem_of_ne_nil _ hown
  have hne := List.ne_nil_of_mem ((hresolves.mem i).2 ⟨M, hM, hi⟩)
  obtain ⟨M', hM', hown', hprefix, heq⟩ := hresolves.first hne
  refine ⟨M', hM', hown', ?_, heq⟩
  rw [head?_prefix_eq hprefix hown', map_head?_own]

/-- After the merges a superclass that is enumerated first decides. -/
theorem Merging.head?_of_first (h : Merging types (own types registrations) provider) {A : Ty}
    (hA : types.IsSubclassOf messageType A) (hown : own types registrations A ≠ [])
    (hnone : own types registrations messageType = []) (rest : List Ty) :
    (provider.getHandlerTypes types (A :: rest) messageType).1.head?.map handlerOf =
      firstHandler types registrations A := by
  obtain ⟨handlerTypes, hlist⟩ := Option.ne_none_iff_exists'.1 ((h.key A).2 hown)
  have hprefix : own types registrations A <+: handlerTypes :=
    listed_of_eq hlist ▸ h.entries_prefix A
  have hnodup : handlerTypes.Nodup := listed_of_eq hlist ▸ h.nodup A
  have hlength : handlerTypes.length > 0 :=
    Nat.lt_of_lt_of_le (List.length_pos_iff.2 hown) hprefix.length_le
  have hkey : provider.handlerTypes messageType = none := by
    by_contra hne
    exact (h.key messageType).1 hne hnone
  have hinherited : provider.inherited types (A :: rest) messageType =
      handlerTypes :: provider.inherited types rest messageType := by
    rw [inherited, List.filterMap_cons_some]
    · rfl
    · rw [if_pos hA, hlist, Option.filter_some_pos (by simpa using hlength)]
  have hall : own types registrations A <+:
      provider.avaliableHandlerTypes types (A :: rest) messageType := by
    rw [avaliableHandlerTypes_eq, hinherited]
    exact hprefix.trans (prefix_unionAll hnodup _)
  have hlength' : (provider.avaliableHandlerTypes types (A :: rest) messageType).length ≠ 0 :=
    Nat.ne_of_gt (Nat.lt_of_lt_of_le (List.length_pos_iff.2 hown) hall.length_le)
  rw [HandlerProvider.getHandlerTypes, hkey]
  simp only [h.discard messageType, Bool.false_eq_true, if_false, if_neg hlength']
  rw [head?_prefix_eq hall hown, map_head?_own]

/-- The merges can be followed at once by a query that meets a given superclass first. -/
theorem exists_queried_first {A : Ty} (hA : types.IsSubclassOf messageType A)
    (hown : own types registrations A ≠ [])
    (hnone : own types registrations messageType = []) :
    ∃ provider order, Queried types registrations provider ∧ provider.Enumerates order ∧
      (provider.getHandlerTypes types order messageType).1.head?.map handlerOf =
        firstHandler types registrations A := by
  let rest := (registrations.map Prod.fst).eraseDups.erase A
  have henumerates : ∀ provider, Merging types (own types registrations) provider →
      provider.Enumerates (A :: rest) := by
    intro provider h
    have hnodup := nodup_eraseDups (registrations.map Prod.fst)
    refine ⟨List.nodup_cons.2 ⟨hnodup.not_mem_erase, hnodup.erase A⟩, ?_⟩
    intro key
    rw [h.key, own_ne_nil_iff types]
    by_cases hkey : key = A
    · subst hkey
      exact iff_of_true List.mem_cons_self ((own_ne_nil_iff types).1 hown)
    · simp [rest, hkey, List.mem_erase_of_ne hkey]
  have hmerging := merging_registerAll types registrations
  have hmerged := hmerging.registerInheritedMessageHandlers (A :: rest) fun _ => A :: rest
  exact ⟨_, A :: rest,
    .initialised (henumerates _ hmerging) (fun _ => henumerates _ hmerging),
    henumerates _ hmerged, hmerged.head?_of_first hA hown hnone rest⟩

/-- The handler that runs is one registered for the most derived class, the same one whatever the
orders and the earlier queries are, exactly when the type is registered itself or the first handlers
of all its registered superclasses are the same. -/
theorem dispatches_iff {M : Ty} (hM : mostDerived types registrations messageType = some M) :
    (∃ handlerType, (M, handlerType) ∈ registrations ∧
      Dispatches types registrations messageType (handlerType, types.isAsync M handlerType)) ↔
      (∃ handlerType, (messageType, handlerType) ∈ registrations) ∨
        ∀ A, types.IsSubclassOf messageType A →
          (∃ handlerType, (A, handlerType) ∈ registrations) →
            firstHandler types registrations A = firstHandler types registrations M := by
  obtain ⟨hlineage, hown, hself⟩ := mostDerived_spec hM
  obtain ⟨r, hfind⟩ : ∃ r, registrations.find? (fun r => r.1 = M) = some r := by
    rw [← Option.isSome_iff_exists, List.find?_isSome]
    obtain ⟨handlerType, hreg⟩ := (own_ne_nil_iff types).1 hown
    exact ⟨_, hreg, by simp⟩
  have hfirst : firstHandler types registrations M = some (r.2, types.isAsync M r.2) := by
    rw [firstHandler, hfind, Option.map_some]
  have hreg : (M, r.2) ∈ registrations := by
    have hr : r.1 = M := by simpa using List.find?_some hfind
    exact hr ▸ List.mem_of_find?_eq_some hfind
  constructor
  · rintro ⟨handlerType, -, hdispatches⟩
    by_cases hregistered : own types registrations messageType = []
    · refine .inr fun A hA hA' => ?_
      have hone : ∀ A, types.IsSubclassOf messageType A → own types registrations A ≠ [] →
          firstHandler types registrations A = some (handlerType, types.isAsync M handlerType) := by
        intro A hA hownA
        obtain ⟨provider, order, hqueried, horder, hhead⟩ :=
          exists_queried_first hA hownA hregistered
        rw [← hhead]
        exact hdispatches provider order hqueried horder
      have hsub : types.IsSubclassOf messageType M := by
        refine (Types.mem_lineage.1 hlineage).resolve_left ?_
        rintro rfl
        exact hown hregistered
      rw [hone A hA ((own_ne_nil_iff types).2 hA'), hone M hsub hown]
    · exact .inl ((own_ne_nil_iff types).1 hregistered)
  · intro hcond
    refine ⟨r.2, hreg, ?_⟩
    intro provider order hqueried horder
    obtain ⟨M', hM', hown', hhead, hself'⟩ := hqueried.head? horder hlineage hown
    rw [hhead, ← hfirst]
    rcases hcond with hregistered | hagree
    · have hne := (own_ne_nil_iff types).2 hregistered
      rw [hself hne, hself' hne]
    · rcases Types.mem_lineage.1 hM' with rfl | hsub
      · rw [hself hown']
      · exact hagree M' hsub ((own_ne_nil_iff types).1 hown')

theorem dispatches_orderPaid_iff :
    (∃ handlerType, (orderChanged, handlerType) ∈ sampleRegistrations ∧
      Dispatches sampleTypes sampleRegistrations orderPaid
        (handlerType, sampleTypes.isAsync orderChanged handlerType)) ↔
      (∃ handlerType, (orderPaid, handlerType) ∈ sampleRegistrations) ∨
        ∀ A, sampleTypes.IsSubclassOf orderPaid A →
          (∃ handlerType, (A, handlerType) ∈ sampleRegistrations) →
            firstHandler sampleTypes sampleRegistrations A =
              firstHandler sampleTypes sampleRegistrations orderChanged :=
  dispatches_iff (by decide)

/-- When the dictionary is enumerated from the base class, its handler runs, although there is one
for the class between. -/
theorem not_dispatches_orderPaid :
    mostDerived sampleTypes sampleRegistrations orderPaid = some orderChanged ∧
      ¬∃ handlerType, (orderChanged, handlerType) ∈ sampleRegistrations ∧
        Dispatches sampleTypes sampleRegistrations orderPaid
          (handlerType, sampleTypes.isAsync orderChanged handlerType) := by
  refine ⟨by decide, ?_⟩
  rintro ⟨handlerType, hreg, hdispatches⟩
  have hhead := hdispatches _ _ sampleProvider_queried.1 sampleProvider_queried.2
  obtain rfl : handlerType = shipping := by simpa [sampleRegistrations] using hreg
  have hbilling : ((sampleProvider sampleRegistrations).getHandlerTypes sampleTypes
      [orderEvent, orderChanged] orderPaid).1.head?.map handlerOf = some (billing, true) := by
    decide
  rw [hbilling] at hhead
  cases hhead

end HandlerProvider

end IFramework.Handlers
