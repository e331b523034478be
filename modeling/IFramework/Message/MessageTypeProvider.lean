import IFramework.EventSourcing.HandleEvent
import IFramework.Theory.Accumulate

/-!
# Registrations of message types

`MessageTypeProvider` keeps two dictionaries, and each registration assigns to both: the type to the
code, and the code to the type. A code that is given to a second type is still the code of the first
one, which is then written under a code that stands for another type. `decodes_iff` says after which
registrations every code is read back as the type it is written for.

A null code or name throws before anything is assigned; a null type, which is what `Type.GetType`
makes of a name it does not know, throws when the code has been assigned.
-/

namespace IFramework.HandledEvents

open Accumulate

namespace MessageTypeProvider

variable {Ty O : Type} [DecidableEq Ty]

/-- `Register(code, messageType)`, with its exception. -/
def registerType (provider : MessageTypeProvider Ty) (code : Option String)
    (messageType : Option Ty) : MessageTypeProvider Ty × Option HandleEventException :=
  match code, messageType with
  | none, _ => (provider, some .argumentNull)
  | some code, none =>
    ({ provider with codeTypeMapping := Function.update provider.codeTypeMapping code none },
      some .argumentNull)
  | some code, some messageType => (provider.register code messageType, none)

/-- The loop over a code mapping, which an exception ends. -/
def registerAll (provider : MessageTypeProvider Ty) :
    List (Option String × Option Ty) → MessageTypeProvider Ty × Option HandleEventException
  | [] => (provider, none)
  | (code, messageType) :: codeMapping =>
    match provider.registerType code messageType with
    | (provider, none) => provider.registerAll codeMapping
    | (provider, some e) => (provider, some e)

/-- A call of one of the overloads of `Register`; a dictionary in the order of its enumeration. -/
inductive Registration (Ty : Type) where
  | type (code : Option String) (messageType : Option Ty)
  | name (code : Option String) (messageType : Option String)
  | types (codeMapping : List (String × Option Ty))
  | names (codeMapping : List (String × Option String))

omit [DecidableEq Ty] in
/-- A code and the type of a name. `Type.GetType` throws on a null name, before anything is assigned
as for a null code. -/
def byName (rt : Runtime Ty O) (code : Option String) : Option String → Option String × Option Ty
  | none => (none, none)
  | some messageType => (code, rt.getType messageType)

omit [DecidableEq Ty] in
/-- The codes and types that a call registers one after the other. -/
def Registration.pairs (rt : Runtime Ty O) : Registration Ty → List (Option String × Option Ty)
  | .type code messageType => [(code, messageType)]
  | .name code messageType => [byName rt code messageType]
  | .types codeMapping => codeMapping.map fun m => (some m.1, m.2)
  | .names codeMapping => codeMapping.map fun m => byName rt (some m.1) m.2

/-- The provider after these calls. -/
def after (rt : Runtime Ty O) (calls : List (Registration Ty)) : MessageTypeProvider Ty :=
  calls.foldl (fun provider call => (provider.registerAll (call.pairs rt)).1) empty

/-! ## The history -/

omit [DecidableEq Ty] in
/-- The assignments to the code mapping that are reached. -/
def reached : List (Option String × Option Ty) → List (String × Option Ty)
  | [] => []
  | (none, _) :: _ => []
  | (some code, none) :: _ => [(code, none)]
  | (some code, some messageType) :: pairs => (code, some messageType) :: reached pairs

omit [DecidableEq Ty] in
/-- The assignments to the code mapping by these calls. -/
def history (rt : Runtime Ty O) (calls : List (Registration Ty)) : List (String × Option Ty) :=
  calls.flatMap fun call => reached (call.pairs rt)

omit [DecidableEq Ty] in
/-- Since a type was registered for the last time, its code was not assigned, or it was assigned a
null type at last and `Type.GetType` finds the type under the code. -/
def KeepsCodes (rt : Runtime Ty O) (ws : List (String × Option Ty)) : Prop :=
  ∀ pre code messageType post, ws = pre ++ (code, some messageType) :: post →
    (∀ w ∈ post, w.2 ≠ some messageType) →
      (∀ w ∈ post, w.1 ≠ code) ∨
        rt.getType code = some messageType ∧
          ∃ pre' post', post = pre' ++ (code, none) :: post' ∧ ∀ w ∈ post', w.1 ≠ code

/-! ## The dictionaries -/

omit [DecidableEq Ty] in
/-- The dictionaries are these tables; a null type is a key of the second one that is never read. -/
def Holds (provider : MessageTypeProvider Ty) (types : String → Option Ty)
    (codes : Option Ty → Option String) : Prop :=
  provider.codeTypeMapping = types ∧ ∀ t, provider.typeCodeMapping t = codes (some t)

/-- The types and the codes of a list of assignments. -/
abbrev assigned (codes : Option Ty → Option String) (ws : List (String × Option Ty)) :
    Option Ty → Option String :=
  assignAll codes (ws.map fun w => (w.2, some w.1))

theorem Holds.register {provider : MessageTypeProvider Ty} {types : String → Option Ty}
    {codes : Option Ty → Option String} (h : provider.Holds types codes) (code : String)
    (messageType : Ty) :
    (provider.register code messageType).Holds (Function.update types code (some messageType))
      (Function.update codes (some messageType) (some code)) := by
  refine ⟨by simp [MessageTypeProvider.register, h.1], ?_⟩
  intro t
  by_cases ht : t = messageType
  · subst ht
    simp [MessageTypeProvider.register]
  · simp [MessageTypeProvider.register, ht, h.2 t]

theorem Holds.registerAll {provider : MessageTypeProvider Ty} {types : String → Option Ty}
    {codes : Option Ty → Option String} (h : provider.Holds types codes)
    (pairs : List (Option String × Option Ty)) :
    (provider.registerAll pairs).1.Holds (assignAll types (reached pairs))
      (assigned codes (reached pairs)) := by
  induction pairs generalizing provider types codes with
  | nil => exact h
  | cons pair pairs ih =>
    obtain ⟨code, messageType⟩ := pair
    cases code with
    | none => exact h
    | some code =>
      cases messageType with
      | none =>
        refine ⟨by simp [MessageTypeProvider.registerAll, registerType, reached, h.1], ?_⟩
        intro t
        simp [MessageTypeProvider.registerAll, registerType, reached, assigned, assignAll, h.2 t]
      | some messageType => exact ih (h.register code messageType)

theorem holds_after (rt : Runtime Ty O) (calls : List (Registration Ty)) :
    (after rt calls).Holds (assignAll (fun _ => none) (history rt calls))
      (assigned (fun _ => none) (history rt calls)) := by
  have hfold : ∀ (calls : List (Registration Ty)) {provider : MessageTypeProvider Ty} {types codes},
      provider.Holds types codes →
        (calls.foldl (fun provider call => (provider.registerAll (call.pairs rt)).1) provider).Holds
          (assignAll types (history rt calls)) (assigned codes (history rt calls)) := by
    intro calls
    induction calls with
    | nil => exact fun h => h
    | cons call calls ih =>
      intro provider types codes h
      rw [history, List.flatMap_cons, assigned, List.map_append, assignAll_append,
        assignAll_append]
      exact ih (h.registerAll (call.pairs rt))
  exact hfold calls ⟨rfl, fun _ => rfl⟩

/-- The code of a type is the one it was registered under for the last time. -/
theorem assigned_eq_some_iff {ws : List (String × Option Ty)} {code : String} {t : Ty} :
    assigned (fun _ => none) ws (some t) = some code ↔
      ∃ pre post, ws = pre ++ (code, some t) :: post ∧ ∀ w ∈ post, w.2 ≠ some t := by
  constructor
  · intro h
    rcases absent_or_last (ws.map fun w => (w.2, some w.1)) (some t) with
      habsent | ⟨pre, v, post, heq, hpost⟩
    · rw [assigned, assignAll_of_absent habsent] at h
      cases h
    · rw [assigned, heq, assignAll_of_last hpost] at h
      subst h
      obtain ⟨pre', rest, rfl, -, hrest⟩ := List.map_eq_append_iff.1 heq
      obtain ⟨w, post', rfl, hw, rfl⟩ := List.map_eq_cons_iff.1 hrest
      obtain ⟨ht, hcode⟩ := Prod.mk.inj hw
      refine ⟨pre', post', ?_, ?_⟩
      · rw [← ht, ← Option.some.inj hcode]
      · intro w' hw'
        exact hpost _ (List.mem_map_of_mem hw')
  · rintro ⟨pre, post, rfl, hpost⟩
    have hpost' : ∀ w ∈ post.map fun w => (w.2, some w.1), w.1 ≠ some t := by
      intro w hw
      obtain ⟨w', hw', rfl⟩ := List.mem_map.1 hw
      exact hpost w' hw'
    rw [assigned, List.map_append, List.map_cons, assignAll_of_last hpost']

/-! ## Codes and types -/

theorem getMessageCode_after {rt : Runtime Ty O} {calls : List (Registration Ty)} {code : String}
    {t : Ty} :
    (after rt calls).getMessageCode t = some code ↔
      ∃ pre post, history rt calls = pre ++ (code, some t) :: post ∧
        ∀ w ∈ post, w.2 ≠ some t := by
  rw [getMessageCode, (holds_after rt calls).2 t]
  exact assigned_eq_some_iff

omit [DecidableEq Ty] in
/-- The type of a code that a type was registered under is that type when the code was not assigned
since, or finds the type by itself. -/
theorem getMessageType_of_last {rt : Runtime Ty O} {provider : MessageTypeProvider Ty}
    {ws pre post : List (String × Option Ty)} {code : String} {t : Ty}
    (h : provider.codeTypeMapping = assignAll (fun _ => none) ws)
    (hws : ws = pre ++ (code, some t) :: post) (hpost : ∀ w ∈ post, w.2 ≠ some t) :
    provider.getMessageType rt (some code) = .ok (some t) ↔
      (∀ w ∈ post, w.1 ≠ code) ∨
        rt.getType code = some t ∧
          ∃ pre' post', post = pre' ++ (code, none) :: post' ∧ ∀ w ∈ post', w.1 ≠ code := by
  rw [getMessageType, h, hws]
  rcases absent_or_last post code with habsent | ⟨pre', v, post', rfl, hpost'⟩
  · rw [assignAll_of_last habsent]
    exact iff_of_true rfl (.inl habsent)
  · have hpresent : ¬∀ w ∈ pre' ++ (code, v) :: post', w.1 ≠ code := fun hall =>
      hall (code, v) (by simp) rfl
    have hsplit : pre ++ (code, some t) :: (pre' ++ (code, v) :: post') =
        (pre ++ (code, some t) :: pre') ++ (code, v) :: post' := by simp
    rw [hsplit, assignAll_of_last hpost', or_iff_right hpresent]
    cases v with
    | some u =>
      have hne : u ≠ t := by
        rintro rfl
        exact hpost (code, some u) (by simp) rfl
      refine iff_of_false (by simpa using hne) ?_
      rintro ⟨-, pre'', post'', heq, hpost''⟩
      -- the code has one last assignment
      have hv : assignAll (fun _ => none) (pre' ++ (code, some u) :: post') code =
          assignAll (fun _ => none) (pre'' ++ (code, none) :: post'') code := by rw [heq]
      rw [assignAll_of_last hpost', assignAll_of_last hpost''] at hv
      cases hv
    | none =>
      simp only [Option.none_or, Except.ok.injEq]
      exact ⟨fun htype => ⟨htype, pre', post', rfl, hpost'⟩, fun hall => hall.1⟩

/-- For every sequence of registrations: every code is read back as the type it is the code of
exactly when no code of a type was assigned after the type was registered under it for the last
time, unless the last assignment was a null type and the code is the name of the type. -/
theorem decodes_iff (rt : Runtime Ty O) (calls : List (Registration Ty)) :
    (∀ t code, (after rt calls).getMessageCode t = some code →
      (after rt calls).getMessageType rt (some code) = .ok (some t)) ↔
      KeepsCodes rt (history rt calls) := by
  have htypes := (holds_after rt calls).1
  constructor
  · intro h pre code t post hws hpost
    exact (getMessageType_of_last htypes hws hpost).1
      (h t code (getMessageCode_after.2 ⟨pre, post, hws, hpost⟩))
  · intro h t code hcode
    obtain ⟨pre, post, hws, hpost⟩ := getMessageCode_after.1 hcode
    exact (getMessageType_of_last htypes hws hpost).2 (h pre code t post hws hpost)

/-- A payload of a type with a code is then read back at its type. -/
theorem resolvable_of_keepsCodes {rt : Runtime Ty O} {calls : List (Registration Ty)} {t : Ty}
    (h : KeepsCodes rt (history rt calls)) (ht : (after rt calls).getMessageCode t ≠ none) :
    (after rt calls).Resolvable rt t := by
  obtain ⟨code, hcode⟩ := Option.ne_none_iff_exists'.1 ht
  rw [Resolvable, hcode, Option.some_or]
  exact (decodes_iff rt calls).2 h t code hcode

end MessageTypeProvider

/-- The second type takes the code of the first one, which keeps it. -/
theorem decodes_reused_code_as_second_type :
    let provider := MessageTypeProvider.after sampleRuntime
      [.type (some "c") (some .createOrder), .type (some "c") (some .orderPlaced)]
    provider.getMessageCode .createOrder = some "c" ∧
      provider.getMessageType sampleRuntime (some "c") = .ok (some .orderPlaced) := by
  exact ⟨rfl, rfl⟩

end IFramework.HandledEvents
