import IFramework.Base

/-!
# Handled events in the Redis event store

`EventStore.HandleEvent` keeps what a subscriber produced for an event in the field `eventId` of the
hash `subscriber`. One Lua script stores the field unless it is there and returns the stored text
otherwise, so the first call decides what every later call returns. The text is a JSON record of
JSON texts: two arrays of payloads and two payloads, each of them a message code and again a JSON
text. A null result is written as the payload `new ObjectPayload()`, without a code and a text.

The JSON library and the types of the runtime are parameters; `Json.RoundTrips` says what is assumed
of them. Hashes have their own keys: no other operation of the store writes into them.
-/

namespace IFramework.HandledEvents

/-! ## Message types -/

/-- What the store uses of the types and objects of the runtime: `getType` is `Type.GetType`, and
`isCommand`, `isEvent` are the tests of the casts `as ICommand` and `as IEvent`. -/
structure Runtime (Ty O : Type) where
  typeOf : O → Ty
  getFullNameWithAssembly : Ty → String
  getType : String → Option Ty
  isCommand : O → Bool
  isEvent : O → Bool

/-- The dictionaries of a `MessageTypeProvider`. -/
structure MessageTypeProvider (Ty : Type) where
  codeTypeMapping : String → Option Ty
  typeCodeMapping : Ty → Option String

/-- The exceptions of `HandleEvent`. -/
inductive HandleEventException where
  | argumentNull
  | nullReference
  deriving DecidableEq, Repr

namespace MessageTypeProvider

variable {Ty O : Type}

/-- No type is registered. -/
def empty : MessageTypeProvider Ty := ⟨fun _ => none, fun _ => none⟩

/-- `Register`. A later registration of the code or of the type replaces the earlier one. -/
def register [DecidableEq Ty] (provider : MessageTypeProvider Ty) (code : String)
    (messageType : Ty) : MessageTypeProvider Ty where
  codeTypeMapping := Function.update provider.codeTypeMapping code (some messageType)
  typeCodeMapping := Function.update provider.typeCodeMapping messageType (some code)

/-- `GetMessageCode`. -/
def getMessageCode (provider : MessageTypeProvider Ty) (messageType : Ty) : Option String :=
  provider.typeCodeMapping messageType

/-- `GetMessageType`. A dictionary refuses to look up a null key. -/
def getMessageType (provider : MessageTypeProvider Ty) (rt : Runtime Ty O) :
    Option String → Except HandleEventException (Option Ty)
  | none => .error .argumentNull
  | some code => .ok ((provider.codeTypeMapping code).or (rt.getType code))

/-- The type is registered under a code that was not given to another type since. -/
def Registered (provider : MessageTypeProvider Ty) (messageType : Ty) : Prop :=
  ∃ code, provider.typeCodeMapping messageType = some code ∧
    provider.codeTypeMapping code = some messageType

/-- The type is found again from the code that is written for it: the code it is registered under,
or its full name. -/
def Resolvable (provider : MessageTypeProvider Ty) (rt : Runtime Ty O) (messageType : Ty) : Prop :=
  provider.getMessageType rt ((provider.getMessageCode messageType).or
    (some (rt.getFullNameWithAssembly messageType))) = .ok (some messageType)

theorem Registered.resolvable {provider : MessageTypeProvider Ty} {messageType : Ty}
    (h : provider.Registered messageType) (rt : Runtime Ty O) :
    provider.Resolvable rt messageType := by
  obtain ⟨code, htype, hcode⟩ := h
  simp [Resolvable, getMessageCode, htype, getMessageType, hcode]

theorem registered_register [DecidableEq Ty] (provider : MessageTypeProvider Ty) (code : String)
    (messageType : Ty) : (provider.register code messageType).Registered messageType :=
  ⟨code, by simp [register], by simp [register]⟩

/-- A registration of another type under a code that no other type has keeps what is registered. -/
theorem Registered.register [DecidableEq Ty] {provider : MessageTypeProvider Ty} {t t' : Ty}
    {code : String} (h : provider.Registered t) (hne : t' ≠ t)
    (hcode : provider.typeCodeMapping t ≠ some code) :
    (provider.register code t').Registered t := by
  obtain ⟨c, htype, hc⟩ := h
  have hcc : c ≠ code := by
    rintro rfl
    exact hcode htype
  refine ⟨c, ?_, ?_⟩
  · simpa [MessageTypeProvider.register, Function.update_of_ne hne.symm] using htype
  · simpa [MessageTypeProvider.register, Function.update_of_ne hcc] using hc

end MessageTypeProvider

/-! ## Payloads -/

/-- An `ObjectPayload`; `payload` is a JSON text. -/
structure ObjectPayload (T : Type) where
  code : Option String
  payload : Option T
  deriving DecidableEq, Repr

/-- The `HandledEventMessages` of the store; the fields are JSON texts. -/
structure HandledEventMessages (T : Type) where
  commands : Option T
  events : Option T
  sagaResult : Option T
  eventResult : Option T
  deriving DecidableEq, Repr

/-- The JSON library: `of…` writes a text, `to…` reads one, `none` where nothing can be read. -/
structure Json (T Ty O : Type) where
  isNullOrWhiteSpace : T → Bool
  ofObject : O → T
  toObject : T → Ty → Option O
  ofPayload : ObjectPayload T → T
  toPayload : T → Option (ObjectPayload T)
  ofPayloads : List (ObjectPayload T) → T
  toPayloads : T → Option (List (ObjectPayload T))
  ofMessages : HandledEventMessages T → T
  toMessages : T → Option (HandledEventMessages T)

section Json

variable {T Ty O : Type}

/-- What is written is not blank and can be read back. An object is read back at its type; a null
field is left out of the text and is null again when the text is read. -/
structure Json.RoundTrips (json : Json T Ty O) (rt : Runtime Ty O) : Prop where
  object_not_blank : ∀ o, json.isNullOrWhiteSpace (json.ofObject o) = false
  object : ∀ o, json.toObject (json.ofObject o) (rt.typeOf o) = some o
  payload_not_blank : ∀ p, json.isNullOrWhiteSpace (json.ofPayload p) = false
  payload : ∀ p, json.toPayload (json.ofPayload p) = some p
  payloads_not_blank : ∀ ps, json.isNullOrWhiteSpace (json.ofPayloads ps) = false
  payloads : ∀ ps, json.toPayloads (json.ofPayloads ps) = some ps
  messages_not_blank : ∀ m, json.isNullOrWhiteSpace (json.ofMessages m) = false
  messages : ∀ m, json.toMessages (json.ofMessages m) = some m

/-- `ToJsonObject`: null for a null or blank text, and where the text cannot be read. -/
def Json.toJsonObject {α : Type} (json : Json T Ty O) (read : T → Option α) :
    Option T → Option α
  | none => none
  | some text => if json.isNullOrWhiteSpace text then none else read text

variable (json : Json T Ty O) (rt : Runtime Ty O) (provider : MessageTypeProvider Ty)

/-- `new ObjectPayload(obj, GetMessageCode(obj.GetType()))`. -/
def ObjectPayload.ofObject (o : O) : ObjectPayload T where
  code :=
    (provider.getMessageCode (rt.typeOf o)).or (some (rt.getFullNameWithAssembly (rt.typeOf o)))
  payload := some (json.ofObject o)

/-- The payload of a result: `new ObjectPayload()` for null. -/
def ObjectPayload.ofResult : Option O → ObjectPayload T
  | some o => .ofObject json rt provider o
  | none => ⟨none, none⟩

/-- `ep.Payload.ToJsonObject(GetMessageType(ep.Code), true)`: the type is looked up before the text
is read. Without a type nothing is read. -/
def ObjectPayload.toObject (ep : ObjectPayload T) : Except HandleEventException (Option O) :=
  (provider.getMessageType rt ep.code).map fun messageType =>
    json.toJsonObject (fun text => messageType.bind (json.toObject text)) ep.payload

/-- Read an array of payloads and cast each object, to null where the cast fails. `Select` refuses
a null array. -/
def readPayloads (cast : O → Bool) (text : Option T) :
    Except HandleEventException (List (Option O)) :=
  match json.toJsonObject json.toPayloads text with
  | none => .error .argumentNull
  | some payloads =>
    payloads.mapM fun ep => (ep.toObject json rt provider).map fun o => o.filter cast

variable {json} {rt} {provider}

/-- An object of a resolvable type is read back from its payload. -/
theorem ObjectPayload.toObject_ofObject (hjson : json.RoundTrips rt) {o : O}
    (h : provider.Resolvable rt (rt.typeOf o)) :
    (ObjectPayload.ofObject json rt provider o).toObject json rt provider = .ok (some o) := by
  have hlookup : provider.getMessageType rt (ObjectPayload.ofObject json rt provider o).code =
      .ok (some (rt.typeOf o)) := h
  rw [ObjectPayload.toObject, hlookup]
  simp [Except.map, ObjectPayload.ofObject, Json.toJsonObject, hjson.object_not_blank, hjson.object]

/-- An array of objects of resolvable types is read back from its text. -/
theorem readPayloads_ofPayloads (hjson : json.RoundTrips rt) {cast : O → Bool}
    (os : List {o : O // cast o = true}) (h : ∀ o ∈ os, provider.Resolvable rt (rt.typeOf o)) :
    readPayloads json rt provider cast
      (some (json.ofPayloads (os.map fun o => .ofObject json rt provider o.1))) =
      .ok (os.map fun o => some o.1) := by
  have hread : ∀ o ∈ os,
      ((ObjectPayload.ofObject json rt provider o.1).toObject json rt provider).map
        (fun o => o.filter cast) = .ok (some o.1) := by
    intro o ho
    rw [ObjectPayload.toObject_ofObject hjson (h o ho)]
    simp [Except.map, Option.filter, o.2]
  simp only [readPayloads, Json.toJsonObject, hjson.payloads_not_blank, hjson.payloads,
    Bool.false_eq_true, if_false, List.mapM_map]
  exact mapM_eq_ok hread

end Json

/-! ## The store -/

/-- The hashes of Redis: the text of each field of each key. -/
abbrev Hashes (T : Type) := String → String → Option T

/-- What a script returns; a bulk string can be null. -/
inductive RedisResult (T : Type) where
  | integer (value : Int)
  | bulkString (text : Option T)

section Script

variable {T : Type}

/-- `HSETNX key field value`. -/
def hsetnx (db : Hashes T) (key field : String) (value : T) : Int × Hashes T :=
  match db key field with
  | none => (1, Function.update db key (Function.update (db key) field (some value)))
  | some _ => (0, db)

/-- `HGET key field`. -/
def hget (db : Hashes T) (key field : String) : Option T := db key field

/-- The script of `HandleEvent`. -/
def handleEventLuaScript (db : Hashes T) (subscriber eventId : String) (messages : T) :
    RedisResult T × Hashes T :=
  let result := hsetnx db subscriber eventId messages
  if result.1 = 1 then (.integer 1, result.2)
  else (.bulkString (hget result.2 subscriber eventId), result.2)

theorem handleEventLuaScript_of_none {db : Hashes T} {subscriber eventId : String}
    (h : db subscriber eventId = none) (messages : T) :
    handleEventLuaScript db subscriber eventId messages =
      (.integer 1, Function.update db subscriber
        (Function.update (db subscriber) eventId (some messages))) := by
  simp [handleEventLuaScript, hsetnx, h]

theorem handleEventLuaScript_of_some {db : Hashes T} {subscriber eventId : String} {text : T}
    (h : db subscriber eventId = some text) (messages : T) :
    handleEventLuaScript db subscriber eventId messages = (.bulkString (some text), db) := by
  simp [handleEventLuaScript, hsetnx, hget, h]

theorem handleEventLuaScript_keeps {db : Hashes T} {key field : String} {text : T}
    (h : db key field = some text) (subscriber eventId : String) (messages : T) :
    (handleEventLuaScript db subscriber eventId messages).2 key field = some text := by
  cases hfield : db subscriber eventId with
  | some stored => rwa [handleEventLuaScript_of_some hfield]
  | none =>
    rw [handleEventLuaScript_of_none hfield]
    by_cases hkey : key = subscriber
    · subst hkey
      have hne : field ≠ eventId := by
        rintro rfl
        simp [h] at hfield
      simpa [Function.update_of_ne hne] using h
    · simpa [Function.update_of_ne hkey] using h

end Script

/-- What `HandleEvent` returns. The entries are null where a cast failed. -/
structure Handled (O : Type) where
  commands : List (Option O)
  events : List (Option O)
  sagaResult : Option O
  deriving DecidableEq, Repr

/-- The arguments of `HandleEvent`. -/
structure Arguments {Ty O : Type} (rt : Runtime Ty O) where
  subscriber : String
  eventId : String
  commands : List {o : O // rt.isCommand o = true}
  events : List {o : O // rt.isEvent o = true}
  sagaResult : Option O
  eventResult : Option O

section HandleEvent

variable {T Ty O : Type} {rt : Runtime Ty O}

/-- The commands, events and saga result that the call was given. -/
def Arguments.handled (args : Arguments rt) : Handled O where
  commands := args.commands.map fun c => some c.1
  events := args.events.map fun e => some e.1
  sagaResult := args.sagaResult

/-- The types of the messages of the call are registered, or found by their full names. -/
structure Arguments.Resolvable (args : Arguments rt) (provider : MessageTypeProvider Ty) :
    Prop where
  commands : ∀ c ∈ args.commands, provider.Resolvable rt (rt.typeOf c)
  events : ∀ e ∈ args.events, provider.Resolvable rt (rt.typeOf e)
  sagaResult : ∀ o ∈ args.sagaResult, provider.Resolvable rt (rt.typeOf o)

variable (json : Json T Ty O) (provider : MessageTypeProvider Ty)

/-- The record that the call wants to store. -/
def Arguments.messages (args : Arguments rt) : HandledEventMessages T where
  commands := some (json.ofPayloads (args.commands.map fun c => .ofObject json rt provider c.1))
  events := some (json.ofPayloads (args.events.map fun e => .ofObject json rt provider e.1))
  sagaResult := some (json.ofPayload (.ofResult json rt provider args.sagaResult))
  eventResult := some (json.ofPayload (.ofResult json rt provider args.eventResult))

variable (rt) in
/-- Read a stored record. The fields of a null record cannot be read. -/
def readMessages (text : Option T) : Except HandleEventException (Handled O) :=
  match json.toJsonObject json.toMessages text with
  | none => .error .nullReference
  | some messages => do
    let commands ← readPayloads json rt provider rt.isCommand messages.commands
    let events ← readPayloads json rt provider rt.isEvent messages.events
    match json.toJsonObject json.toPayload messages.sagaResult with
    | none => .error .nullReference
    | some sagaResultPayload =>
      let sagaResult ← sagaResultPayload.toObject json rt provider
      return ⟨commands, events, sagaResult⟩

/-- `EventStore.HandleEvent`: what it returns, and the hashes after the script. -/
def handleEvent (db : Hashes T) (args : Arguments rt) :
    Except HandleEventException (Handled O) × Hashes T :=
  let redisResult := handleEventLuaScript db args.subscriber args.eventId
    (json.ofMessages (args.messages json provider))
  match redisResult.1 with
  | .integer _ => (.ok args.handled, redisResult.2)
  | .bulkString text => (readMessages rt json provider text, redisResult.2)

/-- The hashes after the calls. -/
def handleEvents (db : Hashes T) (calls : List (Arguments rt)) : Hashes T :=
  calls.foldl (fun db args => (handleEvent json provider db args).2) db

variable {json} {provider}

/-! ## One call -/

/-- The first call returns what it was given and stores it. -/
theorem handleEvent_of_none {db : Hashes T} {args : Arguments rt}
    (h : db args.subscriber args.eventId = none) :
    (handleEvent json provider db args).1 = .ok args.handled ∧
      (handleEvent json provider db args).2 args.subscriber args.eventId =
        some (json.ofMessages (args.messages json provider)) := by
  simp [handleEvent, handleEventLuaScript_of_none h]

/-- A call that finds the field set returns what the stored record says. -/
theorem handleEvent_of_some {db : Hashes T} {args : Arguments rt} {text : T}
    (h : db args.subscriber args.eventId = some text) :
    (handleEvent json provider db args).1 = readMessages rt json provider (some text) := by
  simp [handleEvent, handleEventLuaScript_of_some h]

/-- A call keeps every field that is set, whatever it returns. -/
theorem handleEvent_keeps {db : Hashes T} {key field : String} {text : T}
    (h : db key field = some text) (args : Arguments rt) :
    (handleEvent json provider db args).2 key field = some text := by
  have hscript := handleEventLuaScript_keeps h args.subscriber args.eventId
    (json.ofMessages (args.messages json provider))
  simp only [handleEvent]
  split <;> exact hscript

theorem handleEvents_keeps (calls : List (Arguments rt)) {db : Hashes T} {key field : String}
    {text : T} (h : db key field = some text) :
    handleEvents json provider db calls key field = some text := by
  induction calls generalizing db with
  | nil => exact h
  | cons args calls ih => exact ih (handleEvent_keeps h args)

/-! ## The stored record -/

/-- Reading the record of a call gives the messages of the call, with what its saga result is read
as. -/
theorem readMessages_messages (hjson : json.RoundTrips rt) {args : Arguments rt}
    (h : args.Resolvable provider) :
    readMessages rt json provider (some (json.ofMessages (args.messages json provider))) =
      ((ObjectPayload.ofResult json rt provider args.sagaResult).toObject json rt provider).map
        fun sagaResult => { args.handled with sagaResult := sagaResult } := by
  have hcommands := readPayloads_ofPayloads hjson args.commands h.commands
  have hevents := readPayloads_ofPayloads hjson args.events h.events
  simp only [readMessages, Json.toJsonObject, hjson.messages_not_blank, hjson.messages,
    hjson.payload_not_blank, hjson.payload, Arguments.messages, Bool.false_eq_true, if_false,
    hcommands, hevents, bind, Except.bind, pure, Except.pure]
  rfl

/-- The payload of null cannot be read: it has no code, and the lookup of its type throws. -/
theorem toObject_ofResult_none :
    (ObjectPayload.ofResult json rt provider none).toObject json rt provider =
      .error .argumentNull := rfl

/-- Whether a later call succeeds depends on the saga result of the first one only. -/
theorem readMessages_messages_eq (hjson : json.RoundTrips rt) {args : Arguments rt}
    (h : args.Resolvable provider) :
    readMessages rt json provider (some (json.ofMessages (args.messages json provider))) =
      if args.sagaResult = none then .error .argumentNull else .ok args.handled := by
  rw [readMessages_messages hjson h]
  cases hsaga : args.sagaResult with
  | none =>
    rw [toObject_ofResult_none]
    rfl
  | some o =>
    have hread := ObjectPayload.toObject_ofObject hjson (h.sagaResult o hsaga)
    rw [ObjectPayload.ofResult, hread]
    simp [Except.map, Arguments.handled, hsaga]

/-! ## Later calls -/

/-- After a first call on a field that was free, whatever was called in between, a later call for
the same subscriber and event returns the commands, the events and the saga result of the first one
exactly when that saga result is not null. -/
theorem handleEvent_returns_first_iff (hjson : json.RoundTrips rt) {db : Hashes T}
    (first : Arguments rt) (hfree : db first.subscriber first.eventId = none)
    (hresolvable : first.Resolvable provider) (calls : List (Arguments rt)) (later : Arguments rt)
    (hsubscriber : later.subscriber = first.subscriber) (heventId : later.eventId = first.eventId) :
    (handleEvent json provider
      (handleEvents json provider (handleEvent json provider db first).2 calls) later).1 =
        .ok first.handled ↔ first.sagaResult ≠ none := by
  have hstored : handleEvents json provider (handleEvent json provider db first).2 calls
      first.subscriber first.eventId = some (json.ofMessages (first.messages json provider)) :=
    handleEvents_keeps calls (handleEvent_of_none hfree).2
  rw [← hsubscriber, ← heventId] at hstored
  rw [handleEvent_of_some hstored, readMessages_messages_eq hjson hresolvable]
  by_cases hnone : first.sagaResult = none <;> simp [hnone]

end HandleEvent

/-! ## A sample runtime -/

section Sample

/-- JSON texts as syntax trees. -/
inductive Text (O : Type) where
  | object (o : O)
  | payload (p : ObjectPayload (Text O))
  | payloads (ps : List (ObjectPayload (Text O)))
  | messages (m : HandledEventMessages (Text O))

/-- A class of a sample application. -/
inductive SampleType where
  | createOrder
  | orderPlaced
  | orderResult
  deriving DecidableEq, Repr

/-- An object of a sample application: its class and its one property. -/
structure Sample where
  type : SampleType
  value : String
  deriving DecidableEq, Repr

/-- The runtime of the sample application; its classes cannot be found by their codes. -/
def sampleRuntime : Runtime SampleType Sample where
  typeOf := Sample.type
  getFullNameWithAssembly
    | .createOrder => "Sample.CreateOrder, Sample"
    | .orderPlaced => "Sample.OrderPlaced, Sample"
    | .orderResult => "Sample.OrderResult, Sample"
  getType
    | "Sample.CreateOrder, Sample" => some .createOrder
    | "Sample.OrderPlaced, Sample" => some .orderPlaced
    | "Sample.OrderResult, Sample" => some .orderResult
    | _ => none
  isCommand o := o.type == .createOrder
  isEvent o := o.type == .orderPlaced

/-- Texts are read as what they were written from, objects at their own class only. -/
def sampleJson : Json (Text Sample) SampleType Sample where
  isNullOrWhiteSpace _ := false
  ofObject := .object
  toObject
    | .object o, type => if o.type = type then some o else none
    | _, _ => none
  ofPayload := .payload
  toPayload
    | .payload p => some p
    | _ => none
  ofPayloads := .payloads
  toPayloads
    | .payloads ps => some ps
    | _ => none
  ofMessages := .messages
  toMessages
    | .messages m => some m
    | _ => none

theorem sampleJson_roundTrips : sampleJson.RoundTrips sampleRuntime where
  object_not_blank _ := rfl
  object o := by simp [sampleJson, sampleRuntime]
  payload_not_blank _ := rfl
  payload _ := rfl
  payloads_not_blank _ := rfl
  payloads _ := rfl
  messages_not_blank _ := rfl
  messages _ := rfl

/-- The provider of the sample application. -/
def sampleProvider : MessageTypeProvider SampleType :=
  ((MessageTypeProvider.empty.register "CreateOrder" .createOrder).register "OrderPlaced"
    .orderPlaced).register "OrderResult" .orderResult

open MessageTypeProvider in
theorem sampleProvider_registered (t : SampleType) : sampleProvider.Registered t := by
  cases t with
  | createOrder =>
    exact ((registered_register _ _ _).register (by decide) (by decide)).register (by decide)
      (by decide)
  | orderPlaced => exact (registered_register _ _ _).register (by decide) (by decide)
  | orderResult => exact registered_register _ _ _

/-- A call of a subscriber that sends one command, with the given saga result. -/
def sampleArguments (sagaResult : Option Sample) : Arguments sampleRuntime where
  subscriber := "OrderSubscriber"
  eventId := "e1"
  commands := [⟨⟨.createOrder, "o1"⟩, rfl⟩]
  events := []
  sagaResult := sagaResult
  eventResult := none

theorem sampleArguments_resolvable (sagaResult : Option Sample) :
    (sampleArguments sagaResult).Resolvable sampleProvider where
  commands _ _ := (sampleProvider_registered _).resolvable _
  events _ _ := (sampleProvider_registered _).resolvable _
  sagaResult _ _ := (sampleProvider_registered _).resolvable _

/-- A call with a saga result, one for another event, and the first call again with other
arguments. -/
theorem handleEvent_returns_first_of_sagaResult :
    let first := sampleArguments (some ⟨.orderResult, "done"⟩)
    (handleEvent sampleJson sampleProvider
      (handleEvents sampleJson sampleProvider
        (handleEvent sampleJson sampleProvider (fun _ _ => none) first).2
        [{ sampleArguments none with eventId := "e2" }])
      (sampleArguments none)).1 = .ok first.handled :=
  (handleEvent_returns_first_iff sampleJson_roundTrips
    (sampleArguments (some ⟨.orderResult, "done"⟩)) rfl (sampleArguments_resolvable _)
    [{ sampleArguments none with eventId := "e2" }] (sampleArguments none) rfl rfl).2 (by decide)

/-- The same call twice, with registered types and without a saga result: the second one throws. -/
theorem handleEvent_throws_after_null_sagaResult :
    (∀ t, sampleProvider.Registered t) ∧
    (handleEvent sampleJson sampleProvider
      (handleEvent sampleJson sampleProvider (fun _ _ => none) (sampleArguments none)).2
      (sampleArguments none)).1 = .error .argumentNull :=
  ⟨sampleProvider_registered, rfl⟩

end Sample

end IFramework.HandledEvents
