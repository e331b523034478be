import IFramework.EventSourcing.Stream

/-!
# No lost update

`Coherent` relates the stores and the workers to the batches. Whatever a processor has in memory, in
a snapshot or in the entry of a repository is the aggregate after some of the batches, possibly not
the last ones. The version check of the script lets a commit pass only if it is after all of them,
and the lookup of the command only if none of them is from the same command.
-/

namespace IFramework.EventSourcing

variable {S P R T : Type} {type : AggregateType S P} {json : Json T P R}

/-! ## Streams -/

/-- Each batch was raised on the aggregate after the batches before it, and by a command of its
own. -/
structure Sequential (type : AggregateType S P) (bs : List (Batch S P)) : Prop where
  versioned : Versioned bs
  observed : ∀ i b, bs[i]? = some b →
    b.observed = if i = 0 then none else some (afterBatches type (bs.take i))
  commands : (bs.map Batch.commandId).Nodup

theorem Sequential.nil : Sequential (P := P) type [] :=
  ⟨fun i b h => by simp at h, fun i b h => by simp at h, List.nodup_nil⟩

theorem getElem?_concat {bs : List (Batch S P)} {b b' : Batch S P} {i : Nat}
    (h : (bs ++ [b])[i]? = some b') :
    (i < bs.length ∧ bs[i]? = some b') ∨ (i = bs.length ∧ b' = b) := by
  rcases Nat.lt_trichotomy i bs.length with hlt | rfl | hgt
  · rw [List.getElem?_append_left hlt] at h
    exact .inl ⟨hlt, h⟩
  · rw [List.getElem?_concat_length] at h
    exact .inr ⟨rfl, (Option.some.inj h).symm⟩
  · rw [List.getElem?_eq_none (by simp; omega)] at h
    cases h

theorem Sequential.concat {bs : List (Batch S P)} {b : Batch S P} (h : Sequential type bs)
    (hne : b.events ≠ []) (hversion : ∀ e ∈ b.events, e.version = bs.length + 1)
    (hobserved : b.observed = if bs.length = 0 then none else some (afterBatches type bs))
    (hcommand : b.commandId ∉ bs.map Batch.commandId) : Sequential type (bs ++ [b]) := by
  refine ⟨?_, ?_, ?_⟩
  · intro i b' hi
    rcases getElem?_concat hi with ⟨-, hi⟩ | ⟨rfl, rfl⟩
    · exact h.versioned i b' hi
    · exact ⟨hne, hversion⟩
  · intro i b' hi
    rcases getElem?_concat hi with ⟨hlt, hi⟩ | ⟨rfl, rfl⟩
    · rw [h.observed i b' hi, List.take_append_of_le_length hlt.le]
    · rw [hobserved, List.take_left]
  · rw [List.map_append, List.nodup_append]
    refine ⟨h.commands, List.nodup_singleton _, ?_⟩
    intro c hc c' hc' heq
    rw [List.map_singleton, List.mem_singleton] at hc'
    exact hcommand (hc' ▸ heq ▸ hc)

/-- The entry of an aggregate that was added, or that was loaded as one that meets `Q`. Events may
have been raised on it. -/
inductive EntryOf (type : AggregateType S P) (Q : Stored S → Prop) : EntityEntry S P → Prop
  | added (deleted : Bool) (ps : List P) :
    EntryOf type Q ⟨0, (AggregateRoot.createInstance type).raise type ps, deleted, none⟩
  | loaded {a : Stored S} (ha : Q a) (deleted : Bool) (ps : List P) :
    EntryOf type Q ⟨a.version, (AggregateRoot.load a).raise type ps, deleted, some a⟩

namespace EntryOf

variable {Q Q' : Stored S → Prop} {bs : List (Batch S P)} {e : EntityEntry S P}

theorem mono (h : EntryOf type Q e) (hQ : ∀ a, Q a → Q' a) : EntryOf type Q' e := by
  cases h with
  | added deleted ps => exact .added deleted ps
  | loaded ha deleted ps => exact .loaded (hQ _ ha) deleted ps

theorem onEvent (h : EntryOf type Q e) (p : P) :
    EntryOf type Q { e with entity := e.entity.onEvent type p } := by
  cases h with
  | added deleted ps =>
    rw [← AggregateRoot.raise_concat]
    exact .added deleted (ps ++ [p])
  | loaded ha deleted ps =>
    rw [← AggregateRoot.raise_concat]
    exact .loaded ha deleted (ps ++ [p])

theorem remove (h : EntryOf type Q e) : EntryOf type Q { e with deleted := true } := by
  cases h with
  | added deleted ps => exact .added true ps
  | loaded ha deleted ps => exact .loaded ha true ps

/-- The handler of an entry whose version passes the check of the script was given the aggregate
after all batches. -/
theorem current (h : EntryOf type (IsVersionOf type bs) e)
    (hversion : bs = [] ∨ (e.version : Int) = bs.length) :
    e.version = bs.length ∧
      e.origin = (if bs.length = 0 then none else some (afterBatches type bs)) ∧
      ∃ a : AggregateRoot S P, ∃ ps, a.newVersion = 0 ∧ a.eventQueue = [] ∧
        a.store = afterBatches type bs ∧ e.entity = a.raise type ps := by
  cases h with
  | added deleted ps =>
    have hbs : bs = [] := by
      rcases hversion with hbs | hversion
      · exact hbs
      · exact List.length_eq_zero_iff.1 (by simpa using hversion.symm)
    subst hbs
    exact ⟨rfl, rfl, .createInstance type, ps, rfl, rfl, rfl, rfl⟩
  | loaded ha deleted ps =>
    obtain ⟨n, hpos, hle, rfl⟩ := ha
    have hn : n = bs.length := by
      rcases hversion with rfl | hversion
      · simp at hle
        omega
      · have hmin : ((bs.take n).length : Int) = bs.length := hversion
        rw [List.length_take, Nat.min_eq_left hle] at hmin
        omega
    subst hn
    rw [List.take_length]
    exact ⟨rfl, by rw [if_neg (by omega)], .load (afterBatches type bs), ps, rfl, rfl, rfl, rfl⟩

theorem next (h : EntryOf type (IsVersionOf type bs) e)
    (hversion : bs = [] ∨ (e.version : Int) = bs.length)
    (hne : e.entity.eventQueue ≠ []) (hbs : Sequential type bs) {b : Batch S P}
    (hobserved : b.observed = e.origin) (hevents : b.events = e.entity.eventQueue)
    (hcommand : b.commandId ∉ bs.map Batch.commandId) :
    Sequential type (bs ++ [b]) ∧ e.entity.store = afterBatches type (bs ++ [b]) := by
  obtain ⟨-, horigin, a, ps, hnew, hqueue, hstore, hentity⟩ := h.current hversion
  obtain ⟨hq, -, -⟩ := AggregateRoot.raise_spec type hnew hqueue ps
  have haversion : a.version = bs.length := congrArg Stored.version hstore
  have hps : ps ≠ [] := by
    rintro rfl
    exact hne (by rw [hentity, hq, List.map_nil])
  have hb : ∀ ev ∈ b.events, ev.version = bs.length + 1 := by
    intro ev hev
    rw [hevents, hentity, hq, haversion] at hev
    obtain ⟨p, -, rfl⟩ := List.mem_map.1 hev
    rfl
  refine ⟨hbs.concat (hevents ▸ hne) hb (hobserved.trans horigin) hcommand, ?_⟩
  rw [hentity]
  exact AggregateRoot.store_raise hnew hqueue hps hstore (by rw [hevents, hentity])

end EntryOf

/-! ## The invariant -/

/-- What a worker is about to store or to load is a version of its aggregate. -/
def PointOf (type : AggregateType S P) (bs : List (Batch S P)) (scope : Scope S P R) :
    Point S P R → Prop
  | .readEvents snapshot _ => ∀ a, snapshot = some a → IsVersionOf type bs a
  | .setMemory aggregate _ _ => IsVersionOf type bs aggregate
  | .updateSnapshot aggregate _ _ => IsVersionOf type bs aggregate
  | .settle outcome => ∀ a, (settle scope outcome).2.1 = .set a → IsVersionOf type bs a
  | _ => True

/-- A worker and the batches of its aggregate. -/
structure WorkerOf (type : AggregateType S P) (keyOf : String → String)
    (batches : String → List (Batch S P)) (worker : Worker S P R) : Prop where
  entry : ∀ e, worker.scope.entry = some e →
    EntryOf type (IsVersionOf type (batches worker.context.key)) e
  point : PointOf type (batches worker.context.key) worker.scope worker.point
  key : (∀ messages, worker.point ≠ .ended messages) →
    worker.context.key = keyOf worker.context.messageId

theorem WorkerOf.of_context {keyOf : String → String} {batches : String → List (Batch S P)}
    {worker worker' : Worker S P R} (h : WorkerOf type keyOf batches worker)
    (hrunning : ∀ messages, worker.point ≠ .ended messages)
    (hcontext : worker'.context = worker.context)
    (hentry : ∀ e, worker'.scope.entry = some e →
      EntryOf type (IsVersionOf type (batches worker.context.key)) e)
    (hpoint : PointOf type (batches worker.context.key) worker'.scope worker'.point) :
    WorkerOf type keyOf batches worker' := by
  refine ⟨?_, ?_, ?_⟩
  · rwa [hcontext]
  · rwa [hcontext]
  · rw [hcontext]
    exact fun _ => h.key hrunning

/-- The stores and the workers hold versions of the aggregates, and the event store holds all
batches. -/
structure Coherent (type : AggregateType S P) (json : Json T P R) (keyOf : String → String)
    (s : State S P R T) : Prop where
  represents : ∀ id, Represents json s.redis id (s.batches id)
  sequential : ∀ id, Sequential type (s.batches id)
  handled : ∀ id, ∀ b ∈ s.batches id, keyOf b.commandId = id ∧
    ∃ document, s.redis (aggregateCommandKey id b.commandId) = some (.json document)
  memory : ∀ p id a, s.memory p id = some a → IsVersionOf type (s.batches id) a
  snapshots : ∀ id a, s.snapshots id = some a → IsVersionOf type (s.batches id) a
  workers : ∀ w, WorkerOf type keyOf s.batches (s.workers w)

namespace Coherent

variable {keyOf : String → String} {s s' : State S P R T}

theorem init : Coherent type json keyOf (.init : State S P R T) where
  represents := fun id => by simp [Represents, State.init]
  sequential := fun id => .nil
  handled := fun id b hb => by simp [State.init] at hb
  memory := fun p id a h => by simp [State.init] at h
  snapshots := fun id a h => by simp [State.init] at h
  workers := fun w =>
    { entry := fun e he => by simp [State.init, Worker.none, Scope.new] at he
      point := trivial
      key := fun h => absurd rfl (h []) }

theorem setWorker (h : Coherent type json keyOf s) (w : Nat) {worker : Worker S P R}
    (hworker : WorkerOf type keyOf s.batches worker) :
    Coherent type json keyOf (s.setWorker w worker) where
  represents := h.represents
  sequential := h.sequential
  handled := h.handled
  memory := h.memory
  snapshots := h.snapshots
  workers := fun w' => by
    by_cases hw : w' = w
    · subst hw
      simpa using hworker
    · simpa [hw] using h.workers w'

theorem setMemory (h : Coherent type json keyOf s) (p : Nat) (id : String)
    {aggregate : Option (Stored S)}
    (haggregate : ∀ a, aggregate = some a → IsVersionOf type (s.batches id) a) :
    Coherent type json keyOf (s.setMemory p id aggregate) where
  represents := h.represents
  sequential := h.sequential
  handled := h.handled
  memory := fun p' id' a ha => by
    by_cases hp : p' = p
    · subst hp
      by_cases hid : id' = id
      · subst hid
        exact haggregate a (by simpa using ha)
      · exact h.memory p' id' a (by simpa [hid] using ha)
    · exact h.memory p' id' a (by simpa [hp] using ha)
  snapshots := h.snapshots
  workers := h.workers

end Coherent

/-! ## Handlers -/

section Entries

variable {Q : Stored S → Prop} {scope scope' : Scope S P R}

@[simp] theorem entry_handleException (context : CommandContext) (scope : Scope S P R)
    (e : Exn P) : (handleException context scope e).entry = scope.entry := by
  unfold handleException
  split <;> rfl

/-- A call of a handler leaves an entry of its aggregate. -/
theorem entry_perform {c : HandlerCall P R} (h : c.perform type scope = .ok scope')
    (hentry : ∀ e, scope.entry = some e → EntryOf type Q e) :
    ∀ e, scope'.entry = some e → EntryOf type Q e := by
  intro e he
  unfold HandlerCall.perform at h
  split at h
  · cases h
    cases he
    exact .added false []
  · split at h
    · next e' he' =>
      cases h
      cases he
      exact (hentry e' he').onEvent _
    · cases h
  · split at h
    · next e' he' =>
      cases h
      cases he
      exact (hentry e' he').remove
    · cases h
  all_goals
    cases h
    exact hentry e he

theorem entry_settle {outcome : AppendOutcome P R} {e : EntityEntry S P}
    (h : (settle scope outcome).1.entry = some e) : scope.entry = some e := by
  cases outcome with
  | dbConcurrencyException => cases h
  | _ => exact h

end Entries

namespace Coherent

variable {keyOf : String → String} {s s' : State S P R T}

theorem handlerStep (h : Coherent type json keyOf s) {w : Nat} {handler : Handler S P R}
    (hpoint : (s.workers w).point = .handle handler) :
    Coherent type json keyOf (EventSourcing.handlerStep type s w handler) := by
  have hw := h.workers w
  have hrunning : ∀ messages, (s.workers w).point ≠ .ended messages := by simp [hpoint]
  unfold EventSourcing.handlerStep
  split
  · exact h.setWorker w (hw.of_context hrunning rfl hw.entry trivial)
  · exact h.setWorker w (hw.of_context hrunning rfl (by simpa using hw.entry) trivial)
  · split
    · next scope hperform =>
      exact h.setWorker w
        (hw.of_context hrunning rfl (entry_perform hperform hw.entry) trivial)
    · exact h.setWorker w (hw.of_context hrunning rfl (by simpa using hw.entry) trivial)
  · dsimp only
    split
    · exact h.setWorker w (hw.of_context hrunning rfl hw.entry trivial)
    · split
      · next aggregate hmemory =>
        refine h.setWorker w (hw.of_context hrunning rfl ?_ trivial)
        intro e he
        cases he
        exact .loaded (h.memory _ _ _ hmemory) false []
      · exact h.setWorker w (hw.of_context hrunning rfl hw.entry trivial)

theorem loaded (h : Coherent type json keyOf s) {w : Nat} {aggregate : Stored S}
    {next : Option (Stored S) → Handler S P R}
    (hrunning : ∀ messages, (s.workers w).point ≠ .ended messages)
    (haggregate : IsVersionOf type (s.batches (s.workers w).context.key) aggregate) :
    WorkerOf type keyOf s.batches ((s.workers w).loaded aggregate next) := by
  refine (h.workers w).of_context hrunning rfl ?_ trivial
  intro e he
  cases he
  exact .loaded haggregate false []

theorem setSnapshot (h : Coherent type json keyOf s) (id : String) {aggregate : Stored S}
    (haggregate : IsVersionOf type (s.batches id) aggregate) :
    Coherent type json keyOf
      { s with snapshots := Function.update s.snapshots id (some aggregate) } where
  represents := h.represents
  sequential := h.sequential
  handled := h.handled
  memory := h.memory
  snapshots := fun id' a ha => by
    by_cases hid : id' = id
    · subst hid
      cases (by simpa using ha : aggregate = a)
      exact haggregate
    · exact h.snapshots id' a (by simpa [hid] using ha)
  workers := h.workers

/-- The aggregate that `GetByKeyAsync` builds from a snapshot and the events behind it is the
current one. -/
theorem rebuild (h : Coherent type json keyOf s) {id : String}
    {snapshot : Option (Stored S)} {events : List (Event P)} {aggregate : Stored S}
    (hsnapshot : ∀ a, snapshot = some a → IsVersionOf type (s.batches id) a)
    (hevents : getEvents json s.redis id (fromVersion snapshot + 1) none = .ok events)
    (haggregate : EventSourcing.rebuild type snapshot events = some aggregate) :
    IsVersionOf type (s.batches id) aggregate := by
  rw [rebuild_of_represents type (h.sequential id).versioned (h.represents id) hsnapshot hevents]
    at haggregate
  split at haggregate
  · cases haggregate
  · next hne =>
    cases haggregate
    exact .self type hne

end Coherent

/-! ## Commits -/

section Append

variable [DecidableEq T]

/-- `AppendEvents` appends nothing, and at most stores a document under a free key; or it appends
the events as the next batch. -/
theorem appendEvents_cases (json : Json T P R) (db : Redis T) (a : AppendArguments P R) :
    (((appendEvents json db a).2 = .appended → a.expectedVersion < 0) ∧
      ((appendEvents json db a).1 = db ∨
        ∃ document, db (aggregateCommandKey a.id a.correlationId) = none ∧
          (appendEvents json db a).1 = Function.update db
            (aggregateCommandKey a.id a.correlationId) (some (.json document)))) ∨
    (0 ≤ a.expectedVersion ∧ db (aggregateCommandKey a.id a.correlationId) = none ∧
      (zrevrange db (aggregateEventKey a.id) = .ok none ∨
        zrevrange db (aggregateEventKey a.id) = .ok (some a.expectedVersion)) ∧
      ∃ document db', zadd
          (Function.update db (aggregateCommandKey a.id a.correlationId) (some (.json document)))
          (aggregateEventKey a.id) (a.expectedVersion + 1)
          ((getObjectPayloads json a.aggregateRootEvents).getD []) = .ok db' ∧
        appendEvents json db a = (db', .appended)) := by
  have hcase := ScriptCase.of_script db (a.parameters json)
  unfold appendEvents
  generalize appendEventsLuaScript db (a.parameters json) = result at hcase
  cases hcase with
  | handled hcommand => exact .inl ⟨by simp, .inl rfl⟩
  | saved hcommand hexpected => exact .inl ⟨fun _ => hexpected, .inr ⟨_, hcommand, rfl⟩⟩
  | appended hcommand hexpected hversion hadd =>
    refine .inr ⟨hexpected, hcommand, hversion, _, _, hadd, ?_⟩
    have hne : (a.parameters json).expectedVersion + 1 ≠ -2 := by omega
    simp [hne]
  | conflict hcommand hexpected hversion hne =>
    left
    simp only [if_true]
    split <;> exact ⟨by simp, .inl rfl⟩
  | failed => exact .inl ⟨by simp, .inl rfl⟩
  | failedAdd hcommand hexpected => exact .inl ⟨by simp, .inr ⟨_, hcommand, rfl⟩⟩

omit [DecidableEq T] in
theorem changed_of_expectedVersion {scope : Scope S P R} (h : 0 ≤ scope.expectedVersion) :
    ∃ e, scope.changed = some e ∧ scope.entry = some e ∧ e.entity.eventQueue ≠ [] ∧
      scope.expectedVersion = e.version := by
  unfold Scope.expectedVersion at h ⊢
  cases hchanged : scope.changed with
  | none => simp [hchanged] at h
  | some e =>
    have hentry : scope.entry = some e := Option.eq_some_of_filter_eq_some hchanged
    simp only [hchanged] at h
    by_cases hqueue : e.entity.eventQueue = []
    · simp [hqueue] at h
    · exact ⟨e, rfl, hentry, hqueue, by simp [hqueue]⟩

/-- `CommitAsync` writes an aggregate into memory after it has been appended only. -/
theorem settle_set {scope : Scope S P R} {outcome : AppendOutcome P R} {a : Stored S}
    (h : (settle scope outcome).2.1 = .set a) :
    outcome = .appended ∧ 0 ≤ scope.expectedVersion ∧
      ∃ e, scope.changed = some e ∧ a = e.entity.store := by
  cases outcome with
  | appended =>
    simp only [settle] at h
    split at h
    · next e he =>
      split at h
      · next hexpected =>
        cases h
        exact ⟨rfl, hexpected, e, he, rfl⟩
      · cases h
    · cases h
  | dbConcurrencyException =>
    simp only [settle] at h
    split at h <;> cases h
  | _ => cases h

theorem newBatch_eq_nil {context : CommandContext} {scope : Scope S P R}
    {outcome : AppendOutcome P R} (h : outcome = .appended → scope.expectedVersion < 0) :
    newBatch context scope outcome = [] := by
  cases outcome with
  | appended =>
    have hneg : ¬scope.expectedVersion ≥ 0 := Int.not_le.2 (h rfl)
    simp only [newBatch, hneg, if_false]
    split <;> rfl
  | _ => rfl

theorem PointOf.append {bs : List (Batch S P)} {scope : Scope S P R} {point : Point S P R}
    (h : PointOf type bs scope point) (bs' : List (Batch S P)) :
    PointOf type (bs ++ bs') scope point := by
  cases point with
  | readEvents snapshot next => exact fun a ha => (h a ha).append type bs'
  | setMemory a v next => exact IsVersionOf.append type h bs'
  | updateSnapshot a v next => exact IsVersionOf.append type h bs'
  | settle outcome => exact fun a ha => (h a ha).append type bs'
  | _ => trivial

theorem WorkerOf.mono {keyOf : String → String} {batches batches' : String → List (Batch S P)}
    {worker : Worker S P R} (h : WorkerOf type keyOf batches worker)
    (hgrow : ∀ id, ∃ bs', batches' id = batches id ++ bs') :
    WorkerOf type keyOf batches' worker := by
  obtain ⟨bs', hbs'⟩ := hgrow worker.context.key
  refine ⟨?_, ?_, h.key⟩
  · intro e he
    rw [hbs']
    exact (h.entry e he).mono fun a ha => ha.append type bs'
  · rw [hbs']
    exact h.point.append bs'

omit [DecidableEq T] in
theorem Coherent.grow {keyOf : String → String} {s : State S P R T}
    (h : Coherent type json keyOf s) {redis : Redis T} (id : String) (bs : List (Batch S P))
    (hrepresents : Represents json redis id (s.batches id ++ bs))
    (hothers : ∀ id', id' ≠ id → Represents json redis id' (s.batches id'))
    (hsequential : Sequential type (s.batches id ++ bs))
    (hdocuments : ∀ key document, s.redis key = some (.json document) →
      redis key = some (.json document))
    (hhandled : ∀ b ∈ bs, keyOf b.commandId = id ∧
      ∃ document, redis (aggregateCommandKey id b.commandId) = some (.json document)) :
    Coherent type json keyOf
      { s with
        redis := redis
        batches := Function.update s.batches id (s.batches id ++ bs) } := by
  have hgrow : ∀ id', ∃ bs', Function.update s.batches id (s.batches id ++ bs) id' =
      s.batches id' ++ bs' := by
    intro id'
    by_cases hid : id' = id
    · subst hid
      exact ⟨bs, by simp⟩
    · exact ⟨[], by simp [hid]⟩
  have hversion : ∀ {id' a}, IsVersionOf type (s.batches id') a →
      IsVersionOf type (Function.update s.batches id (s.batches id ++ bs) id') a := by
    intro id' a ha
    obtain ⟨bs', hbs'⟩ := hgrow id'
    rw [hbs']
    exact ha.append type bs'
  have hold : ∀ id', ∀ b ∈ s.batches id', keyOf b.commandId = id' ∧
      ∃ document, redis (aggregateCommandKey id' b.commandId) = some (.json document) := by
    intro id' b hb
    obtain ⟨hkey, document, hdocument⟩ := h.handled id' b hb
    exact ⟨hkey, document, hdocuments _ _ hdocument⟩
  refine ⟨?_, ?_, ?_, fun p id' a ha => hversion (h.memory p id' a ha),
    fun id' a ha => hversion (h.snapshots id' a ha), ?_⟩
  · intro id'
    by_cases hid : id' = id
    · subst hid
      simpa using hrepresents
    · simpa [hid] using hothers id' hid
  · intro id'
    by_cases hid : id' = id
    · subst hid
      simpa using hsequential
    · simpa [hid] using h.sequential id'
  · intro id' b hb
    by_cases hid : id' = id
    · subst hid
      rcases List.mem_append.1 (by simpa using hb : b ∈ s.batches id' ++ bs) with hb | hb
      · exact hold id' b hb
      · exact hhandled b hb
    · exact hold id' b (by simpa [hid] using hb)
  · exact fun w => (h.workers w).mono hgrow

/-- A commit appends the next batch of its aggregate, or none. -/
theorem Coherent.append {keyOf : String → String} {s : State S P R T}
    (h : Coherent type json keyOf s) {context : CommandContext} {scope : Scope S P R}
    (hkey : context.key = keyOf context.messageId)
    (hentry : ∀ e, scope.entry = some e →
      EntryOf type (IsVersionOf type (s.batches context.key)) e)
    {redis : Redis T} {outcome : AppendOutcome P R}
    (happend : appendEvents json s.redis (commitArguments context scope) = (redis, outcome)) :
    Coherent type json keyOf
      { s with
        redis := redis
        batches := Function.update s.batches context.key
          (s.batches context.key ++ newBatch context scope outcome) } ∧
      ∀ a, (settle scope outcome).2.1 = .set a →
        IsVersionOf type (s.batches context.key ++ newBatch context scope outcome) a := by
  have hdocuments : ∀ key document, s.redis key = some (.json document) →
      redis key = some (.json document) := by
    intro key document hkey
    have hkept := document_kept json hkey (commitArguments context scope)
    rwa [happend] at hkept
  rcases appendEvents_cases json s.redis (commitArguments context scope) with
    ⟨hnone, hredis⟩ | ⟨hexpected, hcommand, hversion, document, db', hadd, happend'⟩
  · rw [happend] at hnone hredis
    have hrepresents : ∀ id, Represents json redis id (s.batches id) := by
      intro id
      rcases hredis with rfl | ⟨document, hfree, rfl⟩
      · exact h.represents id
      · exact (h.represents id).update hfree
    rw [newBatch_eq_nil hnone, List.append_nil]
    refine ⟨?_, ?_⟩
    · have hgrow := h.grow context.key [] (by simpa using hrepresents context.key)
        (fun id' _ => hrepresents id') (by simpa using h.sequential context.key) hdocuments
        (by simp)
      rwa [List.append_nil] at hgrow
    · intro a ha
      obtain ⟨happended, hexpected, -⟩ := settle_set ha
      have hneg : scope.expectedVersion < 0 := hnone happended
      omega
  · rw [happend] at happend'
    cases happend'
    obtain ⟨e, hchanged, he, hqueue, hexpected'⟩ := changed_of_expectedVersion hexpected
    have hnew : newBatch context scope (.appended : AppendOutcome P R) =
        [⟨context.messageId, e.origin, e.entity.eventQueue⟩] := by
      simp only [newBatch, hchanged]
      exact if_pos hexpected
    rw [hnew]
    have hcurrent : s.batches context.key = [] ∨
        (e.version : Int) = (s.batches context.key).length := by
      rw [← hexpected']
      exact version_of_zrevrange (h.represents context.key) hversion
    have hfresh : context.messageId ∉ (s.batches context.key).map Batch.commandId := by
      intro hmem
      obtain ⟨b, hb, hid⟩ := List.mem_map.1 hmem
      obtain ⟨-, document', hdocument⟩ := h.handled context.key b hb
      rw [hid] at hdocument
      cases hcommand.symm.trans hdocument
    obtain ⟨hsequential, hstore⟩ := (hentry e he).next hcurrent hqueue
      (h.sequential context.key) (b := ⟨context.messageId, e.origin, e.entity.eventQueue⟩)
      rfl rfl hfresh
    have hscore : (commitArguments context scope).expectedVersion =
        (s.batches context.key).length := by
      rw [← ((hentry e he).current hcurrent).1]
      exact hexpected'
    have hmember : (getObjectPayloads json (commitArguments context scope).aggregateRootEvents).getD
        [] = e.entity.eventQueue.map json.ofEvent := by
      simp only [commitArguments, Scope.aggregateEvents, hchanged, Option.map_some]
      cases hevents : e.entity.eventQueue with
      | nil => exact absurd hevents hqueue
      | cons ev evs => rfl
    rw [hscore, hmember] at hadd
    refine ⟨h.grow context.key _ ?_ ?_ hsequential hdocuments ?_, ?_⟩
    · exact ((h.represents context.key).update hcommand).concat hsequential.versioned hadd
    · intro id' hid
      exact ((h.represents id').update hcommand).concat_ne hid hadd
    · intro b hb
      have hdocument := document_of_appended json happend
      rw [List.mem_singleton.1 hb]
      exact ⟨hkey.symm, _, hdocument⟩
    · intro a ha
      obtain ⟨-, -, e', he', rfl⟩ := settle_set ha
      cases hchanged.symm.trans he'
      rw [hstore]
      exact .self type (by simp)

theorem Coherent.commit {keyOf : String → String} {s : State S P R T}
    (h : Coherent type json keyOf s) {w : Nat} (hpoint : (s.workers w).point = .append)
    {redis : Redis T} {outcome : AppendOutcome P R}
    (happend : appendEvents json s.redis
      (commitArguments (s.workers w).context (s.workers w).scope) = (redis, outcome)) :
    Coherent type json keyOf
      ({ s with
        redis := redis
        batches := Function.update s.batches (s.workers w).context.key
          (s.batches (s.workers w).context.key ++
            newBatch (s.workers w).context (s.workers w).scope outcome) }.setWorker w
          { s.workers w with point := .settle outcome }) := by
  have hw := h.workers w
  have hrunning : ∀ messages, (s.workers w).point ≠ .ended messages := by simp [hpoint]
  obtain ⟨hcoherent, hset⟩ := h.append (hw.key hrunning) hw.entry happend
  refine hcoherent.setWorker w ?_
  refine (hcoherent.workers w).of_context hrunning rfl (hcoherent.workers w).entry ?_
  intro a ha
  simpa using hset a ha

omit [DecidableEq T] in
theorem Coherent.afterCommit {keyOf : String → String} {s : State S P R T}
    (h : Coherent type json keyOf s) {w : Nat} {outcome : AppendOutcome P R}
    (hpoint : (s.workers w).point = .settle outcome) (result : CommitOutcome) :
    WorkerOf type keyOf s.batches
      ((s.workers w).afterCommit (settle (s.workers w).scope outcome).1 result) := by
  have hw := h.workers w
  have hrunning : ∀ messages, (s.workers w).point ≠ .ended messages := by simp [hpoint]
  have hentry : ∀ e, (settle (s.workers w).scope outcome).1.entry = some e →
      EntryOf type (IsVersionOf type (s.batches (s.workers w).context.key)) e := fun e he =>
    hw.entry e (entry_settle he)
  cases result with
  | returned => exact hw.of_context hrunning rfl hentry trivial
  | redisException => exact hw.of_context hrunning rfl hentry trivial
  | dbConcurrencyException =>
    simp only [Worker.afterCommit]
    split
    · exact hw.of_context hrunning rfl hentry trivial
    · exact hw.of_context hrunning rfl hentry trivial

theorem Coherent.workStep {keyOf : String → String} {s s' : State S P R T}
    (h : Coherent type json keyOf s) {w : Nat}
    (hstep : EventSourcing.workStep type json s w = some s') : Coherent type json keyOf s' := by
  have hw := h.workers w
  have hrunning : ∀ messages, (s.workers w).point ≠ .ended messages := by
    intro messages hpoint
    simp [EventSourcing.workStep, hpoint] at hstep
  have hpointOf := hw.point
  unfold EventSourcing.workStep at hstep
  dsimp only at hstep
  split at hstep
  · next handler hpoint =>
    cases hstep
    exact h.handlerStep hpoint
  · next next hpoint =>
    cases hstep
    exact h.setWorker w (hw.of_context hrunning rfl hw.entry fun a ha => h.snapshots _ a ha)
  · next snapshot next hpoint =>
    rw [hpoint] at hpointOf
    split at hstep
    · cases hstep
      exact h.setWorker w (hw.of_context hrunning rfl (by simpa using hw.entry) trivial)
    · next events hevents =>
      split at hstep
      · cases hstep
        exact h.setWorker w (hw.of_context hrunning rfl hw.entry trivial)
      · next aggregate haggregate =>
        cases hstep
        exact h.setWorker w (hw.of_context hrunning rfl hw.entry
          (h.rebuild hpointOf hevents haggregate))
  · next aggregate fromVersion next hpoint =>
    rw [hpoint] at hpointOf
    cases hstep
    refine (h.setMemory _ _ ?_).setWorker w (hw.of_context hrunning rfl hw.entry hpointOf)
    rintro a ⟨⟩
    exact hpointOf
  · next aggregate fromVersion next hpoint =>
    rw [hpoint] at hpointOf
    split at hstep
    · cases hstep
      exact (h.setSnapshot _ hpointOf).setWorker w (h.loaded hrunning hpointOf)
    · cases hstep
      exact h.setWorker w (h.loaded hrunning hpointOf)
  · next hpoint =>
    generalize happend : appendEvents json s.redis
      (commitArguments (s.workers w).context (s.workers w).scope) = result at hstep
    obtain ⟨redis, outcome⟩ := result
    cases hstep
    exact h.commit hpoint happend
  · next outcome hpoint =>
    have hafter := h.afterCommit hpoint
    rw [hpoint] at hpointOf
    split at hstep
    · next scope result hsettle =>
      cases hstep
      rw [hsettle] at hafter
      exact h.setWorker w (hafter result)
    · next scope aggregate result hsettle =>
      cases hstep
      rw [hsettle] at hafter
      refine (h.setMemory _ _ ?_).setWorker w (hafter result)
      rintro a ⟨⟩
      exact hpointOf aggregate (by rw [hsettle])
    · next scope result hsettle =>
      cases hstep
      rw [hsettle] at hafter
      exact (h.setMemory _ _ (by simp)).setWorker w (hafter result)
  · cases hstep
  · cases hstep

theorem Coherent.step {keyOf : String → String} {s s' : State S P R T}
    (h : Coherent type json keyOf s) {a : Action S P R}
    (hstep : EventSourcing.step type json keyOf s a = some s') : Coherent type json keyOf s' := by
  cases a with
  | deliver processor commandId replyToEndPoint sagaInfo =>
    cases hstep
    have hworker : WorkerOf type keyOf s.batches ⟨processor, ⟨commandId, keyOf commandId,
        replyToEndPoint, sagaInfo⟩, retryLimit, (.new : Scope S P R), .begin⟩ :=
      ⟨fun e he => by simp [Scope.new] at he, trivial, fun _ => rfl⟩
    have hset := h.setWorker s.workerCount hworker
    exact ⟨hset.represents, hset.sequential, hset.handled, hset.memory, hset.snapshots,
      hset.workers⟩
  | attempt w handler =>
    have hw := h.workers w
    unfold EventSourcing.step at hstep
    dsimp only at hstep
    split at hstep
    · next hpoint =>
      cases hstep
      exact h.setWorker w (hw.of_context (by simp [hpoint]) rfl hw.entry trivial)
    · cases hstep
  | work w => exact h.workStep hstep
  | evict processor id =>
    cases hstep
    exact h.setMemory processor id (by simp)

theorem coherent_of_run {keyOf : String → String} {as : List (Action S P R)}
    {s : State S P R T} (hrun : Machine.run (step type json keyOf) .init as = some s) :
    Coherent type json keyOf s :=
  Machine.run_invariant (Coherent type json keyOf) (fun _ _ _ h hstep => h.step hstep) .init hrun

omit [DecidableEq T] in
/-- The batches before a position, as the sorted set has them. -/
theorem take_members (bs : List (Batch S P)) (k : Nat) :
    (members json bs).take k = members json (bs.take k) := by
  refine List.ext_getElem? fun i => ?_
  rw [getElem?_members, List.getElem?_take, List.getElem?_take, getElem?_members]
  split <;> rfl

/-- In every reachable state the sorted set of an aggregate holds the accepted batches with the
scores `1, …, n`. The events of the batch with score `k + 1` have this version, and its handler was
given what replaying the `k` batches before it makes of the aggregate. No command has a second
batch. Versions do not wrap around: `n` is below `2^31 - 1`. -/
theorem no_lost_update {keyOf : String → String} {as : List (Action S P R)} {s : State S P R T}
    (hrun : Machine.run (step type json keyOf) .init as = some s) :
    (∀ id ms, s.redis (aggregateEventKey id) = some (.zset ms) →
      ms.length = (s.batches id).length ∧
      ∀ (k : Nat) m, ms[k]? = some m → ∃ b, (s.batches id)[k]? = some b ∧
        m.1 = (k : Int) + 1 ∧ m.2 = b.events.map json.ofEvent ∧
        (∀ e ∈ b.events, e.version = k + 1) ∧
        b.observed = rebuild type none ((ms.take k).flatMap fun m => m.2.map json.toEvent)) ∧
    (∀ id, (∀ ms, s.redis (aggregateEventKey id) ≠ some (.zset ms)) → s.batches id = []) ∧
    (∀ id id' (k k' : Nat) b b', (s.batches id)[k]? = some b → (s.batches id')[k']? = some b' →
      b.commandId = b'.commandId → id = id' ∧ k = k') := by
  have h := coherent_of_run hrun
  refine ⟨?_, ?_, ?_⟩
  · intro id ms hms
    have hrepresents := h.represents id
    have hsequential := h.sequential id
    unfold Represents at hrepresents
    split at hrepresents
    · exact absurd hms (hrepresents ms)
    · obtain rfl : members json (s.batches id) = ms := by simpa [hrepresents] using hms
      refine ⟨by simp [members], ?_⟩
      intro k m hm
      rw [getElem?_members] at hm
      obtain ⟨b, hb, rfl⟩ := Option.map_eq_some_iff.1 hm
      have hk : k < (s.batches id).length := (List.getElem?_eq_some_iff.1 hb).1
      have hversioned : Versioned ([] ++ (s.batches id).take k) := hsequential.versioned.take k
      refine ⟨b, hb, rfl, rfl, (hsequential.versioned k b hb).2, ?_⟩
      rw [hsequential.observed k b hb, take_members, flatMap_toEvent_members,
        rebuild_of_versioned type hversioned (.inl ⟨rfl, rfl⟩)]
      have hnil : (s.batches id).take k = [] ↔ k = 0 := by
        rw [← List.length_eq_zero_iff, List.length_take]
        omega
      simp only [List.nil_append, hnil]
  · intro id hnone
    have hrepresents := h.represents id
    unfold Represents at hrepresents
    split at hrepresents
    · next hnil => exact hnil
    · exact absurd hrepresents (hnone _)
  · intro id id' k k' b b' hb hb' hcommand
    have hkey := (h.handled id b (List.mem_of_getElem? hb)).1
    have hkey' := (h.handled id' b' (List.mem_of_getElem? hb')).1
    obtain rfl : id = id' := by rw [← hkey, ← hkey', hcommand]
    have hget : ((s.batches id).map Batch.commandId)[k]? =
        ((s.batches id).map Batch.commandId)[k']? := by
      rw [List.getElem?_map, List.getElem?_map, hb, hb', Option.map_some, Option.map_some, hcommand]
    have hk : k < ((s.batches id).map Batch.commandId).length := by
      rw [List.length_map]
      exact (List.getElem?_eq_some_iff.1 hb).1
    exact ⟨rfl, (List.getElem?_inj hk (h.sequential id).commands).1 hget⟩

/-- A command adds an aggregate on one processor, another one changes it on a second processor. -/
def twoCommands : List (Action Nat Nat Nat) :=
  [.deliver 0 "c" none none, .attempt 0 (.call .add (.call (.onEvent 5) .return))] ++
    List.replicate 5 (.work 0) ++
    [.deliver 1 "d" none none, .attempt 1 (.getByKey fun _ => .call (.onEvent 7) .return)] ++
    List.replicate 9 (.work 1)

/-- The second command is given the aggregate after the first one, and both batches are stored. -/
theorem no_lost_update_of_two_commands :
    ∃ s, Machine.run (step ⟨0, fun n e => n + e.payload⟩ (Json.plain Nat Nat) fun _ => "k") .init
        twoCommands = some s ∧
      (s.batches "k").map Batch.observed = [none, some ⟨5, 1⟩] ∧
      ∃ ms, s.redis (aggregateEventKey "k") = some (.zset ms) ∧ ms.length = 2 ∧
        ∀ (k : Nat) m, ms[k]? = some m → m.1 = (k : Int) + 1 := by
  have hany : ((Machine.run (step ⟨0, fun n e => n + e.payload⟩ (Json.plain Nat Nat) fun _ => "k")
      .init twoCommands).any fun s =>
        (s.batches "k").map Batch.observed = [none, some ⟨5, 1⟩]) = true := by decide +kernel
  obtain ⟨s, hrun, hobserved⟩ := (Option.any_eq_true _ _).1 hany
  have hobserved : (s.batches "k").map Batch.observed = [none, some ⟨5, 1⟩] := by
    simpa using hobserved
  obtain ⟨hstored, hempty, -⟩ := no_lost_update hrun
  obtain ⟨ms, hms⟩ : ∃ ms, s.redis (aggregateEventKey "k") = some (.zset ms) := by
    by_contra hnone
    rw [hempty "k" fun ms hms => hnone ⟨ms, hms⟩] at hobserved
    cases hobserved
  obtain ⟨hlength, hmembers⟩ := hstored "k" ms hms
  have htwo : (s.batches "k").length = 2 := by simpa using congrArg List.length hobserved
  refine ⟨s, hrun, hobserved, ms, hms, hlength.trans htwo, ?_⟩
  intro k m hm
  obtain ⟨b, -, hscore, -⟩ := hmembers k m hm
  exact hscore

end Append

end IFramework.EventSourcing
