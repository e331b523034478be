import IFramework.EventSourcing.System
import Mathlib.Data.List.Induction

/-!
# The event stream of an aggregate

`batches` is the stream as it is meant: a list of batches, each appended by one command. This module
says how the sorted set of the event store represents it, what an aggregate is after some of the
batches, and what the operations of the event store and of the repository do in these terms.
-/

namespace IFramework.EventSourcing

variable {S P R T : Type} (type : AggregateType S P) (json : Json T P R)

/-! ## Aggregates -/

/-- The aggregate after these batches. -/
def afterBatches (bs : List (Batch S P)) : Stored S where
  state := (bs.flatMap Batch.events).foldl type.apply type.blank
  version := bs.length

/-- The aggregate is the one after some of the batches, and after one at least. -/
def IsVersionOf (bs : List (Batch S P)) (a : Stored S) : Prop :=
  ∃ n, 0 < n ∧ n ≤ bs.length ∧ a = afterBatches type (bs.take n)

theorem IsVersionOf.append {bs : List (Batch S P)} {a : Stored S} (h : IsVersionOf type bs a)
    (bs' : List (Batch S P)) : IsVersionOf type (bs ++ bs') a := by
  obtain ⟨n, hpos, hle, rfl⟩ := h
  refine ⟨n, hpos, ?_, by rw [List.take_append_of_le_length hle]⟩
  rw [List.length_append]
  omega

theorem IsVersionOf.self {bs : List (Batch S P)} (hbs : bs ≠ []) :
    IsVersionOf type bs (afterBatches type bs) :=
  ⟨bs.length, List.length_pos_iff.2 hbs, Nat.le_refl _, by rw [List.take_length]⟩

/-- Each batch has events, which carry the version that the batch leads to. -/
def Versioned (bs : List (Batch S P)) : Prop :=
  ∀ i b, bs[i]? = some b → b.events ≠ [] ∧ ∀ e ∈ b.events, e.version = i + 1

theorem Versioned.take {bs : List (Batch S P)} (h : Versioned bs) (k : Nat) :
    Versioned (bs.take k) := by
  intro i b hi
  rw [List.getElem?_take] at hi
  split at hi
  · exact h i b hi
  · cases hi

section OnEvents

variable {type}

/-- Raise events one after the other. -/
def AggregateRoot.raise (type : AggregateType S P) (a : AggregateRoot S P) (ps : List P) :
    AggregateRoot S P :=
  ps.foldl (AggregateRoot.onEvent type) a

theorem AggregateRoot.raise_concat (a : AggregateRoot S P) (ps : List P) (p : P) :
    a.raise type (ps ++ [p]) = (a.raise type ps).onEvent type p := by
  simp [raise]

/-- An aggregate that has just been loaded or created stamps the events that are raised on it with
the next version, however many there are. -/
theorem AggregateRoot.raise_spec (type : AggregateType S P) {a : AggregateRoot S P}
    (hnew : a.newVersion = 0)
    (hqueue : a.eventQueue = []) (ps : List P) :
    (a.raise type ps).eventQueue = ps.map (Event.mk (a.version + 1)) ∧
      (a.raise type ps).state = (ps.map (Event.mk (a.version + 1))).foldl type.apply a.state ∧
      ((ps = [] ∧ (a.raise type ps).version = a.version ∧ (a.raise type ps).newVersion = 0) ∨
        (ps ≠ [] ∧ (a.raise type ps).version = a.version + 1 ∧
          (a.raise type ps).newVersion = a.version + 1)) := by
  induction ps using List.reverseRecOn with
  | nil => exact ⟨hqueue, rfl, .inl ⟨rfl, rfl, hnew⟩⟩
  | append_singleton ps p ih =>
    obtain ⟨hq, hs, hv⟩ := ih
    have hnext : (a.raise type ps).getNewVersion = a.version + 1 := by
      unfold getNewVersion
      rcases hv with ⟨-, hversion, hnew'⟩ | ⟨-, -, hnew'⟩
      · rw [if_pos hnew', hversion]
      · rw [if_neg (by omega), hnew']
    rw [raise_concat]
    refine ⟨?_, ?_, .inr ⟨by simp, hnext, hnext⟩⟩
    · simp [onEvent, hnext, hq]
    · simp [onEvent, hnext, hs]

/-- What the events of an aggregate, applied to the batches before, lead to. -/
theorem AggregateRoot.store_raise {a : AggregateRoot S P} {bs : List (Batch S P)} {ps : List P}
    (hnew : a.newVersion = 0) (hqueue : a.eventQueue = []) (hps : ps ≠ [])
    (hstore : a.store = afterBatches type bs) {b : Batch S P}
    (hb : b.events = (a.raise type ps).eventQueue) :
    (a.raise type ps).store = afterBatches type (bs ++ [b]) := by
  obtain ⟨hq, hs, hv⟩ := raise_spec type hnew hqueue ps
  have hstate : a.state = (afterBatches type bs).state := congrArg Stored.state hstore
  have hversion : a.version = bs.length := congrArg Stored.version hstore
  rcases hv with ⟨hnil, -⟩ | ⟨-, hv, -⟩
  · exact absurd hnil hps
  · rw [store, hs, hv, hstate, hversion, afterBatches, afterBatches, List.flatMap_append,
      List.foldl_append, List.length_append, ← hversion, ← hq, ← hb]
    simp

theorem AggregateRoot.store_foldl_handleEvent (a : AggregateRoot S P) {events : List (Event P)}
    {version : Nat} (hne : events ≠ []) (hversion : ∀ e ∈ events, e.version = version) :
    (events.foldl (handleEvent type) a).store =
      ⟨events.foldl type.apply a.state, version⟩ := by
  induction events generalizing a with
  | nil => exact absurd rfl hne
  | cons e es ih =>
    have hes : ∀ e' ∈ es, e'.version = version := fun e' he' =>
      hversion e' (List.mem_cons_of_mem _ he')
    by_cases hnil : es = []
    · simp [hnil, handleEvent, store, hversion e List.mem_cons_self]
    · rw [List.foldl_cons, List.foldl_cons, ih _ hnil hes]
      rfl

/-- Batches that are replayed on the aggregate after the batches before them. -/
theorem AggregateRoot.store_replay_batches {a : AggregateRoot S P} {bs bs' : List (Batch S P)}
    (hversioned : Versioned (bs ++ bs')) (hstore : a.store = afterBatches type bs) :
    ((bs'.flatMap Batch.events).foldl (handleEvent type) a).store =
      afterBatches type (bs ++ bs') := by
  induction bs' generalizing a bs with
  | nil => simpa using hstore
  | cons b bs' ih =>
    have hb := hversioned bs.length b (by simp)
    have hstate : a.state = (afterBatches type bs).state := congrArg Stored.state hstore
    have hrest : Versioned ((bs ++ [b]) ++ bs') := by simpa using hversioned
    rw [List.flatMap_cons, List.foldl_append, ih hrest]
    · simp
    · rw [store_foldl_handleEvent a hb.1 hb.2, hstate]
      simp [afterBatches]

end OnEvents

/-- The events of batches are in the order of their versions. -/
theorem Versioned.pairwise {bs bs' : List (Batch S P)} (h : Versioned (bs ++ bs')) :
    (bs'.flatMap Batch.events).Pairwise fun e e' => e.version ≤ e'.version := by
  induction bs' generalizing bs with
  | nil => simp
  | cons b bs' ih =>
    have hb := (h bs.length b (by simp)).2
    have hrest : Versioned ((bs ++ [b]) ++ bs') := by simpa using h
    rw [List.flatMap_cons, List.pairwise_append]
    refine ⟨?_, ih hrest, ?_⟩
    · exact List.pairwise_iff_forall_sublist.2 fun hsub => by
        have he := hb _ (hsub.subset List.mem_cons_self)
        have he' := hb _ (hsub.subset (List.mem_cons_of_mem _ List.mem_cons_self))
        omega
    · intro e he e' he'
      obtain ⟨b', hb', he'⟩ := List.mem_flatMap.1 he'
      obtain ⟨i, hi⟩ := List.mem_iff_getElem?.1 hb'
      have hget : ((bs ++ [b]) ++ bs')[(bs ++ [b]).length + i]? = some b' := by
        rw [List.getElem?_append_right (Nat.le_add_right _ _), Nat.add_sub_cancel_left, hi]
      have hversion := (hrest _ b' hget).2 e' he'
      have he := hb e he
      simp only [List.length_append] at hversion
      omega

/-! ## The sorted set -/

section SortedSet

variable {json}

/-- The members of the sorted set for these batches. -/
def members (json : Json T P R) (bs : List (Batch S P)) : List (Int × List (ObjectPayload T)) :=
  bs.mapIdx fun i b => ((i : Int) + 1, b.events.map json.ofEvent)

/-- The event store holds these batches for an aggregate. Without batches the key is not used, or it
is used for a document. -/
def Represents (json : Json T P R) (db : Redis T) (id : String) (bs : List (Batch S P)) : Prop :=
  if bs = [] then ∀ ms, db (aggregateEventKey id) ≠ some (.zset ms)
  else db (aggregateEventKey id) = some (.zset (members json bs))

theorem getElem?_members (bs : List (Batch S P)) (i : Nat) :
    (members json bs)[i]? = bs[i]?.map fun b => ((i : Int) + 1, b.events.map json.ofEvent) := by
  simp [members, List.getElem?_mapIdx]

theorem members_concat (bs : List (Batch S P)) (b : Batch S P) :
    members json (bs ++ [b]) =
      members json bs ++ [((bs.length : Int) + 1, b.events.map json.ofEvent)] := by
  simp [members, List.mapIdx_append]

/-- A member is a batch with its position as the score. -/
theorem exists_of_mem_members {bs : List (Batch S P)} {m : Int × List (ObjectPayload T)}
    (hm : m ∈ members json bs) :
    ∃ (i : Nat) (b : Batch S P), i < bs.length ∧ bs[i]? = some b ∧
      m = ((i : Int) + 1, b.events.map json.ofEvent) := by
  obtain ⟨i, hi⟩ := List.mem_iff_getElem?.1 hm
  rw [getElem?_members] at hi
  obtain ⟨b, hb, hm⟩ := Option.map_eq_some_iff.1 hi
  exact ⟨i, b, (List.getElem?_eq_some_iff.1 hb).1, hb, hm.symm⟩

theorem flatMap_toEvent_members (bs : List (Batch S P)) :
    ((members json bs).flatMap fun m => m.2.map json.toEvent) = bs.flatMap Batch.events := by
  induction bs using List.reverseRecOn with
  | nil => rfl
  | append_singleton bs b ih =>
    simp [members_concat, ih, Function.comp_def]

/-- The members with a score above the number of some batches are those of the batches behind. -/
theorem flatMap_toEvent_filter_members (json : Json T P R) (bs bs' : List (Batch S P)) :
    (((members json (bs ++ bs')).filter fun m => (bs.length : Int) + 1 ≤ m.1).flatMap
      fun m => m.2.map json.toEvent) = bs'.flatMap Batch.events := by
  induction bs' using List.reverseRecOn with
  | nil =>
    have hfilter : (members json bs).filter (fun m => (bs.length : Int) + 1 ≤ m.1) = [] := by
      rw [List.filter_eq_nil_iff]
      intro m hm
      obtain ⟨i, b, hi, -, rfl⟩ := exists_of_mem_members hm
      simp only [decide_eq_true_eq]
      omega
    rw [List.append_nil, hfilter]
    rfl
  | append_singleton bs' b ih =>
    have hscore : (bs.length : Int) + 1 ≤ ((bs ++ bs').length : Int) + 1 := by
      rw [List.length_append]
      omega
    rw [← List.append_assoc, members_concat, List.filter_append, List.flatMap_append, ih,
      List.filter_cons_of_pos (by rw [decide_eq_true_iff]; exact hscore)]
    simp [Function.comp_def]

theorem getEvents_of_represents {db : Redis T} {id : String}
    {bs bs' : List (Batch S P)} (h : Represents json db id (bs ++ bs')) :
    getEvents json db id (bs.length + 1) none = .ok (bs'.flatMap Batch.events) ∨
      (bs ++ bs' = [] ∧ ∃ e, getEvents json db id (bs.length + 1) none = .error e) := by
  unfold Represents at h
  split at h
  · next hnil =>
    obtain ⟨rfl, rfl⟩ := List.append_eq_nil_iff.1 hnil
    unfold getEvents zrangebyscore
    cases hkey : db (aggregateEventKey id) with
    | none => exact .inl rfl
    | some value =>
      cases value with
      | json document => exact .inr ⟨rfl, _, rfl⟩
      | zset ms => exact absurd hkey (h ms)
  · left
    have hevents := flatMap_toEvent_filter_members json bs bs'
    have hrange : zrangebyscore db (aggregateEventKey id) (bs.length + 1) none =
        .ok ((members json (bs ++ bs')).filter fun m => (bs.length : Int) + 1 ≤ m.1) := by
      simp only [zrangebyscore, h, Option.not_mem_none, false_imp_iff, implies_true, and_true]
    rw [getEvents, hrange]
    exact congrArg Except.ok hevents

/-! ## Loading -/

/-- What `GetByKeyAsync` makes of a snapshot after some batches and the events behind them. -/
theorem rebuild_of_batches {bs bs' : List (Batch S P)} {snapshot : Option (Stored S)}
    (hversioned : Versioned (bs ++ bs'))
    (hsnapshot : (snapshot = none ∧ bs = []) ∨ snapshot = some (afterBatches type bs)) :
    rebuild type snapshot (bs'.flatMap Batch.events) =
      if snapshot = none ∧ bs ++ bs' = [] then none else some (afterBatches type (bs ++ bs')) := by
  have hreplay : ∀ a : AggregateRoot S P, a.store = afterBatches type bs →
      (a.replay type (bs'.flatMap Batch.events)).store = afterBatches type (bs ++ bs') := by
    intro a ha
    rw [AggregateRoot.replay, List.Pairwise.insertionSort_eq hversioned.pairwise]
    exact AggregateRoot.store_replay_batches hversioned ha
  have hnil : bs'.flatMap Batch.events = [] ↔ bs' = [] := by
    cases bs' with
    | nil => simp
    | cons b bs' =>
      have hb := (hversioned bs.length b (by simp)).1
      simp [hb]
  unfold rebuild
  generalize bs'.flatMap Batch.events = events at hreplay hnil
  rcases hsnapshot with ⟨rfl, rfl⟩ | rfl
  · cases events with
    | nil => simp [hnil.1 rfl]
    | cons e es =>
      have hbs' : bs' ≠ [] := fun h => by simpa using hnil.2 h
      rw [List.nil_append, if_neg (by simp [hbs'])]
      exact congrArg some (hreplay (.createInstance type) rfl)
  · rw [if_neg (by simp)]
    cases events with
    | nil => simp [hnil.1 rfl]
    | cons e es => exact congrArg some (hreplay (.load (afterBatches type bs)) rfl)

/-- The same, for a snapshot that was taken after one batch at least. -/
theorem rebuild_of_versioned {bs bs' : List (Batch S P)} {snapshot : Option (Stored S)}
    (hversioned : Versioned (bs ++ bs'))
    (hsnapshot : (snapshot = none ∧ bs = []) ∨
      (bs ≠ [] ∧ snapshot = some (afterBatches type bs))) :
    rebuild type snapshot (bs'.flatMap Batch.events) =
      if bs ++ bs' = [] then none else some (afterBatches type (bs ++ bs')) := by
  rw [rebuild_of_batches type hversioned (hsnapshot.imp_right And.right)]
  rcases hsnapshot with ⟨rfl, -⟩ | ⟨hbs, rfl⟩
  · simp
  · simp [hbs]

/-- `GetByKeyAsync` finds the current aggregate, whichever version the snapshot has. -/
theorem rebuild_of_represents {db : Redis T} {id : String}
    {bs : List (Batch S P)} {snapshot : Option (Stored S)} {events : List (Event P)}
    (hversioned : Versioned bs) (hrepresents : Represents json db id bs)
    (hsnapshot : ∀ a, snapshot = some a → IsVersionOf type bs a)
    (hevents : getEvents json db id (fromVersion snapshot + 1) none = .ok events) :
    rebuild type snapshot events = if bs = [] then none else some (afterBatches type bs) := by
  have hsplit : ∃ bs₁ bs₂, bs = bs₁ ++ bs₂ ∧ fromVersion snapshot = bs₁.length ∧
      ((snapshot = none ∧ bs₁ = []) ∨ (bs₁ ≠ [] ∧ snapshot = some (afterBatches type bs₁))) := by
    cases snapshot with
    | none => exact ⟨[], bs, rfl, rfl, .inl ⟨rfl, rfl⟩⟩
    | some a =>
      obtain ⟨n, hpos, hle, rfl⟩ := hsnapshot a rfl
      refine ⟨bs.take n, bs.drop n, (List.take_append_drop n _).symm, rfl, .inr ⟨?_, rfl⟩⟩
      rw [← List.length_pos_iff, List.length_take]
      omega
  obtain ⟨bs₁, bs₂, rfl, hversion, hsnapshot⟩ := hsplit
  rw [hversion] at hevents
  rcases getEvents_of_represents hrepresents with hget | ⟨-, e, hget⟩
  · rw [hget] at hevents
    cases hevents
    exact rebuild_of_versioned type hversioned hsnapshot
  · rw [hget] at hevents
    cases hevents

/-! ## Appending -/

theorem aggregateEventKey_injective {id id' : String}
    (h : aggregateEventKey id = aggregateEventKey id') : id = id' := by
  have hlist : ("ag:\x7b".toList ++ id.toList) ++ "\x7d:events".toList =
      ("ag:\x7b".toList ++ id'.toList) ++ "\x7d:events".toList := by
    simpa [aggregateEventKey] using congrArg String.toList h
  have hid := List.append_cancel_left (List.append_cancel_right hlist)
  exact String.toList_inj.1 hid

section Append

variable {db db' : Redis T} {id : String} {bs : List (Batch S P)}

theorem zrevrange_of_represents (h : Represents json db id bs) (hbs : bs ≠ []) :
    zrevrange db (aggregateEventKey id) = .ok (some (bs.length : Int)) := by
  rw [Represents, if_neg hbs] at h
  induction bs using List.reverseRecOn with
  | nil => exact absurd rfl hbs
  | append_singleton bs b _ => simp [zrevrange, h, members_concat]

/-- The version check of the script lets only the current version pass, or any version when there
are no batches. -/
theorem version_of_zrevrange {version : Int} (h : Represents json db id bs)
    (hversion : zrevrange db (aggregateEventKey id) = .ok none ∨
      zrevrange db (aggregateEventKey id) = .ok (some version)) :
    bs = [] ∨ version = bs.length := by
  by_cases hbs : bs = []
  · exact .inl hbs
  · right
    rw [zrevrange_of_represents h hbs] at hversion
    rcases hversion with hversion | hversion
    · cases hversion
    · cases hversion
      rfl

theorem insertMember_of_le {score : Int} {member : List (ObjectPayload T)}
    {ms : List (Int × List (ObjectPayload T))} (h : ∀ m ∈ ms, m.1 ≤ score) :
    insertMember score member ms = ms ++ [(score, member)] := by
  induction ms with
  | nil => rfl
  | cons m ms ih =>
    rw [insertMember, if_pos (h m List.mem_cons_self),
      ih fun m' hm' => h m' (List.mem_cons_of_mem _ hm'), List.cons_append]

/-- The text of a batch is not yet a member: its events have another version. -/
theorem new_member {b : Batch S P} (hversioned : Versioned (bs ++ [b]))
    {m : Int × List (ObjectPayload T)} (hm : m ∈ members json bs) :
    m.2 ≠ b.events.map json.ofEvent := by
  obtain ⟨i, b', hi, hb', rfl⟩ := exists_of_mem_members hm
  intro heq
  have hevents : b'.events = b.events := by
    simpa [Function.comp_def] using congrArg (List.map json.toEvent) heq
  have hold := hversioned i b' (by rw [List.getElem?_append_left hi, hb'])
  have hnew := hversioned bs.length b (by simp)
  obtain ⟨e, he⟩ := List.exists_mem_of_ne_nil _ hold.1
  have hversion := hold.2 e he
  rw [hnew.2 e (hevents ▸ he)] at hversion
  omega

/-- A document that is put under a free key does not matter. -/
theorem Represents.update {key : String} {document : CommandResult T}
    (h : Represents json db id bs) (hkey : db key = none) :
    Represents json (Function.update db key (some (.json document))) id bs := by
  unfold Represents at h ⊢
  by_cases heq : aggregateEventKey id = key
  · subst heq
    split at h
    · simp [*]
    · rw [hkey] at h
      cases h
  · simpa [heq] using h

variable [DecidableEq T]

/-- A batch of the next version is put behind the others. -/
theorem Represents.concat {b : Batch S P} (h : Represents json db id bs)
    (hversioned : Versioned (bs ++ [b]))
    (hadd : zadd db (aggregateEventKey id) (bs.length + 1) (b.events.map json.ofEvent) = .ok db') :
    Represents json db' id (bs ++ [b]) := by
  rw [Represents, if_neg (by simp), members_concat]
  unfold Represents at h
  unfold zadd at hadd
  split at h
  · next hnil =>
    subst hnil
    split at hadd
    · cases hadd
      simp [members]
    · next ms hms => exact absurd hms (h ms)
    · cases hadd
  · have hfilter : (members json bs).filter (fun m => m.2 ≠ b.events.map json.ofEvent) =
        members json bs := by
      rw [List.filter_eq_self]
      intro m hm
      simpa using new_member hversioned hm
    have hle : ∀ m ∈ members json bs, m.1 ≤ (bs.length : Int) + 1 := by
      intro m hm
      obtain ⟨i, b', hi, -, rfl⟩ := exists_of_mem_members hm
      simp only
      omega
    rw [h] at hadd
    simp only [hfilter, insertMember_of_le hle] at hadd
    cases hadd
    simp

theorem Represents.concat_ne {id' : String} {score : Int} {member : List (ObjectPayload T)}
    (h : Represents json db id bs) (hne : id ≠ id')
    (hadd : zadd db (aggregateEventKey id') score member = .ok db') :
    Represents json db' id bs := by
  have hkey : aggregateEventKey id ≠ aggregateEventKey id' := fun heq =>
    hne (aggregateEventKey_injective heq)
  have hsame : db' (aggregateEventKey id) = db (aggregateEventKey id) := by
    unfold zadd at hadd
    split at hadd <;> cases hadd <;> simp [hkey]
  unfold Represents at h ⊢
  rwa [hsame]

end Append

end SortedSet

end IFramework.EventSourcing
