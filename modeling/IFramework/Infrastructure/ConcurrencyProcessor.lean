import IFramework.Theory.Loop
import Mathlib.Data.List.Infix

/-!
# The concurrency processor

`Process` and `ProcessAsync` call a function until it returns, until it throws something that is not
to be retried, or until the budget is used up. What is to be retried is asked of the parser, inside
the `catch`: an exception of the parser replaces the one of the function. So the last outcome is
what the caller sees exactly if the parser does not throw on it (`process_iff`). The parser that
there is throws on a database exception whose properties it cannot read (`throws_iff`), such as one
of Npgsql without a code (`not_bounded_npgsql`).
-/

namespace IFramework.Infrastructure.ConcurrencyProcessor

open Loop

/-- A `DbException`, with the properties that are read by name; `none` where there is no such
property, or it is null or has another type. -/
structure DbException where
  source : Option String
  message : Option String
  number : Option Int32
  code : Option String
  constraintName : Option String
  deriving DecidableEq

inductive Exn where
  /-- An exception of the caller's code, with its `GetBaseException` if that is a `DbException`. -/
  | thrown (id : Nat) (isDBConcurrencyException : Bool) (baseException : Option DbException)
  | nullReferenceException
  | argumentNullException
  /-- A method of a null reference is made a delegate. -/
  | nullTargetException
  deriving DecidableEq

/-- `ex is DBConcurrencyException`. -/
def Exn.isDBConcurrencyException : Exn → Bool
  | .thrown _ isDBConcurrencyException _ => isDBConcurrencyException
  | .nullReferenceException | .argumentNullException | .nullTargetException => false

/-- `GetBaseException() as DbException`. -/
def Exn.baseException : Exn → Option DbException
  | .thrown _ _ baseException => baseException
  | .nullReferenceException | .argumentNullException | .nullTargetException => none

/-- `uniqueConstrainNames`, which may be null, and so may be each name. -/
abbrev Names := Option (List (Option String))

/-- `IsUniqueConstrainException` of an `IUniqueConstrainExceptionParser`. -/
abbrev Parser := Exn → Names → Except Exn Bool

/-! ## The parser -/

abbrev Handler := DbException → List (Option String) → Except Exn Bool

/-- `uniqueConstrainNames.Any(text.Contains)`. -/
def anyContained (text : Option String) (names : List (Option String)) : Except Exn Bool :=
  match text with
  | none => .error .nullTargetException
  | some text => anyIn text names
where
  anyIn (text : String) : List (Option String) → Except Exn Bool
    | [] => .ok false
    | none :: _ => .error .argumentNullException
    | some name :: names =>
      if name.toList <:+: text.toList then .ok true else anyIn text names

/-- A handler that goes by the property `Number`. -/
def numberHandler (numbers : List Int32) : Handler := fun dbException uniqueConstrainNames =>
  if dbException.number.getD 0 ∈ numbers then
    anyContained dbException.message uniqueConstrainNames
  else .ok false

def sqlClientHandler : Handler := numberHandler [2601, 2627, 547]

def mySqlHandler : Handler := numberHandler [1062]

/-- The handler for Npgsql calls `Equals` on the code. -/
def npgsqlHandler : Handler := fun dbException uniqueConstrainNames =>
  match dbException.code with
  | none => .error .nullReferenceException
  | some code =>
    if code = "23505" then anyContained dbException.constraintName uniqueConstrainNames
    else .ok false

/-- `RegisterUniqueConstrainHandler`. -/
def registerUniqueConstrainHandler (handlers : String → Option Handler) (sqlSource : String)
    (handler : Handler) : String → Option Handler :=
  fun source => if source = sqlSource then some handler else handlers source

/-- The handlers that the constructor registers. -/
def sqlUniqueConstrainHandlers : String → Option Handler :=
  [("Core Microsoft SqlClient Data Provider", sqlClientHandler), ("MySql.Data", mySqlHandler),
    ("MySqlConnector", mySqlHandler), ("Npgsql", npgsqlHandler)].foldl
      (fun handlers (sqlSource, handler) =>
        registerUniqueConstrainHandler handlers sqlSource handler)
      fun _ => none

/-- `IsUniqueConstrainException`; the lookup of a null source throws. -/
def isUniqueConstrainException (handlers : String → Option Handler) : Parser :=
  fun exception uniqueConstrainNames =>
    match exception.baseException with
    | none => .ok false
    | some dbException =>
      if uniqueConstrainNames.getD [] = [] then .ok false
      else
        match dbException.source with
        | none => .error .argumentNullException
        | some sqlSource =>
          match handlers sqlSource with
          | none => .ok false
          | some handler => handler dbException (uniqueConstrainNames.getD [])

/-- `Any(text.Contains)` throws: there is no text, or a null name comes before any name in it. -/
def Unsearchable (text : Option String) (names : List (Option String)) : Prop :=
  ∀ s, text = some s → ∃ (before : List String) (after : List (Option String)),
    names = before.map some ++ none :: after ∧ ∀ name ∈ before, ¬ name.toList <:+: s.toList

/-- The exceptions on which the lookup of the handler, or the handler, throws. -/
def Unreadable (dbException : DbException) (names : List (Option String)) : Prop :=
  dbException.source = none ∨
    (dbException.source = some "Core Microsoft SqlClient Data Provider" ∧
        dbException.number.getD 0 ∈ [2601, 2627, 547] ∨
      (dbException.source = some "MySql.Data" ∨ dbException.source = some "MySqlConnector") ∧
        dbException.number.getD 0 = 1062) ∧ Unsearchable dbException.message names ∨
    dbException.source = some "Npgsql" ∧ (dbException.code = none ∨
      dbException.code = some "23505" ∧ Unsearchable dbException.constraintName names)

/-! ### When it throws -/

section Unreadable

variable {text : Option String} {s name : String} {names : List (Option String)} {e : Exn}
  {dbException : DbException}

theorem unsearchable_none : Unsearchable none names := by
  intro s hs
  cases hs

theorem not_unsearchable_nil : ¬ Unsearchable (some s) [] := by
  intro h
  obtain ⟨before, after, hnames, -⟩ := h s rfl
  cases before <;> cases hnames

theorem unsearchable_cons_none : Unsearchable (some s) (none :: names) := by
  rintro _ ⟨⟩
  exact ⟨[], names, rfl, fun name hname => absurd hname List.not_mem_nil⟩

theorem unsearchable_cons_some : Unsearchable (some s) (some name :: names) ↔
    ¬ name.toList <:+: s.toList ∧ Unsearchable (some s) names := by
  constructor
  · intro h
    obtain ⟨before, after, hnames, hbefore⟩ := h s rfl
    cases before with
    | nil => cases hnames
    | cons _ before =>
      simp only [List.map_cons, List.cons_append, List.cons.injEq, Option.some.injEq] at hnames
      obtain ⟨rfl, rfl⟩ := hnames
      refine ⟨hbefore name List.mem_cons_self, ?_⟩
      rintro _ ⟨⟩
      exact ⟨before, after, rfl, fun n hn => hbefore n (List.mem_cons_of_mem _ hn)⟩
  · rintro ⟨hname, h⟩ _ ⟨⟩
    obtain ⟨before, after, rfl, hbefore⟩ := h s rfl
    exact ⟨name :: before, after, rfl, List.forall_mem_cons.2 ⟨hname, hbefore⟩⟩

theorem anyIn_throws_iff :
    (∃ e, anyContained.anyIn s names = .error e) ↔ Unsearchable (some s) names := by
  induction names with
  | nil => simp [anyContained.anyIn, not_unsearchable_nil]
  | cons name names ih =>
    cases name with
    | none => simp [anyContained.anyIn, unsearchable_cons_none]
    | some name =>
      rw [unsearchable_cons_some, ← ih]
      by_cases hname : name.toList <:+: s.toList <;> simp [anyContained.anyIn, hname]

theorem anyContained_throws_iff :
    (∃ e, anyContained text names = .error e) ↔ Unsearchable text names := by
  cases text with
  | none => simp [anyContained, unsearchable_none]
  | some s => exact anyIn_throws_iff

theorem numberHandler_throws_iff {numbers : List Int32} :
    (∃ e, numberHandler numbers dbException names = .error e) ↔
      dbException.number.getD 0 ∈ numbers ∧ Unsearchable dbException.message names := by
  unfold numberHandler
  split
  next hnumber => rw [anyContained_throws_iff, and_iff_right hnumber]
  next hnumber => simp [hnumber]

theorem npgsqlHandler_throws_iff :
    (∃ e, npgsqlHandler dbException names = .error e) ↔ dbException.code = none ∨
      dbException.code = some "23505" ∧ Unsearchable dbException.constraintName names := by
  unfold npgsqlHandler
  cases dbException.code with
  | none => simp
  | some code =>
    by_cases hcode : code = "23505" <;> simp [hcode, anyContained_throws_iff]

theorem sqlUniqueConstrainHandlers_eq (sqlSource : String) :
    sqlUniqueConstrainHandlers sqlSource =
      if sqlSource = "Npgsql" then some npgsqlHandler
      else if sqlSource = "MySqlConnector" then some mySqlHandler
      else if sqlSource = "MySql.Data" then some mySqlHandler
      else if sqlSource = "Core Microsoft SqlClient Data Provider" then some sqlClientHandler
      else none := rfl

/-- Each of the registered sources has its own handler. -/
theorem registered_throws_iff {sqlSource : String} :
    (∃ handler, sqlUniqueConstrainHandlers sqlSource = some handler ∧
        ∃ e, handler dbException names = .error e) ↔
      (sqlSource = "Core Microsoft SqlClient Data Provider" ∧
          dbException.number.getD 0 ∈ [2601, 2627, 547] ∨
        (sqlSource = "MySql.Data" ∨ sqlSource = "MySqlConnector") ∧
          dbException.number.getD 0 = 1062) ∧ Unsearchable dbException.message names ∨
      sqlSource = "Npgsql" ∧ (dbException.code = none ∨
        dbException.code = some "23505" ∧ Unsearchable dbException.constraintName names) := by
  rw [sqlUniqueConstrainHandlers_eq]
  split_ifs with hnpgsql hconnector hmy hsql
  · simp [hnpgsql, npgsqlHandler_throws_iff]
  · simp [hconnector, mySqlHandler, numberHandler_throws_iff]
  · simp [hmy, mySqlHandler, numberHandler_throws_iff]
  · simp [hsql, sqlClientHandler, numberHandler_throws_iff]
  · simp [hsql, hmy, hconnector, hnpgsql]

/-- The parser throws exactly on the unreadable database exceptions. -/
theorem throws_iff {uniqueConstrainNames : Names} {ex : Exn} :
    (∃ e, isUniqueConstrainException sqlUniqueConstrainHandlers ex uniqueConstrainNames =
        .error e) ↔
      ∃ dbException, ex.baseException = some dbException ∧ uniqueConstrainNames.getD [] ≠ [] ∧
        Unreadable dbException (uniqueConstrainNames.getD []) := by
  unfold isUniqueConstrainException
  cases ex.baseException with
  | none => simp
  | some dbException =>
    by_cases hnames : uniqueConstrainNames.getD [] = []
    · simp [hnames]
    · simp only [Option.some.injEq, exists_eq_left', ne_eq, hnames,
        not_false_eq_true, true_and, Unreadable]
      cases dbException.source with
      | none => simp
      | some sqlSource =>
        simp only [reduceCtorEq, false_or, Option.some.injEq]
        rw [← registered_throws_iff]
        cases sqlUniqueConstrainHandlers sqlSource <;> simp

theorem baseException_of_anyContained (h : anyContained text names = .error e) :
    e.baseException = none := by
  cases text with
  | none =>
    cases h
    rfl
  | some s =>
    induction names with
    | nil => cases h
    | cons name names ih =>
      cases name with
      | none =>
        cases h
        rfl
      | some name =>
        simp only [anyContained, anyContained.anyIn] at h ih
        split at h
        · cases h
        · exact ih h

theorem baseException_of_registered {sqlSource : String} {handler : Handler}
    (hhandler : sqlUniqueConstrainHandlers sqlSource = some handler)
    (h : handler dbException names = .error e) : e.baseException = none := by
  have hnumber : ∀ numbers, numberHandler numbers dbException names = .error e →
      e.baseException = none := by
    intro numbers hnumber
    unfold numberHandler at hnumber
    split at hnumber
    · exact baseException_of_anyContained hnumber
    · cases hnumber
  rw [sqlUniqueConstrainHandlers_eq] at hhandler
  split_ifs at hhandler
  · cases hhandler
    unfold npgsqlHandler at h
    split at h
    · cases h
      rfl
    · split at h
      · exact baseException_of_anyContained h
      · cases h
  · cases hhandler
    exact hnumber _ h
  · cases hhandler
    exact hnumber _ h
  · cases hhandler
    exact hnumber _ h

/-- What it throws is not the exception it is asked about. -/
theorem ne_of_throws {uniqueConstrainNames : Names} {ex : Exn}
    (h : isUniqueConstrainException sqlUniqueConstrainHandlers ex uniqueConstrainNames =
      .error e) : e ≠ ex := by
  rintro rfl
  unfold isUniqueConstrainException at h
  split at h
  · cases h
  next dbException hbase =>
    split at h
    · cases h
    · split at h
      · cases h
        cases hbase
      · split at h
        · cases h
        next handler hhandler =>
          have hnone := baseException_of_registered hhandler h
          rw [hbase] at hnone
          cases hnone

end Unreadable

/-! ## The loop -/

/-- How a call of the function ends. -/
inductive Outcome (T : Type) where
  | returned (value : T)
  | thrown (ex : Exn)
  deriving DecidableEq

/-- The loop: what is left of the budget, the number of calls, and how it has ended. -/
structure Attempts (T : Type) where
  retryCount : Int
  invoked : Nat
  result : Option (Outcome T)

variable {T : Type}

section Process

variable (parser : Parser) (uniqueConstrainNames : Names)

/-- The first operand of the condition: the exception is to be retried. -/
def needRetry (ex : Exn) : Except Exn Bool :=
  if ex.isDBConcurrencyException then .ok true else parser ex uniqueConstrainNames

/-- One iteration, where `func n` is how the call after `n` others ends. The budget is charged only
for an exception that is to be retried. -/
def attempt (func : Nat → Outcome T) (s : Attempts T) : Except Empty (Attempts T × Bool) :=
  let called : Attempts T := { s with invoked := s.invoked + 1 }
  match func s.invoked with
  | .returned value => .ok ({ called with result := some (.returned value) }, false)
  | .thrown ex =>
    match needRetry parser uniqueConstrainNames ex with
    | .error e => .ok ({ called with result := some (.thrown e) }, false)
    | .ok false => .ok ({ called with result := some (.thrown ex) }, false)
    | .ok true =>
      if s.retryCount ≤ 0 then
        .ok ({ called with retryCount := s.retryCount - 1, result := some (.thrown ex) }, false)
      else .ok ({ called with retryCount := s.retryCount - 1 }, true)

/-- The loop ends so. -/
def Ends (func : Nat → Outcome T) (retryCount : Int) (final : Attempts T) : Prop :=
  Returns (attempt parser uniqueConstrainNames func) ⟨retryCount, 0, none⟩ (.ok final)

/-- `ProcessAsync` of a function with a result. -/
def ProcessAsyncOf (func : Nat → Outcome T) : Int → Attempts T → Prop :=
  Ends parser uniqueConstrainNames func

/-- `ProcessAsync` of a function without a result. -/
def ProcessAsync (func : Nat → Outcome Unit) : Int → Attempts Unit → Prop :=
  Ends parser uniqueConstrainNames func

/-- `Process` of an action. -/
def Process (action : Nat → Outcome Unit) : Int → Attempts Unit → Prop :=
  Ends parser uniqueConstrainNames action

/-- `Process` of a function with a result. -/
def ProcessOf (func : Nat → Outcome T) : Int → Attempts T → Prop :=
  Ends parser uniqueConstrainNames func

/-! ## What is asked of it -/

/-- A retriable exception: a `DBConcurrencyException`, or one that the parser recognises. -/
def Retriable : Outcome T → Prop
  | .returned _ => False
  | .thrown ex => ex.isDBConcurrencyException ∨ parser ex uniqueConstrainNames = .ok true

/-- The first outcome that is not a retriable exception comes after `i` others. -/
def FirstFinal (func : Nat → Outcome T) (i : Nat) : Prop :=
  (∀ j < i, Retriable parser uniqueConstrainNames (func j)) ∧
    ¬ Retriable parser uniqueConstrainNames (func i)

/-- The first final outcome within the budget is not a database exception that the registered
handlers cannot read. -/
def Readable (func : Nat → Outcome T) (retryCount : Nat) : Prop :=
  ∀ i, FirstFinal (isUniqueConstrainException sqlUniqueConstrainHandlers) uniqueConstrainNames
      func i → i ≤ retryCount →
    ∀ ex dbException, func i = .thrown ex → ex.baseException = some dbException →
      uniqueConstrainNames.getD [] ≠ [] →
        ¬ Unreadable dbException (uniqueConstrainNames.getD [])

/-- The function is called up to its first final outcome, but not more often than the budget
allows, and the last outcome is the one of the whole call. -/
def Bounded (func : Nat → Outcome T) (retryCount : Nat) (final : Attempts T) : Prop :=
  (∀ i, FirstFinal parser uniqueConstrainNames func i →
      final.invoked = min (i + 1) (retryCount + 1)) ∧
    ((∀ i, Retriable parser uniqueConstrainNames (func i)) → final.invoked = retryCount + 1) ∧
    final.result = some (func (final.invoked - 1))

/-- The parser does not throw on the first final outcome, or the same exception, if the budget
allows to get there. -/
def ParserReturns (func : Nat → Outcome T) (retryCount : Nat) : Prop :=
  ∀ i, FirstFinal parser uniqueConstrainNames func i → i ≤ retryCount →
    ∀ ex e, func i = .thrown ex → parser ex uniqueConstrainNames = .error e → e = ex

end Process

/-! ## One iteration -/

section Attempt

variable {parser : Parser} {uniqueConstrainNames : Names} {func : Nat → Outcome T}
  {s final : Attempts T} {i j retryCount : Nat}

theorem needRetry_eq_true {ex : Exn} :
    needRetry parser uniqueConstrainNames ex = .ok true ↔
      Retriable parser uniqueConstrainNames (.thrown ex : Outcome T) := by
  by_cases hdb : ex.isDBConcurrencyException = true <;> simp [needRetry, Retriable, hdb]

/-- A retriable exception within the budget. -/
theorem attempt_retriable (h : Retriable parser uniqueConstrainNames (func s.invoked))
    (hbudget : 0 < s.retryCount) :
    attempt parser uniqueConstrainNames func s =
      .ok (⟨s.retryCount - 1, s.invoked + 1, s.result⟩, true) := by
  unfold attempt
  cases hfunc : func s.invoked with
  | returned value =>
    rw [hfunc] at h
    cases h
  | thrown ex =>
    rw [hfunc] at h
    simp only [needRetry_eq_true.2 h, if_neg (Int.not_le.2 hbudget)]

/-- A retriable exception when the budget is used up. -/
theorem attempt_exhausted (h : Retriable parser uniqueConstrainNames (func s.invoked))
    (hbudget : s.retryCount ≤ 0) :
    attempt parser uniqueConstrainNames func s =
      .ok (⟨s.retryCount - 1, s.invoked + 1, some (func s.invoked)⟩, false) := by
  unfold attempt
  cases hfunc : func s.invoked with
  | returned value =>
    rw [hfunc] at h
    cases h
  | thrown ex =>
    rw [hfunc] at h
    simp only [needRetry_eq_true.2 h, if_pos hbudget]

/-- Any other outcome is the one of the whole call, unless the parser throws on it. -/
theorem attempt_final (h : ¬ Retriable parser uniqueConstrainNames (func s.invoked)) :
    ∃ outcome, attempt parser uniqueConstrainNames func s =
        .ok (⟨s.retryCount, s.invoked + 1, some outcome⟩, false) ∧
      ((∃ ex e, func s.invoked = .thrown ex ∧ parser ex uniqueConstrainNames = .error e ∧
          outcome = .thrown e) ∨
        outcome = func s.invoked ∧ ∀ ex e, func s.invoked = .thrown ex →
          parser ex uniqueConstrainNames ≠ .error e) := by
  unfold attempt
  cases hfunc : func s.invoked with
  | returned value =>
    refine ⟨.returned value, rfl, .inr ⟨rfl, ?_⟩⟩
    rintro ex e ⟨⟩
  | thrown ex =>
    rw [hfunc] at h
    have hnot : ¬ ex.isDBConcurrencyException = true := fun hdb => h (.inl hdb)
    have hneed : needRetry parser uniqueConstrainNames ex = parser ex uniqueConstrainNames :=
      if_neg hnot
    rw [← needRetry_eq_true, hneed] at h
    simp only [hneed]
    cases hparser : parser ex uniqueConstrainNames with
    | error e => exact ⟨.thrown e, rfl, .inl ⟨ex, e, rfl, hparser, rfl⟩⟩
    | ok retry =>
      cases retry with
      | true => exact absurd hparser h
      | false =>
        refine ⟨.thrown ex, rfl, .inr ⟨rfl, ?_⟩⟩
        rintro _ e ⟨⟩
        simp [hparser]

/-! ## The whole loop -/

/-- The first iterations, while the exceptions are retriable and the budget lasts. -/
theorem returns_of_retriable (h : ∀ i < j, Retriable parser uniqueConstrainNames (func i))
    (hj : j ≤ retryCount)
    (hrest : Returns (attempt parser uniqueConstrainNames func)
      ⟨(retryCount - j : Nat), j, none⟩ (.ok final)) :
    Ends parser uniqueConstrainNames func retryCount final := by
  induction j with
  | zero => exact hrest
  | succ j ih =>
    refine ih (fun i hi => h i (Nat.lt_succ_of_lt hi)) (Nat.le_of_succ_le hj) ?_
    refine returns_next (attempt_retriable (h j (Nat.lt_succ_self j)) ?_) ?_
    · change (0 : Int) < (retryCount - j : Nat)
      omega
    · have hbudget : ((retryCount - j : Nat) : Int) - 1 = (retryCount - (j + 1) : Nat) := by omega
      rw [hbudget]
      exact hrest

theorem ends_of_firstFinal (h : FirstFinal parser uniqueConstrainNames func i)
    (hi : i ≤ retryCount) :
    ∃ outcome, Ends parser uniqueConstrainNames func retryCount
        ⟨(retryCount - i : Nat), i + 1, some outcome⟩ ∧
      ((∃ ex e, func i = .thrown ex ∧ parser ex uniqueConstrainNames = .error e ∧
          outcome = .thrown e) ∨
        outcome = func i ∧ ∀ ex e, func i = .thrown ex →
          parser ex uniqueConstrainNames ≠ .error e) := by
  obtain ⟨outcome, hattempt, houtcome⟩ :=
    attempt_final (s := ⟨(retryCount - i : Nat), i, none⟩) h.2
  exact ⟨outcome, returns_of_retriable h.1 hi (returns_done hattempt), houtcome⟩

theorem ends_of_retriable
    (h : ∀ i ≤ retryCount, Retriable parser uniqueConstrainNames (func i)) :
    Ends parser uniqueConstrainNames func retryCount
      ⟨-1, retryCount + 1, some (func retryCount)⟩ := by
  refine returns_of_retriable (fun i hi => h i (Nat.le_of_lt hi)) (Nat.le_refl retryCount) ?_
  rw [Nat.sub_self]
  exact returns_done (attempt_exhausted (h retryCount (Nat.le_refl _)) (Int.le_refl 0))

theorem FirstFinal.unique (h : FirstFinal parser uniqueConstrainNames func i)
    (h' : FirstFinal parser uniqueConstrainNames func j) : i = j := by
  rcases Nat.lt_trichotomy i j with hlt | heq | hlt
  · exact absurd (h'.1 i hlt) h.2
  · exact heq
  · exact absurd (h.1 j hlt) h'.2

/-- Either a first final outcome comes within the budget, or the budget is used up. -/
theorem exists_firstFinal_or (parser : Parser) (uniqueConstrainNames : Names)
    (func : Nat → Outcome T) (retryCount : Nat) :
    (∃ i ≤ retryCount, FirstFinal parser uniqueConstrainNames func i) ∨
      ∀ i ≤ retryCount, Retriable parser uniqueConstrainNames (func i) := by
  induction retryCount with
  | zero =>
    by_cases h : Retriable parser uniqueConstrainNames (func 0)
    · right
      intro i hi
      rw [Nat.le_zero.1 hi]
      exact h
    · exact .inl ⟨0, Nat.le_refl 0, fun j hj => absurd hj (Nat.not_lt_zero j), h⟩
  | succ retryCount ih =>
    rcases ih with ⟨i, hi, hfirst⟩ | hall
    · exact .inl ⟨i, Nat.le_succ_of_le hi, hfirst⟩
    · by_cases h : Retriable parser uniqueConstrainNames (func (retryCount + 1))
      · right
        intro i hi
        rcases Nat.le_succ_iff.1 hi with hle | rfl
        · exact hall i hle
        · exact h
      · exact .inl ⟨retryCount + 1, Nat.le_refl _, fun j hj => hall j (Nat.le_of_lt_succ hj), h⟩

/-- The loop ends, as it should, exactly if the parser does not throw something else on the first
final outcome. -/
theorem ends_iff (func : Nat → Outcome T) (retryCount : Nat) :
    (∃ final, Ends parser uniqueConstrainNames func retryCount final ∧
        Bounded parser uniqueConstrainNames func retryCount final) ↔
      ParserReturns parser uniqueConstrainNames func retryCount := by
  constructor
  · rintro ⟨final, hends, -, -, hresult⟩ i hfirst hi ex e hfunc hparser
    obtain ⟨outcome, hends', hthrows | ⟨-, hreturns⟩⟩ := ends_of_firstFinal hfirst hi
    · obtain ⟨ex', e', hfunc', hparser', rfl⟩ := hthrows
      rw [hfunc] at hfunc'
      cases hfunc'
      rw [hparser] at hparser'
      cases hparser'
      have hfinal := Except.ok.inj (hends.unique hends')
      rw [hfinal, Nat.add_sub_cancel, hfunc] at hresult
      cases hresult
      rfl
    · exact absurd hparser (hreturns ex e hfunc)
  · intro hreturns
    rcases exists_firstFinal_or parser uniqueConstrainNames func retryCount with
      ⟨i, hi, hfirst⟩ | hall
    · obtain ⟨outcome, hends, houtcome⟩ := ends_of_firstFinal hfirst hi
      have hsame : outcome = func i := by
        rcases houtcome with ⟨ex, e, hfunc, hparser, rfl⟩ | ⟨heq, -⟩
        · rw [hfunc, hreturns i hfirst hi ex e hfunc hparser]
        · exact heq
      refine ⟨_, hends, ?_, ?_, ?_⟩
      · intro i' hfirst'
        rw [hfirst'.unique hfirst]
        exact (Nat.min_eq_left (Nat.succ_le_succ hi)).symm
      · exact fun hretriable => absurd (hretriable i) hfirst.2
      · rw [hsame, Nat.add_sub_cancel]
    · refine ⟨_, ends_of_retriable hall, ?_, ?_, ?_⟩
      · intro i hfirst
        have hlt : retryCount < i := by
          by_contra hle
          exact hfirst.2 (hall i (Nat.le_of_not_lt hle))
        exact (Nat.min_eq_right (Nat.succ_le_succ (Nat.le_of_lt hlt))).symm
      · exact fun _ => rfl
      · rfl

/-- What it takes of the parser with the registered handlers. -/
theorem parserReturns_iff (func : Nat → Outcome T) (retryCount : Nat) :
    ParserReturns (isUniqueConstrainException sqlUniqueConstrainHandlers) uniqueConstrainNames
        func retryCount ↔
      Readable uniqueConstrainNames func retryCount := by
  constructor
  · intro h i hfirst hi ex dbException hfunc hbase hnames hunreadable
    obtain ⟨e, hthrows⟩ := throws_iff.2 ⟨dbException, hbase, hnames, hunreadable⟩
    exact ne_of_throws hthrows (h i hfirst hi ex e hfunc hthrows)
  · intro h i hfirst hi ex e hfunc hthrows
    obtain ⟨dbException, hbase, hnames, hunreadable⟩ := throws_iff.1 ⟨e, hthrows⟩
    exact absurd hunreadable (h i hfirst hi ex dbException hfunc hbase hnames)

/-- An exception of Npgsql that the server has not sent, and so without a code. -/
def npgsqlException : Exn :=
  .thrown 0 false (some ⟨some "Npgsql", some "No password has been provided", none, none, none⟩)

theorem not_bounded_npgsql :
    ¬ ∃ final, ProcessAsyncOf (isUniqueConstrainException sqlUniqueConstrainHandlers)
        (some [some "IX_User_Name"]) (fun _ => (.thrown npgsqlException : Outcome Nat)) 50 final ∧
      Bounded (isUniqueConstrainException sqlUniqueConstrainHandlers)
        (some [some "IX_User_Name"]) (fun _ => (.thrown npgsqlException : Outcome Nat)) 50
        final := by
  rintro ⟨final, hends, -, -, hresult⟩
  have hattempt : attempt (isUniqueConstrainException sqlUniqueConstrainHandlers)
      (some [some "IX_User_Name"]) (fun _ => (.thrown npgsqlException : Outcome Nat))
      ⟨50, 0, none⟩ = .ok (⟨50, 1, some (.thrown .nullReferenceException)⟩, false) := rfl
  have hfinal := Except.ok.inj (Returns.unique hends (returns_done hattempt))
  rw [hfinal] at hresult
  cases hresult

/-- All four overloads, with any parser, and then with the registered handlers. -/
theorem process_iff (parser : Parser) (uniqueConstrainNames : Names) (func : Nat → Outcome T)
    (action : Nat → Outcome Unit) (retryCount : Nat) :
    ((∃ final, ProcessAsyncOf parser uniqueConstrainNames func retryCount final ∧
          Bounded parser uniqueConstrainNames func retryCount final) ↔
        ParserReturns parser uniqueConstrainNames func retryCount) ∧
      ((∃ final, ProcessAsync parser uniqueConstrainNames action retryCount final ∧
          Bounded parser uniqueConstrainNames action retryCount final) ↔
        ParserReturns parser uniqueConstrainNames action retryCount) ∧
      ((∃ final, Process parser uniqueConstrainNames action retryCount final ∧
          Bounded parser uniqueConstrainNames action retryCount final) ↔
        ParserReturns parser uniqueConstrainNames action retryCount) ∧
      ((∃ final, ProcessOf parser uniqueConstrainNames func retryCount final ∧
          Bounded parser uniqueConstrainNames func retryCount final) ↔
        ParserReturns parser uniqueConstrainNames func retryCount) ∧
      (ParserReturns (isUniqueConstrainException sqlUniqueConstrainHandlers) uniqueConstrainNames
          func retryCount ↔ Readable uniqueConstrainNames func retryCount) ∧
      (ParserReturns (isUniqueConstrainException sqlUniqueConstrainHandlers) uniqueConstrainNames
          action retryCount ↔ Readable uniqueConstrainNames action retryCount) :=
  ⟨ends_iff func retryCount, ends_iff action retryCount, ends_iff action retryCount,
    ends_iff func retryCount, parserReturns_iff func retryCount,
    parserReturns_iff action retryCount⟩

end Attempt

end IFramework.Infrastructure.ConcurrencyProcessor
