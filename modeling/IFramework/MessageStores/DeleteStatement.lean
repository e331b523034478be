import IFramework.Theory.SqlLexer

/-!
# The delete statement of the daemon

The relational `MessageStoreDaemon` puts the ids between quotes into the text of a statement and
gives it to `ExecuteSqlRaw`, which takes it for a composite format. `namesExactly_iff` says for
which ids the statement names exactly these: a quote in an id ends the literal, and a brace is an
escape or an error of the format.

The database is a parameter. `Database.Deletes` is what is assumed of it, and only for texts that
are read as such a statement; what it makes of any other text is open.
-/

namespace IFramework.Outboxes

open SqlLexer

/-! ## The text -/

/-- `string.Format` without arguments: braces are written twice, and there is nothing that an item
could refer to. -/
def stringFormat : List Char → Option (List Char)
  | [] => some []
  | c :: rest =>
    if c = '\x7b' ∨ c = '\x7d' then
      match rest with
      | [] => none
      | c' :: rest => if c' = c then (stringFormat rest).map (c :: ·) else none
    else (stringFormat rest).map (c :: ·)

/-- `'id'`. -/
def quoted (id : List Char) : List Char := ['\''] ++ id ++ ['\'']

/-- The statement for a table. -/
def deleteSql (table : String) (ids : List (List Char)) : List Char :=
  "delete from ".toList ++ table.toList ++ " where Id in (".toList ++
    List.intercalate [','] (ids.map quoted) ++ [')']

def deleteCommandsSql : List (List Char) → List Char := deleteSql "msgs_UnSentCommands"

def deleteEventsSql : List (List Char) → List Char := deleteSql "msgs_UnPublishedEvents"

/-! ## What it should be -/

/-- The list behind `in`, with its end. -/
def inTokens (ids : List (List Char)) : List Token :=
  (ids.map Token.literal).intersperse (.symbol ',') ++ [.symbol ')']

/-- One `delete` statement with exactly these literals. -/
def deleteTokens (table : String) (ids : List (List Char)) : List Token :=
  [.word "delete".toList, .word "from".toList, .word table.toList, .word "where".toList,
    .word "Id".toList, .word "in".toList, .symbol '('] ++ inTokens ids

/-- The text, formatted and read, is the statement with these ids. -/
def NamesExactly (table : String) (sql : List Char) (ids : List (List Char)) : Prop :=
  (stringFormat sql).bind lex = some (deleteTokens table ids)

instance (table : String) (sql : List Char) (ids : List (List Char)) :
    Decidable (NamesExactly table sql ids) := inferInstanceAs (Decidable (_ = _))

/-- An id without quotes and braces. -/
def Plain (id : List Char) : Prop := '\'' ∉ id ∧ '\x7b' ∉ id ∧ '\x7d' ∉ id

instance : DecidablePred Plain := fun _ => inferInstanceAs (Decidable (_ ∧ _))

/-! ## The format -/

theorem stringFormat_cons {c : Char} (h : ¬ (c = '\x7b' ∨ c = '\x7d')) (s : List Char) :
    stringFormat (c :: s) = (stringFormat s).map (c :: ·) := by
  rw [stringFormat.eq_def]
  exact if_neg h

theorem stringFormat_spec {s t : List Char} (h : stringFormat s = some t) :
    t.length ≤ s.length ∧ (t.length = s.length → '\x7b' ∉ s ∧ '\x7d' ∉ s) := by
  induction s using stringFormat.induct generalizing t with
  | case1 =>
    cases h
    simp
  | case2 c hbrace => simp [stringFormat, hbrace] at h
  | case3 c rest hbrace ih =>
    simp only [stringFormat, if_pos hbrace, if_true] at h
    obtain ⟨t, ht, rfl⟩ := Option.map_eq_some_iff.1 h
    have hlen := (ih ht).1
    simp only [List.length_cons]
    omega
  | case4 c hbrace c' rest hne =>
    simp [stringFormat, hbrace, hne] at h
  | case5 c rest hplain ih =>
    rw [stringFormat_cons hplain] at h
    obtain ⟨t, ht, rfl⟩ := Option.map_eq_some_iff.1 h
    obtain ⟨hopen, hclose⟩ := not_or.1 hplain
    obtain ⟨hlen, hsame⟩ := ih ht
    refine ⟨Nat.succ_le_succ hlen, fun heq => ?_⟩
    obtain ⟨hno, hnc⟩ := hsame (Nat.succ.inj heq)
    exact ⟨List.not_mem_cons_of_ne_of_not_mem (Ne.symm hopen) hno,
      List.not_mem_cons_of_ne_of_not_mem (Ne.symm hclose) hnc⟩

theorem stringFormat_append {s : List Char} (hopen : '\x7b' ∉ s) (hclose : '\x7d' ∉ s)
    (t : List Char) : stringFormat (s ++ t) = (stringFormat t).map (s ++ ·) := by
  induction s with
  | nil => simp
  | cons c s ih =>
    have hplain : ¬ (c = '\x7b' ∨ c = '\x7d') := by
      rintro (rfl | rfl)
      · exact hopen List.mem_cons_self
      · exact hclose List.mem_cons_self
    rw [List.cons_append, stringFormat_cons hplain,
      ih (fun h => hopen (List.mem_cons_of_mem c h)) fun h => hclose (List.mem_cons_of_mem c h),
      Option.map_map]
    rfl

theorem stringFormat_of_plain {s : List Char} (hopen : '\x7b' ∉ s) (hclose : '\x7d' ∉ s) :
    stringFormat s = some s := by
  have happend := stringFormat_append hopen hclose []
  rw [List.append_nil] at happend
  simpa [stringFormat] using happend

/-! ## The list of ids -/

/-- The list behind `in` and its end, as text. -/
def inText (ids : List (List Char)) : List Char :=
  List.intercalate [','] (ids.map quoted) ++ [')']

theorem inText_single (id : List Char) : inText [id] = quoted id ++ [')'] := by
  simp [inText, List.intercalate]

theorem inText_cons (id id' : List Char) (ids : List (List Char)) :
    inText (id :: id' :: ids) = quoted id ++ [','] ++ inText (id' :: ids) := by
  simp [inText, List.intercalate]

theorem inTokens_cons (id id' : List Char) (ids : List (List Char)) :
    inTokens (id :: id' :: ids) = [.literal id, .symbol ','] ++ inTokens (id' :: ids) := by
  simp [inTokens]

theorem scan_quoted {id : List Char} (h : '\'' ∉ id) (c : Char) (hc : c ≠ '\'') :
    scan .start (quoted id ++ [c]) = (.literal id :: (stepStart c).1, (stepStart c).2) := by
  have hopen : scan .start ['\''] = ([], .literal []) := by decide
  have hclose : scan (.literal id) ['\''] = ([], .quote id) := rfl
  have hnext : scan (.quote id) [c] = (.literal id :: (stepStart c).1, (stepStart c).2) := by
    simp [scan, step, hc, stepEnd]
  simp only [quoted, scan_append, hopen, scan_literal h, List.nil_append, hclose, hnext]

theorem lex_inText {ids : List (List Char)} (h : ∀ id ∈ ids, '\'' ∉ id) :
    lex (inText ids) = some (inTokens ids) := by
  have hcomma : stepStart ',' = ([.symbol ','], .start) := by decide
  have hparen : stepStart ')' = ([.symbol ')'], .start) := by decide
  induction ids with
  | nil => decide
  | cons id ids ih =>
    have hid := h id List.mem_cons_self
    cases ids with
    | nil =>
      have hscan := scan_quoted hid ')' (by decide)
      rw [inText_single, ← List.append_nil (quoted id ++ [')']),
        lex_append (hscan.trans (by rw [hparen]))]
      rfl
    | cons id' ids =>
      have hscan := scan_quoted hid ',' (by decide)
      rw [inText_cons, lex_append (hscan.trans (by rw [hcomma])),
        ih (fun id'' hid'' => h id'' (List.mem_cons_of_mem id hid'')), inTokens_cons]
      rfl

/-- A text of the list has no characters for a quote more. -/
theorem cost_inTokens (ids : List (List Char)) :
    cost (inTokens ids) = (inText ids).length + ids.flatten.count '\'' := by
  induction ids with
  | nil => decide
  | cons id ids ih =>
    cases ids with
    | nil =>
      rw [inText_single]
      simp [inTokens, quoted, Token.cost, cost]
      omega
    | cons id' ids =>
      rw [inText_cons, inTokens_cons, cost_append, ih]
      simp [quoted, Token.cost]
      omega

/-- The ids are in the text, and nothing else than separators. -/
theorem mem_inText_iff {ids : List (List Char)} {c : Char} (hc : c ∉ ['\'', ',', ')']) :
    c ∈ inText ids ↔ ∃ id ∈ ids, c ∈ id := by
  simp only [List.mem_cons, List.not_mem_nil, or_false, not_or] at hc
  obtain ⟨hquote, hcomma, hparen⟩ := hc
  induction ids with
  | nil => simp [inText, hparen]
  | cons id ids ih =>
    cases ids with
    | nil => simp [inText_single, quoted, hquote, hparen]
    | cons id' ids =>
      rw [inText_cons, List.mem_append, ih]
      simp [quoted, hquote, hcomma]

/-- The text of a list is read as the list exactly if no id has a quote or a brace. -/
theorem inText_iff (ids : List (List Char)) :
    (stringFormat (inText ids)).bind lex = some (inTokens ids) ↔ ∀ id ∈ ids, Plain id := by
  constructor
  · intro h id hid
    obtain ⟨text, htext, hlex⟩ := Option.bind_eq_some_iff.1 h
    have hfit := cost_le_length hlex
    obtain ⟨hlen, hbraces⟩ := stringFormat_spec htext
    rw [cost_inTokens] at hfit
    obtain ⟨hopen, hclose⟩ := hbraces (by omega)
    have hquote : '\'' ∉ ids.flatten := List.count_eq_zero.1 (by omega)
    exact ⟨fun hc => hquote (List.mem_flatten_of_mem hid hc),
      fun hc => hopen ((mem_inText_iff (by decide)).2 ⟨id, hid, hc⟩),
      fun hc => hclose ((mem_inText_iff (by decide)).2 ⟨id, hid, hc⟩)⟩
  · intro h
    have hopen : '\x7b' ∉ inText ids := by
      rw [mem_inText_iff (by decide)]
      rintro ⟨id, hid, hc⟩
      exact (h id hid).2.1 hc
    have hclose : '\x7d' ∉ inText ids := by
      rw [mem_inText_iff (by decide)]
      rintro ⟨id, hid, hc⟩
      exact (h id hid).2.2 hc
    rw [stringFormat_of_plain hopen hclose]
    exact lex_inText fun id hid => (h id hid).1

/-! ## The statements -/

/-- The text in front of the list. -/
def inPrefix (table : String) : List Char :=
  "delete from ".toList ++ table.toList ++ " where Id in (".toList

/-- The tokens in front of the list. -/
def inPrefixTokens (table : String) : List Token :=
  [.word "delete".toList, .word "from".toList, .word table.toList, .word "where".toList,
    .word "Id".toList, .word "in".toList, .symbol '(']

theorem namesExactly_deleteSql_iff (table : String) (hopen : '\x7b' ∉ inPrefix table)
    (hclose : '\x7d' ∉ inPrefix table)
    (hscan : scan .start (inPrefix table) = (inPrefixTokens table, .start))
    (ids : List (List Char)) :
    NamesExactly table (deleteSql table ids) ids ↔ ∀ id ∈ ids, Plain id := by
  have hsql : deleteSql table ids = inPrefix table ++ inText ids :=
    List.append_assoc (inPrefix table) (List.intercalate [','] (ids.map quoted)) [')']
  have hread : (stringFormat (deleteSql table ids)).bind lex =
      ((stringFormat (inText ids)).bind lex).map (inPrefixTokens table ++ ·) := by
    rw [hsql, stringFormat_append hopen hclose]
    cases stringFormat (inText ids) with
    | none => rfl
    | some text => exact lex_append hscan text
  have htokens : deleteTokens table ids = inPrefixTokens table ++ inTokens ids := rfl
  rw [← inText_iff, NamesExactly, hread, htokens, Option.map_eq_some_iff]
  constructor
  · rintro ⟨tokens, hlex, heq⟩
    rw [hlex, List.append_cancel_left heq]
  · intro hlex
    exact ⟨inTokens ids, hlex, rfl⟩

theorem namesExactly_deleteCommandsSql_iff (ids : List (List Char)) :
    NamesExactly "msgs_UnSentCommands" (deleteCommandsSql ids) ids ↔ ∀ id ∈ ids, Plain id :=
  namesExactly_deleteSql_iff "msgs_UnSentCommands" (by decide) (by decide) (by decide) ids

theorem namesExactly_deleteEventsSql_iff (ids : List (List Char)) :
    NamesExactly "msgs_UnPublishedEvents" (deleteEventsSql ids) ids ↔ ∀ id ∈ ids, Plain id :=
  namesExactly_deleteSql_iff "msgs_UnPublishedEvents" (by decide) (by decide) (by decide) ids

/-- The statement of either table names the ids exactly if none has a quote or a brace. -/
theorem namesExactly_iff (ids : List (List Char)) :
    (NamesExactly "msgs_UnSentCommands" (deleteCommandsSql ids) ids ↔ ∀ id ∈ ids, Plain id) ∧
      (NamesExactly "msgs_UnPublishedEvents" (deleteEventsSql ids) ids ↔
        ∀ id ∈ ids, Plain id) :=
  ⟨namesExactly_deleteCommandsSql_iff ids, namesExactly_deleteEventsSql_iff ids⟩

/-- A command whose id has a quote. -/
theorem not_namesExactly_quote :
    ¬ NamesExactly "msgs_UnSentCommands" (deleteCommandsSql ["o'neill".toList])
      ["o'neill".toList] := by
  intro hnames
  have hplain := (namesExactly_deleteCommandsSql_iff _).1 hnames _ List.mem_cons_self
  exact hplain.1 (by decide)

/-! ## The execution -/

/-- `MessageType` of the daemon. -/
inductive MessageType where
  | command
  | event
  deriving DecidableEq, Repr

/-- The table of the messages of a type. -/
def MessageType.table : MessageType → String
  | .command => "msgs_UnSentCommands"
  | .event => "msgs_UnPublishedEvents"

/-- What a database makes of its tables when it executes a text, `none` if it throws. -/
abbrev Database (T : Type) := List Char → T → Option T

section Execution

variable {T : Type} {database : Database T} {delete : MessageType → List String → T → T}

/-- `ExecuteSqlRaw` without parameters. A text that is no composite format throws before the
database sees it. -/
def executeSqlRaw (database : Database T) (sql : List Char) (tables : T) : Option T :=
  (stringFormat sql).bind fun text => database text tables

/-- `RemoveUnSentCommands` and `RemoveUnPublishedEvents` of a relational store, called only if there
is something to remove. -/
def removeUnSent (database : Database T) (type : MessageType) (ids : List String) (tables : T) :
    Option T :=
  if ids = [] then some tables
  else
    match type with
    | .command => executeSqlRaw database (deleteCommandsSql (ids.map String.toList)) tables
    | .event => executeSqlRaw database (deleteEventsSql (ids.map String.toList)) tables

/-- Trusted: a text that is read as one `delete` statement with string literals deletes the rows of
the table that have one of these ids. -/
def Database.Deletes (database : Database T) (delete : MessageType → List String → T → T) : Prop :=
  ∀ type text ids tables, ids ≠ [] →
    lex text = some (deleteTokens (type.table) (ids.map String.toList)) →
    database text tables = some (delete type ids tables)

theorem executeSqlRaw_of_namesExactly (h : database.Deletes delete) (type : MessageType)
    {sql : List Char} {ids : List String} (hids : ids ≠ [])
    (hnames : NamesExactly type.table sql (ids.map String.toList)) (tables : T) :
    executeSqlRaw database sql tables = some (delete type ids tables) := by
  obtain ⟨text, htext, hlex⟩ := Option.bind_eq_some_iff.1 hnames
  rw [executeSqlRaw, htext]
  exact h type text ids tables hids hlex

/-- With plain ids the statement deletes what it is meant to delete. -/
theorem removeUnSent_of_plain (h : database.Deletes delete) (type : MessageType)
    {ids : List String} (hplain : ∀ id ∈ ids, Plain id.toList) (tables : T) :
    removeUnSent database type ids tables =
      some (if ids = [] then tables else delete type ids tables) := by
  have hchars : ∀ id ∈ ids.map String.toList, Plain id := List.forall_mem_map.2 hplain
  unfold removeUnSent
  split_ifs with hids
  · rfl
  · cases type with
    | command =>
      have hnames := (namesExactly_deleteCommandsSql_iff _).2 hchars
      exact executeSqlRaw_of_namesExactly h .command hids hnames tables
    | event =>
      have hnames := (namesExactly_deleteEventsSql_iff _).2 hchars
      exact executeSqlRaw_of_namesExactly h .event hids hnames tables

/-! ### A database that knows no other statements -/

/-- The string literals among the tokens. -/
def literals : List Token → List String :=
  List.filterMap fun
    | .literal value => some (String.ofList value)
    | _ => none

/-- Executes a `delete` on one of the two tables; everything else is an error. -/
def deleteOnly (delete : MessageType → List String → T → T) : Database T := fun text tables =>
  match lex text with
  | some (_ :: _ :: .word table :: rest) =>
    if table = MessageType.command.table.toList then
      some (delete .command (literals rest) tables)
    else if table = MessageType.event.table.toList then
      some (delete .event (literals rest) tables)
    else none
  | _ => none

theorem literals_inTokens (ids : List String) :
    literals (inTokens (ids.map String.toList)) = ids := by
  induction ids with
  | nil => rfl
  | cons id ids ih =>
    cases ids with
    | nil => simp [literals, inTokens]
    | cons id' ids =>
      rw [List.map_cons, List.map_cons, inTokens_cons]
      rw [List.map_cons] at ih
      simp only [literals, List.cons_append, List.filterMap_cons, List.nil_append] at ih ⊢
      rw [ih, String.ofList_toList]

theorem deleteOnly_deletes (delete : MessageType → List String → T → T) :
    (deleteOnly delete).Deletes delete := by
  intro type text ids tables _ hlex
  have hliterals := literals_inTokens ids
  have hne : MessageType.event.table.toList ≠ MessageType.command.table.toList := by decide
  simp only [literals] at hliterals
  cases type with
  | command => simp [deleteOnly, hlex, deleteTokens, literals, hliterals]
  | event => simp [deleteOnly, hlex, deleteTokens, literals, hliterals, hne]

end Execution

end IFramework.Outboxes
