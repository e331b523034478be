import Mathlib.Data.List.Basic

/-!
# The tokens of a SQL text

Words, string literals, delimited identifiers and single symbols, with the rules of the standard for
them: a quote inside a literal is written twice, blanks and comments separate tokens. `scan` reads
the characters from left to right, with what has been read of the current token as its mode, so a
text can be read in pieces (`scan_append`). `cost` is the number of characters that some tokens need
at the least, and `cost_le_length` says that no text has more tokens than fit into it.
-/

namespace SqlLexer

inductive Token where
  | word (name : List Char)
  | identifier (name : List Char)
  | literal (value : List Char)
  | symbol (c : Char)
  deriving DecidableEq, Repr

/-- What has been read of the current token. -/
inductive Mode where
  | start
  | word (name : List Char)
  | literal (value : List Char)
  /-- A quote has been read in a literal: its end, or the first half of a quote. -/
  | quote (value : List Char)
  | identifier (name : List Char)
  | identifierQuote (name : List Char)
  | dash
  | lineComment
  | slash
  | comment
  | commentStar
  deriving DecidableEq, Repr

def isWordChar (c : Char) : Bool := c.isAlphanum || c == '_'

/-- A character between two tokens. -/
def stepStart (c : Char) : List Token × Mode :=
  if c.isWhitespace then ([], .start)
  else if isWordChar c then ([], .word [c])
  else if c = '\'' then ([], .literal [])
  else if c = '"' then ([], .identifier [])
  else if c = '-' then ([], .dash)
  else if c = '/' then ([], .slash)
  else ([.symbol c], .start)

/-- A character that ends the token before it. -/
def stepEnd (token : Token) (c : Char) : List Token × Mode :=
  (token :: (stepStart c).1, (stepStart c).2)

/-- The tokens that a character completes, and the mode after it. -/
def step : Mode → Char → List Token × Mode
  | .start, c => stepStart c
  | .word name, c => if isWordChar c then ([], .word (name ++ [c])) else stepEnd (.word name) c
  | .literal value, c => if c = '\'' then ([], .quote value) else ([], .literal (value ++ [c]))
  | .quote value, c =>
    if c = '\'' then ([], .literal (value ++ [c])) else stepEnd (.literal value) c
  | .identifier name, c =>
    if c = '"' then ([], .identifierQuote name) else ([], .identifier (name ++ [c]))
  | .identifierQuote name, c =>
    if c = '"' then ([], .identifier (name ++ [c])) else stepEnd (.identifier name) c
  | .dash, c => if c = '-' then ([], .lineComment) else stepEnd (.symbol '-') c
  | .lineComment, c => if c = '\n' then ([], .start) else ([], .lineComment)
  | .slash, c => if c = '*' then ([], .comment) else stepEnd (.symbol '/') c
  | .comment, c => if c = '*' then ([], .commentStar) else ([], .comment)
  | .commentStar, c =>
    if c = '/' then ([], .start) else if c = '*' then ([], .commentStar) else ([], .comment)

/-- The end of the text. A literal, an identifier or a comment must have been closed. -/
def finish : Mode → Option (List Token)
  | .start => some []
  | .word name => some [.word name]
  | .quote value => some [.literal value]
  | .identifierQuote name => some [.identifier name]
  | .dash => some [.symbol '-']
  | .lineComment => some []
  | .slash => some [.symbol '/']
  | _ => none

def scan : Mode → List Char → List Token × Mode
  | m, [] => ([], m)
  | m, c :: cs => ((step m c).1 ++ (scan (step m c).2 cs).1, (scan (step m c).2 cs).2)

/-- The tokens of a text, `none` if it ends within one. -/
def lex (text : List Char) : Option (List Token) :=
  (finish (scan .start text).2).map fun tokens => (scan .start text).1 ++ tokens

/-! ## A text in pieces -/

theorem scan_append (m : Mode) (cs ds : List Char) :
    scan m (cs ++ ds) =
      ((scan m cs).1 ++ (scan (scan m cs).2 ds).1, (scan (scan m cs).2 ds).2) := by
  induction cs generalizing m with
  | nil => rfl
  | cons c cs ih => simp only [List.cons_append, scan, ih, List.append_assoc]

theorem lex_append {cs : List Char} {tokens : List Token} (h : scan .start cs = (tokens, .start))
    (ds : List Char) : lex (cs ++ ds) = (lex ds).map (tokens ++ ·) := by
  simp [lex, scan_append, h, Function.comp_def]

theorem scan_literal {cs : List Char} (h : '\'' ∉ cs) (value : List Char) :
    scan (.literal value) cs = ([], .literal (value ++ cs)) := by
  induction cs generalizing value with
  | nil => simp [scan]
  | cons c cs ih =>
    have hc : c ≠ '\'' := fun hc => h (hc ▸ List.mem_cons_self)
    have hcs := ih (fun hmem => h (List.mem_cons_of_mem c hmem)) (value ++ [c])
    simp only [scan, step, if_neg hc, hcs, List.append_assoc, List.singleton_append,
      List.nil_append]

/-! ## How many characters the tokens need -/

/-- The characters of a token, with each quote inside a literal or an identifier twice. -/
def Token.cost : Token → Nat
  | .word name => name.length
  | .identifier name => name.length + name.count '"' + 2
  | .literal value => value.length + value.count '\'' + 2
  | .symbol _ => 1

def cost : List Token → Nat
  | [] => 0
  | token :: tokens => token.cost + cost tokens

@[simp] theorem cost_nil : cost [] = 0 := rfl

@[simp] theorem cost_cons (token : Token) (tokens : List Token) :
    cost (token :: tokens) = token.cost + cost tokens := rfl

@[simp] theorem cost_append (tokens tokens' : List Token) :
    cost (tokens ++ tokens') = cost tokens + cost tokens' := by
  induction tokens with
  | nil => simp
  | cons token tokens ih => simp [ih, Nat.add_assoc]

/-- The characters of the current token that have been read. -/
def Mode.cost : Mode → Nat
  | .word name => name.length
  | .literal value => value.length + value.count '\'' + 1
  | .quote value => value.length + value.count '\'' + 2
  | .identifier name => name.length + name.count '"' + 1
  | .identifierQuote name => name.length + name.count '"' + 2
  | .dash => 1
  | .slash => 1
  | _ => 0

theorem cost_stepStart (c : Char) :
    SqlLexer.cost (stepStart c).1 + (stepStart c).2.cost ≤ 1 := by
  unfold stepStart
  split_ifs <;> simp [Mode.cost, Token.cost]

theorem cost_stepEnd (token : Token) (c : Char) :
    SqlLexer.cost (stepEnd token c).1 + (stepEnd token c).2.cost ≤ token.cost + 1 := by
  have hstart := cost_stepStart c
  simp only [stepEnd, cost_cons]
  omega

theorem cost_step (m : Mode) (c : Char) :
    SqlLexer.cost (step m c).1 + (step m c).2.cost ≤ m.cost + 1 := by
  cases m with
  | start =>
    exact cost_stepStart c
  | word name =>
    rw [step]
    split_ifs
    · simp [Mode.cost]
    · exact cost_stepEnd (.word name) c
  | literal value =>
    rw [step]
    split_ifs with hc
    · simp [Mode.cost]
    · simp [Mode.cost, hc]
      omega
  | quote value =>
    rw [step]
    split_ifs with hc
    · simp [Mode.cost, hc]
      omega
    · exact cost_stepEnd (.literal value) c
  | identifier name =>
    rw [step]
    split_ifs with hc
    · simp [Mode.cost]
    · simp [Mode.cost, hc]
      omega
  | identifierQuote name =>
    rw [step]
    split_ifs with hc
    · simp [Mode.cost, hc]
      omega
    · exact cost_stepEnd (.identifier name) c
  | dash =>
    rw [step]
    split_ifs
    · simp [Mode.cost]
    · exact cost_stepEnd (.symbol '-') c
  | slash =>
    rw [step]
    split_ifs
    · simp [Mode.cost]
    · exact cost_stepEnd (.symbol '/') c
  | lineComment => rw [step]; split_ifs <;> simp [Mode.cost]
  | comment => rw [step]; split_ifs <;> simp [Mode.cost]
  | commentStar => rw [step]; split_ifs <;> simp [Mode.cost]

theorem cost_scan (m : Mode) (cs : List Char) :
    SqlLexer.cost (scan m cs).1 + (scan m cs).2.cost ≤ m.cost + cs.length := by
  induction cs generalizing m with
  | nil => simp [scan]
  | cons c cs ih =>
    have hstep := cost_step m c
    have hrest := ih (step m c).2
    simp only [scan, cost_append, List.length_cons]
    omega

theorem cost_finish {m : Mode} {tokens : List Token} (h : finish m = some tokens) :
    SqlLexer.cost tokens ≤ m.cost := by
  cases m <;> cases h <;> simp [Mode.cost, Token.cost]

theorem cost_le_length {text : List Char} {tokens : List Token} (h : lex text = some tokens) :
    SqlLexer.cost tokens ≤ text.length := by
  obtain ⟨last, hlast, rfl⟩ := Option.map_eq_some_iff.1 h
  have hscan := cost_scan .start text
  have hfinish := cost_finish hlast
  have hstart : Mode.start.cost = 0 := rfl
  rw [cost_append]
  omega

end SqlLexer
