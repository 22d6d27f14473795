import Reckoner.Expr
import Reckoner.TokenStream

/-!
# Parsing

A parser by recursive descent with one token of lookahead:

    expr    := term (('+' | '-') term)*
    term    := unary (('*' | '/') unary)*
    unary   := '-' unary | primary
    primary := number | '(' expr ')' | function '(' expr (',' expr)* ')'

Binary operators nest to the left, and the number of arguments is checked once a call has been read
completely. Each level of the grammar is a function of the parser for the next one, and `unary`
closes the circle: it alone recurs, on the number of times it may still be entered. Chains of
operators and lists of arguments are loops, so their length costs no depth.

A parser keeps the stream as it was when an error arose.
-/

namespace Reckoner

/-- Reads tokens from a stream; on an error the stream stays as it was when the error arose. -/
abbrev Parser := EStateM CalcError TokenStream

namespace Parser

/-- What a missing operand is called in messages. -/
def operandName : String := "an operand"

/-- Takes the next token, if there is one. -/
def advance : Parser (Option Token) := fun s =>
  match s.pending with
  | [] => .ok none s
  | [t] =>
    match s.failure with
    | none => .ok (some t) ⟨[], none⟩
    | some e => .error e ⟨[t], none⟩
  | t :: rest => .ok (some t) ⟨rest, s.failure⟩

/-- The next token is of the kind, and of one of the values if any are given. -/
def isAt (kind : TokenKind) (values : List String) (s : TokenStream) : Bool :=
  match s.lookahead with
  | none => false
  | some t =>
    t.kind == kind && (values.isEmpty || values.any fun v => t.value == .text v)

/-- Takes a token of the kind; `expected` says in messages what should have stood there. -/
def expect (kind : TokenKind) (expected : String) : Parser Token := fun s =>
  match s.lookahead with
  | none => .error (.unexpectedEnd expected) s
  | some t =>
    if t.kind = kind then (advance.map fun _ => t) s
    else .error (.unexpectedToken t expected) s

/-- Takes an operator with one of the symbols, if one comes next, and answers the symbol. -/
def operator? (symbols : List String) : Parser (Option String) := fun s =>
  match s.lookahead with
  | some ⟨.operator, .text symbol, _⟩ =>
    if symbol ∈ symbols then (advance.map fun _ => some symbol) s else .ok none s
  | _ => .ok none s

/-- Goes on after an operand: as long as one of the operators comes next, it and another operand
are read and the tree so far becomes the left operand. There are at most as many rounds as pending
tokens. -/
def chainFrom (symbols : List String) (operand : Parser Expr) :
    (rounds : Nat) → Expr → Parser Expr
  | 0, left => pure left
  | rounds + 1, left => do
    match ← operator? symbols with
    | none => pure left
    | some op =>
      let right ← operand
      chainFrom symbols operand rounds (.binary op left right)

/-- Operands joined by operators of one precedence. -/
def chain (symbols : List String) (operand : Parser Expr) : Parser Expr := do
  let first ← operand
  let s ← get
  chainFrom symbols operand s.pending.length first

/-- A term, for a parser of its operands. -/
def termOf (operand : Parser Expr) : Parser Expr := chain ["*", "/"] operand

/-- An expression, for a parser of the operands of its terms. -/
def exprOf (operand : Parser Expr) : Parser Expr := chain ["+", "-"] (termOf operand)

/-- Arguments after the first, each behind a comma. There are at most as many rounds as pending
tokens. -/
def moreArgs (expr : Parser Expr) : (rounds : Nat) → Parser (List Expr)
  | 0 => pure []
  | rounds + 1 => do
    if isAt .comma [] (← get) then
      let _ ← advance
      let arg ← expr
      let rest ← moreArgs expr rounds
      pure (arg :: rest)
    else pure []

/-- The arguments of a call, up to the closing parenthesis. -/
def args (expr : Parser Expr) : Parser (List Expr) := do
  if isAt .rparen [] (← get) then pure []
  else
    let first ← expr
    let s ← get
    let rest ← moreArgs expr s.pending.length
    pure (first :: rest)

/-- The call of a function by its name in the table, with as many arguments as it takes. -/
def checkedCall (function : Payload) (args : List Expr) : Except CalcError Expr :=
  match function.function? with
  | none => .error (.unknownKey function)
  | some f =>
    if args.length = f.arity then .ok (.call f.name args)
    else .error (.wrongArity f.name f.arity args.length)

/-- The rest of a call, after the function's name. -/
def callOf (expr : Parser Expr) (function : Payload) : Parser Expr := do
  let _ ← expect .lparen "'('"
  let args ← args expr
  let _ ← expect .rparen "',' or ')'"
  match checkedCall function args with
  | .ok e => pure e
  | .error e => throw e

/-- A number, an expression in parentheses or a call. -/
def primaryOf (expr : Parser Expr) : Parser Expr := do
  match (← get).lookahead with
  | none => throw (.unexpectedEnd operandName)
  | some t =>
    match t.kind with
    | .number =>
      let _ ← advance
      pure (.literal t.value)
    | .lparen =>
      let _ ← advance
      let e ← expr
      let _ ← expect .rparen "')'"
      pure e
    | .function =>
      let _ ← advance
      callOf expr t.value
    | _ => throw (.unexpectedToken t operandName)

/-- An operand with any number of minus signs in front of it, for `depth` nested readings of
operands at most. -/
def unary : (depth : Nat) → Parser Expr
  | 0 => throw .nestedTooDeeply
  | depth + 1 => do
    match ← operator? ["-"] with
    | some _ =>
      let e ← unary depth
      pure (.negate e)
    | none => primaryOf (exprOf (unary depth))

/-- A term. -/
def term (depth : Nat) : Parser Expr := termOf (unary depth)

/-- An expression. -/
def expr (depth : Nat) : Parser Expr := exprOf (unary depth)

/-- A number, an expression in parentheses or a call. -/
def primary (depth : Nat) : Parser Expr := primaryOf (expr depth)

/-- The rest of a call, after the function's name. -/
def call (depth : Nat) (function : Payload) : Parser Expr := callOf (expr depth) function

/-- An expression that takes up all tokens. -/
def whole (depth : Nat) : Parser Expr := do
  if (← get).lookahead.isNone then throw (.unexpectedEnd operandName)
  let e ← expr depth
  match (← get).lookahead with
  | none => pure e
  | some t => throw (.unexpectedToken t "end of input")

/-- Runs a parser on a stream from its first token and drops what it leaves. -/
def run {α : Type} (p : Parser α) (s : TokenStream) : Except CalcError α := do
  let s ← s.opened
  match p s with
  | .ok a _ => .ok a
  | .error e _ => .error e

end Parser

/-- The expression that a stream of tokens spells, for `depth` nested readings of operands at
most. -/
def TokenStream.parse (depth : Nat) (s : TokenStream) : Except CalcError Expr :=
  (Parser.whole depth).run s

end Reckoner
