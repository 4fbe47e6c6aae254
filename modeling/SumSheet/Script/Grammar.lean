/-
SumSheet.Script.Grammar — from tokens to expressions and functions.

Expressions nest only so deep. Every construct that holds another one
takes a level away from those that are left: a pair of parentheses and a
call take two, a sign in front of an operand and every operator of a
chain take one. The parsers are built level by level on that measure:
`Grammar.within n` holds the parsers that have `n` levels left, and each
of them refers only to `Grammar.within (n - 1)`. That is why they
terminate, and why an expression nested too deeply is refused.

  §1 Parsers    — functions from tokens to a result and the tokens left.
  §2 Operators  — precedence, and what an operator builds.
  §3 One level  — the parsers of one level over those of the next.
  §4 All levels — `parseFormula` for a sheet expression, `parseProgram`
                  for the functions of a script, `parseStatements` for a
                  text that is run where it is called.

Left out: `switch`, `do`, `try` and `catch`, `import` and `export`, the
operators `in` and `!in`, accesses marked by a question mark, loops as
operands and with a counter, assignments to an item or a field, and
functions that belong to a kind of value. A text with one of these is
refused. The body of a closure is read, but not kept.
-/
import SumSheet.Script.Lexer
import SumSheet.Script.Term

namespace SumSheet.Script

/-! ## §1 Parsers -/

/-- Why tokens are not an expression or a script. -/
inductive ParseError where
  | lex (cause : LexError)
  | tooDeep
  | unexpectedEnd
  | unexpected (token : Token)
  | badOperand
  | badIndex
  | duplicateKey (key : String)
  | duplicateParameter (name : String)
  | duplicateFunction (name : String) (arity : Nat)
  | misplacedFunction (name : String)
  | outsideLoop

/-- The text of a token, without the content of a literal. -/
def Token.message : Token → String
  | word w => w
  | int _ | float _ => "number"
  | text _ => "string"
  | char _ => "character"
  | symbol s => s.spelling

/-- The text of the cause. -/
def ParseError.message : ParseError → String
  | lex cause => cause.message
  | tooDeep => "Expression exceeds maximum complexity"
  | unexpectedEnd => "Script is incomplete"
  | unexpected token => "Unexpected: " ++ token.message
  | badOperand => "Expecting a boolean expression"
  | badIndex => "Invalid index"
  | duplicateKey key => "Duplicated property: " ++ key
  | duplicateParameter name => "Duplicated parameter: " ++ name
  | duplicateFunction name arity =>
    "Function " ++ name ++ " with " ++ toString arity ++ " parameters already exists"
  | misplacedFunction name => "Functions can only be defined at global level: " ++ name
  | outsideLoop => "Loop statement outside of a loop"

/-- A parser reads some tokens and leaves the others. -/
abbrev Parser (α : Type) := StateT (List Token) (Except ParseError) α

namespace Parser

/-- Refuses the token at the front. -/
def refuse {α : Type} : Parser α := fun tokens =>
  match tokens with
  | [] => .error .unexpectedEnd
  | t :: _ => .error (.unexpected t)

/-- Fails, whatever follows. -/
def fail {α : Type} (e : ParseError) : Parser α := fun _ => .error e

/-- The token at the front, which stays there. -/
def peek : Parser (Option Token) := fun tokens => .ok (tokens.head?, tokens)

/-- Passes over the token at the front. -/
def skip : Parser Unit := fun tokens => .ok ((), tokens.tail)

/-- Passes over the token at the front if it is this sign, and tells whether it was. -/
def accept (s : Symbol) : Parser Bool := fun tokens =>
  match tokens with
  | .symbol t :: rest => if t = s then .ok (true, rest) else .ok (false, tokens)
  | _ => .ok (false, tokens)

/-- Passes over this sign, which must come next. -/
def expect (s : Symbol) : Parser Unit := do
  if ← accept s then pure () else refuse

/-- Passes over the token at the front if it is this word, and tells whether it was. -/
def acceptWord (word : String) : Parser Bool := fun tokens =>
  match tokens with
  | .word w :: rest => if w = word then .ok (true, rest) else .ok (false, tokens)
  | _ => .ok (false, tokens)

/-- Passes over this word, which must come next. -/
def expectWord (word : String) : Parser Unit := do
  if ← acceptWord word then pure () else refuse

/-- The free name that must come next. -/
def name : Parser String := fun tokens =>
  match tokens with
  | .word w :: rest => if isFreeName w then .ok (w, rest) else refuse tokens
  | _ => refuse tokens

/-- Items up to a closing sign, with commas between them and perhaps one behind the last. There are
at most `limit`. -/
def itemsUpTo {α : Type} (item : Parser α) (close : Symbol) : (limit : Nat) → Parser (List α)
  | 0 => refuse
  | limit + 1 => do
    if ← accept close then return []
    let first ← item
    if ← accept .comma then return first :: (← itemsUpTo item close limit)
    expect close
    return [first]

/-- Items up to a closing sign, as many as there are. -/
def items {α : Type} (item : Parser α) (close : Symbol) : Parser (List α) := fun tokens =>
  itemsUpTo item close (tokens.length + 1) tokens

end Parser

open SumSheet.Script.Parser

/-! ## §2 Operators -/

/-- An operator between two operands. -/
inductive Operator where
  | plain (op : BinaryOp)
  | both | either | orElse
  deriving DecidableEq, Repr

namespace Operator

/-- The operator that a sign stands for. -/
def ofSymbol? : Symbol → Option Operator
  | .plus => some (.plain .add)
  | .minus => some (.plain .subtract)
  | .times => some (.plain .multiply)
  | .divide => some (.plain .divide)
  | .modulo => some (.plain .modulo)
  | .power => some (.plain .power)
  | .shiftLeft => some (.plain .shiftLeft)
  | .shiftRight => some (.plain .shiftRight)
  | .bitAnd => some (.plain .bitAnd)
  | .bitOr => some (.plain .bitOr)
  | .bitXor => some (.plain .bitXor)
  | .equal => some (.plain .equal)
  | .notEqual => some (.plain .notEqual)
  | .less => some (.plain .less)
  | .lessEqual => some (.plain .lessEqual)
  | .greater => some (.plain .greater)
  | .greaterEqual => some (.plain .greaterEqual)
  | .range => some (.plain .range)
  | .rangeThrough => some (.plain .rangeThrough)
  | .and => some .both
  | .or => some .either
  | .coalesce => some .orElse
  | _ => none

/-- The operator that a token stands for. -/
def ofToken? : Token → Option Operator
  | .symbol s => ofSymbol? s
  | _ => none

/-- How tightly an operator binds. -/
def precedence : Operator → Nat
  | .either | .plain .bitOr | .plain .bitXor => 30
  | .both | .plain .bitAnd => 60
  | .plain .equal | .plain .notEqual => 90
  | .plain .less | .plain .lessEqual | .plain .greater | .plain .greaterEqual => 130
  | .orElse => 135
  | .plain .range | .plain .rangeThrough => 140
  | .plain .add | .plain .subtract => 150
  | .plain .multiply | .plain .divide | .plain .modulo => 180
  | .plain .power => 190
  | .plain .shiftLeft | .plain .shiftRight => 210

/-- Of several such operators in a row, the last is applied first. -/
def bindsRight : Operator → Bool
  | .plain .power => true
  | _ => false

/-- The operator takes its operands away from one of precedence `outer` to its left. -/
def bindsIn (op : Operator) (outer : Nat) : Bool :=
  outer < op.precedence || (outer == op.precedence && op.bindsRight)

/-- The expression that applies the operator. A literal that is not a truth value is no operand of
`&&` and `||`. -/
def apply (op : Operator) (left right : Expr) : Parser Expr :=
  match op with
  | .plain op => pure (.binary op left right)
  | .orElse => pure (.orElse left right)
  | .both => if left.mayBeBool && right.mayBeBool then pure (.both left right) else fail .badOperand
  | .either =>
    if left.mayBeBool && right.mayBeBool then pure (.either left right) else fail .badOperand

end Operator

/-- The operator that an assigning sign applies first, if it is one. -/
def assignment? : Symbol → Option (Option BinaryOp)
  | .assign => some none
  | .assignPlus => some (some .add)
  | .assignMinus => some (some .subtract)
  | .assignTimes => some (some .multiply)
  | .assignDivide => some (some .divide)
  | .assignModulo => some (some .modulo)
  | .assignPower => some (some .power)
  | .assignShiftLeft => some (some .shiftLeft)
  | .assignShiftRight => some (some .shiftRight)
  | .assignAnd => some (some .bitAnd)
  | .assignOr => some (some .bitOr)
  | .assignXor => some (some .bitXor)
  | _ => none

/-- The negative of an operand; that of a number literal is a literal. -/
def negated : Expr → Expr
  | .int n => .int (-n)
  | .float x => .float (-x)
  | e => .unary .negate e

/-- An operand with a plus in front of it. -/
def unnegated : Expr → Expr
  | .int n => .int n
  | .float x => .float x
  | e => .unary .plus e

/-! ## §3 One level -/

/-- What a text is read as: one expression for a sheet, or a script. -/
inductive Mode where
  | formula | script
  deriving DecidableEq, Repr

/-- The parsers that have the same number of levels left. -/
structure Grammar where
  /-- A whole expression. -/
  expr : Parser Expr
  /-- An operand with the signs in front of it. -/
  operand : Parser Expr
  /-- The rest of an expression that begins with this operand, as far as its operators bind in an
  operator of this precedence. -/
  operators : Nat → Expr → Parser Expr
  /-- Expressions up to a closing parenthesis. -/
  arguments : Parser (List Expr)
  /-- What follows the value of this expression. -/
  links : Expr → Parser (List Link)
  /-- A block in braces; within a loop it may leave it. -/
  block : (inLoop : Bool) → Parser (List Stmt)
  /-- A condition and the blocks it chooses from. -/
  conditional : (inLoop : Bool) → Parser Expr
  /-- A statement, unless it is empty. -/
  statement : (inLoop : Bool) → Parser (Option Stmt)

namespace Grammar

/-- No level is left. -/
def exhausted : Grammar where
  expr := fail .tooDeep
  operand := fail .tooDeep
  operators _ _ := fail .tooDeep
  arguments := fail .tooDeep
  links _ := fail .tooDeep
  block _ := fail .tooDeep
  conditional _ := fail .tooDeep
  statement _ := fail .tooDeep

variable (mode : Mode) (inner : Grammar)

/-- Expressions up to a closing parenthesis. -/
def argumentsOf : Parser (List Expr) := items inner.expr .closeParen

/-- The arguments behind the name of a function, if there are any: in parentheses, or the sign that
an empty pair makes. -/
def callArguments? (arguments : Parser (List Expr)) : Parser (Option (List Expr)) := do
  if ← accept .unit then return some []
  if ← accept .openParen then return some (← arguments)
  return none

/-- The arguments behind the name of a function that is marked to run among the variables of its
caller, if it is. -/
def inPlaceArguments? (arguments : Parser (List Expr)) : Parser (Option (List Expr)) :=
  fun tokens => match tokens with
  | .symbol .not :: .symbol .unit :: rest => .ok (some [], rest)
  | .symbol .not :: .symbol .openParen :: rest =>
    (do return some (← arguments) : Parser _) rest
  | _ => .ok (none, tokens)

/-- What follows the value of an expression, as long as anything does. -/
def linksOf (base : Expr) : Parser (List Link) := do
  if ← accept .period then
    let method : Parser String := fun tokens =>
      match tokens with
      | .word w :: rest => if isCallable w then .ok (w, rest) else refuse tokens
      | _ => refuse tokens
    let name ← method
    let link : Link := match ← callArguments? inner.arguments with
      | some args => .method name args
      | none => .property name
    return link :: (← inner.links (.chain base [link]))
  if ← accept .openBracket then
    let i ← inner.expr
    expect .closeBracket
    if base.mayBeIndexedBy i then
      let rest ← inner.links i
      return .index i :: rest
    else fail .badIndex
  return []

/-- The fields of a record whose brace is open. -/
def field : Parser (String × Expr) := fun tokens =>
  match tokens with
  | .word w :: rest => if isFreeName w then value w rest else refuse tokens
  | .text s :: rest => value s rest
  | _ => refuse tokens
where
  value (key : String) : Parser (String × Expr) := do
    expect .colon
    return (key, ← inner.expr)

/-- The first of several equal keys that comes again. -/
def repeated? : List String → Option String
  | [] => none
  | k :: rest => if rest.contains k then some k else repeated? rest

/-- An operand without what follows it. -/
def atom : Parser Expr := fun tokens =>
  match tokens with
  | .int n :: rest => .ok (.int n, rest)
  | .float x :: rest => .ok (.float x, rest)
  | .text s :: rest => .ok (.text s, rest)
  | .char c :: rest => .ok (.char c, rest)
  | .symbol .unit :: rest => .ok (.unit, rest)
  | .symbol .openParen :: rest => (do
      let e ← inner.expr
      expect .closeParen
      return e : Parser Expr) rest
  | .symbol .openBracket :: rest =>
    (do return .list (← items inner.expr .closeBracket) : Parser Expr) rest
  | .symbol .openMap :: rest => (do
      let fields ← items (field inner) .closeBrace
      let keys := fields.map (·.1)
      match repeated? keys with
      | some key => fail (.duplicateKey key)
      | none => return .record keys (fields.map (·.2)) : Parser Expr) rest
  | .symbol .bitOr :: rest => (do
      let _ ← items name .bitOr
      let _ ← inner.expr
      return .closure : Parser Expr) rest
  | .symbol .or :: rest => (do
      let _ ← inner.expr
      return .closure : Parser Expr) rest
  | .symbol .openBrace :: _ =>
    if mode = .script then
      (do return .block (← inner.block false) : Parser Expr) tokens
    else refuse tokens
  | .word w :: rest =>
    if w = "true" then .ok (.bool true, rest)
    else if w = "false" then .ok (.bool false, rest)
    else if w = "if" then inner.conditional false tokens
    else if isCallable w then (do
      match ← callArguments? (argumentsOf inner) with
      | some args => return .call w args
      | none =>
        match ← inPlaceArguments? (argumentsOf inner) with
        | some args => return .inPlace w args
        | none => if isFreeName w then return .variable w else refuse : Parser Expr) rest
    else if w = "this" && mode = .script then .ok (.this, rest)
    else refuse tokens
  | _ => refuse tokens

/-- An operand with what follows it. -/
def linked : Parser Expr := do
  let base ← atom mode inner
  let links ← linksOf inner base
  return if links.isEmpty then base else .chain base links

/-- An operand with the signs in front of it. -/
def operandOf : Parser Expr := do
  if ← accept .minus then return negated (← inner.operand)
  if ← accept .plus then return unnegated (← inner.operand)
  if ← accept .not then return .unary .not (← inner.operand)
  linked mode inner

/-- The operators of a chain: the operand behind each of them takes what binds tighter, and one
level less is left for what comes after it. -/
def operatorsOf (outer : Nat) (left : Expr) : Parser Expr := do
  match (← peek).bind Operator.ofToken? with
  | none => return left
  | some op =>
    if !op.bindsIn outer then return left
    skip
    let right ← operandOf mode inner
    let right ← match (← peek).bind Operator.ofToken? with
      | some next =>
        if next.bindsIn op.precedence then inner.operators op.precedence right else pure right
      | none => pure right
    inner.operators outer (← op.apply left right)

/-- A condition, which must not be a literal of another kind than a truth value. -/
def condition : Parser Expr := do
  let e ← inner.expr
  if e.mayBeBool then return e else fail .badOperand

/-- `if`, a condition and a block, and perhaps `else` with a block or another `if`. -/
def conditionalOf (inLoop : Bool) : Parser Expr := do
  expectWord "if"
  let c ← condition inner
  let yes ← inner.block inLoop
  if ← acceptWord "else" then
    if (← peek) = some (.word "if") then
      return .choose c yes [.expr (← inner.conditional inLoop)]
    return .choose c yes (← inner.block inLoop)
  return .choose c yes []

/-- An expression, or an assignment to a variable or to the value whose method runs. -/
def expressionStatement : Parser Stmt := do
  let e ← inner.expr
  match ← peek with
  | some (.symbol s) =>
    match assignment? s, e with
    | some op, .variable x => do
      skip
      return .assign x op (← inner.expr)
    | some op, .this => do
      skip
      return .assignThis op (← inner.expr)
    | some _, _ => refuse
    | none, _ => return .expr e
  | _ => return .expr e

/-- The value behind `return`, `throw` or `break`: the unit value if the statement ends there. -/
def optionalValue : Parser Expr := do
  match ← peek with
  | none | some (.symbol .semicolon) | some (.symbol .closeBrace) => return .unit
  | _ => inner.expr

/-- The value of a new variable: the unit value if none is written. -/
def initialValue : Parser Expr := do
  if ← accept .assign then inner.expr else return .unit

/-- A statement, unless it is empty. -/
def statementOf (inLoop : Bool) : Parser (Option Stmt) := fun tokens =>
  match tokens with
  | .symbol .semicolon :: rest => .ok (none, rest)
  | .symbol .openBrace :: _ =>
    (do return some (.expr (.block (← inner.block inLoop))) : Parser _) tokens
  | .word w :: rest =>
    if w = "let" || w = "const" then (do
      let x ← name
      return some (.declare x (w = "const") (← initialValue inner)) : Parser _) rest
    else if w = "if" then
      (do return some (.expr (← inner.conditional inLoop)) : Parser _) tokens
    else if w = "while" then (do
      let c ← condition inner
      return some (.repeatWhile c (← inner.block true)) : Parser _) rest
    else if w = "loop" then
      (do return some (.repeatWhile (.bool true) (← inner.block true)) : Parser _) rest
    else if w = "for" then (do
      let x ← name
      expectWord "in"
      let source ← inner.expr
      return some (.forEach x source (← inner.block true)) : Parser _) rest
    else if w = "break" then
      if inLoop then
        (do return some (.leaveLoop (← optionalValue inner)) : Parser _) rest
      else .error .outsideLoop
    else if w = "continue" then
      if inLoop then .ok (some .nextRound, rest) else .error .outsideLoop
    else if w = "return" then
      (do return some (.giveBack (← optionalValue inner)) : Parser _) rest
    else if w = "throw" then
      (do return some (.raise (← optionalValue inner)) : Parser _) rest
    else (do return some (← expressionStatement inner) : Parser _) tokens
  | _ => (do return some (← expressionStatement inner) : Parser _) tokens

/-- Passes over the semicolon between two statements, where one is needed. -/
def betweenStatements (s : Stmt) : Parser Unit := do
  if ← accept .semicolon then return ()
  if s.endsItself then return ()
  match ← peek with
  | none | some (.symbol .closeBrace) => return ()
  | _ => refuse

/-- The statements up to a closing brace; there are at most `limit`. -/
def statementsUpTo (inLoop : Bool) : (limit : Nat) → Parser (List Stmt)
  | 0 => refuse
  | limit + 1 => do
    if ← accept .closeBrace then return []
    match ← inner.statement inLoop with
    | none => statementsUpTo inLoop limit
    | some s =>
      betweenStatements s
      return s :: (← statementsUpTo inLoop limit)

/-- A block in braces. In a formula it holds exactly one expression or assignment. -/
def blockOf (inLoop : Bool) : Parser (List Stmt) := do
  expect .openBrace
  match mode with
  | .formula =>
    let s ← expressionStatement inner
    expect .closeBrace
    return [s]
  | .script => fun tokens => statementsUpTo inner inLoop (tokens.length + 1) tokens

/-- The parsers that have one level more than `inner`. -/
def outer : Grammar where
  expr := do
    let left ← inner.operand
    inner.operators 1 left
  operand := operandOf mode inner
  operators := operatorsOf mode inner
  arguments := argumentsOf inner
  links := linksOf inner
  block := blockOf mode inner
  conditional := conditionalOf inner
  statement := statementOf inner

/-- The parsers that have `levels` levels left. -/
def within (mode : Mode) : (levels : Nat) → Grammar
  | 0 => outer mode exhausted
  | levels + 1 => outer mode (within mode levels)

end Grammar

/-! ## §4 All levels -/

/-- The levels of an expression. -/
def expressionLevels : Nat := 256

/-- The levels of a function. -/
def functionLevels : Nat := 64

/-- The expression that all of the tokens make. -/
def formula : Parser Expr := do
  let e ← (Grammar.within .formula expressionLevels).expr
  match ← peek with
  | none => return e
  | some _ => refuse

/-- The parameters and the body of a function behind its name. -/
def functionNamed (name : String) : Parser Function := do
  let params ← do
    if ← accept .unit then pure [] else
      expect .openParen
      items Parser.name .closeParen
  match Grammar.repeated? params with
  | some param => fail (.duplicateParameter param)
  | none => return ⟨name, params, ← (Grammar.within .script functionLevels).block false⟩

/-- A function, if one begins here. -/
def function? : Parser (Option Function) := fun tokens =>
  match tokens with
  | .word "private" :: .word "fn" :: rest | .word "fn" :: rest =>
    (do return some (← functionNamed (← name)) : Parser _) rest
  | _ => .ok (none, tokens)

/-- A function of this name with as many parameters is among them. -/
def isDefined (functions : List Function) (f : Function) : Bool :=
  functions.any fun g => g.name == f.name && g.params.length == f.params.length

/-- What a script consists of: the functions it defines, and the statements between them. -/
structure Contents where
  functions : List Function
  statements : List Stmt

/-- The rest of a script, after the part already `found`. It has at most `limit` functions and
statements together. -/
def contentsUpTo : (limit : Nat) → (found : Contents) → Parser Contents
  | 0, _ => refuse
  | limit + 1, found => do
    match ← peek with
    | none => return found
    | some _ =>
      match ← function? with
      | some f =>
        if isDefined found.functions f then fail (.duplicateFunction f.name f.params.length)
        else contentsUpTo limit { found with functions := found.functions ++ [f] }
      | none =>
        match ← (Grammar.within .script expressionLevels).statement false with
        | none => contentsUpTo limit found
        | some s =>
          Grammar.betweenStatements s
          if (← peek) = some (.symbol .closeBrace) then refuse
          contentsUpTo limit { found with statements := found.statements ++ [s] }

/-- The script that all of the tokens make. -/
def contents : Parser Contents := fun tokens => contentsUpTo (tokens.length + 1) ⟨[], []⟩ tokens

/-- All of a text read by a parser. -/
def parseText {α : Type} (parser : Parser α) (text : List Char) : Except ParseError α := do
  match tokenize text with
  | .error e => .error (.lex e)
  | .ok tokens => (parser.run tokens).map (·.1)

/-- The expression that a text spells. -/
def parseFormula (text : List Char) : Except ParseError Expr :=
  parseText formula text

/-- The functions that a script defines. What else it does is left out. -/
def parseProgram (text : List Char) : Except ParseError (List Function) :=
  (parseText contents text).map (·.functions)

/-- The statements of a script that defines no functions. -/
def parseStatements (text : List Char) : Except ParseError (List Stmt) := do
  match ← parseText contents text with
  | ⟨[], statements⟩ => return statements
  | ⟨f :: _, _⟩ => throw (.misplacedFunction f.name)

end SumSheet.Script
