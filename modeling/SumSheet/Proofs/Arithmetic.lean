/-
SumSheet.Proofs.Arithmetic — arithmetic as trees, and how trees are
written and valued.

The evaluator takes a text through three forms: the text of the sheet,
the text of a script, and the tokens of the script. A tree is written in
all three of them by one function, `write`, over the `Alphabet` of the
form. What remains to be compared is then only how the pieces are
written.

  §1 Leaves    — literals in every accepted spelling, identifiers, and
                 the functions that a tree may call.
  §2 Trees     — numbers, variables, operators and calls.
  §3 Writing   — `write`: compound operands stand in parentheses.
  §4 Value     — the value of a tree, from the left to the right.
  §5 Measures  — the levels and the operations that a tree takes.
  §6 Reading   — what reads the pieces of a tree reads the tree.
-/
import Mathlib
import SumSheet.Evaluator
import SumSheet.Proofs.NormalForm

namespace SumSheet

open Text Number

/-! ## §1 Leaves -/

/-- The exponent of a literal: its letter, perhaps a sign, and digits. -/
structure LiteralExponent where
  letter : Char
  sign : Option Char
  digits : List Char
  letter_eq : letter = 'e' ∨ letter = 'E'
  sign_eq : ∀ s ∈ sign, s = '+' ∨ s = '-'
  digits_ne_nil : digits ≠ []
  isDigit_digits : ∀ c ∈ digits, isAsciiDigit c = true

namespace LiteralExponent

def text (x : LiteralExponent) : List Char :=
  x.letter :: (x.sign.toList ++ x.digits)

def value (x : LiteralExponent) : Int :=
  if x.sign = some '-' then -ofDigits x.digits else ofDigits x.digits

end LiteralExponent

/-- A number without a sign. There is a digit in front of the point or behind it, and the point may
be missing. -/
structure Literal where
  whole : List Char
  /-- The digits behind the point, if there is a point. -/
  fraction : Option (List Char)
  exponent : Option LiteralExponent
  isDigit_whole : ∀ c ∈ whole, isAsciiDigit c = true
  isDigit_fraction : ∀ c ∈ fraction.getD [], isAsciiDigit c = true
  some_digit : whole ≠ [] ∨ fraction.getD [] ≠ []

namespace Literal

/-- The digits behind the point. -/
def places (l : Literal) : List Char := l.fraction.getD []

def exponentText (l : Literal) : List Char :=
  match l.exponent with
  | some x => x.text
  | none => []

def exponentValue (l : Literal) : Int :=
  match l.exponent with
  | some x => x.value
  | none => 0

/-- The literal as it is spelled on a sheet. -/
def text (l : Literal) : List Char :=
  l.whole ++ ((l.fraction.map ('.' :: ·)).getD [] ++ l.exponentText)

/-- The literal as it is spelled in a script. -/
def script (l : Literal) : List Char :=
  Formula.orZero l.whole ++ '.' :: (Formula.orZero l.places ++ l.exponentText)

/-- The double nearest to the number that the literal spells. -/
def value (l : Literal) : Float :=
  ofDecimal (ofDigits (l.whole ++ l.places)) (l.exponentValue - l.places.length)

end Literal

/-- A lower-case identifier, of any spelling: also a word that scripts reserve, and the name of a
constant or of a function. -/
abbrev Identifier := { name : List Char // IsIdentifier name }

/-- A function that is known with one argument. -/
inductive UnaryFunction where
  | sqrt | cbrt | abs | exp | ln | log | log10 | log2 | floor | ceil | round
  | sin | cos | tan | asin | acos | atan | sign
  deriving DecidableEq, Repr

namespace UnaryFunction

def name : UnaryFunction → String
  | sqrt => "sqrt" | cbrt => "cbrt" | abs => "abs" | exp => "exp" | ln => "ln" | log => "log"
  | log10 => "log10" | log2 => "log2" | floor => "floor" | ceil => "ceil" | round => "round"
  | sin => "sin" | cos => "cos" | tan => "tan" | asin => "asin" | acos => "acos"
  | atan => "atan" | sign => "sign"

/-- The function of doubles that goes by this name. -/
def apply : UnaryFunction → Float → Float
  | sqrt => Float.sqrt
  | cbrt => Float.cbrt
  | abs => Float.abs
  | exp => Float.exp
  | ln => Float.log
  | log => Float.log
  | log10 => Float.log10
  | log2 => Float.log2
  | floor => Number.floor
  | ceil => Number.ceil
  | round => Number.round
  | sin => Float.sin
  | cos => Float.cos
  | tan => Float.tan
  | asin => Float.asin
  | acos => Float.acos
  | atan => Float.atan
  | sign => fun x => if 0.0 < x then 1.0 else if x < 0.0 then -1.0 else x

/-- The table of functions has it under its name. -/
theorem known (f : UnaryFunction) : (builtin? f.name).bind (·.unary) = some f.apply := by
  cases f <;> rfl

def all : List UnaryFunction :=
  [sqrt, cbrt, abs, exp, ln, log, log10, log2, floor, ceil, round, sin, cos, tan, asin, acos,
    atan, sign]

/-- The table has no other functions of one argument. -/
theorem names_all : all.map name = (builtins.filter (·.unary.isSome)).map (·.name) := by
  rfl

theorem not_mem_callableWords (f : UnaryFunction) : f.name ∉ Script.callableWords := by
  cases f <;> decide

end UnaryFunction

/-- A function that is known with two arguments. -/
inductive BinaryFunction where
  | log | pow | round | atan2 | hypot | mod | min | max
  deriving DecidableEq, Repr

namespace BinaryFunction

def name : BinaryFunction → String
  | log => "log" | pow => "pow" | round => "round" | atan2 => "atan2" | hypot => "hypot"
  | mod => "mod" | min => "min" | max => "max"

/-- The function of doubles that goes by this name. Of two values of which one is NaN, `min` and
`max` take the other one. -/
def apply : BinaryFunction → Float → Float → Float
  | log => fun x base => Float.log x / Float.log base
  | pow => Float.pow
  | round => fun x digits =>
    Number.round (x * powerOf 10.0 (places digits)) / powerOf 10.0 (places digits)
  | atan2 => Float.atan2
  | hypot => hypotenuse
  | mod => remainder
  | min => fun x y => if x.isNaN then y else if y < x then y else x
  | max => fun x y => if x.isNaN then y else if x < y then y else x

/-- The table of functions has it under its name. -/
theorem known (f : BinaryFunction) : (builtin? f.name).bind (·.binary) = some f.apply := by
  cases f <;> rfl

def all : List BinaryFunction := [log, pow, round, atan2, hypot, mod, min, max]

/-- The table has no other functions of two arguments. -/
theorem names_all : all.map name = (builtins.filter (·.binary.isSome)).map (·.name) := by
  rfl

theorem not_mem_callableWords (f : BinaryFunction) : f.name ∉ Script.callableWords := by
  cases f <;> decide

end BinaryFunction

/-- The operators on two numbers. -/
inductive ArithmeticOp where
  | add | subtract | multiply | divide | modulo | power
  deriving DecidableEq, Repr

namespace ArithmeticOp

/-- The sign on a sheet. -/
def sign : ArithmeticOp → Char
  | add => '+' | subtract => '-' | multiply => '*' | divide => '/' | modulo => '%' | power => '^'

/-- The sign in a script. -/
def script : ArithmeticOp → List Char
  | power => ['*', '*']
  | op => [op.sign]

def symbol : ArithmeticOp → Script.Symbol
  | add => .plus | subtract => .minus | multiply => .times | divide => .divide
  | modulo => .modulo | power => .power

def operator : ArithmeticOp → Script.BinaryOp
  | add => .add | subtract => .subtract | multiply => .multiply | divide => .divide
  | modulo => .modulo | power => .power

/-- The operation on doubles. -/
def apply : ArithmeticOp → Float → Float → Float
  | add => (· + ·)
  | subtract => (· - ·)
  | multiply => (· * ·)
  | divide => (· / ·)
  | modulo => remainder
  | power => Float.pow

end ArithmeticOp

/-! ## §2 Trees -/

/-- An arithmetic expression. A `group` is an expression in parentheses that could do without
them. -/
inductive Arithmetic where
  | literal (l : Literal)
  | var (x : Identifier)
  | group (t : Arithmetic)
  | negate (t : Arithmetic)
  | binary (op : ArithmeticOp) (left right : Arithmetic)
  | call (f : UnaryFunction) (arg : Arithmetic)
  | callTwo (f : BinaryFunction) (first second : Arithmetic)

namespace Arithmetic

/-- An operand of this shape must stand in parentheses. -/
def isCompound : Arithmetic → Bool
  | negate _ | binary _ _ _ => true
  | _ => false

end Arithmetic

/-! ## §3 Writing -/

/-- How the pieces of a tree are written. -/
structure Alphabet (α : Type) where
  number : Literal → List α
  name : Identifier → List α
  /-- The name of a function with the parenthesis behind it. -/
  call : String → List α
  minus : List α
  operator : ArithmeticOp → List α
  openGroup : List α
  close : List α
  comma : List α

/-- The alphabet of sheets. -/
def sheetAlphabet : Alphabet Char where
  number l := l.text
  name x := x.1
  call f := f.toList ++ ['(']
  minus := ['-']
  operator op := [' ', op.sign, ' ']
  openGroup := ['(']
  close := [')']
  comma := [',', ' ']

/-- The alphabet of scripts. -/
def scriptAlphabet : Alphabet Char where
  number l := l.script
  name x := Formula.variableName x.1
  call f := f.toList ++ ['(']
  minus := ['-']
  operator op := ' ' :: (op.script ++ [' '])
  openGroup := ['(']
  close := [')']
  comma := [',', ' ']

/-- The alphabet of tokens. -/
def tokenAlphabet : Alphabet Script.Token where
  number l := [.float l.value]
  name x := [.word (String.ofList (Formula.variableName x.1))]
  call f := [.word f, .symbol .openParen]
  minus := [.symbol .minus]
  operator op := [.symbol op.symbol]
  openGroup := [.symbol .openParen]
  close := [.symbol .closeParen]
  comma := [.symbol .comma]

namespace Arithmetic

variable {α β : Type}

/-- A text in parentheses, if it has to be. -/
def wrap (a : Alphabet α) (compound : Bool) (text : List α) : List α :=
  if compound then a.openGroup ++ (text ++ a.close) else text

/-- The tree in an alphabet. -/
def write (a : Alphabet α) : Arithmetic → List α
  | literal l => a.number l
  | var x => a.name x
  | group t => a.openGroup ++ (t.write a ++ a.close)
  | negate t => a.minus ++ wrap a t.isCompound (t.write a)
  | binary op left right =>
    wrap a left.isCompound (left.write a)
      ++ (a.operator op ++ wrap a right.isCompound (right.write a))
  | call f arg => a.call f.name ++ (arg.write a ++ a.close)
  | callTwo f first second =>
    a.call f.name ++ (first.write a ++ (a.comma ++ (second.write a ++ a.close)))

/-- The tree as it is written on a sheet. -/
def text (t : Arithmetic) : List Char := t.write sheetAlphabet

/-! ## §4 Value -/

/-- The value of a variable: that of the scope, or else that of the constant of this name. -/
def lookUp (scope : Scope) (x : Identifier) : Except String Float :=
  match scope.get? (String.ofList x.1) with
  | some value => .ok value
  | none =>
    match constants.find? (·.1 == String.ofList x.1) with
    | some c => .ok c.2
    | none => .error (String.ofList x.1)

/-- The variable that a tree is, perhaps in parentheses. -/
def var? : Arithmetic → Option Identifier
  | var x => some x
  | group t => t.var?
  | _ => none

/-- The value of a tree, or the first variable that has none. Of two arguments, one that is a
variable in first place is looked up last; all else goes from the left to the right. -/
def value (scope : Scope) : Arithmetic → Except String Float
  | literal l => .ok l.value
  | var x => lookUp scope x
  | group t => t.value scope
  | negate t => do return -(← t.value scope)
  | binary op left right => do
    let x ← left.value scope
    let y ← right.value scope
    return op.apply x y
  | call f arg => do return f.apply (← arg.value scope)
  | callTwo f first second =>
    match first.var? with
    | some x => do
      let y ← second.value scope
      return f.apply (← lookUp scope x) y
    | none => do
      let x ← first.value scope
      let y ← second.value scope
      return f.apply x y

/-- The value of a tree that is a variable is that of the variable. -/
theorem value_of_var? {t : Arithmetic} {x : Identifier} (h : t.var? = some x) (scope : Scope) :
    t.value scope = lookUp scope x := by
  induction t with
  | group t ih => exact ih h
  | var y =>
    cases h
    rfl
  | literal l => cases h
  | negate t ih => cases h
  | binary op left right ihl ihr => cases h
  | call f arg ih => cases h
  | callTwo f first second ihf ihs => cases h

/-- Where both arguments have a value, the order in which they are looked up does not show. -/
theorem value_callTwo {scope : Scope} {f : BinaryFunction} {first second : Arithmetic} {x y : Float}
    (hfirst : first.value scope = .ok x) (hsecond : second.value scope = .ok y) :
    (callTwo f first second).value scope = .ok (f.apply x y) := by
  rw [value]
  cases hvar : first.var? with
  | some v =>
    rw [value_of_var? hvar] at hfirst
    simp only [hsecond, hfirst]
    rfl
  | none =>
    simp only [hsecond, hfirst]
    rfl

/-- The value of a tree if everything in it goes from the left to the right. -/
def valueInOrder (scope : Scope) : Arithmetic → Except String Float
  | literal l => .ok l.value
  | var x => lookUp scope x
  | group t => t.valueInOrder scope
  | negate t => do return -(← t.valueInOrder scope)
  | binary op left right => do
    let x ← left.valueInOrder scope
    let y ← right.valueInOrder scope
    return op.apply x y
  | call f arg => do return f.apply (← arg.valueInOrder scope)
  | callTwo f first second => do
    let x ← first.valueInOrder scope
    let y ← second.valueInOrder scope
    return f.apply x y

/-- The order decides at most which of several missing variables is the first. -/
theorem toOption_value (scope : Scope) (t : Arithmetic) :
    (t.value scope).toOption = (t.valueInOrder scope).toOption := by
  have hbind {α β : Type} (x : Except String α) (f : α → Except String β) :
      (x >>= f).toOption = x.toOption.bind fun a => (f a).toOption := by
    cases x <;> rfl
  induction t with
  | literal l => rfl
  | var x => rfl
  | group t ih => exact ih
  | negate t ih => simp only [value, valueInOrder, hbind, ih]
  | binary op left right ihl ihr => simp only [value, valueInOrder, hbind, ihl, ihr]
  | call f arg ih => simp only [value, valueInOrder, hbind, ih]
  | callTwo f first second ihf ihs =>
    simp only [value, valueInOrder, hbind, ← ihf, ← ihs]
    cases hvar : first.var? with
    | some x =>
      simp only [value_of_var? hvar, hbind]
      cases lookUp scope x <;> cases second.value scope <;> rfl
    | none => simp only [hbind]

/-- What evaluating a tree gives: a number, which is not NaN, or an error. -/
def outcome (scope : Scope) (t : Arithmetic) : Except EvalError Float :=
  match t.value scope with
  | .ok x => if x.isNaN then .error (.notANumber "NaN") else .ok x
  | .error name => .error (.unknownVariable name)

/-! ## §5 Measures -/

/-- The levels that parentheses around an operand take. -/
def wrapDepth (compound : Bool) : Nat :=
  if compound then 2 else 0

/-- The levels below that of a tree. -/
def depth : Arithmetic → Nat
  | literal _ | var _ => 0
  | group t => 2 + t.depth
  | negate t => 1 + (wrapDepth t.isCompound + t.depth)
  | binary _ left right =>
    max 1 (max (wrapDepth left.isCompound + left.depth) (wrapDepth right.isCompound + right.depth))
  | call _ arg => 2 + arg.depth
  | callTwo _ first second => 2 + max first.depth second.depth

/-- The levels that a tree takes to be read. -/
def levels (t : Arithmetic) : Nat := 1 + t.depth

/-- The tree is a number with signs in front of it, which is read as one literal. -/
def isNumber : Arithmetic → Bool
  | literal _ => true
  | group t | negate t => t.isNumber
  | _ => false

/-- The operations of two trees one after the other. The second is reached only behind a value of
the first. -/
def inTurn (first : Except String Float) (operations operations' : Nat) : Nat :=
  operations + if first.isOk then operations' else 0

/-- The value of the tree is known before it is evaluated: it is made of numbers and constants, with
operators between them. -/
def isKnown (scope : Scope) : Arithmetic → Bool
  | literal _ => true
  | var x => !scope.contains (String.ofList x.1) && constants.any (·.1 == String.ofList x.1)
  | group t => t.isKnown scope
  | negate t => t.isNumber
  | binary _ left right => left.isKnown scope && right.isKnown scope
  | call _ _ | callTwo _ _ _ => false

/-- The operations that evaluating a tree takes, up to the first variable without a value. An
operator between operands that are known counts as one together with them. -/
def operations (scope : Scope) : Arithmetic → Nat
  | literal _ | var _ => 1
  | group t => t.operations scope
  | negate t => if t.isNumber then 1 else 1 + t.operations scope
  | binary _ left right =>
    if left.isKnown scope && right.isKnown scope then 1
    else 1 + inTurn (left.value scope) (left.operations scope) (right.operations scope)
  | call _ arg => 1 + arg.operations scope
  | callTwo _ first second =>
    if first.var?.isSome then 2 + second.operations scope
    else 1 + inTurn (first.value scope) (first.operations scope) (second.operations scope)

end Arithmetic

/-! ## §6 Reading -/

/-- A function of this name is known, with one argument or with two. -/
def IsBuiltin (name : String) : Prop := ∃ f ∈ builtins, f.name = name

theorem isBuiltin_of_bind {α : Type} {name : String} {select : Builtin → Option α} {apply : α}
    (h : (builtin? name).bind select = some apply) : IsBuiltin name := by
  obtain ⟨f, hf, -⟩ := Option.bind_eq_some_iff.mp h
  exact ⟨f, List.mem_of_find?_eq_some hf, by simpa using List.find?_some hf⟩

section Reading

variable {α β : Type}

/-- How pieces in the alphabet `a` are read in the alphabet `b`: `R` relates a text to what is read
from it. `Ends` says what may stand behind a number or a name, and `Starts` what an operand
begins with. -/
structure Reads (a : Alphabet α) (b : Alphabet β) (R : List α → List β → Prop)
    (Ends Starts : List α → Prop) : Prop where
  number {rest : List α} {rest' : List β} (l : Literal) (hends : Ends rest) (h : R rest rest') :
    R (a.number l ++ rest) (b.number l ++ rest')
  name {rest : List α} {rest' : List β} (x : Identifier) (hends : Ends rest) (h : R rest rest') :
    R (a.name x ++ rest) (b.name x ++ rest')
  call {rest : List α} {rest' : List β} {f : String} (hf : IsBuiltin f)
    (hbegins : Starts rest ∨ ∃ r, rest = a.minus ++ r) (h : R rest rest') :
    R (a.call f ++ rest) (b.call f ++ rest')
  minus {rest : List α} {rest' : List β} (hstarts : Starts rest) (h : R rest rest') :
    R (a.minus ++ rest) (b.minus ++ rest')
  operator {rest : List α} {rest' : List β} (op : ArithmeticOp) (h : R rest rest') :
    R (a.operator op ++ rest) (b.operator op ++ rest')
  openGroup {rest : List α} {rest' : List β}
    (hbegins : Starts rest ∨ ∃ r, rest = a.minus ++ r) (h : R rest rest') :
    R (a.openGroup ++ rest) (b.openGroup ++ rest')
  close {rest : List α} {rest' : List β} (h : R rest rest') :
    R (a.close ++ rest) (b.close ++ rest')
  comma {rest : List α} {rest' : List β} (h : R rest rest') :
    R (a.comma ++ rest) (b.comma ++ rest')
  ends_operator (op : ArithmeticOp) (rest : List α) : Ends (a.operator op ++ rest)
  ends_close (rest : List α) : Ends (a.close ++ rest)
  ends_comma (rest : List α) : Ends (a.comma ++ rest)
  starts_number (l : Literal) (rest : List α) : Starts (a.number l ++ rest)
  starts_name (x : Identifier) (rest : List α) : Starts (a.name x ++ rest)
  starts_call {f : String} (hf : IsBuiltin f) (rest : List α) : Starts (a.call f ++ rest)
  starts_openGroup (rest : List α) : Starts (a.openGroup ++ rest)

namespace Reads

open Arithmetic

variable {a : Alphabet α} {b : Alphabet β} {R : List α → List β → Prop}
  {Ends Starts : List α → Prop}

theorem starts_operand (h : Reads a b R Ends Starts) (t : Arithmetic) (rest : List α) :
    Starts (wrap a t.isCompound (t.write a) ++ rest) := by
  cases t with
  | literal l => exact h.starts_number l rest
  | var x => exact h.starts_name x rest
  | group t =>
    show Starts (a.openGroup ++ (t.write a ++ a.close) ++ rest)
    rw [List.append_assoc]
    exact h.starts_openGroup _
  | negate t =>
    show Starts (a.openGroup ++ _ ++ rest)
    rw [List.append_assoc]
    exact h.starts_openGroup _
  | binary op left right =>
    show Starts (a.openGroup ++ _ ++ rest)
    rw [List.append_assoc]
    exact h.starts_openGroup _
  | call f arg =>
    show Starts (a.call f.name ++ _ ++ rest)
    rw [List.append_assoc]
    exact h.starts_call (isBuiltin_of_bind f.known) _
  | callTwo f first second =>
    show Starts (a.call f.name ++ _ ++ rest)
    rw [List.append_assoc]
    exact h.starts_call (isBuiltin_of_bind f.known) _

/-- A tree begins like an operand, or with a minus. -/
theorem begins (h : Reads a b R Ends Starts) (t : Arithmetic) (rest : List α) :
    Starts (t.write a ++ rest) ∨ ∃ r, t.write a ++ rest = a.minus ++ r := by
  cases t with
  | negate t => exact .inr ⟨_, by rw [write, List.append_assoc]⟩
  | binary op left right =>
    refine .inl ?_
    rw [write, List.append_assoc]
    exact h.starts_operand left _
  | literal l => exact .inl (h.starts_operand (.literal l) rest)
  | var x => exact .inl (h.starts_operand (.var x) rest)
  | group t => exact .inl (h.starts_operand (.group t) rest)
  | call f arg => exact .inl (h.starts_operand (.call f arg) rest)
  | callTwo f first second => exact .inl (h.starts_operand (.callTwo f first second) rest)

/-- What reads an expression reads it in parentheses. -/
theorem grouped (h : Reads a b R Ends Starts) {t : Arithmetic} {rest : List α} {rest' : List β}
    (ih : ∀ rest rest', Ends rest → R rest rest' → R (t.write a ++ rest) (t.write b ++ rest'))
    (hrest : R rest rest') :
    R (a.openGroup ++ (t.write a ++ a.close) ++ rest)
      (b.openGroup ++ (t.write b ++ b.close) ++ rest') := by
  simp only [List.append_assoc]
  exact h.openGroup (h.begins t _) (ih _ _ (h.ends_close _) (h.close hrest))

theorem operand (h : Reads a b R Ends Starts) {t : Arithmetic} {rest : List α} {rest' : List β}
    (ih : ∀ rest rest', Ends rest → R rest rest' → R (t.write a ++ rest) (t.write b ++ rest'))
    (hends : Ends rest) (hrest : R rest rest') :
    R (wrap a t.isCompound (t.write a) ++ rest) (wrap b t.isCompound (t.write b) ++ rest') := by
  cases hc : t.isCompound with
  | true => exact h.grouped ih hrest
  | false => exact ih _ _ hends hrest

/-- What reads the pieces of a tree reads the tree. -/
theorem tree (h : Reads a b R Ends Starts) (t : Arithmetic) :
    ∀ rest rest', Ends rest → R rest rest' → R (t.write a ++ rest) (t.write b ++ rest') := by
  induction t with
  | literal l => exact fun rest rest' hends hrest => h.number l hends hrest
  | var x => exact fun rest rest' hends hrest => h.name x hends hrest
  | group t ih => exact fun rest rest' hends hrest => h.grouped ih hrest
  | negate t ih =>
    intro rest rest' hends hrest
    simp only [write, List.append_assoc]
    exact h.minus (h.starts_operand t _) (h.operand ih hends hrest)
  | binary op left right ihl ihr =>
    intro rest rest' hends hrest
    simp only [write, List.append_assoc]
    exact h.operand ihl (h.ends_operator op _) (h.operator op (h.operand ihr hends hrest))
  | call f arg ih =>
    intro rest rest' hends hrest
    simp only [write, List.append_assoc]
    exact h.call (isBuiltin_of_bind f.known) (h.begins arg _)
      (ih _ _ (h.ends_close _) (h.close hrest))
  | callTwo f first second ihf ihs =>
    intro rest rest' hends hrest
    simp only [write, List.append_assoc]
    exact h.call (isBuiltin_of_bind f.known) (h.begins first _)
      (ihf _ _ (h.ends_comma _) (h.comma (ihs _ _ (h.ends_close _) (h.close hrest))))

end Reads

end Reading

end SumSheet
