/-
SumSheet.Proofs.GrammarWalk — one walk through the grammar for whatever
is to be said of all parsers.

A property of the tokens that are left, which every single token taken
off the front preserves, is preserved by every parser. While they are
taken off, the names of variables and of functions called can be watched.
`TokenInvariant` says what such a property must provide, and
`keeps_within` that all parsers of all levels keep it.

A word that stands right behind a number is never read: no expression
goes on with a word. So a property need not say anything of such a word.
It comes in two strengths, and behind an expression only the weaker one
holds, until a sign has been taken off.

  §1 Terms      — the names that an expression uses.
  §2 Parsers    — what a parser meets, and how parsers in a row do.
  §3 Invariants — properties of the tokens left.
  §4 One level  — each parser of a level keeps an invariant if the level
                  below does.
  §5 All levels — the walk, by induction on the levels.
-/
import Mathlib
import SumSheet.Script.Grammar

namespace SumSheet.Script

/-! ## §1 Terms -/

section

variable (reads : String → Prop) (calls : (inPlace : Bool) → String → Prop)

mutual

/-- The variables that an expression reads or writes, and the functions and methods that it calls,
in their own place or in that of the caller, are among these. -/
def Expr.Uses : Expr → Prop
  | .variable name => reads name
  | .unary _ e => e.Uses
  | .binary _ left right | .both left right | .either left right | .orElse left right =>
    left.Uses ∧ right.Uses
  | .call name args => calls false name ∧ usesAll args
  | .inPlace name args => calls true name ∧ usesAll args
  | .list items => usesAll items
  | .record _ values => usesAll values
  | .chain base links => base.Uses ∧ usesAlong links
  | .choose condition yes no => condition.Uses ∧ usesThrough yes ∧ usesThrough no
  | .block body => usesThrough body
  | _ => True

/-- So are those of several expressions. -/
def usesAll : List Expr → Prop
  | [] => True
  | e :: rest => e.Uses ∧ usesAll rest

/-- So are those of what follows a value. -/
def Link.Uses : Link → Prop
  | .method name args => calls false name ∧ usesAll args
  | .property _ => True
  | .index e => e.Uses

/-- So are those of a chain of such. -/
def usesAlong : List Link → Prop
  | [] => True
  | l :: rest => l.Uses ∧ usesAlong rest

/-- So are those of a statement. What it declares is not counted. -/
def Stmt.Uses : Stmt → Prop
  | .expr e | .declare _ _ e | .assignThis _ e | .leaveLoop e | .giveBack e | .raise e => e.Uses
  | .assign name _ e => reads name ∧ e.Uses
  | .repeatWhile condition body => condition.Uses ∧ usesThrough body
  | .forEach _ source body => source.Uses ∧ usesThrough body
  | .nextRound => True

/-- So are those of several statements. -/
def usesThrough : List Stmt → Prop
  | [] => True
  | s :: rest => s.Uses ∧ usesThrough rest

end

end

mutual

/-- Where everything may occur, nothing is asked of an expression. -/
theorem Expr.uses_true : (e : Expr) → e.Uses (fun _ => True) (fun _ _ => True)
  | .unary _ e => e.uses_true
  | .binary _ left right | .both left right | .either left right | .orElse left right =>
    ⟨left.uses_true, right.uses_true⟩
  | .call _ args | .inPlace _ args => ⟨trivial, usesAll_true args⟩
  | .list items => usesAll_true items
  | .record _ values => usesAll_true values
  | .chain base links => ⟨base.uses_true, usesAlong_true links⟩
  | .choose condition yes no => ⟨condition.uses_true, usesThrough_true yes, usesThrough_true no⟩
  | .block body => usesThrough_true body
  | .unit | .bool _ | .int _ | .float _ | .text _ | .char _ | .closure | .variable _
  | .this => trivial

theorem usesAll_true : (es : List Expr) → usesAll (fun _ => True) (fun _ _ => True) es
  | [] => trivial
  | e :: rest => ⟨e.uses_true, usesAll_true rest⟩

theorem Link.uses_true : (l : Link) → l.Uses (fun _ => True) (fun _ _ => True)
  | .method _ args => ⟨trivial, usesAll_true args⟩
  | .property _ => trivial
  | .index e => e.uses_true

theorem usesAlong_true : (links : List Link) → usesAlong (fun _ => True) (fun _ _ => True) links
  | [] => trivial
  | l :: rest => ⟨l.uses_true, usesAlong_true rest⟩

theorem Stmt.uses_true : (s : Stmt) → s.Uses (fun _ => True) (fun _ _ => True)
  | .expr e | .declare _ _ e | .assignThis _ e | .leaveLoop e | .giveBack e | .raise e =>
    e.uses_true
  | .assign _ _ e => ⟨trivial, e.uses_true⟩
  | .repeatWhile condition body => ⟨condition.uses_true, usesThrough_true body⟩
  | .forEach _ source body => ⟨source.uses_true, usesThrough_true body⟩
  | .nextRound => trivial

theorem usesThrough_true : (body : List Stmt) → usesThrough (fun _ => True) (fun _ _ => True) body
  | [] => trivial
  | s :: rest => ⟨s.uses_true, usesThrough_true rest⟩

end

/-! ## §2 Parsers -/

namespace Parser

variable {α β : Type} {P : List Token → Prop} {Q : α → List Token → Prop}

/-- Wherever the parser succeeds on tokens with `P`, its result and the tokens left have `Q`. -/
def Meets (P : List Token → Prop) (p : Parser α) (Q : α → List Token → Prop) : Prop :=
  ∀ tokens a rest, P tokens → p tokens = .ok (a, rest) → Q a rest

theorem bind_eq_ok {p : Parser α} {f : α → Parser β} {b : β} {tokens rest : List Token}
    (h : (p >>= f) tokens = .ok (b, rest)) :
    ∃ a middle, p tokens = .ok (a, middle) ∧ f a middle = .ok (b, rest) := by
  have hbind : (p >>= f) tokens = (p tokens >>= fun r => f r.1 r.2) := rfl
  rw [hbind] at h
  cases hp : p tokens with
  | error e => rw [hp] at h; cases h
  | ok r => rw [hp] at h; exact ⟨r.1, r.2, rfl, h⟩

/-- All of a text is read from its tokens. -/
theorem tokens_of_parseText {p : Parser α} {text : List Char} {a : α}
    (h : parseText p text = .ok a) :
    ∃ tokens rest, tokenize text = .ok tokens ∧ p tokens = .ok (a, rest) := by
  unfold parseText at h
  split at h
  · cases h
  · rename_i tokens htokens
    cases hrun : p tokens with
    | error cause =>
      rw [StateT.run, hrun] at h
      cases h
    | ok r =>
      rw [StateT.run, hrun] at h
      cases h
      exact ⟨tokens, r.2, htokens, hrun⟩

theorem refuse_ne_ok {tokens : List Token} {r : α × List Token} :
    (refuse : Parser α) tokens ≠ .ok r := by
  cases tokens <;> nofun

namespace Meets

theorem bind {p : Parser α} {f : α → Parser β} {R : α → List Token → Prop}
    {Q : β → List Token → Prop} (hp : Meets P p R) (hf : ∀ a, Meets (R a) (f a) Q) :
    Meets P (p >>= f) Q := by
  intro tokens b rest hP h
  obtain ⟨a, middle, ha, hb⟩ := bind_eq_ok h
  exact hf a middle b rest (hp tokens a middle hP ha) hb

theorem pure {a : α} (h : ∀ tokens, P tokens → Q a tokens) :
    Meets P (pure a : Parser α) Q := by
  rintro tokens _ _ hP ⟨⟩
  exact h tokens hP

theorem refuse : Meets P (refuse : Parser α) Q :=
  fun _ _ _ _ h => absurd h refuse_ne_ok

theorem fail {e : ParseError} : Meets P (fail e : Parser α) Q := by
  rintro tokens a rest _ ⟨⟩

theorem imp {p : Parser α} {P' : List Token → Prop} {Q' : α → List Token → Prop}
    (hp : Meets P p Q) (hP : ∀ tokens, P' tokens → P tokens)
    (hQ : ∀ a tokens, Q a tokens → Q' a tokens) : Meets P' p Q' :=
  fun tokens a rest hP' h => hQ a rest (hp tokens a rest (hP tokens hP') h)

theorem ite {c : Prop} [Decidable c] {p q : Parser α} (hp : c → Meets P p Q)
    (hq : ¬ c → Meets P q Q) : Meets P (if c then p else q) Q := by
  split
  · exact hp ‹_›
  · exact hq ‹_›

/-- What holds of more than the tokens is a fact. -/
theorem of_and {p : Parser α} {fact : Prop} (h : fact → Meets P p Q) :
    Meets (fun tokens => P tokens ∧ fact) p Q :=
  fun tokens a rest hP => h hP.2 tokens a rest hP.1

theorem peek : Meets P peek (fun t tokens => P tokens ∧ t = tokens.head?) := by
  rintro tokens _ _ hP ⟨⟩
  exact ⟨hP, rfl⟩

end Meets

end Parser

open SumSheet.Script.Parser

/-! ## §3 Invariants -/

/-- The arguments of a call follow. -/
def OpensCall (tokens : List Token) : Prop :=
  tokens.head? = some (.symbol .unit) ∨ tokens.head? = some (.symbol .openParen)

/-- The arguments of a call in place follow, behind their mark. -/
def OpensInPlace (tokens : List Token) : Prop :=
  ∃ behind, tokens = .symbol .not :: behind ∧ OpensCall behind

/-- A point follows, and no word behind it. -/
def IsCutOff (tokens : List Token) : Prop :=
  ∃ behind, tokens = .symbol .period :: behind ∧ ∀ w, behind.head? ≠ some (.word w)

/-- A property of tokens that stays while they are taken off the front. It may be weaker for tokens
whose first word is `glued` to a number in front of it. -/
structure TokenInvariant (mode : Mode) where
  holds : (glued : Bool) → List Token → Prop
  /-- The variables that may occur. -/
  reads : String → Prop
  /-- The functions that may be called, in their own place or in that of the caller. -/
  calls : (inPlace : Bool) → String → Prop
  weaken {tokens : List Token} : holds false tokens → holds true tokens
  symbol {glued : Bool} {s : Symbol} {rest : List Token} :
    holds glued (.symbol s :: rest) → holds false rest
  int {glued : Bool} {n : Int} {rest : List Token} : holds glued (.int n :: rest) → holds true rest
  float {glued : Bool} {x : Float} {rest : List Token} :
    holds glued (.float x :: rest) → holds true rest
  text {glued : Bool} {s : String} {rest : List Token} :
    holds glued (.text s :: rest) → holds false rest
  char {glued : Bool} {c : Char} {rest : List Token} :
    holds glued (.char c :: rest) → holds false rest
  word {w : String} {rest : List Token} :
    w ≠ "fn" → holds false (.word w :: rest) → holds false rest
  /-- In a script there is no difference. -/
  unglued {tokens : List Token} : mode = .script → holds true tokens → holds false tokens
  reads_of_word {w : String} {rest : List Token} :
    holds false (.word w :: rest) → ¬ OpensCall rest → ¬ IsCutOff rest → reads w
  calls_of_word {w : String} {rest : List Token} :
    holds false (.word w :: rest) → OpensCall rest → calls false w
  calls_in_place {w : String} {rest : List Token} :
    holds false (.word w :: rest) → OpensInPlace rest → calls true w

namespace TokenInvariant

variable {mode : Mode} (I : TokenInvariant mode) {α : Type} {glued : Bool}

/-- What holds behind an expression. -/
def Reads (e : Expr) (tokens : List Token) : Prop :=
  I.holds true tokens ∧ e.Uses I.reads I.calls

/-- What holds behind an operand, before it is known what follows it. -/
def ReadsUncut (e : Expr) (tokens : List Token) : Prop :=
  I.holds true tokens ∧ (¬ IsCutOff tokens → e.Uses I.reads I.calls)

/-- What holds behind a list of expressions and its closing sign. -/
def ReadsAll (es : List Expr) (tokens : List Token) : Prop :=
  I.holds false tokens ∧ usesAll I.reads I.calls es

/-- What holds behind a block. -/
def ReadsThrough (body : List Stmt) (tokens : List Token) : Prop :=
  I.holds false tokens ∧ usesThrough I.reads I.calls body

/-- What holds behind a statement, which may be empty. -/
def ReadsIn (s : Option Stmt) (tokens : List Token) : Prop :=
  I.holds false tokens ∧ ∀ s' ∈ s, s'.Uses I.reads I.calls

variable {I}

theorem any {tokens : List Token} (h : I.holds false tokens) : I.holds glued tokens := by
  cases glued with
  | false => exact h
  | true => exact I.weaken h

/-- A sign is taken off exactly where it stands. -/
theorem accept_eq_ok {s : Symbol} {tokens rest : List Token} {b : Bool}
    (h : Parser.accept s tokens = .ok (b, rest)) :
    b = true ∧ tokens = .symbol s :: rest
      ∨ b = false ∧ tokens.head? ≠ some (.symbol s) ∧ rest = tokens := by
  unfold Parser.accept at h
  split at h
  · split at h
    · rename_i heq
      cases h
      exact .inl ⟨rfl, by rw [heq]⟩
    · rename_i hne
      cases h
      exact .inr ⟨rfl, by simpa using hne, rfl⟩
  · rename_i hother
    cases h
    refine .inr ⟨rfl, fun hhead => ?_, rfl⟩
    obtain ⟨tail, rfl⟩ := List.head?_eq_some_iff.mp hhead
    exact hother _ _ rfl

theorem accept {s : Symbol} {Q : Bool → List Token → Prop}
    (hyes : ∀ tokens, I.holds false tokens → Q true tokens)
    (hno : ∀ tokens, I.holds glued tokens → Q false tokens) :
    Meets (I.holds glued) (accept s) Q := by
  intro tokens b rest hI h
  obtain ⟨rfl, rfl⟩ | ⟨rfl, _, rfl⟩ := accept_eq_ok h
  · exact hyes _ (I.symbol hI)
  · exact hno _ hI

/-- A sign that is taken off if it is there. -/
theorem ifAccept {s : Symbol} {p q : Parser α} {Q : α → List Token → Prop}
    (hp : Meets (I.holds false) p Q) (hq : Meets (I.holds glued) q Q) :
    Meets (I.holds glued) (do if ← Parser.accept s then p else q) Q := by
  refine .bind (R := fun b tokens => I.holds (!b && glued) tokens)
    (accept (fun _ h => h) fun _ h => by simpa using h) fun b => ?_
  cases b with
  | true => exact hp
  | false => exact hq

theorem expect {s : Symbol} : Meets (I.holds glued) (expect s) (fun _ => I.holds false) := by
  refine .bind (R := fun b tokens => b = true → I.holds false tokens)
    (accept (fun _ h _ => h) nofun) fun b => ?_
  cases b with
  | true => exact .pure fun _ h => h rfl
  | false => exact .refuse

theorem skip {s : Symbol} :
    Meets (fun tokens => I.holds glued tokens ∧ some (.symbol s) = tokens.head?) skip
      (fun _ => I.holds false) := by
  rintro (_ | ⟨t, rest⟩) _ _ ⟨hI, hs⟩ ⟨⟩
  · cases hs
  · cases hs
    exact I.symbol hI

theorem acceptWord {word : String} (hword : word ≠ "fn") :
    Meets (I.holds false) (acceptWord word) (fun _ => I.holds false) := by
  intro tokens b rest hI h
  unfold Parser.acceptWord at h
  split at h
  · split at h
    · rename_i heq
      cases h
      exact I.word (heq ▸ hword) hI
    · cases h
      exact hI
  · cases h
    exact hI

theorem expectWord {word : String} (hword : word ≠ "fn") :
    Meets (I.holds false) (expectWord word) (fun _ => I.holds false) := by
  refine .bind (acceptWord hword) fun b => ?_
  cases b with
  | true => exact .pure fun _ h => h
  | false => exact .refuse

theorem ne_fn_of_isFreeName {w : String} (h : isFreeName w = true) : w ≠ "fn" := by
  rintro rfl
  cases h

theorem ne_fn_of_isCallable {w : String} (h : isCallable w = true) : w ≠ "fn" := by
  rintro rfl
  cases h

theorem name : Meets (I.holds false) name (fun _ => I.holds false) := by
  intro tokens w rest hI h
  unfold Parser.name at h
  split at h
  · split at h
    · cases h
      exact I.word (ne_fn_of_isFreeName ‹_›) hI
    · cases h
  · exact absurd h refuse_ne_ok

theorem itemsUpTo {item : Parser α} {close : Symbol} {R : α → Prop}
    (hitem : Meets (I.holds false) item (fun a tokens => I.holds true tokens ∧ R a)) (limit : Nat) :
    Meets (I.holds false) (itemsUpTo item close limit)
      (fun as tokens => I.holds false tokens ∧ ∀ a ∈ as, R a) := by
  induction limit with
  | zero => exact .refuse
  | succ limit ih =>
    refine ifAccept (.pure fun _ h => ⟨h, nofun⟩) (.bind hitem fun first => ?_)
    refine .of_and fun hfirst => ?_
    refine ifAccept (.bind ih fun others => .pure fun _ h => ⟨h.1, ?_⟩)
      (.bind expect fun _ => .pure fun _ h => ⟨h, ?_⟩)
    · simpa using ⟨hfirst, h.2⟩
    · simpa using hfirst

theorem items {item : Parser α} {close : Symbol} {R : α → Prop}
    (hitem : Meets (I.holds false) item (fun a tokens => I.holds true tokens ∧ R a)) :
    Meets (I.holds false) (items item close)
      (fun as tokens => I.holds false tokens ∧ ∀ a ∈ as, R a) :=
  fun tokens => itemsUpTo hitem (tokens.length + 1) tokens

theorem usesAll_iff {reads : String → Prop} {calls : Bool → String → Prop} {es : List Expr} :
    usesAll reads calls es ↔ ∀ e ∈ es, e.Uses reads calls := by
  induction es with
  | nil => simp [usesAll]
  | cons e rest ih => simp [usesAll, ih]

end TokenInvariant

/-! ## §4 One level -/

namespace Grammar

variable {mode : Mode}

/-- Every parser of a level keeps the invariant, and what it reads uses only what may occur. -/
structure Keeps (I : TokenInvariant mode) (g : Grammar) : Prop where
  expr : Meets (I.holds false) g.expr I.Reads
  operand : Meets (I.holds false) g.operand I.Reads
  operators (outer : Nat) (left : Expr) : left.Uses I.reads I.calls →
    Meets (I.holds true) (g.operators outer left) I.Reads
  arguments : Meets (I.holds false) g.arguments I.ReadsAll
  links (base : Expr) : Meets (I.holds true) (g.links base)
    (fun links tokens => I.holds true tokens ∧ usesAlong I.reads I.calls links)
  block (inLoop : Bool) : Meets (I.holds true) (g.block inLoop) I.ReadsThrough
  conditional (inLoop : Bool) : Meets (I.holds false) (g.conditional inLoop)
    (fun e tokens => I.holds false tokens ∧ e.Uses I.reads I.calls)
  statement (inLoop : Bool) : mode = .script →
    Meets (I.holds false) (g.statement inLoop) I.ReadsIn

theorem keeps_exhausted (I : TokenInvariant mode) : Keeps I exhausted where
  expr := .fail
  operand := .fail
  operators _ _ _ := .fail
  arguments := .fail
  links _ := .fail
  block _ := .fail
  conditional _ := .fail
  statement _ _ := .fail

section

open TokenInvariant

variable {I : TokenInvariant mode} {inner : Grammar} (h : Keeps I inner)

include h

theorem argumentsOf_meets : Meets (I.holds false) (argumentsOf inner) I.ReadsAll :=
  (items h.expr).imp (fun _ h => h) fun _ _ h => ⟨h.1, usesAll_iff.mpr h.2⟩

omit h in
theorem callArguments?_meets {arguments : Parser (List Expr)}
    (harguments : Meets (I.holds false) arguments I.ReadsAll) :
    Meets (I.holds false) (callArguments? arguments)
      (fun r tokens => I.holds false tokens ∧ ∀ args ∈ r, usesAll I.reads I.calls args) := by
  refine ifAccept (.pure fun _ h => ⟨h, ?_⟩) (ifAccept (.bind harguments fun args =>
    .pure fun _ h => ⟨h.1, ?_⟩) (.pure fun _ h => ⟨h, nofun⟩))
  · simp [usesAll]
  · simpa using h.2

omit h in
/-- There are arguments exactly where a call opens. -/
theorem opensCall_of_callArguments? {arguments : Parser (List Expr)} {tokens rest : List Token}
    {r : Option (List Expr)} (h : callArguments? arguments tokens = .ok (r, rest)) :
    r.isSome = true ∧ OpensCall tokens ∨ r = none ∧ ¬ OpensCall tokens ∧ rest = tokens := by
  obtain ⟨_, _, hunit, hbehind⟩ := bind_eq_ok h
  obtain ⟨rfl, rfl⟩ | ⟨rfl, hunit, rfl⟩ := accept_eq_ok hunit
  · cases hbehind
    exact .inl ⟨rfl, .inl rfl⟩
  · obtain ⟨_, _, hopen, hargs⟩ := bind_eq_ok hbehind
    obtain ⟨rfl, rfl⟩ | ⟨rfl, hopen, rfl⟩ := accept_eq_ok hopen
    · obtain ⟨_, _, _, hsome⟩ := bind_eq_ok hargs
      cases hsome
      exact .inl ⟨rfl, .inr rfl⟩
    · cases hargs
      exact .inr ⟨rfl, not_or.mpr ⟨hunit, hopen⟩, rfl⟩

omit h in
theorem inPlaceArguments?_meets {arguments : Parser (List Expr)}
    (harguments : Meets (I.holds false) arguments I.ReadsAll) :
    Meets (I.holds false) (inPlaceArguments? arguments)
      (fun r tokens => I.holds false tokens ∧ ∀ args ∈ r, usesAll I.reads I.calls args) := by
  intro tokens r rest hI hr
  unfold inPlaceArguments? at hr
  split at hr
  · cases hr
    exact ⟨I.symbol (I.symbol hI), by simp [usesAll]⟩
  · obtain ⟨args, middle, hargs, hsome⟩ := bind_eq_ok hr
    cases hsome
    obtain ⟨hrest, huses⟩ := harguments _ _ _ (I.symbol (I.symbol hI)) hargs
    exact ⟨hrest, by simpa using huses⟩
  · cases hr
    exact ⟨hI, nofun⟩

omit h in
/-- There are arguments in place only behind the mark. -/
theorem opensInPlace_of_inPlaceArguments? {arguments : Parser (List Expr)}
    {tokens rest : List Token} {r : Option (List Expr)}
    (h : inPlaceArguments? arguments tokens = .ok (r, rest)) :
    OpensInPlace tokens ∨ r = none ∧ rest = tokens := by
  unfold inPlaceArguments? at h
  split at h
  · exact .inl ⟨_, rfl, .inl rfl⟩
  · exact .inl ⟨_, rfl, .inr rfl⟩
  · cases h
    exact .inr ⟨rfl, rfl⟩

/-- Arguments are those of a call, of which something is known. -/
theorem methodArguments_meets {fact : Prop} : Meets
    (fun tokens => I.holds false tokens ∧ (OpensCall tokens → fact))
    (callArguments? inner.arguments)
    (fun r tokens => I.holds false tokens
      ∧ ∀ args ∈ r, fact ∧ usesAll I.reads I.calls args) := by
  intro tokens r rest hI hr
  obtain ⟨hrest, huses⟩ := callArguments?_meets h.arguments _ _ _ hI.1 hr
  refine ⟨hrest, fun args hargs => ⟨?_, huses args hargs⟩⟩
  rcases opensCall_of_callArguments? hr with ⟨_, hopens⟩ | ⟨rfl, _⟩
  · exact hI.2 hopens
  · cases hargs

theorem linksOf_meets (base : Expr) : Meets (I.holds true) (linksOf inner base)
    (fun links tokens => I.holds true tokens ∧ usesAlong I.reads I.calls links) := by
  refine ifAccept ?_ (ifAccept ?_ (.pure fun _ h => ⟨h, trivial⟩))
  · -- a method or a property
    refine .bind
      (R := fun name tokens => I.holds false tokens ∧ (OpensCall tokens → I.calls false name))
      ?_ fun name => .bind (methodArguments_meets h) fun args => .of_and fun hargs => .bind
        ((h.links _).imp (fun _ => I.weaken) fun _ _ h => h)
        fun rest => .pure fun _ h => ⟨h.1, ?_, h.2⟩
    · intro tokens w rest hI hw
      beta_reduce at hw
      split at hw
      · split at hw
        · cases hw
          exact ⟨I.word (ne_fn_of_isCallable ‹_›) hI, I.calls_of_word hI⟩
        · cases hw
      · exact absurd hw refuse_ne_ok
    · cases args with
      | none => trivial
      | some args => exact hargs args rfl
  · -- an index
    refine .bind h.expr fun i => .of_and fun hi => .bind expect fun _ => .ite (fun _ => ?_) fun _ =>
      .fail
    exact .bind ((h.links i).imp (fun _ => I.weaken) fun _ _ h => h) fun rest =>
      .pure fun _ h => ⟨h.1, hi, h.2⟩

omit h in
/-- A chain never goes on from where it is cut off. -/
theorem not_isCutOff_of_linksOf {base : Expr} {tokens rest : List Token} {links : List Link}
    (h : linksOf inner base tokens = .ok (links, rest)) : ¬ IsCutOff tokens := by
  rintro ⟨behind, rfl, hword⟩
  obtain ⟨_, _, hperiod, h⟩ := bind_eq_ok h
  obtain ⟨rfl, heq⟩ | ⟨rfl, hne, _⟩ := accept_eq_ok hperiod
  · cases heq
    obtain ⟨_, _, hmethod, _⟩ := bind_eq_ok h
    split at hmethod
    · exact hword _ rfl
    · exact refuse_ne_ok hmethod
  · exact hne rfl

theorem field_meets : Meets (I.holds false) (field inner)
    (fun f tokens => I.holds true tokens ∧ f.2.Uses I.reads I.calls) := by
  have hvalue (key : String) : Meets (I.holds false) (field.value inner key)
      (fun f tokens => I.holds true tokens ∧ f.2.Uses I.reads I.calls) :=
    .bind expect fun _ => .bind h.expr fun e => .pure fun _ h => h
  intro tokens f rest hI hf
  unfold field at hf
  split at hf
  · split at hf
    · exact hvalue _ _ _ _ (I.word (ne_fn_of_isFreeName ‹_›) hI) hf
    · cases hf
  · exact hvalue _ _ _ _ (I.text hI) hf
  · exact absurd hf refuse_ne_ok

omit h in
theorem readsUncut {e : Expr} {tokens : List Token} (hI : I.holds true tokens)
    (he : e.Uses I.reads I.calls) : I.ReadsUncut e tokens :=
  ⟨hI, fun _ => he⟩

/-- What a word begins: a call, a variable or a word of the language. -/
theorem atom_word {w : String} {tokens rest : List Token} {e : Expr}
    (hI : I.holds false (.word w :: tokens))
    (he : atom mode inner (.word w :: tokens) = .ok (e, rest)) : I.ReadsUncut e rest := by
  simp only [atom] at he
  split at he
  · rename_i hw
    cases he
    exact readsUncut (I.weaken (I.word (hw ▸ by decide) hI)) trivial
  split at he
  · rename_i hw
    cases he
    exact readsUncut (I.weaken (I.word (hw ▸ by decide) hI)) trivial
  split at he
  · obtain ⟨hrest, huses⟩ := h.conditional false _ _ _ hI he
    exact readsUncut (I.weaken hrest) huses
  split at he
  · rename_i hcallable
    have htokens := I.word (ne_fn_of_isCallable hcallable) hI
    obtain ⟨args, middle, hargs, hbehind⟩ := bind_eq_ok he
    obtain ⟨hmiddle, huses⟩ := callArguments?_meets (argumentsOf_meets h) _ _ _ htokens hargs
    rcases opensCall_of_callArguments? hargs with ⟨hsome, hopens⟩ | ⟨rfl, hnot, rfl⟩
    · obtain ⟨es, rfl⟩ := Option.isSome_iff_exists.mp hsome
      cases hbehind
      exact readsUncut (I.weaken hmiddle) ⟨I.calls_of_word hI hopens, huses es rfl⟩
    · obtain ⟨inPlace, last, hinPlace, hbehind⟩ := bind_eq_ok hbehind
      obtain ⟨hlast, huses⟩ :=
        inPlaceArguments?_meets (argumentsOf_meets h) _ _ _ htokens hinPlace
      have hmark := opensInPlace_of_inPlaceArguments? hinPlace
      cases inPlace with
      | some es =>
        cases hbehind
        exact readsUncut (I.weaken hlast)
          ⟨I.calls_in_place hI (hmark.resolve_right nofun), huses es rfl⟩
      | none =>
        simp only at hbehind
        split at hbehind
        · cases hbehind
          refine ⟨I.weaken hlast, fun hcut => I.reads_of_word hI hnot ?_⟩
          rcases hmark with ⟨behind, rfl, -⟩ | ⟨-, rfl⟩
          · rintro ⟨_, ⟨⟩, _⟩
          · exact hcut
        · exact absurd hbehind refuse_ne_ok
  split at he
  · rename_i hw
    obtain ⟨rfl, -⟩ : w = "this" ∧ mode = .script := by simpa using hw
    cases he
    exact readsUncut (I.weaken (I.word (by decide) hI)) trivial
  · exact absurd he refuse_ne_ok

/-- What is read uses only what may occur, unless nothing can follow it. -/
theorem atom_meets : Meets (I.holds false) (atom mode inner) I.ReadsUncut := by
  intro tokens e rest hI he
  unfold atom at he
  split at he
  · cases he
    exact readsUncut (I.int hI) trivial
  · cases he
    exact readsUncut (I.float hI) trivial
  · cases he
    exact readsUncut (I.weaken (I.text hI)) trivial
  · cases he
    exact readsUncut (I.weaken (I.char hI)) trivial
  · cases he
    exact readsUncut (I.weaken (I.symbol hI)) trivial
  · -- in parentheses
    refine (?_ : Meets (I.holds false) _ I.ReadsUncut) _ _ _ (I.symbol hI) he
    exact .bind h.expr fun e => .of_and fun he => .bind expect fun _ => .pure fun _ h =>
      readsUncut (I.weaken h) he
  · -- a list
    refine (?_ : Meets (I.holds false) _ I.ReadsUncut) _ _ _ (I.symbol hI) he
    exact .bind (items h.expr) fun es => .of_and fun hes => .pure fun _ h =>
      readsUncut (I.weaken h) (usesAll_iff.mpr hes)
  · -- a record
    refine (?_ : Meets (I.holds false) _ I.ReadsUncut) _ _ _ (I.symbol hI) he
    refine .bind (items (field_meets h)) fun fields => .of_and fun hfields => ?_
    simp only
    split
    · exact .fail
    · exact .pure fun _ h => readsUncut (I.weaken h)
        (usesAll_iff.mpr (List.forall_mem_map.mpr hfields))
  · -- a closure, which is not called
    refine (?_ : Meets (I.holds false) _ I.ReadsUncut) _ _ _ (I.symbol hI) he
    refine .bind (items (R := fun _ => True) (name.imp (fun _ h => h) fun _ _ h =>
      ⟨I.weaken h, trivial⟩)) fun params => .of_and fun _ => .bind h.expr fun e => .pure fun _ h =>
        readsUncut h.1 trivial
  · refine (?_ : Meets (I.holds false) _ I.ReadsUncut) _ _ _ (I.symbol hI) he
    exact .bind h.expr fun e => .pure fun _ h => readsUncut h.1 trivial
  · -- a block
    split at he
    · refine (?_ : Meets (I.holds false) _ I.ReadsUncut) _ _ _ hI he
      exact .bind ((h.block false).imp (fun _ => I.weaken) fun _ _ h => h) fun body =>
        .pure fun _ h => readsUncut (I.weaken h.1) h.2
    · exact absurd he refuse_ne_ok
  · exact atom_word h hI he
  · exact absurd he refuse_ne_ok

theorem linked_meets : Meets (I.holds false) (linked mode inner) I.Reads := by
  intro tokens e rest hI he
  obtain ⟨base, middle, hbase, he⟩ := bind_eq_ok he
  obtain ⟨links, _, hlinks, he⟩ := bind_eq_ok he
  cases he
  obtain ⟨hmiddle, huses⟩ := atom_meets h _ _ _ hI hbase
  obtain ⟨hrest, hlinks'⟩ := linksOf_meets h base _ _ _ hmiddle hlinks
  have hbase' := huses (not_isCutOff_of_linksOf hlinks)
  refine ⟨hrest, ?_⟩
  split
  · exact hbase'
  · exact ⟨hbase', hlinks'⟩

omit h in
theorem uses_negated {reads : String → Prop} {calls : Bool → String → Prop}
    {e : Expr} (he : e.Uses reads calls) :
    (negated e).Uses reads calls := by
  cases e <;> exact he

omit h in
theorem uses_unnegated {reads : String → Prop} {calls : Bool → String → Prop}
    {e : Expr} (he : e.Uses reads calls) :
    (unnegated e).Uses reads calls := by
  cases e <;> exact he

theorem operandOf_meets : Meets (I.holds false) (operandOf mode inner) I.Reads :=
  ifAccept (.bind h.operand fun _ => .pure fun _ h => ⟨h.1, uses_negated h.2⟩) <|
    ifAccept (.bind h.operand fun _ => .pure fun _ h => ⟨h.1, uses_unnegated h.2⟩) <|
      ifAccept (.bind h.operand fun _ => .pure fun _ h => h) (linked_meets h)

omit h in
/-- An operator builds an expression of what its operands use. -/
theorem apply_meets {op : Operator} {left right : Expr} (hleft : left.Uses I.reads I.calls)
    (hright : right.Uses I.reads I.calls) :
    Meets (I.holds true) (op.apply left right) I.Reads := by
  cases op with
  | plain op => exact .pure fun _ h => ⟨h, hleft, hright⟩
  | orElse => exact .pure fun _ h => ⟨h, hleft, hright⟩
  | both => exact .ite (fun _ => .pure fun _ h => ⟨h, hleft, hright⟩) fun _ => .fail
  | either => exact .ite (fun _ => .pure fun _ h => ⟨h, hleft, hright⟩) fun _ => .fail

omit h in
/-- An operator is a sign. -/
theorem exists_symbol_of_operator? {t : Option Token} {op : Operator}
    (h : t.bind Operator.ofToken? = some op) : ∃ s, t = some (.symbol s) := by
  obtain ⟨t, rfl, h⟩ := Option.bind_eq_some_iff.mp h
  cases t with
  | symbol s => exact ⟨s, rfl⟩
  | _ => cases h

theorem operatorsOf_meets (outer : Nat) {left : Expr} (hleft : left.Uses I.reads I.calls) :
    Meets (I.holds true) (operatorsOf mode inner outer left) I.Reads := by
  refine .bind .peek fun t => ?_
  split
  · exact .pure fun _ h => ⟨h.1, hleft⟩
  · rename_i op hop
    obtain ⟨s, rfl⟩ := exists_symbol_of_operator? hop
    refine .ite (fun _ => .pure fun _ h => ⟨h.1, hleft⟩) fun _ => ?_
    refine .bind skip fun _ => .bind (operandOf_meets h) fun right => .of_and fun hright => ?_
    have hrest (right : Expr) (hright : right.Uses I.reads I.calls) : Meets (I.holds true)
        (do inner.operators outer (← op.apply left right)) I.Reads :=
      .bind (apply_meets hleft hright) fun _ => .of_and fun he => h.operators _ _ he
    refine .bind .peek fun t => ?_
    simp only
    split
    · refine .ite (fun _ => ?_) fun _ => (hrest right hright).imp (fun _ h => h.1) fun _ _ h => h
      exact .bind ((h.operators _ _ hright).imp (fun _ h => h.1) fun _ _ h => h) fun right =>
        .of_and fun hright => hrest right hright
    · exact (hrest right hright).imp (fun _ h => h.1) fun _ _ h => h

theorem condition_meets : Meets (I.holds false) (condition inner) I.Reads :=
  .bind h.expr fun _ => .ite (fun _ => .pure fun _ h => h) fun _ => .fail

theorem conditionalOf_meets (inLoop : Bool) : Meets (I.holds false) (conditionalOf inner inLoop)
    (fun e tokens => I.holds false tokens ∧ e.Uses I.reads I.calls) := by
  refine .bind (expectWord (by decide)) fun _ => .bind (condition_meets h) fun c =>
    .of_and fun hc => .bind (h.block inLoop) fun yes => .of_and fun hyes => ?_
  refine .bind (acceptWord (by decide)) fun b => .ite (fun _ => ?_) fun _ => .pure fun _ h =>
    ⟨h, hc, hyes, trivial⟩
  refine .bind .peek fun t => .ite (fun _ => ?_) fun _ => ?_
  · exact .bind ((h.conditional inLoop).imp (fun _ h => h.1) fun _ _ h => h) fun e =>
      .pure fun _ h => ⟨h.1, hc, hyes, h.2, trivial⟩
  · exact .bind ((h.block inLoop).imp (fun _ h => I.weaken h.1) fun _ _ h => h) fun no =>
      .pure fun _ h => ⟨h.1, hc, hyes, h.2⟩

theorem expressionStatement_meets : Meets (I.holds false) (expressionStatement inner)
    (fun s tokens => I.holds true tokens ∧ s.Uses I.reads I.calls) := by
  refine .bind h.expr fun e => .of_and fun he => .bind .peek fun t => ?_
  split
  · split
    · exact .bind skip fun _ => .bind h.expr fun value => .pure fun _ h => ⟨h.1, he, h.2⟩
    · exact .bind skip fun _ => .bind h.expr fun value => .pure fun _ h => h
    · exact .refuse
    · exact .pure fun _ h => ⟨h.1, he⟩
  · exact .pure fun _ h => ⟨h.1, he⟩

theorem optionalValue_meets : Meets (I.holds false) (optionalValue inner) I.Reads := by
  refine .bind .peek fun t => ?_
  split
  · exact .pure fun _ h => ⟨I.weaken h.1, trivial⟩
  · exact .pure fun _ h => ⟨I.weaken h.1, trivial⟩
  · exact .pure fun _ h => ⟨I.weaken h.1, trivial⟩
  · exact h.expr.imp (fun _ h => h.1) fun _ _ h => h

theorem initialValue_meets : Meets (I.holds false) (initialValue inner) I.Reads :=
  ifAccept h.expr (.pure fun _ h => ⟨I.weaken h, trivial⟩)

/-- Only scripts have statements of every kind. -/
theorem statementOf_meets (hmode : mode = .script) (inLoop : Bool) :
    Meets (I.holds false) (statementOf inner inLoop) I.ReadsIn := by
  have hsome {s : Stmt} {tokens : List Token} (hI : I.holds true tokens)
      (hs : s.Uses I.reads I.calls) : I.ReadsIn (some s) tokens :=
    ⟨I.unglued hmode hI, by simpa using hs⟩
  have hblock (inLoop : Bool) : Meets (I.holds false) (inner.block inLoop) I.ReadsThrough :=
    (h.block inLoop).imp (fun _ => I.weaken) fun _ _ h => h
  have hexpression : Meets (I.holds false) (do return some (← expressionStatement inner))
      I.ReadsIn :=
    .bind (expressionStatement_meets h) fun s => .pure fun _ h => hsome h.1 h.2
  intro tokens s rest hI hs
  unfold statementOf at hs
  split at hs
  · cases hs
    exact ⟨I.symbol hI, nofun⟩
  · -- a block
    refine (?_ : Meets (I.holds false) _ I.ReadsIn) _ _ _ hI hs
    exact .bind (hblock inLoop) fun body => .pure fun _ h => hsome (I.weaken h.1) h.2
  · -- a word, which is taken off unless an expression begins with it
    rename_i w behind
    split at hs
    · rename_i hw
      have hne : w ≠ "fn" := by rintro rfl; simp at hw
      refine (?_ : Meets (I.holds false) _ I.ReadsIn) _ _ _ (I.word hne hI) hs
      exact .bind name fun x => .bind (initialValue_meets h) fun e => .pure fun _ h =>
        hsome h.1 h.2
    split at hs
    · refine (?_ : Meets (I.holds false) _ I.ReadsIn) _ _ _ hI hs
      exact .bind (h.conditional inLoop) fun e => .pure fun _ h => hsome (I.weaken h.1) h.2
    split at hs
    · rename_i hw
      refine (?_ : Meets (I.holds false) _ I.ReadsIn) _ _ _ (I.word (hw ▸ by decide) hI) hs
      exact .bind (condition_meets h) fun c => .of_and fun hc => .bind (h.block true) fun body =>
        .pure fun _ h => hsome (I.weaken h.1) ⟨hc, h.2⟩
    split at hs
    · rename_i hw
      refine (?_ : Meets (I.holds false) _ I.ReadsIn) _ _ _ (I.word (hw ▸ by decide) hI) hs
      exact .bind (hblock true) fun body => .pure fun _ h =>
        hsome (I.weaken h.1) ⟨trivial, h.2⟩
    split at hs
    · rename_i hw
      refine (?_ : Meets (I.holds false) _ I.ReadsIn) _ _ _ (I.word (hw ▸ by decide) hI) hs
      exact .bind name fun x => .bind (expectWord (by decide)) fun _ => .bind h.expr fun source =>
        .of_and fun hsource => .bind (h.block true) fun body => .pure fun _ h =>
          hsome (I.weaken h.1) ⟨hsource, h.2⟩
    split at hs
    · rename_i hw
      split at hs
      · refine (?_ : Meets (I.holds false) _ I.ReadsIn) _ _ _ (I.word (hw ▸ by decide) hI) hs
        exact .bind (optionalValue_meets h) fun e => .pure fun _ h => hsome h.1 h.2
      · cases hs
    split at hs
    · rename_i hw
      split at hs
      · cases hs
        exact hsome (I.weaken (I.word (hw ▸ by decide) hI)) trivial
      · cases hs
    split at hs
    · rename_i hw
      refine (?_ : Meets (I.holds false) _ I.ReadsIn) _ _ _ (I.word (hw ▸ by decide) hI) hs
      exact .bind (optionalValue_meets h) fun e => .pure fun _ h => hsome h.1 h.2
    split at hs
    · rename_i hw
      refine (?_ : Meets (I.holds false) _ I.ReadsIn) _ _ _ (I.word (hw ▸ by decide) hI) hs
      exact .bind (optionalValue_meets h) fun e => .pure fun _ h => hsome h.1 h.2
    · exact hexpression _ _ _ hI hs
  · exact hexpression _ _ _ hI hs

omit h in
theorem betweenStatements_meets (s : Stmt) :
    Meets (I.holds false) (betweenStatements s) (fun _ => I.holds false) := by
  refine ifAccept (.pure fun _ h => h) (.ite (fun _ => .pure fun _ h => h) fun _ => ?_)
  refine .bind .peek fun t => ?_
  split
  · exact .pure fun _ h => h.1
  · exact .pure fun _ h => h.1
  · exact .refuse

theorem statementsUpTo_meets (hmode : mode = .script) (inLoop : Bool) (limit : Nat) :
    Meets (I.holds false) (statementsUpTo inner inLoop limit) I.ReadsThrough := by
  induction limit with
  | zero => exact .refuse
  | succ limit ih =>
    refine ifAccept (.pure fun _ h => ⟨h, trivial⟩) (.bind (h.statement inLoop hmode) fun s => ?_)
    refine .of_and fun hs => ?_
    split
    · exact ih
    · exact .bind (betweenStatements_meets _) fun _ => .bind ih fun rest => .pure fun _ h =>
        ⟨h.1, hs _ rfl, h.2⟩

theorem blockOf_meets (inLoop : Bool) :
    Meets (I.holds true) (blockOf mode inner inLoop) I.ReadsThrough := by
  refine .bind expect fun _ => ?_
  split
  · exact .bind (expressionStatement_meets h) fun s => .of_and fun hs => .bind expect fun _ =>
      .pure fun _ h => ⟨h, hs, trivial⟩
  · exact fun tokens => statementsUpTo_meets h rfl inLoop _ tokens

theorem keeps_outer : Keeps I (outer mode inner) where
  expr := .bind h.operand fun _ => .of_and fun hleft => h.operators _ _ hleft
  operand := operandOf_meets h
  operators outer _ hleft := operatorsOf_meets h outer hleft
  arguments := argumentsOf_meets h
  links base := linksOf_meets h base
  block inLoop := blockOf_meets h inLoop
  conditional inLoop := conditionalOf_meets h inLoop
  statement inLoop hmode := statementOf_meets h hmode inLoop

end

/-! ## §5 All levels -/

/-- **Every parser keeps every invariant**, whatever levels are left. -/
theorem keeps_within (I : TokenInvariant mode) (levels : Nat) : Keeps I (within mode levels) := by
  induction levels with
  | zero => exact keeps_outer (keeps_exhausted I)
  | succ levels ih => exact keeps_outer ih

end Grammar

/-- An expression that a text spells uses only what may occur in it. -/
theorem formula_meets (I : TokenInvariant .formula) :
    Meets (I.holds false) formula fun e _ => e.Uses I.reads I.calls := by
  refine .bind (Grammar.keeps_within I expressionLevels).expr fun e => .bind .peek fun t => ?_
  split
  · exact .pure fun _ h => h.1.2
  · exact .refuse

end SumSheet.Script
