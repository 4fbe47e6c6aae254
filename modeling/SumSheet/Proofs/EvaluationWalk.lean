/-
SumSheet.Proofs.EvaluationWalk — one walk through evaluation for whatever
is to be said of all computations.

An expression is evaluated twice, with two callees. If a relation holds
between the calls that it makes, and every way of putting computations
together keeps the relation, then it holds between the two evaluations.
`ValueRelation` says what such a relation must provide, and `rel_eval`
that evaluation keeps it. A property of single computations is a relation
that disregards the second one.

Besides, the walk follows the values. The relation is said together with
what holds of the value that a computation ends with, and what is put
behind it may rely on that: a value holds no function value but those of
given names. Most relations have no use for it. They are a `RunRelation`,
and walk with values of which nothing is known (`toValueRelation`).

Only a variable that is read or written can be missing: no operator and
no function of the library reports that. So a relation has to account
for it in these two places alone.

A call is looked up by its name, unless the name is a word with a meaning
of its own. `rel_callOn` lists what those words ask for, so that a
relation is kept by calls if it is kept where functions are entered and
where texts are run.

  §1 Variables — reading and writing as a look at the machine.
  §2 Relations — what is asked of a relation.
  §3 Loops     — follow from that.
  §4 Programs  — the walk, by induction on expressions and statements.
  §5 Calls     — by name, through function values, and of the library.
  §6 Runs      — relations that disregard the values.
-/
import SumSheet.Proofs.ExpressionValue
import SumSheet.Proofs.FunctionValues
import SumSheet.Proofs.GrammarWalk

namespace SumSheet.Script

open Run

/-! ## §1 Variables -/

namespace Run

/-- The value of a variable that was looked up. -/
def readFound (name : String) : Option Binding → Run Value
  | some b => return b.value
  | none => fail (.unknownVariable name)

/-- Gives a variable that was looked up another value. -/
def writeFound (name : String) (value : Value) : Option Binding → Run Unit
  | some b =>
    if b.constant then fail (.constantAssigned name)
    else modify fun m => { m with bindings := rebind name value m.bindings }
  | none => fail (.unknownVariable name)

/-- The value whose method runs, if one does. -/
def thisFound : Option Value → Run Value
  | some v => return v
  | none => fail .unboundThis

/-- Gives the value whose method runs, if one does, another value. -/
def replaceFound (value : Value) : Option Value → Run Unit
  | some _ => modify fun m => { m with self := some value }
  | none => fail .unboundThis

theorem readThis_eq : readThis = (do thisFound (← get).self) := rfl

theorem writeThis_eq (value : Value) : writeThis value = (do replaceFound value (← get).self) := rfl

theorem read_eq (name : String) :
    read name = (do readFound name (binding? (← get).bindings name)) := rfl

theorem write_eq (name : String) (value : Value) :
    write name value = (do writeFound name value (binding? (← get).bindings name)) := rfl

end Run

/-! ## §2 Relations -/

/-- What the interruption hands on is within these names. -/
def Interrupt.Within (names : String → Prop) : Interrupt → Prop
  | .leaveLoop v | .giveBack v => v.Within names
  | .failed _ | .nextRound => True

/-- A relation between computations that is kept wherever they are put together. It is said of two
computations together with what the first one's value meets. Variables that are read or written are
among `reads`, and the functions in values among `names`. -/
structure ValueRelation (reads names : String → Prop) where
  /-- The name of a function without a name. -/
  anonymous : names "anon$"
  rel {α : Type} (post : α → Prop) : Run α → Run α → Prop
  pure {α : Type} {post : α → Prop} {a : α} : post a → rel post (pure a) (pure a)
  bind {α β : Type} {mid : α → Prop} {post : β → Prop} {c c' : Run α} {f f' : α → Run β} :
    rel mid c c' → (∀ a, mid a → rel post (f a) (f' a)) → rel post (c >>= f) (c' >>= f')
  /-- What interrupts a computation, unless a variable is missing. -/
  interrupt {α : Type} {post : α → Prop} {i : Interrupt} :
    (∀ name, i ≠ .failed (.unknownVariable name)) → i.Within names →
      rel post (throw i : Run α) (throw i)
  tick : rel (fun _ => True) tick tick
  read {name : String} : reads name → rel (Value.Within names) (read name) (read name)
  declare (name : String) {value : Value} (constant : Bool) : value.Within names →
    rel (fun _ => True) (declare name value constant) (declare name value constant)
  write {name : String} {value : Value} : reads name → value.Within names →
    rel (fun _ => True) (write name value) (write name value)
  readThis : rel (Value.Within names) readThis readThis
  writeThis {value : Value} : value.Within names →
    rel (fun _ => True) (writeThis value) (writeThis value)
  say (line : String) : rel (fun _ => True) (say line) (say line)
  inBlock {α : Type} {post : α → Prop} {c c' : Run α} :
    rel post c c' → rel post (inBlock c) (inBlock c')
  round {c c' : Run Value} : rel (Value.Within names) c c' →
    rel (fun left => ∀ v ∈ left, v.Within names) (round c) (round c')
  /-- What depends on two operands, as far as they are known beforehand. -/
  foresee {calls : Bool → String → Prop} {post : Value → Prop} {left right : Expr}
    (f f' : Option Value → Option Value → Run Value) :
    left.Uses reads calls → right.Uses reads calls →
    (∀ v w, (∀ x ∈ v, x.Within names) → (∀ x ∈ w, x.Within names) → rel post (f v w) (f' v w)) →
    rel post
      (do
        let bindings := (← get).bindings
        f (left.fixed? bindings) (right.fixed? bindings))
      (do
        let bindings := (← get).bindings
        f' (left.fixed? bindings) (right.fixed? bindings))

/-- The call runs among the variables of its caller. -/
def Site.isInPlace : Site → Bool
  | .inPlace => true
  | .plain | .method _ => false

/-- The method that is called, if one is, may be called, and the values are within these names. -/
def Access.Fits (calls : Bool → String → Prop) (names : String → Prop) : Access → Prop
  | .method name args => calls false name ∧ AllWithin names args
  | .property _ => True
  | .index i => i.Within names

namespace ValueRelation

variable {reads names : String → Prop} (R : ValueRelation reads names)

/-- The relation holds between the calls that a program may make. -/
def Callees (calls : Bool → String → Prop) (call call' : Callee) : Prop :=
  ∀ (site : Site) (name : String) (args : List Value), calls site.isInPlace name →
    AllWithin names site.self → AllWithin names args →
    R.rel (Value.Within names) (call site name args) (call' site name args)

variable {R}

/-- What is put together without regard to the value. -/
theorem andThen {α β : Type} {mid : α → Prop} {post : β → Prop} {c c' : Run α}
    {f f' : α → Run β} (hc : R.rel mid c c') (hf : ∀ a, R.rel post (f a) (f' a)) :
    R.rel post (c >>= f) (c' >>= f') :=
  R.bind hc fun a _ => hf a

/-! ## §3 Loops -/

theorem fail {α : Type} {post : α → Prop} {cause : Failure}
    (h : ∀ name, cause ≠ .unknownVariable name) : R.rel post (fail cause : Run α) (fail cause) :=
  R.interrupt (fun name hi => h name (Interrupt.failed.inj hi)) trivial

theorem ofResult {r : Result} (h : Tame names r) :
    R.rel (Value.Within names) (ofResult r) (ofResult r) := by
  cases r with
  | ok v => exact R.pure h
  | error cause => exact fail h

theorem truth (v : Value) : R.rel (fun _ => True) (truth v) (truth v) := by
  cases v with
  | bool b => exact R.pure trivial
  | _ => exact fail nofun

theorem items {v : Value} (hv : v.Within names) :
    R.rel (AllWithin names) (items v) (items v) := by
  cases v with
  | list items => exact R.pure hv
  | range first last through =>
    refine R.pure (allWithin_iff.mpr fun v hmem => ?_)
    obtain ⟨k, -, rfl⟩ := List.mem_map.mp hmem
    trivial
  | _ => exact fail nofun

theorem repeatWhile {condition condition' : Run Bool} {body body' : Run Value}
    (hcondition : R.rel (fun _ => True) condition condition')
    (hbody : R.rel (Value.Within names) body body') (limit : Nat) :
    R.rel (Value.Within names) (repeatWhile condition body limit)
      (repeatWhile condition' body' limit) := by
  induction limit with
  | zero => exact fail nofun
  | succ limit ih =>
    refine andThen hcondition fun holds => ?_
    cases holds with
    | false => exact R.pure trivial
    | true =>
      refine R.bind (R.round hbody) fun left hleft => ?_
      cases left with
      | none => exact ih
      | some v => exact R.pure (hleft v rfl)

theorem forEach (name : String) {body body' : Run Value}
    (hbody : R.rel (Value.Within names) body body') {values : List Value}
    (hvalues : AllWithin names values) :
    R.rel (Value.Within names) (forEach name body values) (forEach name body' values) := by
  induction values with
  | nil => exact R.pure trivial
  | cons v rest ih =>
    refine andThen R.tick fun _ => R.bind (R.round (R.inBlock
      (andThen (R.declare name false hvalues.1) fun _ => hbody))) fun left hleft => ?_
    cases left with
    | none => exact ih hvalues.2
    | some v => exact R.pure (hleft v rfl)

/-! ## §4 Programs -/

variable {calls : Bool → String → Prop} {call call' : Callee}

theorem follow (h : R.Callees calls call call') {v : Value} (hv : v.Within names)
    {path : List Access} (hpath : ∀ access ∈ path, access.Fits calls names) :
    R.rel (Value.Within names) (follow call v path) (follow call' v path) := by
  induction path generalizing v with
  | nil => exact R.pure hv
  | cons access rest ih =>
    obtain ⟨haccess, hrest⟩ := List.forall_mem_cons.mp hpath
    cases access with
    | method name args =>
      exact R.bind (h (.method v) name args haccess.1 ⟨hv, trivial⟩ haccess.2) fun w hw =>
        ih hw hrest
    | property name => exact R.bind (ofResult (tame_propertyOf name hv)) fun w hw => ih hw hrest
    | index i => exact R.bind (ofResult (tame_itemOf hv i)) fun w hw => ih hw hrest

/-- Of two operands, either both matter or one of them decides. -/
theorem decided {neutral : Bool} {left right : Expr} {x x' y y' both both' : Run Value}
    (hleft : left.Uses reads calls) (hright : right.Uses reads calls)
    (hx : R.rel (Value.Within names) x x') (hy : R.rel (Value.Within names) y y')
    (hboth : R.rel (Value.Within names) both both') :
    R.rel (Value.Within names)
      (do
        let bindings := (← get).bindings
        match decideBy neutral (left.fixed? bindings) (right.fixed? bindings) with
        | .known b => return .bool b
        | .left => x
        | .right => y
        | .open => both)
      (do
        let bindings := (← get).bindings
        match decideBy neutral (left.fixed? bindings) (right.fixed? bindings) with
        | .known b => return .bool b
        | .left => x'
        | .right => y'
        | .open => both') := by
  refine R.foresee
    (fun v w => match decideBy neutral v w with
      | .known b => return .bool b
      | .left => x
      | .right => y
      | .open => both)
    (fun v w => match decideBy neutral v w with
      | .known b => return .bool b
      | .left => x'
      | .right => y'
      | .open => both') hleft hright fun v w _ _ => ?_
  cases decideBy neutral v w with
  | known b => exact R.pure trivial
  | left => exact hx
  | right => exact hy
  | «open» => exact hboth

/-- An operator is applied beforehand, or else to what its operands give. -/
theorem applied {op : BinaryOp} {left right : Expr} {rest rest' : Run Value}
    (hleft : left.Uses reads calls) (hright : right.Uses reads calls)
    (hrest : R.rel (Value.Within names) rest rest') :
    R.rel (Value.Within names)
      (do
        let bindings := (← get).bindings
        match foreseen? op (left.fixed? bindings) (right.fixed? bindings) with
        | some v => return v
        | none => rest)
      (do
        let bindings := (← get).bindings
        match foreseen? op (left.fixed? bindings) (right.fixed? bindings) with
        | some v => return v
        | none => rest') := by
  refine R.foresee
    (fun v w => match foreseen? op v w with
      | some u => return u
      | none => rest)
    (fun v w => match foreseen? op v w with
      | some u => return u
      | none => rest') hleft hright fun v w hv hw => ?_
  cases hforeseen : foreseen? op v w with
  | some u => exact R.pure (within_foreseen? hv hw u hforeseen)
  | none => exact hrest

/-- What is asked of a first argument is asked without looking at the machine. -/
theorem firstCheck {name : String} {arity : Nat} {check : Value → Run Bool}
    (h : firstCheck? name arity = some check) (v : Value) :
    R.rel (fun _ => True) (check v) (check v) := by
  unfold firstCheck? at h
  split at h
  case h_4 => cases h
  all_goals
    cases h
    beta_reduce
    split
    · exact R.pure trivial
    · exact fail nofun

/-- A variable that is looked up is one that is read. -/
theorem lookUp {e : Expr} {look : Run Value} (huses : e.Uses reads calls)
    (h : e.lookUp? = some look) : R.rel (Value.Within names) look look := by
  cases e with
  | «variable» name =>
    cases h
    exact R.read huses
  | this =>
    cases h
    exact R.readThis
  | _ => cases h

mutual

/-- **Evaluation keeps every relation that the calls keep**, and gives values within the names. -/
theorem rel_eval (h : R.Callees calls call call') : (e : Expr) → e.Uses reads calls →
    R.rel (Value.Within names) (e.eval call) (e.eval call')
  | .unit, _ | .bool _, _ | .int _, _ | .float _, _ | .text _, _ | .char _, _ =>
    andThen R.tick fun _ => R.pure trivial
  | .closure, _ => andThen R.tick fun _ => R.pure ⟨R.anonymous, trivial⟩
  | .variable name, huses => andThen R.tick fun _ => R.read huses
  | .this, _ => andThen R.tick fun _ => R.readThis
  | .unary op e, huses =>
    andThen R.tick fun _ => andThen (rel_eval h e huses) fun v => ofResult (tame_unary op v)
  | .binary op left right, huses => by
    refine andThen R.tick fun _ => applied huses.1 huses.2 ?_
    refine R.bind (rel_eval h left huses.1) fun v hv => ?_
    exact R.bind (rel_eval h right huses.2) fun w hw => ofResult (tame_binary hv hw)
  | .both left right, huses => by
    refine andThen R.tick fun _ => decided huses.1 huses.2 (rel_eval h left huses.1)
      (rel_eval h right huses.2) ?_
    refine andThen (rel_eval h left huses.1) fun v => andThen (truth v) fun holds => ?_
    split
    · exact andThen (rel_eval h right huses.2) fun w => andThen (truth w) fun _ => R.pure trivial
    · exact R.pure trivial
  | .either left right, huses => by
    refine andThen R.tick fun _ => decided huses.1 huses.2 (rel_eval h left huses.1)
      (rel_eval h right huses.2) ?_
    refine andThen (rel_eval h left huses.1) fun v => andThen (truth v) fun holds => ?_
    split
    · exact R.pure trivial
    · exact andThen (rel_eval h right huses.2) fun w => andThen (truth w) fun _ => R.pure trivial
  | .orElse left right, huses => by
    refine andThen R.tick fun _ => R.bind (rel_eval h left huses.1) fun v hv => ?_
    split
    · exact rel_eval h right huses.2
    · exact R.pure hv
  | .call name args, huses => by
    refine andThen R.tick fun _ => ?_
    have hcall (values : List Value) (hvalues : AllWithin names values) :
        R.rel (Value.Within names) (call .plain name values) (call' .plain name values) :=
      h .plain name values huses.1 trivial hvalues
    split
    · rename_i check hcheck
      exact R.bind (rel_evalChecked h (firstCheck hcheck) true args huses.2) hcall
    · exact R.bind (rel_evalLate h args huses.2) hcall
  | .inPlace name args, huses => by
    refine andThen R.tick fun _ => ?_
    have hcall (values : List Value) (hvalues : AllWithin names values) :
        R.rel (Value.Within names) (call .inPlace name values) (call' .inPlace name values) :=
      h .inPlace name values huses.1 trivial hvalues
    split
    · rename_i check hcheck
      exact R.bind (rel_evalChecked h (firstCheck hcheck) false args huses.2) hcall
    · exact R.bind (rel_evalAll h args huses.2) hcall
  | .list items, huses =>
    andThen R.tick fun _ => R.bind (rel_evalAll h items huses) fun _ hvalues => R.pure hvalues
  | .record keys values, huses =>
    andThen R.tick fun _ => R.bind (rel_evalAll h values huses) fun _ hvalues => R.pure hvalues
  | .chain base links, huses => by
    refine andThen R.tick fun _ => R.bind (rel_accesses h links huses.2) fun path hpath => ?_
    exact R.bind (rel_eval h base huses.1) fun v hv => follow h hv hpath
  | .choose condition yes no, huses => by
    refine andThen R.tick fun _ => andThen (rel_eval h condition huses.1) fun v => ?_
    refine andThen (truth v) fun holds => ?_
    split
    · exact R.inBlock (rel_runAll h yes huses.2.1)
    · exact R.inBlock (rel_runAll h no huses.2.2)
  | .block body, huses => andThen R.tick fun _ => R.inBlock (rel_runAll h body huses)

theorem rel_evalAll (h : R.Callees calls call call') : (es : List Expr) → usesAll reads calls es →
    R.rel (AllWithin names) (evalAll call es) (evalAll call' es)
  | [], _ => R.pure trivial
  | e :: rest, huses => by
    refine R.bind (rel_eval h e huses.1) fun v hv => ?_
    exact R.bind (rel_evalAll h rest huses.2) fun _ hvalues => R.pure ⟨hv, hvalues⟩

theorem rel_evalLate (h : R.Callees calls call call') : (es : List Expr) →
    usesAll reads calls es → R.rel (AllWithin names) (evalLate call es) (evalLate call' es)
  | [], _ => R.pure trivial
  | e :: rest, huses => by
    cases hlook : e.lookUp? with
    | some look =>
      rw [evalLate_of_lookUp? _ hlook, evalLate_of_lookUp? _ hlook]
      refine andThen R.tick fun _ => R.bind (rel_evalAll h rest huses.2) fun values hvalues => ?_
      exact R.bind (lookUp huses.1 hlook) fun _ hv => R.pure ⟨hv, hvalues⟩
    | none =>
      rw [evalLate_eq_evalAll _ hlook, evalLate_eq_evalAll _ hlook]
      refine R.bind (rel_eval h e huses.1) fun v hv => ?_
      exact R.bind (rel_evalAll h rest huses.2) fun _ hvalues => R.pure ⟨hv, hvalues⟩

theorem rel_evalChecked (h : R.Callees calls call call') {check : Value → Run Bool}
    (hcheck : ∀ v, R.rel (fun _ => True) (check v) (check v)) (plain : Bool) :
    (es : List Expr) → usesAll reads calls es →
      R.rel (AllWithin names) (evalChecked call check plain es) (evalChecked call' check plain es)
  | [], _ => R.pure trivial
  | e :: rest, huses => by
    refine R.bind (rel_eval h e huses.1) fun v hv => andThen (hcheck v) fun late => ?_
    split
    · exact R.bind (rel_evalLate h rest huses.2) fun _ hvalues => R.pure ⟨hv, hvalues⟩
    · exact R.bind (rel_evalAll h rest huses.2) fun _ hvalues => R.pure ⟨hv, hvalues⟩

theorem rel_access (h : R.Callees calls call call') : (l : Link) → l.Uses reads calls →
    R.rel (Access.Fits calls names) (l.access call) (l.access call')
  | .method _ args, huses =>
    R.bind (rel_evalAll h args huses.2) fun _ hvalues => R.pure ⟨huses.1, hvalues⟩
  | .property _, _ => R.pure trivial
  | .index e, huses => R.bind (rel_eval h e huses) fun _ hv => R.pure hv

theorem rel_accesses (h : R.Callees calls call call') : (links : List Link) →
    usesAlong reads calls links →
      R.rel (fun path => ∀ access ∈ path, access.Fits calls names) (accesses call links)
        (accesses call' links)
  | [], _ => R.pure nofun
  | l :: rest, huses => by
    refine R.bind (rel_access h l huses.1) fun access haccess => ?_
    exact R.bind (rel_accesses h rest huses.2) fun path hpath =>
      R.pure (List.forall_mem_cons.mpr ⟨haccess, hpath⟩)

theorem rel_run (h : R.Callees calls call call') : (s : Stmt) → s.Uses reads calls →
    R.rel (Value.Within names) (s.run call) (s.run call')
  | .expr e, huses => andThen R.tick fun _ => rel_eval h e huses
  | .declare name constant e, huses => by
    refine andThen R.tick fun _ => R.bind (rel_eval h e huses) fun v hv => ?_
    exact andThen (R.declare name constant hv) fun _ => R.pure trivial
  | .assign name none e, huses => by
    refine andThen R.tick fun _ => R.bind (rel_eval h e huses.2) fun w hw => ?_
    exact andThen R.tick fun _ => andThen (R.write huses.1 hw) fun _ => R.pure trivial
  | .assign name (some op) e, huses => by
    refine andThen R.tick fun _ => R.bind (rel_eval h e huses.2) fun w hw => ?_
    refine andThen R.tick fun _ => R.bind (R.read huses.1) fun v hv => ?_
    refine R.bind (ofResult (tame_binary hv hw)) fun u hu => ?_
    exact andThen (R.write huses.1 hu) fun _ => R.pure trivial
  | .assignThis none e, huses => by
    refine andThen R.tick fun _ => R.bind (rel_eval h e huses) fun w hw => ?_
    exact andThen R.tick fun _ => andThen (R.writeThis hw) fun _ => R.pure trivial
  | .assignThis (some op) e, huses => by
    refine andThen R.tick fun _ => R.bind (rel_eval h e huses) fun w hw => ?_
    refine andThen R.tick fun _ => R.bind R.readThis fun v hv => ?_
    refine R.bind (ofResult (tame_binary hv hw)) fun u hu => ?_
    exact andThen (R.writeThis hu) fun _ => R.pure trivial
  | .repeatWhile condition body, huses => by
    refine andThen R.tick fun _ => repeatWhile ?_ (R.inBlock (rel_runAll h body huses.2)) _
    exact andThen (rel_eval h condition huses.1) truth
  | .forEach name source body, huses => by
    refine andThen R.tick fun _ => R.bind (rel_eval h source huses.1) fun v hv => ?_
    exact R.bind (items hv) fun values hvalues =>
      forEach name (rel_runAll h body huses.2) hvalues
  | .leaveLoop e, huses =>
    andThen R.tick fun _ => R.bind (rel_eval h e huses) fun _ hv => R.interrupt nofun hv
  | .nextRound, _ => andThen R.tick fun _ => R.interrupt nofun trivial
  | .giveBack e, huses =>
    andThen R.tick fun _ => R.bind (rel_eval h e huses) fun _ hv => R.interrupt nofun hv
  | .raise e, huses => andThen R.tick fun _ => andThen (rel_eval h e huses) fun _ => fail nofun

theorem rel_runAll (h : R.Callees calls call call') : (body : List Stmt) →
    usesThrough reads calls body →
      R.rel (Value.Within names) (runAll call body) (runAll call' body)
  | [], _ => R.pure trivial
  | [s], huses => rel_run h s huses.1
  | s :: s' :: rest, huses =>
    andThen (rel_run h s huses.1) fun _ => rel_runAll h (s' :: rest) huses.2

end

/-! ## §5 Calls -/

theorem library (name : String) (args : List Value) :
    R.rel (Value.Within names) (Library.call name args) (Library.call name args) := by
  unfold Library.call
  split
  · exact andThen (R.say _) fun _ => R.pure trivial
  · exact ofResult (Library.tame_apply _ _)

/-- What a script defines is asked without looking at the machine. -/
theorem definesFunction (p : Program) (v w : Value) :
    R.rel (Value.Within names) (p.definesFunction v w) (p.definesFunction v w) := by
  unfold Program.definesFunction
  split
  · exact R.pure trivial
  · exact fail nofun
  · exact fail nofun

/-- A function value can be made of every name, if its name may occur. -/
theorem pointer (hnames : ∀ name, names name) (v : Value) :
    R.rel (Value.Within names) (Program.pointer v) (Program.pointer v) := by
  unfold Program.pointer
  split
  · split
    · exact R.pure ⟨hnames _, trivial⟩
    · exact fail nofun
  · exact fail nofun

/-- A call by name enters a function of the script or is one of the library. -/
theorem named {p : Program} {level level' : Level} {site : Site}
    (henter : ∀ f args,
      R.rel (Value.Within names) (level.enter site f args) (level'.enter site f args))
    (name : String) (args : List Value) :
    R.rel (Value.Within names) (p.named level site name args) (p.named level' site name args) := by
  unfold Program.named
  split
  · exact henter _ _
  · exact library _ _

/-- **Calls keep a relation that calls by name keep**, and what the words with a meaning of their
own ask for. A call is by its own name or by that of a function value, and none but calls in place
make calls in place. -/
theorem rel_callOn {p p' : Program} {level level' : Level} {site : Site} {word : String}
    {args : List Value} (hself : AllWithin names site.self) (hargs : AllWithin names args)
    (hnamed : ∀ (site' : Site) (name : String) (args : List Value),
      (site'.isInPlace = true → site.isInPlace = true) → name = word ∨ names name →
      R.rel (Value.Within names) (p.named level site' name args) (p'.named level' site' name args))
    (hpointer : word = "Fn" → ∀ v,
      R.rel (Value.Within names) (Program.pointer v) (Program.pointer v))
    (hfunction : word = "is_def_fn" → ∀ v w,
      R.rel (Value.Within names) (p.definesFunction v w) (p'.definesFunction v w))
    (hvariable : word = "is_def_var" → ∀ v,
      R.rel (Value.Within names) (Program.definesVariable v) (Program.definesVariable v))
    (htext : word = "eval" → ∀ v,
      R.rel (Value.Within names) (Program.runText level v) (Program.runText level' v)) :
    R.rel (Value.Within names) (p.callOn level site word args)
      (p'.callOn level' site word args) := by
  have hfunctionCall (site' : Site) (hsite : site'.isInPlace = true → site.isInPlace = true) :
      R.rel (Value.Within names) (p.callFunction level site' word args)
        (p'.callFunction level' site' word args) := by
    unfold Program.callFunction
    split
    · exact hnamed _ _ _ hsite (.inr hargs.1.1)
    · exact R.pure ⟨hargs.1.1, allWithin_append hargs.1.2 hargs.2⟩
    · exact hpointer rfl _
    · exact R.pure trivial
    · exact hfunction rfl _ _
    · exact hvariable rfl _
    · exact htext rfl _
    · exact hnamed _ _ _ hsite (.inl rfl)
  cases site with
  | plain => exact hfunctionCall .plain id
  | inPlace => exact hfunctionCall .inPlace id
  | method self =>
    show R.rel (Value.Within names) (p.callMethod level self word args)
      (p'.callMethod level' self word args)
    unfold Program.callMethod
    split
    · exact hnamed _ _ _ nofun (.inr hself.1.1)
    · exact hnamed _ _ _ nofun (.inr hargs.1.1)
    · exact fail nofun
    · exact fail nofun
    · exact R.pure ⟨hself.1.1, allWithin_append hself.1.2 hargs⟩
    · exact fail nofun
    · exact R.pure trivial
    · split
      · rename_i hfield
        exact hnamed _ _ _ nofun (.inr (within_fieldFunction? hself.1 hfield).1)
      · exact hnamed _ _ _ nofun (.inl rfl)

end ValueRelation

/-! ## §6 Runs -/

/-- A value that the computation can end with. -/
def Yields {α : Type} (c : Run α) (a : α) : Prop :=
  ∃ m m', c m = (.ok a, m')

section

variable {α β : Type}

theorem Yields.of_bind {c : Run α} {f : α → Run β} {b : β} (h : Yields (c >>= f) b) :
    ∃ a, Yields c a ∧ Yields (f a) b := by
  obtain ⟨m, m', h⟩ := h
  cases hc : c m with
  | mk r middle =>
    cases r with
    | error i =>
      rw [bind_error hc] at h
      cases h
    | ok a =>
      rw [bind_ok hc] at h
      exact ⟨a, ⟨m, middle, hc⟩, ⟨middle, m', h⟩⟩

theorem Yields.of_pure {a b : α} (h : Yields (pure a) b) : a = b := by
  obtain ⟨m, m', h⟩ := h
  cases h
  rfl

theorem Yields.of_inBlock {c : Run α} {a : α} (h : Yields (inBlock c) a) : Yields c a := by
  obtain ⟨m, m', h⟩ := h
  cases hc : c m with
  | mk r middle =>
    simp only [inBlock, hc] at h
    cases h
    exact ⟨m, middle, hc⟩

end

/-- A relation between computations that is kept wherever they are put together, whatever is known
of the values. -/
structure RunRelation (reads : String → Prop) where
  rel {α : Type} : Run α → Run α → Prop
  pure {α : Type} (a : α) : rel (pure a) (pure a)
  bind {α β : Type} {c c' : Run α} {f f' : α → Run β} :
    rel c c' → (∀ a, Yields c a → rel (f a) (f' a)) → rel (c >>= f) (c' >>= f')
  /-- What interrupts a computation, unless a variable is missing. -/
  interrupt {α : Type} {i : Interrupt} :
    (∀ name, i ≠ .failed (.unknownVariable name)) → rel (throw i : Run α) (throw i)
  tick : rel tick tick
  read {name : String} : reads name → rel (read name) (read name)
  declare (name : String) (value : Value) (constant : Bool) :
    rel (declare name value constant) (declare name value constant)
  write {name : String} (value : Value) : reads name → rel (write name value) (write name value)
  readThis : rel readThis readThis
  writeThis (value : Value) : rel (writeThis value) (writeThis value)
  say (line : String) : rel (say line) (say line)
  inBlock {α : Type} {c c' : Run α} : rel c c' → rel (inBlock c) (inBlock c')
  round {c c' : Run Value} : rel c c' → rel (round c) (round c')
  /-- What depends on two operands, as far as they are known beforehand. -/
  foresee {calls : Bool → String → Prop} {left right : Expr}
    (f f' : Option Value → Option Value → Run Value) :
    left.Uses reads calls → right.Uses reads calls → (∀ v w, rel (f v w) (f' v w)) →
    rel (do
        let bindings := (← get).bindings
        f (left.fixed? bindings) (right.fixed? bindings))
      (do
        let bindings := (← get).bindings
        f' (left.fixed? bindings) (right.fixed? bindings))

namespace RunRelation

variable {reads : String → Prop} (R : RunRelation reads)

/-- The relation holds between the calls that a program may make. -/
def Callees (calls : Bool → String → Prop) (call call' : Callee) : Prop :=
  ∀ (site : Site) (name : String) (args : List Value), calls site.isInPlace name →
    R.rel (call site name args) (call' site name args)

/-- With it goes whatever is known of the values that a computation can end with. -/
def toValueRelation : ValueRelation reads fun _ => True where
  anonymous := trivial
  rel post c c' := R.rel c c' ∧ ∀ a, Yields c a → post a
  pure h := ⟨R.pure _, fun _ hyields => hyields.of_pure ▸ h⟩
  bind hc hf := by
    refine ⟨R.bind hc.1 fun a ha => (hf a (hc.2 a ha)).1, fun b hb => ?_⟩
    obtain ⟨a, ha, hb⟩ := hb.of_bind
    exact (hf a (hc.2 a ha)).2 b hb
  interrupt h _ := ⟨R.interrupt h, nofun⟩
  tick := ⟨R.tick, fun _ _ => trivial⟩
  read h := ⟨R.read h, fun v _ => v.within_true⟩
  declare name value constant _ := ⟨R.declare name value constant, fun _ _ => trivial⟩
  write h _ := ⟨R.write _ h, fun _ _ => trivial⟩
  readThis := ⟨R.readThis, fun v _ => v.within_true⟩
  writeThis _ := ⟨R.writeThis _, fun _ _ => trivial⟩
  say line := ⟨R.say line, fun _ _ => trivial⟩
  inBlock h := ⟨R.inBlock h.1, fun a ha => h.2 a ha.of_inBlock⟩
  round h := ⟨R.round h.1, fun _ _ v _ => v.within_true⟩
  foresee f f' hleft hright hf := by
    have hall (v w : Option Value) := hf v w (fun x _ => x.within_true) fun x _ => x.within_true
    refine ⟨R.foresee f f' hleft hright fun v w => (hall v w).1, fun x hx => ?_⟩
    obtain ⟨m, -, hx⟩ := hx.of_bind
    exact (hall _ _).2 x hx

variable {R} {calls : Bool → String → Prop} {call call' : Callee}

/-- Of a value alone, nothing is to be shown. -/
theorem toValue {c c' : Run Value} (h : R.rel c c') :
    R.toValueRelation.rel (Value.Within fun _ => True) c c' :=
  ⟨h, fun v _ => v.within_true⟩

theorem Callees.toValue (h : R.Callees calls call call') :
    R.toValueRelation.Callees calls call call' :=
  fun site name args hname _ _ => RunRelation.toValue (h site name args hname)

/-- **Evaluation keeps every relation that the calls keep.** -/
theorem rel_eval (h : R.Callees calls call call') (e : Expr) (huses : e.Uses reads calls) :
    R.rel (e.eval call) (e.eval call') :=
  (ValueRelation.rel_eval h.toValue e huses).1

theorem rel_runAll (h : R.Callees calls call call') (body : List Stmt)
    (huses : usesThrough reads calls body) : R.rel (runAll call body) (runAll call' body) :=
  (ValueRelation.rel_runAll h.toValue body huses).1

theorem definesFunction (p : Program) (v w : Value) :
    R.rel (p.definesFunction v w) (p.definesFunction v w) :=
  (ValueRelation.definesFunction (R := R.toValueRelation) p v w).1

theorem named {p : Program} {level level' : Level} {site : Site}
    (henter : ∀ f args, R.rel (level.enter site f args) (level'.enter site f args)) (name : String)
    (args : List Value) : R.rel (p.named level site name args) (p.named level' site name args) :=
  (ValueRelation.named (fun f args => toValue (henter f args)) name args).1

theorem rel_callOn {p p' : Program} (level level' : Level) (site : Site) (word : String)
    (args : List Value)
    (hnamed : ∀ (site' : Site) (name : String) (args : List Value),
      (site'.isInPlace = true → site.isInPlace = true) →
      R.rel (p.named level site' name args) (p'.named level' site' name args))
    (hfunction : word = "is_def_fn" → ∀ v w,
      R.rel (p.definesFunction v w) (p'.definesFunction v w))
    (hvariable : word = "is_def_var" → ∀ v,
      R.rel (Program.definesVariable v) (Program.definesVariable v))
    (htext : word = "eval" → ∀ v, R.rel (Program.runText level v) (Program.runText level' v)) :
    R.rel (p.callOn level site word args) (p'.callOn level' site word args) := by
  refine (ValueRelation.rel_callOn (R := R.toValueRelation) (allWithin_true _) (allWithin_true _)
    (fun site' name args hsite _ => toValue (hnamed site' name args hsite))
    (fun _ => ValueRelation.pointer fun _ => trivial) ?_ ?_ ?_).1
  · exact fun h v w => toValue (hfunction h v w)
  · exact fun h v => toValue (hvariable h v)
  · exact fun h v => toValue (htext h v)

end RunRelation

end SumSheet.Script
