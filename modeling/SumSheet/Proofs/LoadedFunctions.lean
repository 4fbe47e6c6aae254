/-
SumSheet.Proofs.LoadedFunctions — what loading a file does to the
functions there are.

The files of a document are one script, so loading a file puts its text
behind the others. The functions that a script defines can be read off
its tokens, wherever the word `fn` stands (`functions_of_compile`). So
the question is which tokens the longer script has: those of the script
before and behind them those of the file, unless the script before ends
inside a block comment, which then goes on into the file
(`Cut.appended`).

  §1 Comments   — and the text behind them.
  §2 Tokens     — of a script and one behind it.
  §3 Signatures — what a script defines, read off its tokens.
  §4 Programs   — a compiled script has the functions of its tokens.
  §5 Loading    — what is defined afterwards.
-/
import SumSheet.Proofs.ExpressionValue
import SumSheet.Proofs.FailedEdits
import SumSheet.Proofs.GrammarWalk
import SumSheet.Proofs.Tokenizing

namespace SumSheet

open Script Script.Parser

namespace Script

/-! ## §1 Comments -/

/-- A line comment ends with its line. -/
theorem afterLineComment_append (text : List Char) :
    (∀ rest, afterLineComment (text ++ '\n' :: rest) = afterLineComment text ++ '\n' :: rest)
      ∨ afterLineComment text = [] ∧ ∀ rest, afterLineComment (text ++ '\n' :: rest) = rest := by
  induction text with
  | nil => exact .inr ⟨rfl, fun rest => rfl⟩
  | cons c text ih =>
    by_cases hc : (c == '\n' || c == '\r') = true
    · exact .inl fun rest => by simp only [List.cons_append, afterLineComment, hc, if_true]
    · simpa only [List.cons_append, afterLineComment, hc, if_false, Bool.false_eq_true] using ih

/-- What is not a line break stands in front of it. -/
theorem eq_cons_of_append_newLine {text rest behind : List Char} {d : Char} (hd : d ≠ '\n')
    (h : text ++ '\n' :: behind = d :: rest) : ∃ rest', text = d :: rest' := by
  cases text with
  | nil => exact absurd (List.cons.inj h).1.symm hd
  | cons c text => exact ⟨text, by rw [(List.cons.inj h).1]⟩

/-- A block comment is closed within a text, or goes on behind it. -/
theorem afterBlockComment_append (depth : Nat) (text : List Char) :
    (∀ rest, afterBlockComment depth (text ++ '\n' :: rest)
        = afterBlockComment depth text ++ '\n' :: rest)
      ∨ afterBlockComment depth text = [] ∧ ∃ depth', ∀ rest,
        afterBlockComment depth (text ++ '\n' :: rest) = afterBlockComment depth' ('\n' :: rest) := by
  fun_induction afterBlockComment depth text with
  | case1 depth => exact .inr ⟨rfl, depth, fun rest => rfl⟩
  | case2 depth rest ih => exact ih
  | case3 rest => exact .inl fun rest => rfl
  | case4 depth rest ih => exact ih
  | case5 depth c rest hopen hclose hclose' ih =>
    have hskip (behind : List Char) : afterBlockComment depth (c :: rest ++ '\n' :: behind)
        = afterBlockComment depth (rest ++ '\n' :: behind) := by
      have hnone {d : Char} {others : List Char} (hd : d ≠ '\n')
          (h : rest ++ '\n' :: behind = d :: others) : ∃ others', rest = d :: others' :=
        eq_cons_of_append_newLine hd h
      rw [List.cons_append, afterBlockComment]
      · rintro others rfl h
        obtain ⟨others', rfl⟩ := hnone (by decide) h
        exact hopen _ rfl rfl
      · rintro others hdepth rfl h
        obtain ⟨others', rfl⟩ := hnone (by decide) h
        exact hclose _ hdepth rfl rfl
      · rintro depth' others hdepth rfl h
        obtain ⟨others', rfl⟩ := hnone (by decide) h
        exact hclose' _ _ hdepth rfl rfl
    simpa only [hskip] using ih

/-! ## §2 Tokens -/

/-- What is read behind a text on a new line: from there on, or from where the comment ends that
the text leaves open. -/
theorem Cut.appended {text : List Char} {tokens : List Token} (h : Cut text tokens) :
    (∀ rest all, Cut (text ++ '\n' :: rest) all ↔ ∃ others, all = tokens ++ others ∧ Cut rest others)
      ∨ ∃ depth, ∀ rest all, Cut (text ++ '\n' :: rest) all
        ↔ ∃ others, all = tokens ++ others ∧ Cut (afterBlockComment depth ('\n' :: rest)) others := by
  induction h with
  | nil => exact .inl fun rest all => by simp [cut_gap_iff (c := '\n') rfl]
  | gap hc _ ih => simpa only [List.cons_append, cut_gap_iff hc] using ih
  | @lineComment behind tokens hcut ih =>
    simp only [List.cons_append, cut_lineComment_iff]
    rcases afterLineComment_append behind with hends | ⟨hnil, hrest⟩
    · simpa only [hends] using ih
    · -- the comment has nothing behind it on its line
      rw [hnil] at hcut
      cases hcut
      exact .inl fun rest all => by simp [hrest]
  | @blockComment behind tokens hcut ih =>
    simp only [List.cons_append, cut_blockComment_iff]
    rcases afterBlockComment_append 0 behind with hends | ⟨hnil, depth, hrest⟩
    · simpa only [hends] using ih
    · rw [hnil] at hcut
      cases hcut
      exact .inr ⟨depth, fun rest all => by simp [hrest]⟩
  | @token c text rest t tokens hgap hcomment htoken hcut ih =>
    have hcomment' (behind : List Char) : ¬ OpensComment c (text ++ '\n' :: behind) := by
      rintro ⟨rfl, hhead⟩
      refine hcomment ⟨rfl, ?_⟩
      cases text with
      | nil => simp at hhead
      | cons d text => exact hhead
    have htoken' (behind : List Char) :=
      lexToken_append (onNewLine_cons behind) htoken (le_refl _)
    have hcons (behind : List Char) (all : List Token) : Cut (c :: text ++ '\n' :: behind) all
        ↔ ∃ others, all = t :: others ∧ Cut (rest ++ '\n' :: behind) others := by
      rw [List.cons_append, cut_token_iff hgap (hcomment' behind) (htoken' behind)]
    simp only [hcons]
    rcases ih with ih | ⟨depth, ih⟩
    · exact .inl fun behind all => by simp [ih]
    · exact .inr ⟨depth, fun behind all => by simp [ih]⟩

/-- A comment is open at the end of the text: what is written on a line behind it is not read. -/
def LeavesCommentOpen (text : String) : Prop :=
  tokenize (text.toList ++ ['\n', ';']) = tokenize text.toList

instance (text : String) : Decidable (LeavesCommentOpen text) :=
  inferInstanceAs (Decidable (_ = _))

/-- The tokens of a text come first in a text with more lines, and those of the lines behind it
follow, unless a comment is open. -/
theorem tokenize_lines {text rest : List Char} {tokens all : List Token} 
    (h : tokenize text = .ok tokens) (hall : tokenize (text ++ '\n' :: rest) = .ok all) :
    ∃ others, all = tokens ++ others
      ∧ (tokenize (text ++ ['\n', ';']) ≠ .ok tokens → tokenize rest = .ok others) := by
  simp only [tokenize_iff, ne_eq] at h hall ⊢
  rcases h.appended with hlines | ⟨depth, hopen⟩
  · obtain ⟨others, rfl, hrest⟩ := (hlines rest all).mp hall
    exact ⟨others, rfl, fun _ => hrest⟩
  · obtain ⟨others, rfl, hrest⟩ := (hopen rest all).mp hall
    refine ⟨others, rfl, fun hclosed => absurd ?_ hclosed⟩
    have hnone : afterBlockComment depth ['\n', ';'] = [] := by cases depth <;> rfl
    exact (hopen [';'] tokens).mpr ⟨[], by simp, hnone ▸ .nil⟩

/-! ## §3 Signatures -/

/-- The number of names in front of the closing parenthesis, if there is one. -/
def parameterCount? : List Token → Option Nat
  | [] => none
  | .symbol .closeParen :: _ => some 0
  | .word _ :: rest => (parameterCount? rest).map (· + 1)
  | _ :: rest => parameterCount? rest

/-- The name of a function and the number of its parameters, as they stand behind `fn`. -/
def signature? : List Token → Option (String × Nat)
  | .word name :: .symbol .unit :: _ => some (name, 0)
  | .word name :: .symbol .openParen :: rest => (parameterCount? rest).map (name, ·)
  | _ => none

/-- The name and the number of parameters of each function that tokens define. -/
def signatures : List Token → List (String × Nat)
  | [] => []
  | .word "fn" :: rest => (signature? rest).toList ++ signatures rest
  | _ :: rest => signatures rest

theorem signatures_cons {t : Token} (ht : t ≠ .word "fn") (rest : List Token) :
    signatures (t :: rest) = signatures rest := by
  rw [signatures]
  rintro rfl
  exact ht rfl

theorem signatures_rest {t : Token} {rest : List Token} {found : List (String × Nat)}
    (h : signatures (t :: rest) = found) (ht : t ≠ .word "fn") : signatures rest = found :=
  (signatures_cons ht rest).symm.trans h

theorem parameterCount?_append {tokens : List Token} {n : Nat} (h : parameterCount? tokens = some n)
    (others : List Token) : parameterCount? (tokens ++ others) = some n := by
  fun_induction parameterCount? tokens generalizing n with
  | case1 => cases h
  | case2 rest => exact h
  | case3 name rest ih =>
    obtain ⟨m, hm, rfl⟩ := Option.map_eq_some_iff.mp h
    rw [List.cons_append, parameterCount?, ih hm]
    rfl
  | case4 t rest hclose hword ih =>
    rw [List.cons_append, parameterCount?, ih h]
    · exact hclose
    · exact hword

theorem signature?_append {tokens : List Token} {f : String × Nat} (h : signature? tokens = some f)
    (others : List Token) : signature? (tokens ++ others) = some f := by
  unfold signature? at h
  split at h
  · exact h
  · obtain ⟨n, hn, rfl⟩ := Option.map_eq_some_iff.mp h
    simp [signature?, parameterCount?_append hn]
  · cases h

/-- More tokens take no function away. -/
theorem signatures_subset_append_left (tokens others : List Token) :
    signatures tokens ⊆ signatures (tokens ++ others) := by
  fun_induction signatures tokens with
  | case1 => simp
  | case2 rest ih =>
    rw [List.cons_append, signatures]
    refine List.append_subset.mpr ⟨fun f hf => ?_, List.subset_append_of_subset_right _ ih⟩
    rw [Option.mem_toList] at hf
    simp [signature?_append hf others]
  | case3 t rest ht ih => rwa [List.cons_append, signatures_cons (by simpa using ht)]

theorem signatures_subset_append_right (tokens others : List Token) :
    signatures others ⊆ signatures (tokens ++ others) := by
  induction tokens with
  | nil => simp
  | cons t tokens ih =>
    refine List.Subset.trans ih ?_
    by_cases ht : t = .word "fn"
    · subst ht
      exact List.subset_append_right _ _
    · rw [List.cons_append, signatures_cons ht]
      exact List.Subset.refl _

/-! ## §4 Programs -/

/-- Only the word that begins a function counts, and no parser but that of functions takes it. -/
def signaturesAre (found : List (String × Nat)) : TokenInvariant .script where
  holds _ tokens := signatures tokens = found
  reads _ := True
  calls _ _ := True
  weaken h := h
  symbol h := signatures_rest h nofun
  int h := signatures_rest h nofun
  float h := signatures_rest h nofun
  text h := signatures_rest h nofun
  char h := signatures_rest h nofun
  word hw h := signatures_rest h (by simpa using hw)
  unglued _ h := h
  reads_of_word _ _ _ := trivial
  calls_of_word _ _ := trivial
  calls_in_place _ _ := trivial

section

variable {tokens rest : List Token}

theorem expect_eq_ok {s : Symbol} {u : Unit} (h : expect s tokens = .ok (u, rest)) :
    tokens = .symbol s :: rest := by
  obtain ⟨b, middle, haccept, hbehind⟩ := bind_eq_ok h
  obtain ⟨rfl, rfl⟩ | ⟨rfl, _, rfl⟩ := TokenInvariant.accept_eq_ok haccept
  · cases hbehind; rfl
  · exact absurd hbehind refuse_ne_ok

theorem name_eq_ok {w : String} (h : Parser.name tokens = .ok (w, rest)) :
    tokens = .word w :: rest ∧ w ≠ "fn" := by
  unfold Parser.name at h
  split at h
  · split at h
    · cases h; exact ⟨rfl, TokenInvariant.ne_fn_of_isFreeName ‹_›⟩
    · cases h
  · exact absurd h refuse_ne_ok

/-- A list of parameters is as long as it is counted. -/
theorem parameterCount?_of_itemsUpTo {limit : Nat} {names : List String}
    (h : itemsUpTo Parser.name .closeParen limit tokens = .ok (names, rest)) :
    parameterCount? tokens = some names.length := by
  induction limit generalizing tokens names with
  | zero => exact absurd h refuse_ne_ok
  | succ limit ih =>
    obtain ⟨_, _, hclose, hitems⟩ := bind_eq_ok h
    obtain ⟨rfl, rfl⟩ | ⟨rfl, _, rfl⟩ := TokenInvariant.accept_eq_ok hclose
    · cases hitems; rfl
    obtain ⟨first, middle, hfirst, hmore⟩ := bind_eq_ok hitems
    obtain ⟨rfl, _⟩ := name_eq_ok hfirst
    obtain ⟨_, _, hcomma, hlast⟩ := bind_eq_ok hmore
    obtain ⟨rfl, rfl⟩ | ⟨rfl, _, rfl⟩ := TokenInvariant.accept_eq_ok hcomma
    · obtain ⟨others, _, hothers, hall⟩ := bind_eq_ok hlast
      cases hall
      simp [parameterCount?, ih hothers]
    · obtain ⟨_, _, hexpect, hall⟩ := bind_eq_ok hlast
      obtain rfl := expect_eq_ok hexpect
      cases hall
      rfl

/-- A block defines no function. -/
theorem signatures_block {body : List Stmt}
    (h : (Grammar.within .script functionLevels).block false tokens = .ok (body, rest)) :
    signatures rest = signatures tokens :=
  ((Grammar.keeps_within (signaturesAre (signatures tokens)) functionLevels).block false
    tokens body rest rfl h).1

/-- What comes behind the parameters of a function, none of which may be repeated. -/
theorem functionBody_eq_ok {name : String} (params : List String) (repeated : Option String)
    {f : Function} (h : (match repeated with
      | some param => fail (.duplicateParameter param)
      | none => do return ⟨name, params, ← (Grammar.within .script functionLevels).block false⟩
      : Parser Function) tokens = .ok (f, rest)) :
    f.name = name ∧ f.params = params ∧ signatures rest = signatures tokens := by
  cases repeated with
  | some param => cases h
  | none =>
    obtain ⟨body, _, hblock, hf⟩ := bind_eq_ok h
    cases hf
    exact ⟨rfl, rfl, signatures_block hblock⟩

/-- A function has the parameters that stand behind its name, and defines no other function. -/
theorem functionNamed_eq_ok {name : String} {f : Function}
    (h : functionNamed name tokens = .ok (f, rest)) :
    signature? (.word name :: tokens) = some (f.name, f.params.length)
      ∧ signatures rest = signatures tokens := by
  obtain ⟨_, _, hunit, hbehind⟩ := bind_eq_ok h
  obtain ⟨rfl, rfl⟩ | ⟨rfl, _, rfl⟩ := TokenInvariant.accept_eq_ok hunit
  · obtain ⟨params, _, hparams, hfunction⟩ := bind_eq_ok hbehind
    cases hparams
    obtain ⟨rfl, hparams, hrest⟩ := functionBody_eq_ok [] (Grammar.repeated? []) hfunction
    exact ⟨by rw [hparams]; rfl, hrest⟩
  · obtain ⟨_, _, hopen, hitems⟩ := bind_eq_ok hbehind
    obtain rfl := expect_eq_ok hopen
    obtain ⟨params, middle, hparams, hfunction⟩ := bind_eq_ok hitems
    obtain ⟨rfl, rfl, hrest⟩ := functionBody_eq_ok params _ hfunction
    have hcount := parameterCount?_of_itemsUpTo hparams
    have hmiddle := (TokenInvariant.items (R := fun _ => True)
      ((TokenInvariant.name (I := signaturesAre _)).imp (fun _ h => h) fun _ _ h => ⟨h, trivial⟩)
      _ _ _ rfl hparams).1
    exact ⟨by rw [signature?, hcount]; rfl, hrest.trans hmiddle⟩

theorem function?_eq_ok {f : Option Function} (h : function? tokens = .ok (f, rest)) :
    signatures tokens = (f.map fun f => (f.name, f.params.length)).toList ++ signatures rest := by
  have hnamed {behind : List Token}
      (h : (do return some (← functionNamed (← Parser.name)) : Parser (Option Function)) behind
        = .ok (f, rest)) :
      (signature? behind).toList ++ signatures behind
        = (f.map fun f => (f.name, f.params.length)).toList ++ signatures rest := by
    obtain ⟨name, _, hname, hfunction⟩ := bind_eq_ok h
    obtain ⟨rfl, hne⟩ := name_eq_ok hname
    obtain ⟨f, _, hf, hsome⟩ := bind_eq_ok hfunction
    cases hsome
    obtain ⟨hsignature, hrest⟩ := functionNamed_eq_ok hf
    rw [hsignature, hrest, signatures_cons (by simpa using hne)]
    rfl
  unfold function? at h
  split at h
  · rw [signatures_cons (by simp)]
    exact hnamed h
  · exact hnamed h
  · cases h; rfl

/-- A script has the functions already found and those that its tokens define. -/
theorem contentsUpTo_eq_ok {limit : Nat} {found all : Contents}
    (h : contentsUpTo limit found tokens = .ok (all, rest)) :
    all.functions.map (fun f => (f.name, f.params.length))
      = found.functions.map (fun f => (f.name, f.params.length)) ++ signatures tokens := by
  induction limit generalizing tokens found with
  | zero => exact absurd h refuse_ne_ok
  | succ limit ih =>
    obtain ⟨head, _, hpeek, hrest⟩ := bind_eq_ok h
    cases hpeek
    cases tokens with
    | nil => cases hrest; simp [signatures]
    | cons t tokens =>
      obtain ⟨f, behind, hfunction, hmore⟩ := bind_eq_ok hrest
      rw [function?_eq_ok hfunction]
      cases f with
      | some f =>
        simp only at hmore
        split at hmore
        · cases hmore
        · rw [ih hmore]
          simp
      | none =>
        obtain ⟨s, middle, hstatement, hnext⟩ := bind_eq_ok hmore
        have hmiddle : signatures middle = signatures behind :=
          ((Grammar.keeps_within (signaturesAre _) expressionLevels).statement false rfl
            _ _ _ rfl hstatement).1
        cases s with
        | none => rw [ih hnext, hmiddle]; rfl
        | some s =>
          obtain ⟨_, last, hbetween, hlast⟩ := bind_eq_ok hnext
          have hsame : signatures last = signatures behind :=
            Grammar.betweenStatements_meets (I := signaturesAre _) s _ _ _ hmiddle hbetween
          obtain ⟨_, _, hpeek, hopen⟩ := bind_eq_ok hlast
          cases hpeek
          split at hopen
          · obtain ⟨_, _, hrefused, _⟩ := bind_eq_ok hopen
            exact absurd hrefused refuse_ne_ok
          · rw [ih hopen, hsame]
            rfl

end

/-- A function of this name can be called with so many arguments. -/
def Program.Defines (p : Program) (name : String) (arity : Nat) : Prop :=
  (p.find? name arity).isSome = true

instance (p : Program) (name : String) (arity : Nat) : Decidable (p.Defines name arity) :=
  inferInstanceAs (Decidable (_ = _))

theorem Program.defines_iff {p : Program} {name : String} {arity : Nat} :
    p.Defines name arity ↔ (name, arity) ∈ p.functions.map fun f => (f.name, f.params.length) := by
  simp [Program.Defines, Program.find?, List.find?_isSome]

/-- A compiled script has the functions that its text consists of, and none of its statements. -/
theorem contents_of_compile {script : String} {p : Program} (h : compile script = .ok p) :
    ∃ found, parseText contents script.toList = .ok found ∧ p = ⟨found.functions⟩ := by
  unfold compile parseProgram at h
  cases hread : parseText contents script.toList with
  | error cause =>
    rw [hread] at h
    cases h
  | ok found =>
    rw [hread] at h
    simp only [Except.map] at h
    split at h
    · cases h
      exact ⟨found, rfl, rfl⟩
    · cases h

/-- **A compiled script has the functions that its tokens define**, and no others. -/
theorem functions_of_compile {script : String} {p : Program} (h : compile script = .ok p) :
    ∃ tokens, tokenize script.toList = .ok tokens
      ∧ p.functions.map (fun f => (f.name, f.params.length)) = signatures tokens := by
  obtain ⟨found, hread, rfl⟩ := contents_of_compile h
  obtain ⟨tokens, rest, htokens, hrun⟩ := tokens_of_parseText hread
  exact ⟨tokens, htokens, by simpa using contentsUpTo_eq_ok hrun⟩

end Script

/-! ## §5 Loading -/

namespace Document

theorem toList_merged (script : String) (text : String) :
    (merged (some script) text).toList = script.toList ++ '\n' :: '\n' :: text.toList := by
  simp [merged]

/-- The functions of a script with another text behind it. -/
theorem defines_merged {script : Option String} {text : String} {p p' : Program}
    (hp : compiled script = .ok p) (hp' : compile (merged script text) = .ok p') :
    (∀ name arity, p.Defines name arity → p'.Defines name arity)
      ∧ ((∀ s ∈ script, ¬ LeavesCommentOpen s) → ∀ alone, compile text = .ok alone →
        ∀ name arity, alone.Defines name arity → p'.Defines name arity) := by
  cases script with
  | none =>
    cases hp
    refine ⟨nofun, fun _ alone halone name arity h => ?_⟩
    cases halone.symm.trans hp'
    exact h
  | some s =>
    obtain ⟨tokens, htokens, hfunctions⟩ := functions_of_compile hp
    obtain ⟨all, hall, hfunctions'⟩ := functions_of_compile hp'
    rw [toList_merged] at hall
    obtain ⟨others, rfl, hothers⟩ := tokenize_lines htokens hall
    simp only [Program.defines_iff, hfunctions, hfunctions']
    refine ⟨fun name arity h => signatures_subset_append_left _ _ h, ?_⟩
    intro hclosed alone halone name arity h
    obtain ⟨own, hown, hfunctions''⟩ := functions_of_compile halone
    have hopen : tokenize (s.toList ++ ['\n', ';']) ≠ .ok tokens := by
      rw [← htokens]
      exact hclosed s rfl
    have hgap : tokenize ('\n' :: text.toList) = tokenize text.toList := tokenizeWithin_gap rfl
    cases hown.symm.trans (hgap.symm.trans (hothers hopen))
    rw [hfunctions''] at h
    exact signatures_subset_append_right _ _ h

/-- **A successful load delivers every function**, unless a comment is open at the end of what was
loaded before. Whatever has been done to a document, every function that it had is still defined
behind the load, and so is every function that the file defines when it is compiled alone. -/
theorem loadFunctions_delivers (opening : Opening) (edits : List Edit) {files : FileTree}
    {path found : String} {doc' : Document}
    (hload : (opening.document.run edits).loadFunctions files path = ⟨.ok found, doc'⟩)
    (hnew : found ∉ (opening.document.run edits).functionFiles) :
    let doc := opening.document.run edits
    (∀ name arity, doc.program.Defines name arity → doc'.program.Defines name arity)
      ∧ ∃ text, Holds files found text
        ∧ ((∀ script ∈ doc.script, ¬ LeavesCommentOpen script) →
          ∀ alone, compile text = .ok alone →
            ∀ name arity, alone.Defines name arity → doc'.program.Defines name arity) := by
  obtain ⟨_, text, htext, ⟨hloaded, _⟩ | ⟨_, program, hcompiled, rfl⟩⟩ :=
    loadFunctions_ok hload
  · exact absurd hloaded hnew
  · rw [joinScripts_toList] at hcompiled
    have hdoc := (wellFormed_run opening edits).1
    obtain ⟨hold, hnew⟩ := defines_merged hdoc.compiled_eq hcompiled
    exact ⟨hold, text, readFunctions_eq_ok_iff.mp htext, hnew⟩

/-- A file that can be read is loaded if the longer script compiles. -/
theorem loadFunctions_new {doc : Document} {files : FileTree} (path : String)
    {found text : String} {program : Program} (hfound : files.canonical path = .ok found)
    (hfile : Holds files found text)
    (hnew : found ∉ doc.functionFiles)
    (hscript : compile (merged doc.script text) = .ok program) :
    ∃ doc', doc.loadFunctions files path = ⟨.ok found, doc'⟩ ∧ doc'.program = program := by
  have hcompiled : Engine.compile (merged doc.script text) = .ok program := hscript
  refine ⟨(doc.withFile found).withScript (merged doc.script text) program, ?_, rfl⟩
  simp only [loadFunctions_eq, hfound, readFunctions_eq_ok_iff.mpr hfile, if_neg hnew,
    joinScripts_toList, hcompiled]

/-- A file with the function `b`, beside a file with this text. -/
def besideFile (text : String) : FileTree :=
  ((FileTree.empty ["d"]).write "a.rhai" text.toUTF8).write "b.rhai" "fn b(x) { x }".toUTF8

/-- A sheet that calls `b`, behind a load of the other file. -/
def callingB (text : String) : Document :=
  (Opening.ofTexts ["b(1)"]).document.run [.loadFunctions (besideFile text) "a.rhai"]

theorem holds_besideFile (text : String) :
    Holds (besideFile text) "/d/b.rhai" "fn b(x) { x }" :=
  ⟨"fn b(x) { x }".toUTF8, by rfl, by decide +kernel, by decide +kernel⟩

/-- Where the comment of the first file is closed, both functions are there. -/
theorem loadFunctions_delivers_both :
    ∃ doc', (callingB "fn a(x) { x } /* end */").loadFunctions
        (besideFile "fn a(x) { x } /* end */") "b.rhai" = ⟨.ok "/d/b.rhai", doc'⟩
      ∧ doc'.program.Defines "a" 1 ∧ doc'.program.Defines "b" 1 := by
  have hscript : (callingB "fn a(x) { x } /* end */").script = some "fn a(x) { x } /* end */" := by
    decide +kernel
  have hold : (callingB "fn a(x) { x } /* end */").program.Defines "a" 1 := by decide +kernel
  have hnew : "/d/b.rhai" ∉ (callingB "fn a(x) { x } /* end */").functionFiles := by decide +kernel
  have hclosed : ¬ LeavesCommentOpen "fn a(x) { x } /* end */" := by decide +kernel
  have hfile := holds_besideFile "fn a(x) { x } /* end */"
  obtain ⟨program, hprogram, _⟩ := exists_of_compiles
    (by decide +kernel : compiles (merged (some "fn a(x) { x } /* end */") "fn b(x) { x }")
      (fun _ => true) = true)
  obtain ⟨alone, halone, hb⟩ := exists_of_compiles
    (by decide +kernel : compiles "fn b(x) { x }" (fun p => decide (p.Defines "b" 1)) = true)
  obtain ⟨doc', hload, -⟩ := loadFunctions_new "b.rhai" (by rfl) hfile hnew
    (hscript ▸ hprogram)
  obtain ⟨hkept, text, htext, hdelivered⟩ := loadFunctions_delivers (.ofTexts ["b(1)"])
    [.loadFunctions (besideFile "fn a(x) { x } /* end */") "a.rhai"] hload hnew
  obtain rfl : text = "fn b(x) { x }" := by
    have hread := readFunctions_eq_ok_iff.mpr htext
    rw [readFunctions_eq_ok_iff.mpr hfile] at hread
    exact (Except.ok.inj hread).symm
  refine ⟨doc', hload, hkept _ _ hold, hdelivered ?_ alone halone _ _ (by simpa using hb)⟩
  intro script hmem
  cases hscript.symm.trans hmem
  exact hclosed

/-- A function can be lost: the comment that the first file leaves open goes on into the second
one, which is loaded without an error. -/
theorem loadFunctions_swallowed :
    ∃ doc' alone, (callingB "fn a(x) { x } /* end").loadFunctions
        (besideFile "fn a(x) { x } /* end") "b.rhai" = ⟨.ok "/d/b.rhai", doc'⟩
      ∧ "/d/b.rhai" ∉ (callingB "fn a(x) { x } /* end").functionFiles
      ∧ Holds (besideFile "fn a(x) { x } /* end") "/d/b.rhai" "fn b(x) { x }"
      ∧ compile "fn b(x) { x }" = .ok alone ∧ alone.Defines "b" 1
      ∧ ¬ doc'.program.Defines "b" 1 := by
  have hscript : (callingB "fn a(x) { x } /* end").script = some "fn a(x) { x } /* end" := by
    decide +kernel
  have hnew : "/d/b.rhai" ∉ (callingB "fn a(x) { x } /* end").functionFiles := by decide +kernel
  have hfile := holds_besideFile "fn a(x) { x } /* end"
  obtain ⟨program, hprogram, hlost⟩ := exists_of_compiles
    (by decide +kernel : compiles (merged (some "fn a(x) { x } /* end") "fn b(x) { x }")
      (fun p => ! decide (p.Defines "b" 1)) = true)
  obtain ⟨alone, halone, hb⟩ := exists_of_compiles
    (by decide +kernel : compiles "fn b(x) { x }" (fun p => decide (p.Defines "b" 1)) = true)
  obtain ⟨doc', hload, rfl⟩ := loadFunctions_new "b.rhai" (by rfl) hfile hnew
    (hscript ▸ hprogram)
  exact ⟨doc', alone, hload, hnew, hfile, halone, by simpa using hb, by simpa using hlost⟩

end Document

end SumSheet
