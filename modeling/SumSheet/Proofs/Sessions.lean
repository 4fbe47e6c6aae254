/-
SumSheet.Proofs.Sessions — a session goes line by line until it is ended.

A session in which some lines are typed, and then others, is the session
with the former in which the latter are typed too (`run_append`), so a
session can be cut behind any line. `Session.Step` says what one line
makes of it: an answer, with the document that the answer leaves behind,
or the end; and nothing once it is over. What stands on the screen goes
with it, for a line that is refused without anything written. The
document is well-formed behind every line, for an answer keeps it so.

  §1 Cuts     — typing some lines, and then others.
  §2 Lines    — what one line makes of a session.
  §3 Sessions — from any document that operations can lead to.
-/
import SumSheet.Text.Lines
import SumSheet.Proofs.CommandAnswers

namespace SumSheet.Interactive

open Document

section

variable [Engine] {limit : Nat} {files : FileTree}

/-! ## §1 Cuts -/

/-- The session with more lines typed. When it is over, they are not read. -/
def Session.typing (files : FileTree) (session : Session) (inputs : List String) : Session :=
  if session.quit then session
  else
    let later := respondAll files session.document inputs
    { later with
      output := session.output ++ later.output
      screen := session.screen ++ later.screen }

theorem respondAll_append (files : FileTree) (doc : Document) (before behind : List String) :
    respondAll files doc (before ++ behind)
      = (respondAll files doc before).typing files behind := by
  induction before generalizing doc with
  | nil => simp [respondAll, Session.typing]
  | cons typed rest ih =>
    simp only [List.cons_append, respondAll]
    split
    · rfl
    · rename_i text doc' _
      rw [ih doc']
      unfold Session.typing
      split
      · rfl
      · simp only [String.append_assoc]

/-- A session can be cut behind any line. -/
theorem run_append (files : FileTree) (doc : Document) (before behind : List String) :
    run files doc (before ++ behind) = (run files doc before).typing files behind := by
  unfold run
  rw [respondAll_append]
  unfold Session.typing
  split
  · rfl
  · simp only [String.append_assoc]

theorem run_take_succ (files : FileTree) (doc : Document) {inputs : List String} {k : Nat}
    {typed : String} (htyped : inputs[k]? = some typed) :
    run files doc (inputs.take (k + 1)) = (run files doc (inputs.take k)).typing files [typed] := by
  rw [List.take_add_one, htyped, Option.toList_some, run_append]

/-- What is typed behind the end is not read. -/
theorem run_of_quit {doc : Document} {inputs : List String} {k : Nat}
    (hquit : (run files doc (inputs.take k)).quit = true) :
    run files doc inputs = run files doc (inputs.take k) := by
  conv_lhs => rw [← List.take_append_drop k inputs, run_append, Session.typing, if_pos hquit]

/-! ## §2 Lines -/

/-- What one line of typing makes of a session. -/
inductive Session.Step (files : FileTree) (session : Session) (typed : String) : Session → Prop
  /-- The session is over already. -/
  | over (hquit : session.quit = true) : session.Step files typed session
  | ends (hquit : session.quit = false) (hparse : parse typed = .ok .quit) :
      session.Step files typed { session with quit := true }
  | answered {text : String} {doc : Document} (hquit : session.quit = false)
      (hresponse : Response files session.document typed text doc) :
      session.Step files typed ⟨session.output ++ text,
        session.screen ++ (writtenSince session.document doc ++ text), doc, false⟩

variable {session : Session} {typed : String}

/-- The answer is printed, and the session goes on with the document behind it. -/
theorem typing_of_response (h : session.document.WellFormed limit) (hquit : session.quit = false)
    {text : String} {doc : Document} (hresponse : Response files session.document typed text doc) :
    session.typing files [typed] = ⟨session.output ++ text,
      session.screen ++ (writtenSince session.document doc ++ text), doc, false⟩ := by
  simp only [Session.typing, hquit, Bool.false_eq_true, if_false, respondAll,
    respond_of_response h hresponse, String.append_empty]

/-- Nothing is written for a line that is refused. -/
theorem writtenSince_journal (doc : Document) (journal : List Journal.Entry) :
    writtenSince doc { doc with journal } = "" := by
  simp [writtenSince, Layout.rows]

theorem step_typing (h : session.document.WellFormed limit) :
    session.Step files typed (session.typing files [typed]) := by
  cases hquit : session.quit with
  | true =>
    rw [Session.typing, if_pos hquit]
    exact .over hquit
  | false =>
    cases hrespond : respond files session.document typed with
    | none =>
      have hends : session.typing files [typed] = { session with quit := true } := by
        simp only [Session.typing, hquit, Bool.false_eq_true, if_false, respondAll, hrespond,
          String.append_empty]
      rw [hends]
      exact .ends hquit ((respond_eq_none_iff h).mp hrespond)
    | some answer =>
      have hresponse := (respond_eq_some_iff h).mp hrespond
      rw [typing_of_response h hquit hresponse]
      exact .answered hquit hresponse

/-! ## §3 Sessions -/

theorem wellFormed_respondAll {doc : Document} (h : doc.WellFormed limit) (inputs : List String) :
    ∃ limit', (respondAll files doc inputs).document.WellFormed limit' := by
  induction inputs generalizing doc limit with
  | nil => exact ⟨limit, h⟩
  | cons typed rest ih =>
    unfold respondAll
    split
    · exact ⟨limit, h⟩
    · rename_i hrespond
      obtain ⟨_, hdoc⟩ := wellFormed_of_response h ((respond_eq_some_iff h).mp hrespond)
      exact ih hdoc

end

section

variable [Engine]

/-- **A session goes line by line until it is ended.** Whatever has been done to a document, and
whatever is typed: every line makes a step of the session, and the last step is the whole of it. A
line that is refused leaves everything but the journal as it was, and the session goes on. What is
typed behind the end is not read, there is always a line in the sheet, and no command that is read
goes by line zero. -/
theorem run_steps (opening : Opening) (edits : List Edit) (files : FileTree) (text : String) :
    let doc := opening.document.run edits
    let session (k : Nat) := run files doc ((Text.lines text).take k)
    session 0 = ⟨banner ++ "\n", banner ++ "\n", doc, false⟩
      ∧ (∀ k typed, (Text.lines text)[k]? = some typed →
        (session k).Step files typed (session (k + 1))
          ∧ ∀ e, (session k).quit = false → Refused files (session k).document typed e →
            session (k + 1) = ⟨(session k).output ++ ("Error: " ++ e.message ++ "\n"),
              (session k).screen ++ ("Error: " ++ e.message ++ "\n"),
              { (session k).document with journal := (session k).document.journal ++ e.entries },
              false⟩)
      ∧ session (Text.lines text).length = run files doc (Text.lines text)
      ∧ (∀ k, (session k).quit = true → run files doc (Text.lines text) = session k)
      ∧ (∀ k, (session k).document.lines ≠ [])
      ∧ ∀ typed c n, parse typed = .ok c → c.line? = some n → 0 < n := by
  intro doc session
  have hdoc (k : Nat) : ∃ limit, (session k).document.WellFormed limit :=
    wellFormed_respondAll (wellFormed_foldl (WellFormed.opening opening) edits) _
  refine ⟨?_, fun k typed htyped => ?_, ?_, fun k => run_of_quit, fun k => ?_,
    fun typed c n hparse hline => (line_bounds_of_parse hparse hline).1⟩
  · simp [session, run, respondAll]
  · obtain ⟨_, hk⟩ := hdoc k
    simp only [session, run_take_succ files doc htyped]
    refine ⟨step_typing hk, fun e hquit hrefused => ?_⟩
    rw [typing_of_response hk hquit (.refused hrefused), writtenSince_journal,
      String.empty_append]
  · simp only [session, List.take_length]
  · obtain ⟨_, hk⟩ := hdoc k
    exact hk.numbered.ne_nil

end

/-- A line is inserted behind another one although the command before it names line zero. What is
typed behind the end leaves the sheet as it is. -/
theorem run_steps_zero :
    let inputs := Text.lines "x = 1\n:e 0 2\n:i 1 x + 1\n:quit\nx = 9"
    let session (k : Nat) := run (.empty []) .new (inputs.take k)
    (session 1).quit = false
      ∧ Refused (.empty []) (session 1).document ":e 0 2" (.command (.invalidLineNumber "0"))
      ∧ session 2 = ⟨(session 1).output ++ "Error: Invalid line number: 0\n",
        (session 1).screen ++ "Error: Invalid line number: 0\n",
        { (session 1).document with journal := (session 1).document.journal ++ [] }, false⟩
      ∧ (session 3).document.resultTexts = ["x = 1", "2"]
      ∧ (session 4).quit = true
      ∧ run (.empty []) .new inputs = session 4 := by
  intro inputs session
  obtain ⟨_, hsteps, _, hover, _⟩ := run_steps .blank [] (.empty [])
    "x = 1\n:e 0 2\n:i 1 x + 1\n:quit\nx = 9"
  have hgoes : (session 1).quit = false := by decide +kernel
  have hrefused : Refused (.empty []) (session 1).document ":e 0 2"
      (.command (.invalidLineNumber "0")) :=
    .malformed (parse_eq_error_iff.mp (by decide +kernel))
  have hends : (session 4).quit = true := by decide +kernel
  exact ⟨hgoes, hrefused, (hsteps 1 _ (by decide +kernel)).2 _ hgoes hrefused, by decide +kernel,
    hends, hover 4 hends⟩

end SumSheet.Interactive
