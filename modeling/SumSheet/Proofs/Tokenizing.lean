/-
SumSheet.Proofs.Tokenizing — how a text is cut into tokens.

`tokenize` counts its steps, and so do the scanners of strings. `Cut` is
the same without counting: a text is cut where it is, gap by gap, comment
by comment, token by token. `cut_iff` says that both agree, so whatever
is to be said of all tokens of a text goes by induction on `Cut`.

Two facts carry that. What a token takes off the front is known from its
kind (`lexToken_takes`), and a token is the same whatever stands behind
the text, as long as a new line begins there (`lexToken_append`).

  §1 Runs    — the characters at the front of a text.
  §2 Numbers — scanned the same in front of a line break.
  §3 Strings — and what closes them.
  §4 Words and signs
  §5 Tokens  — what one of them takes off.
  §6 Texts   — cut without counting.
-/
import Mathlib
import SumSheet.Script.Lexer

namespace SumSheet.Script

open Text Number

/-! ## §1 Runs -/

/-- Nothing, or what begins on a new line. -/
def OnNewLine (text : List Char) : Prop :=
  ∀ c ∈ text.head?, c = '\n'

theorem onNewLine_nil : OnNewLine [] := by
  simp [OnNewLine]

theorem onNewLine_cons (rest : List Char) : OnNewLine ('\n' :: rest) := by
  simp [OnNewLine]

section

variable {p : Char → Bool} (hp : p '\n' = false) {behind : List Char} (h : OnNewLine behind)

include hp h

/-- A run of characters ends in front of a line break. -/
theorem takeWhile_append_onNewLine (text : List Char) :
    (text ++ behind).takeWhile p = text.takeWhile p := by
  induction text with
  | nil =>
    cases behind with
    | nil => rfl
    | cons c rest => rw [h c rfl]; simp [hp]
  | cons c rest ih => cases hc : p c <;> simp [hc, ih]

theorem dropWhile_append_onNewLine (text : List Char) :
    (text ++ behind).dropWhile p = text.dropWhile p ++ behind := by
  induction text with
  | nil =>
    cases behind with
    | nil => rfl
    | cons c rest => rw [h c rfl]; simp [hp]
  | cons c rest ih => cases hc : p c <;> simp [hc, ih]

end

/-- What stands behind a run that takes at least the first character. -/
theorem dropWhile_cons_suffix {p : Char → Bool} {c : Char} (hc : p c = true) (rest : List Char) :
    (c :: rest).dropWhile p <:+ rest := by
  rw [List.dropWhile_cons_of_pos hc]
  exact List.dropWhile_suffix p

/-! ## §2 Numbers -/

section

variable {behind : List Char} (h : OnNewLine behind)

include h

theorem fraction?_append (text : List Char) :
    fraction? (text ++ behind) = (fraction? text).map fun r => (r.1, r.2 ++ behind) := by
  have hfirst : fraction? behind = none := by
    cases behind with
    | nil => rfl
    | cons c rest => rw [h c rfl]; rfl
  cases text with
  | nil => simpa [fraction?] using hfirst
  | cons c rest =>
    by_cases hc : c = '.'
    · subst hc
      cases rest with
      | nil =>
        cases behind with
        | nil => rfl
        | cons d rest => rw [h d rfl]; rfl
      | cons d rest =>
        have htake := takeWhile_append_onNewLine (p := isNumberPart) rfl h (d :: rest)
        have hdrop := dropWhile_append_onNewLine (p := isNumberPart) rfl h (d :: rest)
        rw [List.cons_append] at htake hdrop
        simp only [List.cons_append, fraction?, htake, hdrop]
        split
        · rfl
        · split <;> rfl
    · simp [fraction?, hc]

theorem exponent?_append (text : List Char) :
    exponent? (text ++ behind)
      = (exponent? text).map (Option.map fun r => (r.1, r.2 ++ behind)) := by
  have hfirst : exponent? behind = .ok none := by
    cases behind with
    | nil => rfl
    | cons c rest => rw [h c rfl]; rfl
  match text with
  | [] => simpa [exponent?, Except.map] using hfirst
  | [e] =>
    cases behind with
    | nil => cases he : (e == 'e' || e == 'E') <;> simp [exponent?, he, Except.map]
    | cons c rest =>
      rw [h c rfl]
      cases he : (e == 'e' || e == 'E') <;> simp [exponent?, he, Except.map, isAsciiDigit]
  | e :: c :: rest =>
    have htake := takeWhile_append_onNewLine (p := isNumberPart) rfl h
    have hdrop := dropWhile_append_onNewLine (p := isNumberPart) rfl h
    have htake' := htake (c :: rest)
    have hdrop' := hdrop (c :: rest)
    rw [List.cons_append] at htake' hdrop'
    simp only [List.cons_append, exponent?, htake, hdrop, htake', hdrop']
    split
    · split
      · split <;> rfl
      · split <;> rfl
    · rfl

theorem lexNumber_append (text : List Char) :
    lexNumber (text ++ behind) = (lexNumber text).map fun r => (r.1, r.2 ++ behind) := by
  have htake := takeWhile_append_onNewLine (p := isNumberPart) rfl h text
  have hdrop := dropWhile_append_onNewLine (p := isNumberPart) rfl h text
  simp only [lexNumber, htake, hdrop, fraction?_append h]
  cases hpoint : fraction? (text.dropWhile isNumberPart) with
  | none =>
    simp only [Option.map_none, Option.getD_none, exponent?_append h]
    cases exponent? (text.dropWhile isNumberPart) with
    | error e => rfl
    | ok r =>
      cases r with
      | none => simp only [Except.map, bind, Except.bind, Option.map_none]; split <;> rfl
      | some r => rfl
  | some r =>
    simp only [Option.map_some, Option.getD_some, exponent?_append h]
    cases exponent? r.2 with
    | error e => rfl
    | ok r' =>
      cases r' with
      | none => rfl
      | some r' => rfl

end

theorem fraction?_suffix {text digits rest : List Char} (h : fraction? text = some (digits, rest)) :
    rest <:+ text := by
  unfold fraction? at h
  split at h
  · split at h
    · cases h
      exact List.nil_suffix
    · split at h
      · cases h
        exact (List.dropWhile_suffix _).trans (List.suffix_cons _ _)
      · split at h
        · cases h
        · cases h
          exact List.suffix_cons _ _
  · cases h

theorem exponent?_suffix {text rest : List Char} {n : Int}
    (h : exponent? text = .ok (some (n, rest))) : rest <:+ text := by
  unfold exponent? at h
  split at h
  · split at h
    · split at h
      · cases h
      · split at h
        · simp only at h
          split at h
          · cases h
          · cases h
            exact (List.dropWhile_suffix _).trans
              ((List.suffix_cons _ _).trans (List.suffix_cons _ _))
        · split at h
          · cases h
            exact (List.dropWhile_suffix _).trans (List.suffix_cons _ _)
          · cases h
    · cases h
  · cases h

/-- The token is a number. -/
def Token.IsNumber : Token → Prop
  | .int _ | .float _ => True
  | _ => False

/-- A number takes at least the digit it begins with. -/
theorem lexNumber_takes {c : Char} {rest behind : List Char} {t : Token}
    (hc : isAsciiDigit c = true) (h : lexNumber (c :: rest) = .ok (t, behind)) :
    t.IsNumber ∧ behind <:+ rest := by
  have hwhole : (c :: rest).dropWhile isNumberPart <:+ rest :=
    dropWhile_cons_suffix (by simp [isNumberPart, hc]) rest
  have hpoint : ((fraction? ((c :: rest).dropWhile isNumberPart)).getD
      ([], (c :: rest).dropWhile isNumberPart)).2 <:+ rest := by
    cases hf : fraction? ((c :: rest).dropWhile isNumberPart) with
    | none => exact hwhole
    | some r => exact (fraction?_suffix hf).trans hwhole
  simp only [lexNumber, bind, Except.bind, pure, Except.pure] at h
  split at h
  · cases h
  · split at h
    · rename_i hexponent
      cases h
      exact ⟨trivial, (exponent?_suffix hexponent).trans hpoint⟩
    · split at h <;> cases h <;> exact ⟨trivial, hpoint⟩

/-! ## §3 Strings -/

section

variable {quote : Char} (hquote : quote ≠ '\n') {behind : List Char} (h : OnNewLine behind)

/-- One more character in front of the content of a string. -/
theorem map_cons_eq_ok {r : Except LexError (List Char × List Char)} {c : Char}
    {content rest : List Char} (h : (r.map fun r => (c :: r.1, r.2)) = .ok (content, rest)) :
    ∃ tail, r = .ok (tail, rest) ∧ content = c :: tail := by
  cases r with
  | error e => cases h
  | ok r => cases h; exact ⟨r.1, rfl, rfl⟩

theorem hexDigits?_append {count acc n : Nat} {text rest : List Char}
    (h : hexDigits? count acc text = some (n, rest)) (behind : List Char) :
    hexDigits? count acc (text ++ behind) = some (n, rest ++ behind) := by
  induction count generalizing acc text with
  | zero => cases h; rfl
  | succ count ih =>
    cases text with
    | nil => cases h
    | cons c text =>
      simp only [List.cons_append, hexDigits?] at h ⊢
      split at h
      · exact ih h
      · cases h

theorem escape?_append {text rest : List Char} {c : Char}
    (h : escape? quote text = some (c, rest)) (behind : List Char) :
    escape? quote (text ++ behind) = some (c, rest ++ behind) := by
  cases text with
  | nil => cases h
  | cons d text =>
    simp only [List.cons_append, escape?] at h ⊢
    split at h
    · cases h; simp [*]
    split at h
    · cases h; simp [*]
    split at h
    · cases h; simp [*]
    split at h
    · cases h; simp [*]
    split at h
    · split at h
      · rename_i hdigits
        rw [hexDigits?_append hdigits]
        split at h
        · cases h; simp [*]
        · cases h
      · cases h
    · cases h

theorem hexDigits?_suffix {count acc n : Nat} {text rest : List Char}
    (h : hexDigits? count acc text = some (n, rest)) : rest <:+ text := by
  induction count generalizing acc text with
  | zero => cases h; exact List.suffix_rfl
  | succ count ih =>
    cases text with
    | nil => cases h
    | cons c text =>
      simp only [hexDigits?] at h
      split at h
      · exact (ih h).trans (List.suffix_cons _ _)
      · cases h

theorem escape?_suffix {text rest : List Char} {c : Char}
    (h : escape? quote text = some (c, rest)) : rest <:+ text := by
  cases text with
  | nil => cases h
  | cons d text =>
    simp only [escape?] at h
    split at h
    · cases h; exact List.suffix_cons _ _
    split at h
    · cases h; exact List.suffix_cons _ _
    split at h
    · cases h; exact List.suffix_cons _ _
    split at h
    · cases h; exact List.suffix_cons _ _
    split at h
    · split at h
      · rename_i hdigits
        split at h
        · cases h; exact (hexDigits?_suffix hdigits).trans (List.suffix_cons _ _)
        · cases h
      · cases h
    · cases h

/-- A string reaches to a closing quote. -/
theorem lexString_closed {literal : Bool} {limit : Nat} {text content rest : List Char}
    (hlex : lexString quote literal limit text = .ok (content, rest)) :
    ∃ used, text = used ++ quote :: rest := by
  induction limit generalizing text content with
  | zero => cases text <;> cases hlex
  | succ limit ih =>
    have hnext {c d : Char} {text next : List Char} (hsuffix : next <:+ text)
        (hmap : ((lexString quote literal limit next).map fun r => (d :: r.1, r.2))
          = .ok (content, rest)) : ∃ used, c :: text = used ++ quote :: rest := by
      obtain ⟨tail, hr, _⟩ := map_cons_eq_ok hmap
      obtain ⟨used, rfl⟩ := ih hr
      obtain ⟨skipped, rfl⟩ := hsuffix
      exact ⟨c :: (skipped ++ used), by simp⟩
    cases text with
    | nil => cases hlex
    | cons c text =>
      simp only [lexString] at hlex
      split at hlex
      · rename_i hc
        obtain rfl : c = quote := by simpa using hc
        split at hlex
        · split at hlex
          · exact hnext (List.suffix_cons _ _) hlex
          · cases hlex
            exact ⟨[], rfl⟩
        · cases hlex
          exact ⟨[], rfl⟩
      split at hlex
      · split at hlex
        · rename_i hescape
          exact hnext (escape?_suffix hescape) hlex
        · cases hlex
      split at hlex
      · cases hlex
      split at hlex
      · obtain ⟨used, rfl⟩ := ih hlex
        exact ⟨c :: used, rfl⟩
      · exact hnext List.suffix_rfl hlex

include hquote h in
/-- A string is the same in front of a line break, and needs no more steps than it has
characters. -/
theorem lexString_append {literal : Bool} {limit limit' : Nat} {text content rest : List Char}
    (hlex : lexString quote literal limit text = .ok (content, rest))
    (hlimit : text.length ≤ limit') :
    lexString quote literal limit' (text ++ behind) = .ok (content, rest ++ behind) := by
  induction limit generalizing text content limit' with
  | zero => cases text <;> cases hlex
  | succ limit ih =>
    cases text with
    | nil => cases hlex
    | cons c text =>
      obtain ⟨limit', rfl⟩ : ∃ m, limit' = m + 1 := ⟨limit' - 1, by simp at hlimit; omega⟩
      have hlength : text.length ≤ limit' := by simpa using hlimit
      have hnext {d : Char} {next : List Char} (hsuffix : next <:+ text)
          (hmap : ((lexString quote literal limit next).map fun r => (d :: r.1, r.2))
            = .ok (content, rest)) :
          ((lexString quote literal limit' (next ++ behind)).map fun r => (d :: r.1, r.2))
            = .ok (content, rest ++ behind) := by
        obtain ⟨tail, hr, rfl⟩ := map_cons_eq_ok hmap
        rw [ih hr (hsuffix.length_le.trans hlength)]
        rfl
      simp only [List.cons_append, lexString] at hlex ⊢
      split at hlex
      · rename_i hc
        rw [if_pos hc]
        split at hlex
        · rename_i d next
          simp only [List.cons_append]
          split at hlex
          · rename_i hd
            rw [if_pos hd]
            exact hnext (List.suffix_cons _ _) hlex
          · rename_i hd
            cases hlex
            rw [if_neg hd, List.cons_append]
        · -- the closing quote is the last character
          cases hlex
          cases behind with
          | nil => rfl
          | cons d rest =>
            obtain rfl := h d rfl
            simp [hquote.symm]
      rename_i hc
      rw [if_neg hc]
      split at hlex
      · rename_i hbackslash
        rw [if_pos hbackslash]
        split at hlex
        · rename_i hescape
          rw [escape?_append hescape]
          exact hnext (escape?_suffix hescape) hlex
        · cases hlex
      rename_i hbackslash
      rw [if_neg hbackslash]
      split at hlex
      · cases hlex
      rename_i hbreak
      rw [if_neg hbreak]
      split at hlex
      · rename_i hreturn
        have hhead : (text ++ behind).head? = text.head? := by
          cases text <;> simp_all
        rw [hhead, if_pos hreturn, ih hlex hlength]
      · rename_i hreturn
        -- a string that does not end here has a character more
        have hhead : (text ++ behind).head? = text.head? := by
          cases text with
          | nil => cases limit <;> cases hlex
          | cons d text => rfl
        rw [hhead, if_neg hreturn]
        exact hnext List.suffix_rfl hlex

theorem skipLineBreak_suffix (text : List Char) : skipLineBreak text <:+ text := by
  unfold skipLineBreak
  split
  · exact (List.suffix_cons _ _).trans (List.suffix_cons _ _)
  · exact List.suffix_cons _ _
  · exact List.suffix_cons _ _
  · exact List.suffix_rfl

theorem skipLineBreak_append {text : List Char} (htext : text ≠ []) (hreturn : text ≠ ['\r'])
    (behind : List Char) : skipLineBreak (text ++ behind) = skipLineBreak text ++ behind := by
  cases text with
  | nil => exact absurd rfl htext
  | cons c text =>
    by_cases hr : c = '\r'
    · subst hr
      cases text with
      | nil => exact absurd rfl hreturn
      | cons d text =>
        by_cases hd : d = '\n'
        · subst hd; rfl
        · simp [skipLineBreak, hd]
    · by_cases hn : c = '\n'
      · subst hn; rfl
      · simp [skipLineBreak, hr, hn]

end

/-! ## §4 Words and signs -/

theorem lexWord_append {behind : List Char} (h : OnNewLine behind) (text : List Char) :
    lexWord (text ++ behind) = (lexWord text).map fun r => (r.1, r.2 ++ behind) := by
  have htake := takeWhile_append_onNewLine (p := isNamePart) rfl h text
  have hdrop := dropWhile_append_onNewLine (p := isNamePart) rfl h text
  simp only [lexWord, htake, hdrop]
  split <;> rfl

/-- A sign goes on with nothing from a new line. -/
theorem isPrefixOf_append {behind : List Char} (h : OnNewLine behind) {sign : List Char}
    (hsign : '\n' ∉ sign) (text : List Char) :
    sign.isPrefixOf (text ++ behind) = sign.isPrefixOf text := by
  induction sign generalizing text with
  | nil => simp [List.isPrefixOf]
  | cons c sign ih =>
    cases text with
    | nil =>
      cases behind with
      | nil => rfl
      | cons d rest =>
        obtain rfl := h d rfl
        have hc : c ≠ '\n' := by rintro rfl; simp at hsign
        simp [List.isPrefixOf, hc]
    | cons d text =>
      simp only [List.cons_append, List.isPrefixOf, ih (fun hmem => hsign (by simp [hmem]))]

/-- No name and no number goes on with the character. -/
def IsBreak (c : Char) : Prop :=
  isNamePart c = false ∧ isDigit c = false

instance (c : Char) : Decidable (IsBreak c) :=
  inferInstanceAs (Decidable (_ ∧ _))

/-- A sign holds neither a line break nor anything with which a name or a number goes on. -/
theorem signs_plain {sign : List Char × Option Symbol} (h : sign ∈ signs) :
    sign.1 ≠ [] ∧ '\n' ∉ sign.1 ∧ ∀ c ∈ sign.1, IsBreak c := by
  have hall : signs.all (fun sign => !sign.1.isEmpty && !sign.1.contains '\n'
      && sign.1.all fun c => decide (IsBreak c)) = true := by rfl
  simpa [and_assoc] using List.all_eq_true.mp hall sign h

theorem lexSign_append {behind : List Char} (h : OnNewLine behind) {text rest : List Char}
    {t : Token} (hlex : lexSign text = .ok (t, rest)) :
    lexSign (text ++ behind) = .ok (t, rest ++ behind) := by
  have hfind : signs.find? (·.1.isPrefixOf (text ++ behind)) = signs.find? (·.1.isPrefixOf text) :=
    List.find?_congr fun sign hsign => isPrefixOf_append h (signs_plain hsign).2.1 text
  simp only [lexSign, hfind] at hlex ⊢
  split at hlex
  · rename_i text _ _ sign symbol hsign
    cases hlex
    obtain ⟨rest, rfl⟩ : sign <+: text := by simpa using List.find?_some hsign
    simp [hsign]
  all_goals cases hlex

/-- A sign takes its spelling. -/
theorem lexSign_takes {text rest : List Char} {t : Token} (h : lexSign text = .ok (t, rest)) :
    ∃ sign symbol, (sign, some symbol) ∈ signs ∧ t = .symbol symbol ∧ text = sign ++ rest := by
  simp only [lexSign] at h
  split at h
  · rename_i text _ _ sign symbol hfind
    cases h
    have hmem := List.mem_of_find?_eq_some hfind
    obtain ⟨rest, rfl⟩ : sign <+: text := by simpa using List.find?_some hfind
    exact ⟨sign, symbol, hmem, rfl, by simp⟩
  all_goals cases h

/-! ## §5 Tokens -/

section

variable {limit : Nat} {c : Char} {text rest : List Char} {t : Token}

theorem lexChar_eq_ok (h : lexChar limit text = .ok (t, rest)) :
    ∃ d, t = .char d ∧ lexString '\'' false limit text = .ok ([d], rest) := by
  unfold lexChar at h
  split at h
  · cases h
    exact ⟨_, rfl, ‹_›⟩
  all_goals cases h

/-- A token is the same in front of a line break, and needs no more steps than there are
characters. -/
theorem lexToken_append {limit' : Nat} {behind : List Char} (h : OnNewLine behind)
    (hlex : lexToken limit c text = .ok (t, rest)) (hlimit : text.length ≤ limit') :
    lexToken limit' c (text ++ behind) = .ok (t, rest ++ behind) := by
  simp only [lexToken, ← List.cons_append] at hlex ⊢
  split at hlex
  · rw [if_pos ‹_›, lexNumber_append h, hlex]
    rfl
  rw [if_neg ‹_›]
  split at hlex
  · rw [if_pos ‹_›, lexWord_append h, hlex]
    rfl
  rw [if_neg ‹_›]
  split at hlex
  · rw [if_pos ‹_›]
    cases hstring : lexString '"' false limit text with
    | error e => rw [hstring] at hlex; cases hlex
    | ok r =>
      rw [hstring] at hlex
      cases hlex
      rw [lexString_append (by decide) h hstring hlimit]
      rfl
  rw [if_neg ‹_›]
  split at hlex
  · rw [if_pos ‹_›]
    cases hstring : lexString '`' true limit (skipLineBreak text) with
    | error e => rw [hstring] at hlex; cases hlex
    | ok r =>
      rw [hstring] at hlex
      cases hlex
      have hnil : text ≠ [] := by
        rintro rfl
        cases limit <;> cases hstring
      have hreturn : text ≠ ['\r'] := by
        rintro rfl
        cases limit <;> cases hstring
      rw [skipLineBreak_append hnil hreturn, lexString_append (by decide) h hstring
        ((skipLineBreak_suffix text).length_le.trans hlimit)]
      rfl
  rw [if_neg ‹_›]
  split at hlex
  · rw [if_pos ‹_›]
    obtain ⟨d, rfl, hstring⟩ := lexChar_eq_ok hlex
    rw [lexChar, lexString_append (by decide) h hstring hlimit]
  · rw [if_neg ‹_›]
    exact lexSign_append h hlex

/-- A token needs no more steps than there are characters. -/
theorem lexToken_within {limit' : Nat} (hlex : lexToken limit c text = .ok (t, rest))
    (hlimit : text.length ≤ limit') : lexToken limit' c text = .ok (t, rest) := by
  simpa using lexToken_append onNewLine_nil hlex hlimit

/-- The token is neither a word nor a number. -/
def Token.IsClosed : Token → Prop
  | .text _ | .char _ | .symbol _ => True
  | _ => False

/-- What a token takes off the front of a text. -/
theorem lexToken_takes (h : lexToken limit c text = .ok (t, rest)) :
    (t.IsNumber ∧ rest <:+ text)
      ∨ (isNameStart c = true
        ∧ t = .word (String.ofList ((c :: text).takeWhile isNamePart))
        ∧ rest = (c :: text).dropWhile isNamePart)
      ∨ (t.IsClosed ∧ isNamePart c = false
        ∧ ∃ used last, c :: text = used ++ last :: rest ∧ IsBreak last) := by
  unfold lexToken at h
  split at h
  · rename_i hdigit
    exact .inl (lexNumber_takes hdigit h)
  rename_i hdigit
  split at h
  · rename_i hstart
    unfold lexWord at h
    simp only at h
    split at h
    · cases h
      exact .inr (.inl ⟨hstart, rfl, rfl⟩)
    · cases h
  rename_i hstart
  have hc : isNamePart c = false := by
    simp_all [isNamePart]
  refine .inr (.inr ?_)
  split at h
  · cases hstring : lexString '"' false limit text with
    | error e => rw [hstring] at h; cases h
    | ok r =>
      rw [hstring] at h
      cases h
      obtain ⟨used, rfl⟩ := lexString_closed hstring
      exact ⟨trivial, hc, c :: used, '"', by simp, by decide⟩
  split at h
  · cases hstring : lexString '`' true limit (skipLineBreak text) with
    | error e => rw [hstring] at h; cases h
    | ok r =>
      rw [hstring] at h
      cases h
      obtain ⟨used, hused⟩ := lexString_closed hstring
      obtain ⟨skipped, hskipped⟩ := skipLineBreak_suffix text
      refine ⟨trivial, hc, c :: (skipped ++ used), '`', ?_, by decide⟩
      rw [← hskipped, hused]
      simp
  split at h
  · obtain ⟨d, rfl, hstring⟩ := lexChar_eq_ok h
    obtain ⟨used, rfl⟩ := lexString_closed hstring
    exact ⟨trivial, hc, c :: used, '\'', by simp, by decide⟩
  · obtain ⟨sign, symbol, hmem, rfl, htext⟩ := lexSign_takes h
    obtain ⟨hne, _, hpart⟩ := signs_plain hmem
    refine ⟨trivial, hc, sign.dropLast, sign.getLast hne, ?_, hpart _ (List.getLast_mem hne)⟩
    rw [htext, ← List.singleton_append, ← List.append_assoc, List.dropLast_append_getLast]

end

/-! ## §6 Texts -/

/-- A comment begins here. -/
def OpensComment (c : Char) (rest : List Char) : Prop :=
  c = '/' ∧ (rest.head? = some '/' ∨ rest.head? = some '*')

/-- The text is cut into these tokens. -/
inductive Cut : List Char → List Token → Prop
  | nil : Cut [] []
  | gap {c : Char} {rest : List Char} {tokens : List Token} (hc : isGap c = true)
      (h : Cut rest tokens) : Cut (c :: rest) tokens
  | lineComment {behind : List Char} {tokens : List Token}
      (h : Cut (afterLineComment behind) tokens) : Cut ('/' :: '/' :: behind) tokens
  | blockComment {behind : List Char} {tokens : List Token}
      (h : Cut (afterBlockComment 0 behind) tokens) : Cut ('/' :: '*' :: behind) tokens
  | token {c : Char} {text rest : List Char} {t : Token} {tokens : List Token}
      (hgap : isGap c = false) (hcomment : ¬ OpensComment c text)
      (htoken : lexToken text.length c text = .ok (t, rest)) (h : Cut rest tokens) :
      Cut (c :: text) (t :: tokens)

section

variable {limit : Nat} {c : Char} {text : List Char}

theorem tokenizeWithin_gap (hc : isGap c = true) :
    tokenizeWithin (limit + 1) (c :: text) = tokenizeWithin limit text := by
  rw [tokenizeWithin, if_pos hc]
  · rintro behind rfl
    exact absurd hc (by decide)
  · rintro behind rfl
    exact absurd hc (by decide)

theorem tokenizeWithin_lineComment :
    tokenizeWithin (limit + 1) ('/' :: '/' :: text)
      = tokenizeWithin limit (afterLineComment text) := rfl

theorem tokenizeWithin_blockComment :
    tokenizeWithin (limit + 1) ('/' :: '*' :: text)
      = tokenizeWithin limit (afterBlockComment 0 text) := rfl

theorem tokenizeWithin_token (hgap : isGap c = false) (hcomment : ¬ OpensComment c text) :
    tokenizeWithin (limit + 1) (c :: text)
      = (do let (t, rest) ← lexToken limit c text; return t :: (← tokenizeWithin limit rest)) := by
  rw [tokenizeWithin, if_neg (by simp [hgap])]
  · rintro behind rfl rfl
    exact hcomment ⟨rfl, .inl rfl⟩
  · rintro behind rfl rfl
    exact hcomment ⟨rfl, .inr rfl⟩

end

theorem afterLineComment_length (text : List Char) :
    (afterLineComment text).length ≤ text.length := by
  induction text with
  | nil => exact le_refl _
  | cons c rest ih =>
    simp only [afterLineComment]
    split
    · simp
    · simp only [List.length_cons]; omega

theorem afterBlockComment_length (depth : Nat) (text : List Char) :
    (afterBlockComment depth text).length ≤ text.length := by
  fun_induction afterBlockComment depth text <;> simp_all <;> omega

theorem lexToken_length {limit : Nat} {c : Char} {text rest : List Char} {t : Token}
    (h : lexToken limit c text = .ok (t, rest)) : rest.length ≤ text.length := by
  rcases lexToken_takes h with ⟨_, hsuffix⟩ | ⟨hstart, _, rfl⟩ | ⟨_, _, used, last, hused, _⟩
  · exact hsuffix.length_le
  · exact (dropWhile_cons_suffix (by simp [isNamePart, hstart]) text).length_le
  · have := congrArg List.length hused
    simp only [List.length_cons, List.length_append] at this
    omega

/-- The steps that are taken cut the text. -/
theorem cut_of_tokenizeWithin {limit : Nat} {text : List Char} {tokens : List Token}
    (hlimit : text.length ≤ limit) (h : tokenizeWithin limit text = .ok tokens) :
    Cut text tokens := by
  induction limit generalizing text tokens with
  | zero =>
    obtain rfl : text = [] := List.length_eq_zero_iff.mp (by omega)
    cases h
    exact .nil
  | succ limit ih =>
    cases text with
    | nil => cases h; exact .nil
    | cons c rest =>
      simp only [List.length_cons] at hlimit
      by_cases hgap : isGap c = true
      · rw [tokenizeWithin_gap hgap] at h
        exact .gap hgap (ih (by omega) h)
      by_cases hcomment : OpensComment c rest
      · obtain ⟨rfl, hhead | hhead⟩ := hcomment
        · obtain ⟨behind, rfl⟩ := List.head?_eq_some_iff.mp hhead
          have hlength := afterLineComment_length behind
          simp only [List.length_cons] at hlimit
          exact .lineComment (ih (by omega) h)
        · obtain ⟨behind, rfl⟩ := List.head?_eq_some_iff.mp hhead
          have hlength := afterBlockComment_length 0 behind
          simp only [List.length_cons] at hlimit
          exact .blockComment (ih (by omega) h)
      · rw [Bool.not_eq_true] at hgap
        rw [tokenizeWithin_token hgap hcomment] at h
        cases htoken : lexToken limit c rest with
        | error e => rw [htoken] at h; cases h
        | ok r =>
          obtain ⟨t, behind⟩ := r
          rw [htoken] at h
          cases hbehind : tokenizeWithin limit behind with
          | error e => simp [hbehind, bind, Except.bind] at h
          | ok others =>
            simp only [hbehind, bind, Except.bind, pure, Except.pure, Except.ok.injEq] at h
            have hlength := lexToken_length htoken
            exact h ▸ .token hgap hcomment (lexToken_within htoken (le_refl _))
              (ih (by omega) hbehind)

/-- As many steps as there are characters suffice. -/
theorem Cut.tokenizeWithin_eq {limit : Nat} {text : List Char} {tokens : List Token}
    (h : Cut text tokens) (hlimit : text.length ≤ limit) :
    tokenizeWithin limit text = .ok tokens := by
  induction h generalizing limit with
  | nil => cases limit <;> rfl
  | gap hc _ ih =>
    obtain ⟨limit, rfl⟩ : ∃ m, limit = m + 1 := ⟨limit - 1, by simp at hlimit; omega⟩
    rw [tokenizeWithin_gap hc]
    exact ih (by simpa using hlimit)
  | @lineComment behind _ _ ih =>
    obtain ⟨limit, rfl⟩ : ∃ m, limit = m + 1 := ⟨limit - 1, by simp at hlimit; omega⟩
    have hlength := afterLineComment_length behind
    simp only [List.length_cons] at hlimit
    exact ih (by omega)
  | @blockComment behind _ _ ih =>
    obtain ⟨limit, rfl⟩ : ∃ m, limit = m + 1 := ⟨limit - 1, by simp at hlimit; omega⟩
    have hlength := afterBlockComment_length 0 behind
    simp only [List.length_cons] at hlimit
    exact ih (by omega)
  | @token c text rest t others hgap hcomment htoken _ ih =>
    obtain ⟨limit, rfl⟩ : ∃ m, limit = m + 1 := ⟨limit - 1, by simp at hlimit; omega⟩
    simp only [List.length_cons] at hlimit
    have hlength := lexToken_length htoken
    rw [tokenizeWithin_token hgap hcomment, lexToken_within htoken (by omega)]
    have hrest : tokenizeWithin limit rest = .ok others := ih (by omega)
    simp only [bind, Except.bind, hrest]
    rfl

/-- **Cutting needs no more steps than there are characters.** -/
theorem cut_iff {limit : Nat} {text : List Char} {tokens : List Token}
    (hlimit : text.length ≤ limit) : tokenizeWithin limit text = .ok tokens ↔ Cut text tokens :=
  ⟨cut_of_tokenizeWithin hlimit, fun h => h.tokenizeWithin_eq hlimit⟩

theorem tokenize_iff {text : List Char} {tokens : List Token} :
    tokenize text = .ok tokens ↔ Cut text tokens :=
  cut_iff (le_refl _)

section

variable {c : Char} {text rest : List Char} {tokens : List Token}

theorem cut_gap_iff (hc : isGap c = true) : Cut (c :: text) tokens ↔ Cut text tokens := by
  rw [← cut_iff (le_refl _), List.length_cons, tokenizeWithin_gap hc, cut_iff (le_refl _)]

theorem cut_lineComment_iff :
    Cut ('/' :: '/' :: text) tokens ↔ Cut (afterLineComment text) tokens := by
  have hlength := afterLineComment_length text
  rw [← cut_iff (le_refl _), List.length_cons, tokenizeWithin_lineComment,
    cut_iff (by simp only [List.length_cons]; omega)]

theorem cut_blockComment_iff :
    Cut ('/' :: '*' :: text) tokens ↔ Cut (afterBlockComment 0 text) tokens := by
  have hlength := afterBlockComment_length 0 text
  rw [← cut_iff (le_refl _), List.length_cons, tokenizeWithin_blockComment,
    cut_iff (by simp only [List.length_cons]; omega)]

theorem cut_token_iff {limit : Nat} {t : Token} (hgap : isGap c = false)
    (hcomment : ¬ OpensComment c text) (htoken : lexToken limit c text = .ok (t, rest)) :
    Cut (c :: text) tokens ↔ ∃ others, tokens = t :: others ∧ Cut rest others := by
  rw [← cut_iff (le_refl _), List.length_cons, tokenizeWithin_token hgap hcomment,
    lexToken_within htoken (le_refl _)]
  have hlength := lexToken_length htoken
  simp only [bind, Except.bind, pure, Except.pure, ← cut_iff hlength]
  cases tokenizeWithin text.length rest with
  | error e => simp
  | ok others => simp [eq_comm]

end

end SumSheet.Script
