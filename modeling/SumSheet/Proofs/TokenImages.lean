/-
SumSheet.Proofs.TokenImages — how an expression is put into the notation
of scripts, said without the scanner that does it.

The text is read from the left. Where a name, a number or the sign of a
power begins, the longest of them is taken and its image written; any
other character stays as it is (`Transcribes`). The image of a number is
left open but for two things: there are digits on both sides of its
point, and it denotes the number that the token denotes.

The tokens are told apart by their first characters, so the longest
token is the longest of its kind. That is a run of name characters for a
name. For a number it has to be shown that no shorter run of digits
leaves more for what follows: behind a shorter run there is a digit, and
neither the point nor an exponent begins with one (`run_cases`).

  §1 Tokens    — what they are, and the longest one.
  §2 Values    — of digits of all scripts, and of numbers.
  §3 Images    — of the tokens, and of a whole text.
  §4 Exponents — runs of digits, and the longest exponent.
  §5 Numbers   — the longest one, and its image.
  §6 Texts     — `toScript` writes the images.
-/
import Mathlib
import SumSheet.Proofs.CommentMarks

namespace SumSheet

open Text

namespace Formula

/-! ## §1 Tokens -/

def AreDigits (text : List Char) : Prop :=
  ∀ c ∈ text, isDigit c = true

/-- A letter or an underscore, and letters, digits and underscores behind it. -/
def IsNameToken (token : List Char) : Prop :=
  ∃ first others, token = first :: others ∧ isNameStart first = true
    ∧ ∀ c ∈ others, isNamePart c = true

/-- Nothing, or the letter of an exponent, perhaps a sign, and at least one digit. -/
inductive IsScale : List Char → Prop
  | none : IsScale []
  | some {letter : Char} {sign digits : List Char} (hletter : letter = 'e' ∨ letter = 'E')
      (hsign : sign = [] ∨ sign = ['+'] ∨ sign = ['-']) (hdigits : AreDigits digits)
      (hsome : digits ≠ []) : IsScale (letter :: (sign ++ digits))

/-- Digits, perhaps with a point among them, in front of them or behind them. -/
inductive IsMantissa : List Char → Prop
  | whole {digits : List Char} (hdigits : AreDigits digits) (hsome : digits ≠ []) :
      IsMantissa digits
  | pointed {whole fraction : List Char} (hwhole : AreDigits whole) (hfraction : AreDigits fraction)
      (hsome : whole ≠ [] ∨ fraction ≠ []) : IsMantissa (whole ++ '.' :: fraction)

def IsNumberToken (token : List Char) : Prop :=
  ∃ mantissa scale, token = mantissa ++ scale ∧ IsMantissa mantissa ∧ IsScale scale

/-- A piece of an expression that has a meaning of its own. -/
inductive IsToken : List Char → Prop
  | name {token : List Char} (h : IsNameToken token) : IsToken token
  | number {token : List Char} (h : IsNumberToken token) : IsToken token
  | power : IsToken ['^']

/-- The longest token that the text begins with. -/
structure IsLongestToken (token text : List Char) : Prop where
  isToken : IsToken token
  front : token <+: text
  longest : ∀ other, IsToken other → other <+: text → other.length ≤ token.length

/-! ## §2 Values -/

/-- The value of a digit. Every script has its ten digits in a row, from zero on. -/
def numericValue (c : Char) : Nat :=
  match digitRanges.find? fun (first, last) => first ≤ c.toNat && c.toNat ≤ last with
  | some (first, _) => (c.toNat - first) % 10
  | none => 0

/-- The number that a row of digits denotes. -/
def readDigits (digits : List Char) : Nat :=
  digits.foldl (fun n c => 10 * n + numericValue c) 0

/-- The power of ten that an exponent denotes, read behind its letter. -/
def readScale : List Char → Int
  | '-' :: digits => -(readDigits digits)
  | '+' :: digits => readDigits digits
  | digits => readDigits digits

/-- The number that a token or a literal denotes: that of all its digits, scaled by the exponent
less the number of places behind the point. -/
def decimalValue (token : List Char) : ℚ :=
  let mantissa := token.takeWhile fun c => c != 'e' && c != 'E'
  let scale := (token.dropWhile fun c => c != 'e' && c != 'E').tail
  let whole := mantissa.takeWhile fun c => c != '.'
  let fraction := (mantissa.dropWhile fun c => c != '.').tail
  readDigits (whole ++ fraction) * 10 ^ (readScale scale - fraction.length)

theorem readDigits_zero_cons (digits : List Char) :
    readDigits ('0' :: digits) = readDigits digits := by
  have hzero : numericValue '0' = 0 := by decide
  simp [readDigits, hzero]

theorem readDigits_append_zero (digits : List Char) :
    readDigits (digits ++ ['0']) = 10 * readDigits digits := by
  have hzero : numericValue '0' = 0 := by decide
  simp [readDigits, hzero]

/-! ## §3 Images -/

/-- The next character that is not blank is an opening parenthesis. -/
def IsCalled (behind : List Char) : Prop :=
  ∃ blanks rest, behind = blanks ++ '(' :: rest ∧ AreBlank blanks

/-- A number with digits on both sides of its point, perhaps with an exponent. -/
def IsLiteral (image : List Char) : Prop :=
  ∃ whole fraction scale, image = whole ++ '.' :: (fraction ++ scale)
    ∧ (AreDigits whole ∧ whole ≠ []) ∧ (AreDigits fraction ∧ fraction ≠ []) ∧ IsScale scale

/-- What a token is written as, with that text behind it. -/
inductive IsImage : (token behind image : List Char) → Prop
  | kept {name behind : List Char} (hname : IsNameToken name) (hcalled : IsCalled behind) :
      IsImage name behind name
  | marked {name behind : List Char} (hname : IsNameToken name) (hcalled : ¬ IsCalled behind) :
      IsImage name behind ('v' :: '_' :: name)
  | number {token behind image : List Char} (htoken : IsNumberToken token)
      (himage : IsLiteral image) (hvalue : decimalValue image = decimalValue token) :
      IsImage token behind image
  | power {behind : List Char} : IsImage ['^'] behind ['*', '*']

/-- The script is the images of the longest tokens of the text, and its other characters, in their
order. -/
inductive Transcribes : (text script : List Char) → Prop
  | nil : Transcribes [] []
  | token {token behind image script : List Char} (htoken : IsLongestToken token (token ++ behind))
      (himage : IsImage token behind image) (h : Transcribes behind script) :
      Transcribes (token ++ behind) (image ++ script)
  | other {c : Char} {behind script : List Char}
      (hnone : ∀ token, IsToken token → ¬ token <+: c :: behind) (h : Transcribes behind script) :
      Transcribes (c :: behind) (c :: script)

theorem isCalled_iff {behind : List Char} : opensCall behind = true ↔ IsCalled behind := by
  have hparen : isBlank '(' = false := by decide
  rw [opensCall, beq_iff_eq]
  constructor
  · intro h
    obtain ⟨rest, hrest⟩ := List.head?_eq_some_iff.mp h
    have hsplit := List.takeWhile_append_dropWhile (p := isBlank) (l := behind)
    rw [trimStart] at hrest
    exact ⟨behind.takeWhile isBlank, rest, by rw [← hrest, hsplit], forall_takeWhile⟩
  · rintro ⟨blanks, rest, rfl, hblanks⟩
    rw [trimStart, dropWhile_run hblanks (by simp [hparen])]
    rfl

/-! ## §4 Runs and exponents -/

section

variable {p : Char → Bool} {run behind longest rest : List Char}

theorem prefix_takeWhile (hrun : ∀ c ∈ run, p c = true) (h : run <+: rest) :
    run <+: rest.takeWhile p := by
  obtain ⟨others, rfl⟩ := h
  rw [List.takeWhile_append_of_pos hrun]
  exact List.prefix_append _ _

/-- A run that a text begins with is the text's own run, if something else follows; if nothing
follows it is a part of that run. -/
theorem run_cases (hrun : ∀ c ∈ run, p c = true) (hbehind : ∀ c ∈ behind.head?, p c = false)
    (hlongest : ∀ c ∈ longest, p c = true) (hrest : ∀ c ∈ rest.head?, p c = false)
    (h : run ++ behind <+: longest ++ rest) :
    behind = [] ∧ run <+: longest ∨ run = longest ∧ behind <+: rest := by
  have htake := takeWhile_run hlongest hrest
  cases behind with
  | nil =>
    rw [List.append_nil] at h
    rw [← htake]
    exact .inl ⟨rfl, prefix_takeWhile hrun h⟩
  | cons c behind =>
    obtain ⟨others, hothers⟩ := h
    have hends : ∀ d ∈ (c :: behind ++ others).head?, p d = false := by simpa using hbehind
    have hdrop := dropWhile_run hlongest hrest
    rw [← hothers, List.append_assoc] at htake hdrop
    rw [takeWhile_run hrun hends] at htake
    rw [dropWhile_run hrun hends] at hdrop
    exact .inr ⟨htake, others, hdrop⟩

end

theorem isDigit_letter {letter : Char} (h : letter = 'e' ∨ letter = 'E') :
    isDigit letter = false := by
  rcases h with rfl | rfl <;> decide

/-- An exponent begins with no digit. -/
theorem IsScale.head {scale : List Char} (h : IsScale scale) :
    ∀ c ∈ scale.head?, isDigit c = false := by
  cases h with
  | none => exact nofun
  | some hletter _ _ _ => simpa using isDigit_letter hletter

/-- A sign, or none in front of something else. -/
def IsSignOf (sign behind : List Char) : Prop :=
  sign = [] ∧ (∀ c ∈ behind.head?, c ≠ '+' ∧ c ≠ '-') ∨ sign = ['+'] ∨ sign = ['-']

theorem exists_sign (text : List Char) :
    ∃ sign behind, text = sign ++ behind ∧ IsSignOf sign behind := by
  cases text with
  | nil => exact ⟨[], [], rfl, .inl ⟨rfl, nofun⟩⟩
  | cons c behind =>
    by_cases hplus : c = '+'
    · exact ⟨['+'], behind, by rw [hplus]; rfl, .inr (.inl rfl)⟩
    · by_cases hminus : c = '-'
      · exact ⟨['-'], behind, by rw [hminus]; rfl, .inr (.inr rfl)⟩
      · exact ⟨[], c :: behind, rfl, .inl ⟨rfl, by simp [hplus, hminus]⟩⟩

/-- The exponent behind a letter: the sign and all digits behind it, if there are any. -/
theorem exponentOf_letter {letter : Char} (hletter : letter = 'e' ∨ letter = 'E')
    {sign behind : List Char} (hsign : IsSignOf sign behind) :
    exponentOf (letter :: (sign ++ behind))
      = if behind.takeWhile isDigit = [] then []
        else letter :: (sign ++ behind.takeWhile isDigit) := by
  rcases hsign with ⟨rfl, hsign⟩ | rfl | rfl
  · cases behind with
    | nil => simp [exponentOf]
    | cons c behind =>
      have hsign := hsign c rfl
      simp [exponentOf, hletter, hsign]
  · simp [exponentOf, hletter]
  · simp [exponentOf, hletter]

/-- What is taken for the exponent is one. -/
theorem isScale_exponentOf (text : List Char) : IsScale (exponentOf text) := by
  cases text with
  | nil => exact .none
  | cons letter rest =>
    by_cases hletter : letter = 'e' ∨ letter = 'E'
    · obtain ⟨sign, behind, rfl, hsign⟩ := exists_sign rest
      rw [exponentOf_letter hletter hsign]
      split
      · exact .none
      · rename_i hsome
        exact .some hletter (hsign.imp_left And.left) forall_takeWhile hsome
    · have hnone : exponentOf (letter :: rest) = [] := by simp [exponentOf, hletter]
      rw [hnone]
      exact .none

/-- No exponent that the text begins with is longer. -/
theorem IsScale.prefix_exponentOf {scale text : List Char} (hscale : IsScale scale)
    (h : scale <+: text) : scale <+: exponentOf text := by
  cases hscale with
  | none => exact List.nil_prefix
  | @some letter sign digits hletter hsign hdigits hsome =>
    obtain ⟨rest, rfl⟩ := h
    have hhead : ∀ c ∈ (digits ++ rest).head?, c ≠ '+' ∧ c ≠ '-' := by
      obtain ⟨d, digits, rfl⟩ := List.exists_cons_of_ne_nil hsome
      have hd := hdigits d List.mem_cons_self
      simpa using ⟨ne_of_isDigit hd (by decide), ne_of_isDigit hd (by decide)⟩
    have hsign : IsSignOf sign (digits ++ rest) := hsign.imp_left fun h => ⟨h, hhead⟩
    have hrun : (digits ++ rest).takeWhile isDigit = digits ++ rest.takeWhile isDigit :=
      List.takeWhile_append_of_pos hdigits
    have hall : letter :: (sign ++ digits) ++ rest = letter :: (sign ++ (digits ++ rest)) := by simp
    rw [hall, exponentOf_letter hletter hsign, hrun, if_neg (by simp [hsome])]
    exact ⟨rest.takeWhile isDigit, by simp⟩

/-! ## §5 Numbers -/

/-- Where a number may begin: all digits, perhaps a point and all digits behind it, and what is
left. -/
inductive NumberFront : (text whole point fraction rest : List Char) → Prop
  | whole {whole rest : List Char} (hwhole : AreDigits whole)
      (hrest : ∀ c ∈ rest.head?, isDigit c = false ∧ c ≠ '.') :
      NumberFront (whole ++ rest) whole [] [] rest
  | pointed {whole fraction rest : List Char} (hwhole : AreDigits whole)
      (hfraction : AreDigits fraction) (hrest : ∀ c ∈ rest.head?, isDigit c = false) :
      NumberFront (whole ++ '.' :: (fraction ++ rest)) whole ['.'] fraction rest

theorem exists_run (p : Char → Bool) (text : List Char) :
    ∃ run rest, text = run ++ rest ∧ (∀ c ∈ run, p c = true) ∧ ∀ c ∈ rest.head?, p c = false :=
  ⟨_, _, (List.takeWhile_append_dropWhile (p := p)).symm, forall_takeWhile, head_dropWhile⟩

theorem exists_numberFront (text : List Char) :
    ∃ whole point fraction rest, NumberFront text whole point fraction rest := by
  obtain ⟨whole, tail, rfl, hwhole, htail⟩ := exists_run isDigit text
  by_cases hpoint : tail.head? = some '.'
  · obtain ⟨behind, rfl⟩ := List.head?_eq_some_iff.mp hpoint
    obtain ⟨fraction, rest, rfl, hfraction, hrest⟩ := exists_run isDigit behind
    exact ⟨_, _, _, _, .pointed hwhole hfraction hrest⟩
  · refine ⟨_, _, _, _, .whole hwhole fun c hc => ⟨htail c hc, ?_⟩⟩
    rintro rfl
    exact hpoint hc

namespace NumberFront

variable {text whole point fraction rest : List Char}

theorem eq (h : NumberFront text whole point fraction rest) :
    text = whole ++ (point ++ (fraction ++ rest)) := by
  cases h <;> simp

theorem areDigits (h : NumberFront text whole point fraction rest) : AreDigits whole := by
  cases h <;> assumption

/-- All the whole digits are taken. -/
theorem head_tail (h : NumberFront text whole point fraction rest) :
    ∀ c ∈ (point ++ (fraction ++ rest)).head?, isDigit c = false := by
  cases h with
  | whole _ hrest => exact fun c hc => (hrest c hc).1
  | pointed _ _ _ => simpa using (by decide : isDigit '.' = false)

/-- There is a number if there is a digit. -/
theorem numeral?_eq (h : NumberFront text whole point fraction rest) :
    numeral? text = if whole = [] ∧ fraction = [] then none
      else some (⟨whole, fraction, exponentOf rest⟩, rest.drop (exponentOf rest).length) := by
  have htake := takeWhile_run h.areDigits h.head_tail
  have hdrop := dropWhile_run h.areDigits h.head_tail
  rw [← h.eq] at htake hdrop
  simp only [numeral?, htake, hdrop]
  cases h with
  | whole _ hrest =>
    simp only [List.nil_append]
    split
    · exact absurd rfl (hrest '.' rfl).2
    · simp
  | pointed _ hfraction hrest =>
    simp [takeWhile_run hfraction hrest, dropWhile_run hfraction hrest]

/-- The exponent of a number stands in front of what is left, as it begins with a letter. -/
theorem scale_begins (h : NumberFront text whole point fraction rest) {scale : List Char}
    (hscale : IsScale scale) (hbegins : scale <+: point ++ (fraction ++ rest)) :
    scale <+: point ++ (fraction ++ exponentOf rest) := by
  cases hscale with
  | none => exact List.nil_prefix
  | @some letter sign digits hletter hsign hdigits hsome =>
    cases h with
    | whole _ _ => exact (IsScale.some hletter hsign hdigits hsome).prefix_exponentOf hbegins
    | pointed _ _ _ =>
      obtain ⟨rfl, -⟩ := List.cons_prefix_cons.mp hbegins
      simp at hletter

/-- What follows the point of a number is a part of the longest fraction and exponent. -/
theorem fraction_begins {fraction' scale : List Char} (hfraction' : AreDigits fraction')
    (hscale : IsScale scale) (hfraction : AreDigits fraction)
    (hrest : ∀ c ∈ rest.head?, isDigit c = false) (h : fraction' ++ scale <+: fraction ++ rest) :
    fraction' <+: fraction ∧ fraction' ++ scale <+: fraction ++ exponentOf rest := by
  rcases run_cases hfraction' hscale.head hfraction hrest h with ⟨rfl, hrun⟩ | ⟨rfl, hbehind⟩
  · rw [List.append_nil]
    exact ⟨hrun, hrun.trans (List.prefix_append _ _)⟩
  · exact ⟨List.prefix_rfl, (List.prefix_append_right_inj _).mpr (hscale.prefix_exponentOf hbehind)⟩

/-- Every number that the text begins with is a part of the longest one. -/
theorem token_begins (h : NumberFront text whole point fraction rest) {token : List Char}
    (htoken : IsNumberToken token) (hbegins : token <+: text) :
    (whole ≠ [] ∨ fraction ≠ []) ∧ token <+: whole ++ (point ++ (fraction ++ exponentOf rest)) := by
  obtain ⟨mantissa, scale, rfl, hmantissa, hscale⟩ := htoken
  rw [h.eq] at hbegins
  cases hmantissa with
  | whole hdigits hsome =>
    rcases run_cases hdigits hscale.head h.areDigits h.head_tail hbegins with
      ⟨rfl, hrun⟩ | ⟨rfl, hbehind⟩
    · refine ⟨.inl fun hnone => hsome ?_, ?_⟩
      · rwa [hnone, List.prefix_nil] at hrun
      · rw [List.append_nil]
        exact hrun.trans (List.prefix_append _ _)
    · exact ⟨.inl hsome, (List.prefix_append_right_inj _).mpr (h.scale_begins hscale hbehind)⟩
  | @pointed _ fraction' hwhole hfraction hsome =>
    have hpoint : ∀ c ∈ ('.' :: (fraction' ++ scale)).head?, isDigit c = false := by
      simpa using (by decide : isDigit '.' = false)
    rw [List.append_assoc, List.cons_append] at hbegins ⊢
    rcases run_cases hwhole hpoint h.areDigits h.head_tail hbegins with
      ⟨hnil, -⟩ | ⟨rfl, hbehind⟩
    · cases hnil
    cases h with
    | whole _ hrest =>
      obtain ⟨others, rfl⟩ := hbehind
      exact absurd rfl (hrest '.' rfl).2
    | pointed _ hdigits hrest =>
      obtain ⟨hsub, hlong⟩ :=
        fraction_begins hfraction hscale hdigits hrest (List.cons_prefix_cons.mp hbehind).2
      have hmore : fraction' ≠ [] → fraction ≠ [] := by
        rintro hne rfl
        exact hne (List.prefix_nil.mp hsub)
      exact ⟨hsome.imp_right hmore,
        (List.prefix_append_right_inj _).mpr (List.cons_prefix_cons.mpr ⟨rfl, hlong⟩)⟩

/-- The longest number that the text begins with, if there is a digit. -/
theorem isNumberToken (h : NumberFront text whole point fraction rest)
    (hsome : whole ≠ [] ∨ fraction ≠ []) :
    IsNumberToken (whole ++ (point ++ (fraction ++ exponentOf rest))) := by
  cases h with
  | whole hwhole _ =>
    exact ⟨whole, _, by simp, .whole hwhole (by simpa using hsome), isScale_exponentOf rest⟩
  | pointed hwhole hfraction _ =>
    exact ⟨_, _, by simp, .pointed hwhole hfraction hsome, isScale_exponentOf rest⟩

end NumberFront

/-- Neither the digits nor the point of a number is the letter of an exponent. -/
theorem ne_letter {c : Char} (h : isDigit c = true ∨ c = '.') : (c != 'e' && c != 'E') = true := by
  rcases h with h | rfl
  · simpa using ⟨ne_of_isDigit h (by decide), ne_of_isDigit h (by decide)⟩
  · decide

theorem IsScale.head_letter {scale : List Char} (h : IsScale scale) :
    ∀ c ∈ scale.head?, (c != 'e' && c != 'E') = false := by
  cases h with
  | none => exact nofun
  | some hletter _ _ _ => rcases hletter with rfl | rfl <;> simp

/-- The value of a number from its parts. -/
theorem decimalValue_parts {whole point fraction scale : List Char} (hwhole : AreDigits whole)
    (hfraction : AreDigits fraction) (hscale : IsScale scale)
    (hpoint : point = [] ∧ fraction = [] ∨ point = ['.']) :
    decimalValue (whole ++ (point ++ (fraction ++ scale)))
      = readDigits (whole ++ fraction) * 10 ^ (readScale scale.tail - fraction.length) := by
  have hmantissa : ∀ c ∈ whole ++ (point ++ fraction), (c != 'e' && c != 'E') = true := by
    intro c hc
    refine ne_letter ?_
    rcases hpoint with ⟨rfl, rfl⟩ | rfl
    · exact .inl (hwhole c (by simpa using hc))
    · rcases List.mem_append.mp hc with hc | hc
      · exact .inl (hwhole c hc)
      · rcases List.mem_cons.mp hc with rfl | hc
        · exact .inr rfl
        · exact .inl (hfraction c hc)
  have hsplit : whole ++ (point ++ (fraction ++ scale))
      = whole ++ (point ++ fraction) ++ scale := by simp
  have hdigits : ∀ c ∈ whole, (c != '.') = true := fun c hc => by
    simpa using ne_of_isDigit (hwhole c hc) (by decide)
  have hends : ∀ c ∈ (point ++ fraction).head?, (c != '.') = false := by
    rcases hpoint with ⟨rfl, rfl⟩ | rfl <;> simp
  have htail : (point ++ fraction).tail = fraction := by
    rcases hpoint with ⟨rfl, rfl⟩ | rfl <;> rfl
  simp only [decimalValue, hsplit, takeWhile_run hmantissa hscale.head_letter,
    dropWhile_run hmantissa hscale.head_letter, takeWhile_run hdigits hends,
    dropWhile_run hdigits hends, htail]

/-- A zero in front of the whole digits changes no value, and a zero behind the point is one more
place. -/
theorem readDigits_orZero (whole fraction : List Char) (scale : ℤ) :
    (readDigits (orZero whole ++ orZero fraction) : ℚ) * 10 ^ (scale - (orZero fraction).length)
      = readDigits (whole ++ fraction) * 10 ^ (scale - fraction.length) := by
  have hwhole (digits : List Char) :
      readDigits (orZero whole ++ digits) = readDigits (whole ++ digits) := by
    cases whole with
    | nil => exact readDigits_zero_cons digits
    | cons => rfl
  rw [hwhole]
  cases fraction with
  | nil =>
    have hplace : (10 : ℚ) ^ (scale - 1) * 10 = 10 ^ scale := by
      rw [← zpow_add_one₀ (by norm_num), sub_add_cancel]
    simp only [orZero, List.isEmpty_nil, if_true, List.length_singleton, List.length_nil,
      List.append_nil, Nat.cast_one, Nat.cast_zero, sub_zero, readDigits_append_zero, Nat.cast_mul,
      Nat.cast_ofNat, ← hplace]
    ring
  | cons => rfl

/-- The image of a number is a literal that denotes the same. -/
theorem NumberFront.image {text whole point fraction rest : List Char}
    (h : NumberFront text whole point fraction rest) (behind : List Char)
    (hsome : whole ≠ [] ∨ fraction ≠ []) :
    IsImage (whole ++ (point ++ (fraction ++ exponentOf rest))) behind
      (Numeral.script ⟨whole, fraction, exponentOf rest⟩) := by
  have hfraction : AreDigits fraction := by
    cases h with
    | whole _ _ => exact nofun
    | pointed _ hfraction _ => exact hfraction
  have hpoint : point = [] ∧ fraction = [] ∨ point = ['.'] := by
    cases h with
    | whole _ _ => exact .inl ⟨rfl, rfl⟩
    | pointed _ _ _ => exact .inr rfl
  have hscale := isScale_exponentOf rest
  have hwholes : AreDigits (orZero whole) := Script.forall_mem_orZero rfl h.areDigits
  have hplaces : AreDigits (orZero fraction) := Script.forall_mem_orZero rfl hfraction
  have hvalue := decimalValue_parts hwholes hplaces hscale (.inr rfl)
  refine .number (h.isNumberToken hsome) ⟨_, _, _, rfl, ⟨hwholes, Script.orZero_ne_nil whole⟩,
    ⟨hplaces, Script.orZero_ne_nil fraction⟩, hscale⟩ ?_
  rw [decimalValue_parts h.areDigits hfraction hscale hpoint, Numeral.script,
    ← readDigits_orZero whole fraction, ← hvalue]
  rfl

/-! ## §6 Texts -/

/-- A number begins with a digit or with the point. -/
theorem IsNumberToken.head {token text : List Char} {c : Char} (h : IsNumberToken token)
    (hbegins : token <+: c :: text) : isDigit c = true ∨ c = '.' := by
  obtain ⟨mantissa, scale, rfl, hmantissa, _⟩ := h
  have hbegins := (List.prefix_append mantissa scale).trans hbegins
  cases hmantissa with
  | whole hdigits hsome =>
    obtain ⟨d, digits, rfl⟩ := List.exists_cons_of_ne_nil hsome
    obtain ⟨rfl, -⟩ := List.cons_prefix_cons.mp hbegins
    exact .inl (hdigits d List.mem_cons_self)
  | @pointed whole fraction hwhole _ _ =>
    cases whole with
    | nil => exact .inr (List.cons_prefix_cons.mp hbegins).1.symm
    | cons d digits =>
      obtain ⟨rfl, -⟩ := List.cons_prefix_cons.mp hbegins
      exact .inl (hwhole d List.mem_cons_self)

theorem head_of_number {c : Char} (h : isDigit c = true ∨ c = '.') :
    isNameStart c = false ∧ c ≠ '^' := by
  rcases h with h | rfl
  · exact ⟨isNameStart_of_isDigit h, ne_of_isDigit h (by decide)⟩
  · decide

/-- The kind of a token shows in the first character of the text. -/
theorem IsToken.kind {token text : List Char} {c : Char} (h : IsToken token)
    (hbegins : token <+: c :: text) :
    isNameStart c = true ∧ IsNameToken token
      ∨ isNameStart c = false ∧ (IsNumberToken token ∧ c ≠ '^' ∨ c = '^' ∧ token = ['^']) := by
  cases h with
  | name h =>
    obtain ⟨first, others, rfl, hfirst, hothers⟩ := h
    obtain ⟨rfl, -⟩ := List.cons_prefix_cons.mp hbegins
    exact .inl ⟨hfirst, first, others, rfl, hfirst, hothers⟩
  | number h =>
    obtain ⟨hstart, hpower⟩ := head_of_number (h.head hbegins)
    exact .inr ⟨hstart, .inl ⟨h, hpower⟩⟩
  | power =>
    obtain ⟨rfl, -⟩ := List.cons_prefix_cons.mp hbegins
    exact .inr ⟨by decide, .inr ⟨rfl, rfl⟩⟩

section

variable {c : Char} {rest behind : List Char} {p : Piece}

theorem nextPiece_name (hc : isNameStart c = true) :
    nextPiece c rest = (.name (c :: rest.takeWhile isNamePart)
      (opensCall (rest.dropWhile isNamePart)), rest.dropWhile isNamePart) := by
  rw [nextPiece, if_pos hc]

/-- Where no name begins, the piece is a number if there is a digit. -/
theorem NumberFront.nextPiece_eq {whole point fraction tail : List Char}
    (h : NumberFront (c :: rest) whole point fraction tail) (hc : isNameStart c = false) :
    nextPiece c rest =
      if whole = [] ∧ fraction = [] then if c = '^' then (.power, rest) else (.other c, rest)
      else (.number ⟨whole, fraction, exponentOf tail⟩, tail.drop (exponentOf tail).length) := by
  simp only [nextPiece, hc, Bool.false_eq_true, if_false, h.numeral?_eq, beq_iff_eq]
  split_ifs <;> rfl

/-- What the first piece of a text is, by the characters it takes. -/
inductive FirstPiece : (c : Char) → (rest token : List Char) → (p : Piece) →
    (behind : List Char) → Prop
  | name {c : Char} {rest : List Char} (hstart : isNameStart c = true) :
      FirstPiece c rest (c :: rest.takeWhile isNamePart)
        (.name (c :: rest.takeWhile isNamePart) (opensCall (rest.dropWhile isNamePart)))
        (rest.dropWhile isNamePart)
  | number {c : Char} {rest whole point fraction tail : List Char}
      (hfront : NumberFront (c :: rest) whole point fraction tail)
      (hsome : whole ≠ [] ∨ fraction ≠ []) :
      FirstPiece c rest (whole ++ (point ++ (fraction ++ exponentOf tail)))
        (.number ⟨whole, fraction, exponentOf tail⟩) (tail.drop (exponentOf tail).length)
  | power {rest : List Char} : FirstPiece '^' rest ['^'] .power rest
  | other {c : Char} {rest point tail : List Char} (hstart : isNameStart c = false)
      (hpower : c ≠ '^') (hfront : NumberFront (c :: rest) [] point [] tail) :
      FirstPiece c rest [c] (.other c) rest

theorem exists_firstPiece (h : nextPiece c rest = (p, behind)) :
    ∃ token, c :: rest = token ++ behind ∧ FirstPiece c rest token p behind := by
  cases hstart : isNameStart c with
  | true =>
    rw [nextPiece_name hstart] at h
    cases h
    refine ⟨_, ?_, .name hstart⟩
    rw [List.cons_append, List.takeWhile_append_dropWhile]
  | false =>
    obtain ⟨whole, point, fraction, tail, hfront⟩ := exists_numberFront (c :: rest)
    rw [hfront.nextPiece_eq hstart] at h
    split_ifs at h with hdigits hpower
    · cases h
      rw [hpower]
      exact ⟨['^'], rfl, .power⟩
    · obtain ⟨rfl, rfl⟩ := hdigits
      cases h
      exact ⟨[c], rfl, .other hstart hpower hfront⟩
    · cases h
      have htail := List.prefix_iff_eq_append.mp (exponentOf_isPrefix tail)
      refine ⟨_, ?_, .number hfront (not_and_or.mp hdigits)⟩
      simp only [List.append_assoc, htail, hfront.eq]

/-- The longest name is all that a name can go on with. -/
theorem isLongestToken_name (hc : isNameStart c = true) :
    IsLongestToken (c :: rest.takeWhile isNamePart) (c :: rest) where
  isToken := .name ⟨c, _, rfl, hc, forall_takeWhile⟩
  front := List.cons_prefix_cons.mpr ⟨rfl, List.takeWhile_prefix _⟩
  longest other hother hbegins := by
    rcases hother.kind hbegins with ⟨_, first, others, rfl, _, hparts⟩ | ⟨hnot, _⟩
    · have hrun := prefix_takeWhile hparts (List.cons_prefix_cons.mp hbegins).2
      simpa using hrun.length_le
    · rw [hc] at hnot
      cases hnot

theorem isLongestToken_power : IsLongestToken ['^'] ('^' :: rest) where
  isToken := .power
  front := List.prefix_append _ _
  longest other hother hbegins := by
    rcases hother.kind hbegins with ⟨hname, _⟩ | ⟨_, ⟨_, hne⟩ | ⟨_, rfl⟩⟩
    · exact absurd hname (by decide)
    · exact absurd rfl hne
    · exact le_refl _

namespace NumberFront

variable {whole point fraction tail : List Char}

/-- The longest number is its longest digits, and the longest exponent behind them. -/
theorem isLongestToken (h : NumberFront (c :: rest) whole point fraction tail)
    (hsome : whole ≠ [] ∨ fraction ≠ []) :
    IsLongestToken (whole ++ (point ++ (fraction ++ exponentOf tail))) (c :: rest) := by
  have htoken := h.isNumberToken hsome
  have hfront : whole ++ (point ++ (fraction ++ exponentOf tail)) <+: c :: rest := by
    rw [h.eq]
    simpa only [List.prefix_append_right_inj] using exponentOf_isPrefix tail
  obtain ⟨hstart, hpower⟩ := head_of_number (htoken.head hfront)
  refine ⟨.number htoken, hfront, fun other hother hbegins => ?_⟩
  rcases hother.kind hbegins with ⟨hname, _⟩ | ⟨_, ⟨hother, _⟩ | ⟨hc, _⟩⟩
  · rw [hstart] at hname
    cases hname
  · exact (h.token_begins hother hbegins).2.length_le
  · exact absurd hc hpower

theorem not_isToken (h : NumberFront (c :: rest) [] point [] tail) (hstart : isNameStart c = false)
    (hpower : c ≠ '^') (token : List Char) (htoken : IsToken token) : ¬ token <+: c :: rest := by
  intro hbegins
  rcases htoken.kind hbegins with ⟨hname, _⟩ | ⟨_, ⟨htoken, _⟩ | ⟨hc, _⟩⟩
  · rw [hstart] at hname
    cases hname
  · exact (h.token_begins htoken hbegins).1.elim (absurd rfl) (absurd rfl)
  · exact hpower hc

end NumberFront

/-- A name is kept or marked. -/
theorem image_name {name : List Char} (h : IsNameToken name) (behind : List Char) :
    IsImage name behind (Piece.name name (opensCall behind)).script := by
  cases hcalled : opensCall behind with
  | true => exact .kept h (isCalled_iff.mp hcalled)
  | false =>
    refine .marked h fun hcall => ?_
    rw [isCalled_iff.mpr hcall] at hcalled
    cases hcalled

/-- A piece is the image of the longest token, or the character where no token begins. -/
theorem image_of_nextPiece (h : nextPiece c rest = (p, behind)) :
    (∃ token, c :: rest = token ++ behind ∧ IsLongestToken token (c :: rest)
        ∧ IsImage token behind p.script)
      ∨ behind = rest ∧ p.script = [c] ∧ ∀ token, IsToken token → ¬ token <+: c :: rest := by
  obtain ⟨token, hsplit, hfirst⟩ := exists_firstPiece h
  cases hfirst with
  | name hstart =>
    have hname : IsNameToken (c :: rest.takeWhile isNamePart) :=
      ⟨c, _, rfl, hstart, forall_takeWhile⟩
    exact .inl ⟨_, hsplit, isLongestToken_name hstart, image_name hname _⟩
  | number hfront hsome =>
    exact .inl ⟨_, hsplit, hfront.isLongestToken hsome, hfront.image _ hsome⟩
  | power => exact .inl ⟨_, hsplit, isLongestToken_power, .power⟩
  | other hstart hpower hfront => exact .inr ⟨rfl, rfl, hfront.not_isToken hstart hpower⟩

end

theorem transcribes_of_isCutInto {text : List Char} {ps : List Piece} (h : IsCutInto text ps) :
    Transcribes text (ps.flatMap Piece.script) := by
  induction h with
  | nil => exact .nil
  | @cons c rest behind p others hpiece _ ih =>
    rw [List.flatMap_cons]
    rcases image_of_nextPiece hpiece with ⟨token, hsplit, htoken, himage⟩ | ⟨rfl, hscript, hnone⟩
    · rw [hsplit] at htoken ⊢
      exact .token htoken himage ih
    · rw [hscript]
      exact .other hnone ih

/-- A token is of one kind. -/
theorem IsNameToken.not_number {token : List Char} (h : IsNameToken token) :
    ¬ IsNumberToken token := by
  obtain ⟨first, others, rfl, hfirst, _⟩ := h
  intro hnumber
  rw [(head_of_number (hnumber.head List.prefix_rfl)).1] at hfirst
  cases hfirst

/-- **An expression is transcribed token by token**: into the images of its longest tokens, from
left to right, and its other characters. The image of a number is a literal, with digits on both
sides of the point, and the image of a variable bears the name of the variable. -/
theorem toScript_transcribes (text : List Char) :
    Transcribes text (toScript text) ∧ ∀ token behind image, IsImage token behind image →
      (IsNumberToken token → IsLiteral image)
        ∧ (IsNameToken token → ¬ IsCalled behind → sheetName image = token) := by
  refine ⟨transcribes_of_isCutInto (isCutInto_pieces text), fun token behind image himage => ?_⟩
  cases himage with
  | kept hname hcalled =>
    exact ⟨fun hnumber => absurd hnumber hname.not_number, fun _ hnot => absurd hcalled hnot⟩
  | marked hname _ => exact ⟨fun hnumber => absurd hnumber hname.not_number, fun _ _ => rfl⟩
  | number hnumber hliteral _ =>
    exact ⟨fun _ => hliteral, fun hname => absurd hnumber hname.not_number⟩
  | power =>
    refine ⟨fun hnumber => ?_, fun ⟨first, others, hpower, hfirst, _⟩ => ?_⟩
    · exact absurd rfl (head_of_number (hnumber.head List.prefix_rfl)).2
    · obtain ⟨rfl, -⟩ := List.cons.inj hpower
      exact absurd hfirst (by decide)

/-- Digits of other scripts are read and kept, and have their value. -/
example : toScript "٣.e2^max (x1, .5)".toList = "٣.0e2**max (v_x1, 0.5)".toList
    ∧ numericValue '٣' = 3 := by
  decide

end Formula

end SumSheet
