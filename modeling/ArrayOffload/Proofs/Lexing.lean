import ArrayOffload.Proofs.Constants
import ArrayOffload.Source.Lexer

/-!
# Texts and the tokens they are read as

A text is put together from words, numbers, marks and blanks. What each of them is read as does not
depend on the rest, as long as no word or number runs on into what follows.

* `Source.Lexes`: what is found in a list of characters, wherever it stands;
* `Source.Reads`, `Source.ReadsApart`: what a text adds to the findings when it is put in front;
* `Source.reads_word`, `Source.reads_integer`, `Source.reads_scalar`: words and numbers.
-/

namespace ArrayOffload.Source

open Number (signOf)

/-- What a piece of a source is: a lexeme, or something wrong. -/
abbrev Finding := Except Problem Lexeme

def Finding.lexeme? : Finding → Option Lexeme
  | .ok lexeme => some lexeme
  | .error _ => none

def Finding.problem? : Finding → Option Problem
  | .ok _ => none
  | .error problem => some problem

/-- These characters are read as these findings, at every position. -/
def Lexes (cs : List Char) (found : List Finding) : Prop :=
  ∀ fuel position lineStart, cs.length < fuel →
    (tokensFrom fuel position lineStart cs).1.map (·.lexeme) =
        found.filterMap Finding.lexeme? ++ [.symbol .endOfFile] ∧
      (tokensFrom fuel position lineStart cs).2.map (·.problem) = found.filterMap Finding.problem?

namespace Lexes

theorem nil : Lexes [] [] := by
  intro fuel position lineStart hfuel
  obtain ⟨fuel, rfl⟩ := Nat.exists_eq_succ_of_ne_zero (Nat.ne_zero_of_lt hfuel)
  simp [tokensFrom, skipGap]

theorem gap {c : Char} {cs : List Char} {found : List Finding} (hc : isGap c = true)
    (h : Lexes cs found) : Lexes (c :: cs) found := by
  intro fuel position lineStart hfuel
  obtain ⟨fuel, rfl⟩ := Nat.exists_eq_succ_of_ne_zero (Nat.ne_zero_of_lt hfuel)
  have hskip : ∃ lineStart', skipGap false position lineStart (c :: cs) =
      skipGap false (position + 1) lineStart' cs := by
    by_cases hline : c = '\n'
    · exact ⟨true, by simp [skipGap, hline]⟩
    · exact ⟨lineStart, by simp [skipGap, hline, hc]⟩
  obtain ⟨lineStart', hskip⟩ := hskip
  have := h (fuel + 1) (position + 1) lineStart' (by simp at hfuel; omega)
  simpa only [tokensFrom, hskip] using this

/-- A piece in front of what is read already. -/
theorem piece {c : Char} {cs after : List Char} {finding : Finding} {found : List Finding}
    (hgap : isGap c = false) (hslash : c ≠ '/') (chars : List Char)
    (hpiece : nextPiece c cs = ⟨finding.lexeme?, finding.problem?, chars, after⟩)
    (hafter : after.length ≤ cs.length) (h : Lexes after found) :
    Lexes (c :: cs) (finding :: found) := by
  intro fuel position lineStart hfuel
  obtain ⟨fuel, rfl⟩ := Nat.exists_eq_succ_of_ne_zero (Nat.ne_zero_of_lt hfuel)
  have hline : c ≠ '\n' := by
    rintro rfl
    cases hgap
  have hskip : skipGap false position lineStart (c :: cs) = ⟨position, lineStart, c :: cs⟩ := by
    simp [skipGap, hline, hgap, hslash]
  obtain ⟨htokens, hproblems⟩ :=
    h fuel (position + byteSize chars) false (by simp at hfuel; omega)
  simp only [tokensFrom, hskip, hpiece]
  cases finding with
  | ok lexeme => simp [Finding.lexeme?, Finding.problem?, List.filterMap_cons, htokens, hproblems]
  | error problem => simp [Finding.lexeme?, Finding.problem?, List.filterMap_cons, htokens, hproblems]

end Lexes

/-! ## Texts in front of others -/

/-- Nothing that starts here carries on a word or a number. -/
def Stops (cs : List Char) : Prop := ∀ c ∈ cs.head?, isIdentRest c = false ∧ c ≠ '.'

/-- In front of what carries on no word, the text is read as these findings. -/
def Reads (text : String) (found : List Finding) : Prop :=
  ∀ cs later, Stops cs → Lexes cs later → Lexes (text.toList ++ cs) (found ++ later)

/-- The text is read as these findings, whatever follows it. -/
def ReadsApart (text : String) (found : List Finding) : Prop :=
  ∀ cs later, Lexes cs later → Lexes (text.toList ++ cs) (found ++ later)

/-- The text starts with a character that ends words and numbers. -/
def Separates (text : String) : Prop :=
  ∃ c, text.toList.head? = some c ∧ isIdentRest c = false ∧ c ≠ '.'

theorem Separates.stops {text : String} (h : Separates text) (cs : List Char) :
    Stops (text.toList ++ cs) := by
  obtain ⟨c, hc, hword, hpoint⟩ := h
  intro d hd
  rw [List.head?_append, hc] at hd
  cases hd
  exact ⟨hword, hpoint⟩

theorem Separates.append {a : String} (h : Separates a) (b : String) : Separates (a ++ b) := by
  obtain ⟨c, hc, hword⟩ := h
  exact ⟨c, by simp [hc], hword⟩

theorem ReadsApart.reads {text : String} {found : List Finding} (h : ReadsApart text found) :
    Reads text found :=
  fun cs later _ => h cs later

/-- The same for another spelling of the text. -/
theorem ReadsApart.spelled {a b : String} {x : List Finding} (h : ReadsApart a x) (hab : a = b) :
    ReadsApart b x :=
  hab ▸ h

theorem ReadsApart.append {a b : String} {x y : List Finding} (ha : ReadsApart a x)
    (hb : Reads b y) : Reads (a ++ b) (x ++ y) := by
  intro cs later hstops h
  rw [String.toList_append, List.append_assoc, List.append_assoc]
  exact ha _ _ (hb cs later hstops h)

theorem ReadsApart.append_apart {a b : String} {x y : List Finding} (ha : ReadsApart a x)
    (hb : ReadsApart b y) : ReadsApart (a ++ b) (x ++ y) := by
  intro cs later h
  rw [String.toList_append, List.append_assoc, List.append_assoc]
  exact ha _ _ (hb cs later h)

theorem Reads.append_apart {a b : String} {x y : List Finding} (ha : Reads a x)
    (hb : ReadsApart b y) (hsep : Separates b) : ReadsApart (a ++ b) (x ++ y) := by
  intro cs later h
  rw [String.toList_append, List.append_assoc, List.append_assoc]
  exact ha _ _ (hsep.stops cs) (hb cs later h)

theorem readsApart_empty : ReadsApart "" [] := fun _ _ h => h

/-! ## Blanks and marks -/

theorem readsApart_blank : ReadsApart " " [] := fun _ _ h => .gap (by decide) h

theorem readsApart_newline : ReadsApart "\n" [] := fun _ _ h => .gap (by decide) h

/-- A mark of one character. -/
theorem readsApart_mark {c : Char} {symbol : Symbol} (h : (c, symbol) ∈ Symbol.marks) :
    ReadsApart (String.ofList [c]) [.ok (.symbol symbol)] := by
  intro cs later hcs
  have hpiece : nextPiece c cs = ⟨some (.symbol symbol), none, [c], cs⟩ ∧ isGap c = false ∧
      c ≠ '/' := by
    simp only [Symbol.marks, List.mem_cons, Prod.mk.injEq, List.not_mem_nil, or_false] at h
    rcases h with ⟨rfl, rfl⟩ | ⟨rfl, rfl⟩ | ⟨rfl, rfl⟩ | ⟨rfl, rfl⟩ | ⟨rfl, rfl⟩ | ⟨rfl, rfl⟩ |
      ⟨rfl, rfl⟩ | ⟨rfl, rfl⟩ | ⟨rfl, rfl⟩ | ⟨rfl, rfl⟩ | ⟨rfl, rfl⟩ <;>
      exact ⟨rfl, by decide, by decide⟩
  rw [String.toList_ofList]
  exact hcs.piece hpiece.2.1 hpiece.2.2 [c] hpiece.1 le_rfl

theorem readsApart_arrow : ReadsApart "->" [.ok (.symbol .arrow)] := by
  intro cs later h
  exact h.piece (by decide) (by decide) ['-', '>'] rfl (by simp)

/-! ## Words -/

/-- The characters of a word. -/
def IsWord (text : String) : Prop :=
  ∃ c cs, text.toList = c :: cs ∧ isIdentStart c = true ∧ ∀ d ∈ cs, isIdentRest d = true

/-- What a word stands for. -/
def wordLexeme (text : String) : Lexeme :=
  ((Symbol.keyword? text).map Lexeme.symbol).getD (.ident text)

theorem isIdentRest_of_isIdentStart {c : Char} (h : isIdentStart c = true) :
    isIdentRest c = true := by
  simp only [isIdentStart, isIdentRest, Char.isAlphanum, Bool.or_eq_true] at h ⊢
  exact h.imp_left .inl

theorem isIdentRest_of_isDigit {c : Char} (h : c.isDigit = true) : isIdentRest c = true := by
  simp [isIdentRest, Char.isAlphanum, h]

/-- Blanks and slashes are in no word. -/
theorem not_gap_of_isIdentRest {c : Char} (h : isIdentRest c = true) :
    isGap c = false ∧ c ≠ '/' := by
  refine ⟨Bool.eq_false_iff.mpr fun hgap => ?_, ?_⟩
  · simp only [isGap, Bool.or_eq_true, decide_eq_true_eq] at hgap
    rcases hgap with (((rfl | rfl) | rfl) | rfl) | hfeed
    · cases h
    · cases h
    · cases h
    · cases h
    · obtain rfl : c = Char.ofNat 12 := by rw [← hfeed, Char.ofNat_toNat]
      cases h
  · rintro rfl
    cases h

theorem reads_word {text : String} (h : IsWord text) : Reads text [.ok (wordLexeme text)] := by
  obtain ⟨c, word, htext, hstart, hword⟩ := h
  intro cs later hstops hcs
  obtain ⟨htake, hdrop⟩ := Number.takeWhile_run cs hword fun d hd => (hstops d hd).1
  have hname : text = String.ofList (c :: word) := by rw [← htext, String.ofList_toList]
  obtain ⟨hgap, hslash⟩ := not_gap_of_isIdentRest (isIdentRest_of_isIdentStart hstart)
  rw [htext, List.cons_append, List.singleton_append]
  refine hcs.piece hgap hslash (c :: word) ?_ (by simp)
  simp [nextPiece, hstart, htake, hdrop, wordLexeme, hname, Finding.lexeme?, Finding.problem?]

/-! ## Numbers -/

theorem scanFraction_of_stops {cs : List Char} (h : Stops cs) : scanFraction cs = ([], cs) := by
  unfold scanFraction
  split
  · next rest => exact absurd rfl (h '.' rfl).2
  · rfl

theorem scanExponent_of_stops {cs : List Char} (h : Stops cs) : scanExponent cs = ([], cs) := by
  unfold scanExponent
  split
  · next e rest =>
    have hword := (h e rfl).1
    rw [if_neg]
    simp only [Bool.or_eq_true, decide_eq_true_eq, not_or]
    constructor
    · rintro rfl
      cases hword
    · rintro rfl
      cases hword
  · rfl

theorem not_isDigit_of_stops {cs : List Char} (h : Stops cs) :
    ∀ c ∈ cs.head?, c.isDigit = false := by
  intro c hc
  by_contra hdigit
  rw [Bool.not_eq_false] at hdigit
  exact absurd (isIdentRest_of_isDigit hdigit) (by simp [(h c hc).1])

/-- The scanner takes a sign and the digits after it, then looks for the other parts. -/
theorem scanNumber_append (negative : Bool) {whole tail : List Char} (hne : whole ≠ [])
    (hwhole : ∀ c ∈ whole, c.isDigit = true) (htail : ∀ c ∈ tail.head?, c.isDigit = false) :
    scanNumber (signOf negative ++ whole ++ tail) =
      ⟨signOf negative, whole, (scanFraction tail).1, (scanExponent (scanFraction tail).2).1,
        (scanExponent (scanFraction tail).2).2⟩ := by
  obtain ⟨htake, hdrop⟩ := Number.takeWhile_run tail hwhole htail
  cases negative with
  | true =>
    show scanNumber ('-' :: (whole ++ tail)) = _
    simp [scanNumber, signOf, spanDigits, htake, hdrop]
  | false =>
    obtain ⟨first, rest, rfl⟩ := List.exists_cons_of_ne_nil hne
    have hminus : first ≠ '-' := by
      rintro rfl
      exact absurd (hwhole '-' (by simp)) (by decide)
    rw [List.cons_append] at htake hdrop
    simp [scanNumber, signOf, spanDigits, htake, hdrop, hminus]

theorem startsNumber_append (negative : Bool) {whole tail : List Char} (hne : whole ≠ [])
    (hwhole : ∀ c ∈ whole, c.isDigit = true) :
    startsNumber (signOf negative ++ whole ++ tail) = true := by
  obtain ⟨first, rest, rfl⟩ := List.exists_cons_of_ne_nil hne
  have hfirst : first.isDigit = true := hwhole first (by simp)
  cases negative <;> simp [signOf, startsNumber, hfirst]

theorem not_isIdentStart_of_isDigit {c : Char} (h : c.isDigit = true) :
    isIdentStart c = false := by
  refine Bool.eq_false_iff.mpr fun hstart => ?_
  unfold isIdentStart Char.isAlpha Char.isUpper Char.isLower at hstart
  simp only [Char.isDigit, Bool.and_eq_true, Bool.or_eq_true, decide_eq_true_eq] at h hstart
  rcases hstart with (hupper | hlower) | rfl
  · exact absurd (UInt32.le_trans hupper.1 h.2) (by decide)
  · exact absurd (UInt32.le_trans hlower.1 h.2) (by decide)
  · exact absurd h.2 (by decide)

/-- A number with a lexeme, in front of what is read already. -/
theorem Lexes.number (negative : Bool) {whole tail after : List Char} {number : NumberText}
    {lexeme : Lexeme} {later : List Finding} (hne : whole ≠ [])
    (hwhole : ∀ c ∈ whole, c.isDigit = true)
    (hscan : scanNumber (signOf negative ++ whole ++ tail) = number)
    (hlexeme : number.lexeme? = some lexeme) (hafter : number.rest = after)
    (hlength : after.length ≤ tail.length) (h : Lexes after later) :
    Lexes (signOf negative ++ whole ++ tail) (.ok lexeme :: later) := by
  have hstarts : startsNumber (signOf negative ++ whole ++ tail) = true :=
    startsNumber_append negative hne hwhole
  obtain ⟨c, cs, hcs, hlong, hgap, hslash, hword⟩ : ∃ c cs,
      signOf negative ++ whole ++ tail = c :: cs ∧ tail.length ≤ cs.length ∧ isGap c = false ∧
        c ≠ '/' ∧ isIdentStart c = false := by
    obtain ⟨first, rest, rfl⟩ := List.exists_cons_of_ne_nil hne
    have hfirst := hwhole first (by simp)
    have hgap := not_gap_of_isIdentRest (isIdentRest_of_isDigit hfirst)
    cases negative with
    | true => exact ⟨'-', first :: (rest ++ tail), rfl, by simp; omega, by decide⟩
    | false =>
      exact ⟨first, rest ++ tail, rfl, by simp, hgap.1, hgap.2, not_isIdentStart_of_isDigit hfirst⟩
  rw [hcs] at hscan hstarts ⊢
  refine h.piece hgap hslash number.chars ?_ (hlength.trans hlong)
  simp [nextPiece, hword, hstarts, hscan, hlexeme, hafter, Finding.lexeme?, Finding.problem?]

theorem readBounded?_toDigits {n limit : Nat} (h : n ≤ limit) :
    Number.readBounded? limit (Nat.toDigits 10 n) = some n := by
  have hdigits : ∀ c ∈ Nat.toDigits 10 n, c.isDigit = true := fun c hc =>
    Nat.isDigit_of_mem_toDigits (by decide) le_rfl hc
  have hread : Number.readNat? (Nat.toDigits 10 n) = some n := by
    simp [Number.readNat?, Nat.toDigits_ne_nil, List.all_eq_true.mpr hdigits]
  unfold Number.readBounded?
  split
  · next rest heq => exact absurd (hdigits '+' (by simp [heq])) (by decide)
  · simp [hread, h]

/-- A number of digits only is read as the integer. -/
theorem reads_integer {n : Nat} (h : n ≤ integerLimit) :
    Reads (toString n) [.ok (.integer n)] := by
  intro cs later hstops hcs
  have hdigits : ∀ c ∈ Nat.toDigits 10 n, c.isDigit = true := fun c hc =>
    Nat.isDigit_of_mem_toDigits (by decide) le_rfl hc
  have hscan := scanNumber_append false Nat.toDigits_ne_nil hdigits (not_isDigit_of_stops hstops)
  rw [scanFraction_of_stops hstops, scanExponent_of_stops hstops] at hscan
  rw [Nat.toString_eq_ofList_toDigits, String.toList_ofList]
  refine Lexes.number false Nat.toDigits_ne_nil hdigits hscan ?_ rfl le_rfl hcs
  simp [NumberText.lexeme?, signOf, readBounded?_toDigits h]

/-- A finite constant is read as itself. -/
theorem reads_finite {s : Scalar} (h : s.isFinite = true) : Reads s.text [.ok (.number s)] := by
  obtain ⟨text, whole, fraction, hpointed, htext, hread⟩ := Scalar.read?_text h
  intro cs later hstops hcs
  have hwhole : ∀ c ∈ whole, c.isDigit = true := fun c hc => hpointed.digits c (by simp [hc])
  have hfraction : ∀ c ∈ fraction, c.isDigit = true := fun c hc =>
    hpointed.digits c (by simp [hc])
  obtain ⟨htake, hdrop⟩ := Number.takeWhile_run cs hfraction (not_isDigit_of_stops hstops)
  have hscan : scanNumber (signOf s.isNegative ++ whole ++ '.' :: (fraction ++ cs)) =
      ⟨signOf s.isNegative, whole, '.' :: fraction, [], cs⟩ := by
    rw [scanNumber_append s.isNegative hpointed.whole_ne hwhole (by rintro c ⟨⟩; decide)]
    simp [scanFraction, spanDigits, htake, hdrop, scanExponent_of_stops hstops]
  have hchars : s.text.toList = signOf s.isNegative ++ whole ++ '.' :: fraction := by
    rw [htext, hpointed.text_eq, ← List.append_assoc]
  have hlexes : Lexes (signOf s.isNegative ++ whole ++ '.' :: (fraction ++ cs))
      (.ok (.number s) :: later) := by
    refine .number s.isNegative hpointed.whole_ne hwhole hscan ?_ rfl (by simp; omega) hcs
    simp [NumberText.lexeme?, NumberText.chars, ← hchars, hread]
  rw [hchars]
  simpa using hlexes

/-- What the text of a constant is read as. Infinities and NaNs are words, and words have no
sign. -/
def scalarFindings (s : Scalar) : List Finding :=
  if s.isFinite then [.ok (.number s)]
  else if Number.binary64.infinity < s.magnitude then [.ok (.ident "NaN")]
  else if s.isNegative then [.error (.infixOperator '-' .sub), .ok (.ident "inf")]
  else [.ok (.ident "inf")]

theorem isWord_of_all {text : String} (h : text.toList.head?.any isIdentStart = true)
    (hall : text.toList.all isIdentRest = true) : IsWord text := by
  cases htext : text.toList with
  | nil => simp [htext] at h
  | cons c cs =>
    simp only [htext, List.head?_cons, Option.any_some, List.all_cons, Bool.and_eq_true,
      List.all_eq_true] at h hall
    exact ⟨c, cs, htext, h, hall.2⟩

theorem reads_scalar (s : Scalar) : Reads s.text (scalarFindings s) := by
  unfold scalarFindings
  split
  · next h => exact reads_finite h
  next hfinite =>
  have hlarge : ¬ s.magnitude < Number.binary64.infinity := fun h =>
    hfinite (decide_eq_true h)
  have htext : s.text = Number.signedText Number.binary64 s.isNegative s.magnitude
      (if s.magnitude = 0 then "0"
        else Number.positional (Number.shortest Number.binary64 s.magnitude)) := by
    simp [Scalar.text, Number.constantText, Number.Format.isIntegral, hlarge, Number.codeText]
  have hinf : Reads "inf" [.ok (.ident "inf")] := reads_word (isWord_of_all rfl rfl)
  have hminus : Reads ("-" ++ "inf") [.error (.infixOperator '-' .sub), .ok (.ident "inf")] :=
    fun cs later hstops h =>
      (hinf cs later hstops h).piece (by decide) (by decide) ['-'] rfl le_rfl
  rw [htext, Number.signedText, if_neg hlarge]
  split
  · exact reads_word (isWord_of_all rfl rfl)
  · split
    · exact hminus
    · exact hinf

end ArrayOffload.Source
