import ArrayOffload.Proofs.Faithful

/-!
# Gaps and pieces

Reading a source goes from gap to piece and from piece to gap. A gap is made of blanks and comments. A
piece is a word, a number, a mark, or something that is reported. Whether a token is the first of its
line depends on what stands on the line before it, blanks and comments apart.

* `Source.Gap`, `Source.skipGap_gap`: the gap at the front of a text;
* `Source.front`, `Source.Vacant`: what stands on the last line of a text;
* `Source.Gap.between`, `Source.Between.piece`: what gaps and pieces do to it;
* `Source.nextPiece_sound`: the piece at the front of a text, and what is written there.
-/

namespace ArrayOffload.Source

/-! ## Gaps -/

/-- Blanks and comments in front of `rest`. A comment goes on to the end of its line. -/
inductive Gap (rest : List Char) : List Char → Prop
  | nil : Gap rest []
  | blank {c : Char} {cs : List Char} : isGap c = true → Gap rest cs → Gap rest (c :: cs)
  | comment {body cs : List Char} :
      '\n' ∉ body → Gap rest cs → Gap rest ('/' :: '/' :: (body ++ '\n' :: cs))
  | last {body : List Char} : '\n' ∉ body → rest = [] → Gap rest ('/' :: '/' :: body)

/-- Neither a blank nor a comment starts here. -/
def StartsPiece (rest : List Char) : Prop :=
  ∀ c tail, rest = c :: tail → isGap c = false ∧ ¬(c = '/' ∧ tail.head? = some '/')

theorem utf8Size_of_isGap {c : Char} (h : isGap c = true) : c.utf8Size = 1 := by
  simp only [isGap, Bool.or_eq_true, decide_eq_true_eq] at h
  rcases h with (((rfl | rfl) | rfl) | rfl) | hfeed
  · rfl
  · rfl
  · rfl
  · rfl
  · obtain rfl : c = Char.ofNat 12 := by rw [← hfeed, Char.ofNat_toNat]
    rfl

@[simp]
theorem byteSize_nil : byteSize [] = 0 := rfl

@[simp]
theorem byteSize_cons (c : Char) (cs : List Char) : byteSize (c :: cs) = c.utf8Size + byteSize cs :=
  rfl

@[simp]
theorem byteSize_append (cs ds : List Char) : byteSize (cs ++ ds) = byteSize cs + byteSize ds := by
  induction cs with
  | nil => simp
  | cons c cs ih => simp [ih, Nat.add_assoc]

/-- Inside a comment, everything up to the end of the line is passed over. -/
theorem skipGap_comment (position : Nat) (lineStart : Bool) {body : List Char} (h : '\n' ∉ body)
    (cs : List Char) :
    skipGap true position lineStart (body ++ cs) =
      skipGap true (position + byteSize body) lineStart cs := by
  induction body generalizing position with
  | nil => simp
  | cons c body ih =>
    obtain ⟨hc, hbody⟩ := not_or.mp (List.mem_cons.not.mp h)
    rw [List.cons_append, skipGap, if_neg (Ne.symm hc), if_pos rfl, ih _ hbody, byteSize_cons,
      Nat.add_assoc]

/-- A text is cut before its first line break. -/
theorem exists_line (cs : List Char) :
    ∃ body later, cs = body ++ later ∧ '\n' ∉ body ∧ (later = [] ∨ ∃ next, later = '\n' :: next) := by
  refine ⟨cs.takeWhile (· ≠ '\n'), cs.dropWhile (· ≠ '\n'), List.takeWhile_append_dropWhile.symm,
    fun h => ?_, ?_⟩
  · simpa using List.all_eq_true.mp List.all_takeWhile _ h
  · cases hlater : cs.dropWhile (· ≠ '\n') with
    | nil => exact .inl rfl
    | cons c next =>
      have hc := List.head?_dropWhile_not (fun c : Char => decide (c ≠ '\n')) cs
      rw [hlater] at hc
      exact .inr ⟨next, by simpa using hc⟩

/-- The gap at the front of a text. A line break in it makes the next token the first of a line. -/
theorem skipGap_gap (position : Nat) (lineStart : Bool) (cs : List Char) :
    ∃ gap rest, cs = gap ++ rest ∧ Gap rest gap ∧ StartsPiece rest ∧
      skipGap false position lineStart cs =
        ⟨position + byteSize gap, lineStart || decide ('\n' ∈ gap), rest⟩ := by
  induction hn : cs.length using Nat.strong_induction_on generalizing position lineStart cs with
  | _ n ih =>
  subst hn
  cases cs with
  | nil => exact ⟨[], [], rfl, .nil, nofun, by simp [skipGap]⟩
  | cons c cs =>
    by_cases hgap : isGap c = true
    · have hskip : skipGap false position lineStart (c :: cs) =
          skipGap false (position + 1) (lineStart || decide (c = '\n')) cs := by
        by_cases hline : c = '\n' <;> simp [skipGap, hline, hgap]
      obtain ⟨gap, rest, rfl, hcs, hrest, heq⟩ := ih cs.length (by simp) (position + 1)
        (lineStart || decide (c = '\n')) cs rfl
      refine ⟨c :: gap, rest, rfl, .blank hgap hcs, hrest, ?_⟩
      rw [hskip, heq, byteSize_cons, utf8Size_of_isGap hgap, Nat.add_assoc, Bool.or_assoc]
      simp [eq_comm]
    have hline : c ≠ '\n' := by
      rintro rfl
      exact hgap rfl
    by_cases hslash : c = '/' ∧ cs.head? = some '/'
    · -- a comment: its body, and what stands after the line break, if there is one
      obtain ⟨rfl, hhead⟩ := hslash
      obtain ⟨cs, rfl⟩ := List.head?_eq_some_iff.mp hhead
      obtain ⟨body, later, rfl, hbody, hlater⟩ := exists_line cs
      have hsize : ('/' : Char).utf8Size = 1 := rfl
      have hskip : skipGap false position lineStart ('/' :: '/' :: (body ++ later)) =
          skipGap true (position + 2 + byteSize body) lineStart later := by
        rw [← skipGap_comment _ _ hbody]
        simp [skipGap, isGap, hsize]
      rcases hlater with rfl | ⟨next, rfl⟩
      · refine ⟨'/' :: '/' :: body, [], by simp, .last hbody rfl, nofun, ?_⟩
        rw [hskip]
        simp [skipGap, hsize, hbody]
        omega
      · obtain ⟨gap, rest, rfl, hcs, hrest, heq⟩ := ih next.length (by simp; omega)
          (position + 2 + byteSize body + 1) true next rfl
        refine ⟨'/' :: '/' :: (body ++ '\n' :: gap), rest, by simp, .comment hbody hcs, hrest, ?_⟩
        rw [hskip, skipGap, if_pos rfl, heq]
        have hbreak : ('\n' : Char).utf8Size = 1 := rfl
        simp [hsize, hbreak]
        omega
    · refine ⟨[], c :: cs, rfl, .nil, ?_, ?_⟩
      · rintro _ _ ⟨⟩
        exact ⟨by simpa using hgap, hslash⟩
      · have hnone : (decide (c = '/') && decide (cs.head? = some '/')) = false := by
          simpa using hslash
        simp [skipGap, hline, hgap, hnone]

/-! ## The front of a line -/

/-- What a character adds to the front of its line: blanks before it do not count. -/
def frontStep (line : List Char) (c : Char) : List Char :=
  if c = '\n' then [] else if line.isEmpty && isGap c then [] else line ++ [c]

/-- The last line of a text, from the first character on that is no blank. -/
def front (cs : List Char) : List Char := cs.foldl frontStep []

/-- Nothing but blanks and a comment stands on the last line. -/
def Vacant (cs : List Char) : Prop := front cs = [] ∨ ['/', '/'] <+: front cs

theorem front_append (cs ds : List Char) : front (cs ++ ds) = ds.foldl frontStep (front cs) :=
  List.foldl_append

theorem front_newline (cs : List Char) : front (cs ++ ['\n']) = [] := by
  rw [front_append]
  rfl

theorem foldl_frontStep {line cs : List Char} (hline : '\n' ∉ cs)
    (hstart : line ≠ [] ∨ ∀ c ∈ cs.head?, isGap c = false) :
    cs.foldl frontStep line = line ++ cs := by
  induction cs generalizing line with
  | nil => simp
  | cons c cs ih =>
    obtain ⟨hc, hcs⟩ := not_or.mp (List.mem_cons.not.mp hline)
    have hstep : frontStep line c = line ++ [c] := by
      rw [frontStep, if_neg (Ne.symm hc), if_neg]
      rcases hstart with hne | hgap
      · simp [hne]
      · simp [hgap c rfl]
    rw [List.foldl_cons, hstep, ih hcs (.inl (by simp)), List.append_assoc, List.singleton_append]

/-- Between two pieces, outside of comments. The flag says that the line has no piece so far. -/
structure Between (before rest : List Char) (lineStart : Bool) : Prop where
  outside : ¬['/', '/'] <+: front before
  /-- Two slashes in a row are no two pieces. -/
  apart : front before = ['/'] → rest.head? ≠ some '/'
  lineStart : lineStart = true ↔ front before = []

theorem Between.of_front {before rest : List Char} (h : front before = []) :
    Between before rest true :=
  ⟨by simp [h], by simp [h], by simp [h]⟩

theorem Between.blank {before rest : List Char} {lineStart : Bool} {c : Char}
    (h : Between before (c :: rest) lineStart) (hgap : isGap c = true) :
    Between (before ++ [c]) rest (lineStart || decide (c = '\n')) := by
  by_cases hline : c = '\n'
  · subst hline
    simpa using Between.of_front (front_newline before)
  have hslash : c ≠ '/' := by
    rintro rfl
    cases hgap
  have hfront : front (before ++ [c]) = frontStep (front before) c := front_append before [c]
  rw [decide_eq_false hline, Bool.or_false]
  cases hbefore : front before with
  | nil =>
    have hnil : front (before ++ [c]) = [] := by simp [hfront, hbefore, frontStep, hgap]
    exact ⟨by simp [hnil], by simp [hnil], by simp [hnil, h.lineStart, hbefore]⟩
  | cons d line =>
    have hcons : front (before ++ [c]) = d :: (line ++ [c]) := by
      simp [hfront, hbefore, frontStep, hline]
    have houtside := h.outside
    rw [hbefore] at houtside
    refine ⟨?_, by simp [hcons], by simp [hcons, h.lineStart, hbefore]⟩
    rw [hcons]
    rintro hfront
    cases line with
    | nil => simp [Ne.symm hslash] at hfront
    | cons e line => exact houtside (by simpa [List.cons_prefix_cons] using hfront)

/-- On a line with a piece, what follows that piece is no comment of the line alone. -/
theorem Between.not_prefix {before rest cs : List Char} {lineStart : Bool}
    (h : Between before (cs ++ rest) lineStart) (hfront : front before ≠ []) (hcs : cs ≠ []) :
    ¬['/', '/'] <+: front before ++ cs := by
  have houtside := h.outside
  have hapart := h.apart
  match hbefore : front before, hfront with
  | [d], _ =>
    obtain ⟨c, cs, rfl⟩ := List.exists_cons_of_ne_nil hcs
    rw [hbefore] at hapart
    simp only [List.cons_append, List.nil_append, List.cons_prefix_cons, List.nil_prefix, and_true]
    rintro ⟨rfl, rfl⟩
    exact hapart rfl rfl
  | d :: e :: line, _ =>
    rw [hbefore] at houtside
    simpa [List.cons_prefix_cons] using houtside

/-- A comment neither takes a line's vacancy away nor brings it about. -/
theorem Between.vacant_comment {before rest body : List Char} {lineStart : Bool}
    (h : Between before ('/' :: '/' :: (body ++ rest)) lineStart) (hbody : '\n' ∉ body) :
    lineStart = true ↔ Vacant (before ++ '/' :: '/' :: body) := by
  have hfront : front (before ++ '/' :: '/' :: body) = front before ++ '/' :: '/' :: body := by
    rw [front_append]
    exact foldl_frontStep (by simpa using hbody) (.inr (by rintro c ⟨⟩; rfl))
  rw [h.lineStart, Vacant, hfront]
  constructor
  · intro hnil
    exact .inr (by simp [hnil])
  · rintro (hnil | hfront)
    · simp at hnil
    · by_contra hne
      exact Between.not_prefix (by simpa using h) hne (List.cons_ne_nil _ _) hfront

theorem Between.vacant {before rest : List Char} {lineStart : Bool}
    (h : Between before rest lineStart) : lineStart = true ↔ Vacant before :=
  h.lineStart.trans ⟨.inl, fun hvacant => hvacant.resolve_right h.outside⟩

/-- Across a gap. If there is no piece after it, it may end inside a comment. -/
theorem Gap.between {rest gap : List Char} (hgap : Gap rest gap) {before : List Char}
    {lineStart : Bool} (h : Between before (gap ++ rest) lineStart) :
    ((lineStart || decide ('\n' ∈ gap)) = true ↔ Vacant (before ++ gap)) ∧
      (rest ≠ [] → Between (before ++ gap) rest (lineStart || decide ('\n' ∈ gap))) := by
  induction hgap generalizing before lineStart with
  | nil =>
    simp only [List.not_mem_nil, decide_false, Bool.or_false, List.append_nil]
    exact ⟨h.vacant, fun _ => h⟩
  | @blank c cs hc _ ih =>
    have hmem : decide ('\n' ∈ c :: cs) = (decide (c = '\n') || decide ('\n' ∈ cs)) := by
      simp [eq_comm]
    have hcs : before ++ c :: cs = before ++ [c] ++ cs := by simp
    rw [hmem, hcs, ← Bool.or_assoc]
    exact ih (h.blank hc)
  | @comment body cs hbody _ ih =>
    have hfront : front (before ++ '/' :: '/' :: (body ++ ['\n'])) = [] := by
      simpa using front_newline (before ++ '/' :: '/' :: body)
    have hbetween : Between (before ++ '/' :: '/' :: (body ++ ['\n'])) (cs ++ rest) true :=
      .of_front hfront
    simpa using ih hbetween
  | @last body hbody hrest =>
    subst hrest
    refine ⟨?_, fun hne => absurd rfl hne⟩
    simpa [hbody] using h.vacant_comment hbody

/-- Across a piece. -/
theorem Between.piece {before rest chars : List Char} {lineStart : Bool}
    (h : Between before (chars ++ rest) lineStart) (hstarts : StartsPiece (chars ++ rest))
    (hchars : chars ≠ []) (hline : '\n' ∉ chars) : Between (before ++ chars) rest false := by
  obtain ⟨c, tail, rfl⟩ := List.exists_cons_of_ne_nil hchars
  obtain ⟨hgap, hslash⟩ := hstarts c (tail ++ rest) rfl
  have hfront : front (before ++ c :: tail) = front before ++ c :: tail := by
    rw [front_append]
    exact foldl_frontStep hline (.inr (by rintro d ⟨⟩; exact hgap))
  refine ⟨?_, ?_, by simp [hfront]⟩
  · rw [hfront]
    by_cases hbefore : front before = []
    · rw [hbefore, List.nil_append]
      intro hslashes
      cases tail with
      | nil => simp at hslashes
      | cons d tail =>
        simp only [List.cons_prefix_cons, List.nil_prefix, and_true] at hslashes
        exact hslash ⟨hslashes.1.symm, by simp [← hslashes.2]⟩
    · exact h.not_prefix hbefore (by simp)
  · rw [hfront]
    intro hsingle hhead
    obtain ⟨-, hcs⟩ := List.append_eq_singleton_iff.mp hsingle |>.resolve_right (by simp)
    cases hcs
    exact hslash ⟨rfl, hhead⟩

/-! ## Pieces -/

/-- The characters that numbers are made of. -/
def isNumeric (c : Char) : Bool :=
  c.isDigit || c = '-' || c = '+' || c = '.' || c = 'e' || c = 'E'

theorem isNumeric_of_mem_digits {cs : List Char} {c : Char} (h : c ∈ (spanDigits cs).1) :
    isNumeric c = true := by
  have hdigit : c.isDigit = true := List.all_eq_true.mp List.all_takeWhile c h
  simp [isNumeric, hdigit]

theorem spanDigits_split (cs : List Char) : (spanDigits cs).1 ++ (spanDigits cs).2 = cs :=
  List.takeWhile_append_dropWhile

theorem scanFraction_split (cs : List Char) :
    (scanFraction cs).1 ++ (scanFraction cs).2 = cs ∧
      ∀ c ∈ (scanFraction cs).1, isNumeric c = true := by
  unfold scanFraction
  split
  · next rest =>
    refine ⟨congrArg (List.cons '.') (spanDigits_split rest), List.forall_mem_cons.mpr ⟨rfl, ?_⟩⟩
    exact fun c => isNumeric_of_mem_digits
  · exact ⟨rfl, nofun⟩

theorem scanExponent_split (cs : List Char) :
    (scanExponent cs).1 ++ (scanExponent cs).2 = cs ∧
      ∀ c ∈ (scanExponent cs).1, isNumeric c = true := by
  unfold scanExponent
  split
  · next e rest =>
    split
    · next he =>
      extract_lets sign digits
      have hsign : sign ++ rest.drop sign.length = rest ∧ ∀ c ∈ sign, isNumeric c = true := by
        unfold sign
        split
        · next s tail =>
          split
          · next hs =>
            refine ⟨rfl, fun c hc => ?_⟩
            rw [List.mem_singleton.mp hc]
            simp only [Bool.or_eq_true, decide_eq_true_eq] at hs
            rcases hs with rfl | rfl <;> rfl
          · exact ⟨rfl, nofun⟩
        · exact ⟨rfl, nofun⟩
      split
      · exact ⟨rfl, nofun⟩
      · constructor
        · have hdigits : digits.1 ++ digits.2 = rest.drop sign.length := spanDigits_split _
          simp only [List.cons_append, List.append_assoc, hdigits, hsign.1]
        · refine List.forall_mem_append.mpr ⟨List.forall_mem_cons.mpr ⟨?_, hsign.2⟩, ?_⟩
          · simp only [Bool.or_eq_true, decide_eq_true_eq] at he
            rcases he with rfl | rfl <;> rfl
          · exact fun c => isNumeric_of_mem_digits
    · exact ⟨rfl, nofun⟩
  · exact ⟨rfl, nofun⟩

/-- The scanner cuts a number off and loses nothing. -/
theorem scanNumber_split (cs : List Char) :
    (scanNumber cs).chars ++ (scanNumber cs).rest = cs ∧
      ∀ c ∈ (scanNumber cs).chars, isNumeric c = true := by
  unfold scanNumber NumberText.chars
  extract_lets signed whole fraction exponent
  have hsigned : signed.1 ++ signed.2 = cs ∧ ∀ c ∈ signed.1, isNumeric c = true := by
    unfold signed
    split
    · exact ⟨rfl, by simp [isNumeric]⟩
    · exact ⟨rfl, nofun⟩
  have hwhole : whole.1 ++ whole.2 = signed.2 := spanDigits_split _
  obtain ⟨hfraction, hpoint⟩ := scanFraction_split whole.2
  obtain ⟨hexponent, hscale⟩ := scanExponent_split fraction.2
  constructor
  · calc signed.1 ++ whole.1 ++ fraction.1 ++ exponent.1 ++ exponent.2
        = signed.1 ++ (whole.1 ++ (fraction.1 ++ (exponent.1 ++ exponent.2))) := by simp
      _ = cs := by rw [hexponent, hfraction, hwhole, hsigned.1]
  · simp only [List.forall_mem_append]
    exact ⟨⟨⟨hsigned.2, fun c => isNumeric_of_mem_digits⟩, hpoint⟩, hscale⟩

theorem scanNumber_chars_ne_nil {cs : List Char} (h : startsNumber cs = true) :
    (scanNumber cs).chars ≠ [] := by
  cases cs with
  | nil => cases h
  | cons c rest =>
    by_cases hminus : c = '-'
    · subst hminus
      simp [scanNumber, NumberText.chars]
    · by_cases hdigit : c.isDigit = true
      · simp [scanNumber, NumberText.chars, spanDigits, hminus, hdigit]
      · obtain rfl : c = '.' := by
          simp only [startsNumber, hdigit, hminus, Bool.false_or, Bool.and_eq_true,
            decide_eq_true_eq, decide_false, Bool.false_and] at h
          exact h.1
        simp [scanNumber, NumberText.chars, spanDigits, scanFraction]

/-- The text of a name or a keyword. -/
def Lexeme.word? : Lexeme → Option String
  | .ident name => some name
  | .symbol s => if s ∈ Symbol.keywords then some s.text else none
  | _ => none

/-- What is written is what the lexeme stands for, in front of `rest`. -/
structure Lexeme.Fits (lexeme : Lexeme) (chars rest : List Char) : Prop where
  word : ∀ text, lexeme.word? = some text →
    text.toList = chars ∧ ∀ c ∈ rest.head?, isIdentRest c = false
  integer : ∀ n, lexeme = .integer n →
    (∀ c ∈ chars, c.isDigit = true) ∧ Nat.ofDigitChars 10 chars 0 = n ∧ n ≤ integerLimit

theorem word?_wordLexeme {name text : String} (h : (wordLexeme name).word? = some text) :
    text = name := by
  unfold wordLexeme at h
  cases hkeyword : Symbol.keyword? name with
  | none =>
    rw [hkeyword] at h
    exact (Option.some.inj h).symm
  | some symbol =>
    rw [hkeyword] at h
    have hmem : symbol ∈ Symbol.keywords := List.mem_of_find?_eq_some hkeyword
    have htext : symbol.text = name := by simpa using List.find?_some hkeyword
    simp only [Option.map_some, Option.getD_some, Lexeme.word?, if_pos hmem] at h
    exact (Option.some.inj h).symm.trans htext

theorem wordLexeme_ne_integer (name : String) (n : Nat) : wordLexeme name ≠ .integer n := by
  unfold wordLexeme
  cases Symbol.keyword? name <;> simp

/-- Any other number is neither a word nor an integer. -/
theorem Lexeme.Fits.number (value : Scalar) (chars rest : List Char) :
    (Lexeme.number value).Fits chars rest :=
  ⟨by simp [Lexeme.word?], by simp⟩

/-- A number is read as an integer if it is made of digits only. -/
theorem NumberText.lexeme?_fits {number : NumberText} {lexeme : Lexeme}
    (h : number.lexeme? = some lexeme) (hwhole : ∀ c ∈ number.whole, c.isDigit = true)
    (rest : List Char) : lexeme.Fits number.chars rest := by
  simp only [NumberText.lexeme?] at h
  split at h
  · next value hvalue =>
    cases h
    refine ⟨by simp [Lexeme.word?], fun n hn => ?_⟩
    cases hn
    split at hvalue
    · next hplain =>
      simp only [Bool.and_eq_true, List.isEmpty_iff] at hplain
      have hchars : number.chars = number.whole := by simp [NumberText.chars, hplain]
      rw [hchars]
      refine ⟨hwhole, ?_⟩
      unfold Number.readBounded? at hvalue
      split at hvalue
      · next tail hplus => exact absurd (hwhole '+' (by simp [hplus])) (by decide)
      · obtain ⟨hread, hlimit⟩ := Option.filter_eq_some_iff.mp hvalue
        unfold Number.readNat? at hread
        split at hread
        · cases hread
        · exact ⟨Option.some.inj hread, by simpa using hlimit⟩
    · cases hvalue
  · obtain ⟨constant, -, rfl⟩ := Option.map_eq_some_iff.mp h
    exact .number constant _ rest

/-- What is known of the piece at the front of a text. -/
structure Piece.Sound (piece : Piece) : Prop where
  nonempty : piece.chars ≠ []
  line : '\n' ∉ piece.chars
  fits : ∀ lexeme ∈ piece.lexeme?, lexeme ≠ .symbol .endOfFile ∧ lexeme.Fits piece.chars piece.rest
  reported : piece.lexeme? = none → piece.problem? ≠ none

theorem mark?_not_keyword {c : Char} {symbol : Symbol} (h : Symbol.mark? c = some symbol) :
    symbol ∉ Symbol.keywords := by
  obtain ⟨before, after, hmarks, -⟩ := List.lookup_eq_some_iff.mp h
  have hmem : (c, symbol) ∈ Symbol.marks := by simp [hmarks]
  have hall : ∀ mark ∈ Symbol.marks, mark.2 ∉ Symbol.keywords := by decide
  exact hall _ hmem

theorem Lexeme.Fits.mark {symbol : Symbol} (h : symbol ∉ Symbol.keywords)
    (chars rest : List Char) : (Lexeme.symbol symbol).Fits chars rest :=
  ⟨by simp [Lexeme.word?, h], by simp⟩

/-- A piece is cut off the front of a text, and it is sound. -/
theorem nextPiece_sound {c : Char} {rest : List Char} (hgap : isGap c = false) :
    (nextPiece c rest).chars ++ (nextPiece c rest).rest = c :: rest ∧ (nextPiece c rest).Sound := by
  have hline : c ≠ '\n' := by
    rintro rfl
    cases hgap
  have hend := nextPiece_ne_end c rest
  revert hend
  -- a word, a number, an arrow, or a single character
  simp only [nextPiece]
  split
  · next hstart =>
    refine fun hend => ⟨by simp, by simp, ?_, fun lexeme hlexeme => ⟨?_, ?_, ?_⟩, by simp⟩
    · have hrest : '\n' ∉ rest.takeWhile isIdentRest := fun hmem => by
        cases List.all_eq_true.mp List.all_takeWhile _ hmem
      simpa [Ne.symm hline] using hrest
    · exact fun heq => hend (hlexeme.trans (congrArg some heq))
    · intro text htext
      cases hlexeme
      refine ⟨?_, fun d hd => ?_⟩
      · rw [word?_wordLexeme htext, String.toList_ofList]
      · have hhead := List.head?_dropWhile_not isIdentRest rest
        rw [Option.mem_def.mp hd] at hhead
        simpa using hhead
    · intro n hn
      cases hlexeme
      exact absurd hn (wordLexeme_ne_integer _ n)
  split
  · next hstarts =>
    obtain ⟨hsplit, hnumeric⟩ := scanNumber_split (c :: rest)
    have hnonempty := scanNumber_chars_ne_nil hstarts
    have hbreak : '\n' ∉ (scanNumber (c :: rest)).chars := fun hmem => by
      cases hnumeric _ hmem
    have hwhole : ∀ d ∈ (scanNumber (c :: rest)).whole, d.isDigit = true :=
      fun d hd => List.all_eq_true.mp List.all_takeWhile d hd
    split
    · next lexeme hlexeme =>
      refine fun hend => ⟨hsplit, hnonempty, hbreak, ?_, by simp⟩
      rintro _ ⟨⟩
      exact ⟨fun heq => hend (congrArg some heq), NumberText.lexeme?_fits hlexeme hwhole _⟩
    · refine fun hend => ⟨hsplit, hnonempty, hbreak, ?_, by simp⟩
      rintro _ ⟨⟩
      exact ⟨by simp, .number _ _ _⟩
  split
  · next harrow =>
    simp only [Bool.and_eq_true, decide_eq_true_eq] at harrow
    obtain ⟨rfl, hhead⟩ := harrow
    obtain ⟨tail, rfl⟩ := List.head?_eq_some_iff.mp hhead
    refine fun hend => ⟨rfl, by simp, by simp, ?_, by simp⟩
    rintro _ ⟨⟩
    exact ⟨by decide, .mark (by decide) _ _⟩
  have hsingle : '\n' ∉ [c] := by simp [Ne.symm hline]
  split
  · next symbol hmark =>
    refine fun hend => ⟨rfl, by simp, hsingle, ?_, by simp⟩
    rintro _ ⟨⟩
    exact ⟨fun heq => hend (congrArg some heq), .mark (mark?_not_keyword hmark) _ _⟩
  · exact fun hend => ⟨rfl, by simp, hsingle, by simp, by simp⟩
  · exact fun hend => ⟨rfl, by simp, hsingle, by simp, by simp⟩

end ArrayOffload.Source
