import ArrayOffload.Proofs.Pieces

/-!
# Every byte of a source

A source is cut into gaps and pieces, and nothing is left over. So the tokens stand in the source one
after the other, and what lies between them is blank, or in a comment, or reported.

* `Source.Span.Cuts`, `Source.Span.Placed`: a range of bytes and the text that stands there;
* `Source.Scan`, `Source.scan_tokensFrom`: a source cut into gaps and pieces;
* `Source.Scan.token`, `Source.Scan.covered`: where tokens stand, and what stands elsewhere;
* `Source.Tiles`, `Source.tokenize_tiles`: how tokens and problems account for a source.
-/

namespace ArrayOffload.Source

/-! ## Ranges of bytes -/

namespace Span

/-- The text at a range of bytes, between two other texts. -/
structure Cuts (span : Span) (source before text after : String) : Prop where
  source_eq : source = before ++ text ++ after
  start_eq : span.start = before.utf8ByteSize
  stop_eq : span.stop = (before ++ text).utf8ByteSize

/-- The range lies within the source, and its ends lie between characters. -/
structure Placed (span : Span) (source : String) : Prop where
  ordered : span.start ≤ span.stop
  within : span.stop ≤ source.utf8ByteSize
  start_valid : (String.Pos.Raw.mk span.start).IsValid source
  stop_valid : (String.Pos.Raw.mk span.stop).IsValid source

/-- The range has the byte at `position`. -/
def Has (span : Span) (position : Nat) : Prop := span.start ≤ position ∧ position < span.stop

end Span

theorem byteSize_ofList (cs : List Char) : (String.ofList cs).utf8ByteSize = byteSize cs := by
  induction cs with
  | nil => rfl
  | cons c cs ih =>
    have hsplit : String.ofList (c :: cs) = String.singleton c ++ String.ofList cs := by
      rw [String.singleton_eq_ofList, ← String.ofList_append]
      rfl
    rw [hsplit, String.utf8ByteSize_append, String.utf8ByteSize_singleton, ih, byteSize_cons]

theorem byteSize_toList (text : String) : byteSize text.toList = text.utf8ByteSize := by
  rw [← byteSize_ofList, String.ofList_toList]

theorem length_le_byteSize (cs : List Char) : cs.length ≤ byteSize cs := by
  induction cs with
  | nil => exact le_rfl
  | cons c cs ih =>
    have hpos := c.utf8Size_pos
    rw [List.length_cons, byteSize_cons]
    omega

/-- A range made from the characters before it and in it. -/
def Span.of (before text : List Char) : Span :=
  ⟨byteSize before, byteSize before + byteSize text⟩

theorem Span.of_cuts {source : String} {before text after : List Char}
    (h : source.toList = before ++ text ++ after) :
    (Span.of before text).Cuts source (String.ofList before) (String.ofList text)
      (String.ofList after) where
  source_eq := by
    rw [← String.ofList_append, ← String.ofList_append, ← h, String.ofList_toList]
  start_eq := (byteSize_ofList before).symm
  stop_eq := by rw [← String.ofList_append, byteSize_ofList, byteSize_append, Span.of]

theorem Span.Cuts.placed {span : Span} {source before text after : String}
    (h : span.Cuts source before text after) : span.Placed source where
  ordered := by
    rw [h.start_eq, h.stop_eq, String.utf8ByteSize_append]
    exact Nat.le_add_right _ _
  within := by
    rw [h.stop_eq, h.source_eq]
    simp only [String.utf8ByteSize_append]
    exact Nat.le_add_right _ _
  start_valid := by
    refine String.Pos.Raw.isValid_iff_exists_append.mpr ⟨before, text ++ after, ?_, ?_⟩
    · rw [h.source_eq, String.append_assoc]
    · rw [h.start_eq]
      rfl
  stop_valid := by
    refine String.Pos.Raw.isValid_iff_exists_append.mpr ⟨before ++ text, after, h.source_eq, ?_⟩
    rw [h.stop_eq]
    rfl

/-- Two beginnings of one text that have the same size are the same. -/
theorem eq_of_byteSize_eq {cs ds xs ys : List Char} (htext : cs ++ xs = ds ++ ys)
    (hsize : byteSize cs = byteSize ds) : cs = ds := by
  induction cs generalizing ds with
  | nil =>
    cases ds with
    | nil => rfl
    | cons d ds =>
      have hpos := d.utf8Size_pos
      rw [byteSize_nil, byteSize_cons] at hsize
      omega
  | cons c cs ih =>
    cases ds with
    | nil =>
      have hpos := c.utf8Size_pos
      rw [byteSize_nil, byteSize_cons] at hsize
      omega
    | cons d ds =>
      obtain ⟨rfl, hrest⟩ := List.cons.inj htext
      rw [byteSize_cons, byteSize_cons] at hsize
      rw [ih hrest (by omega)]

/-! ## What stands between tokens -/

/-- The byte is a blank. -/
def BlankAt (source : String) (position : Nat) : Prop :=
  ∃ before c after, Span.Cuts ⟨position, position + 1⟩ source before (String.singleton c) after ∧
    isGap c = true

/-- The byte is part of a comment: of two slashes, or of what follows them on their line. -/
def CommentAt (source : String) (position : Nat) : Prop :=
  ∃ span before body after, Span.Cuts span source before ("//" ++ body) after ∧
    '\n' ∉ body.toList ∧ span.Has position

/-- Nothing but blanks and comments stands between the position and the line break before it, or
the start of the source. -/
def LineStartAt (source : String) (position : Nat) : Prop :=
  ∃ earlier blanks comment after,
    Span.Cuts ⟨earlier.utf8ByteSize, position⟩ source earlier (blanks ++ comment) after ∧
    (earlier = "" ∨ ∃ lines, earlier = lines ++ "\n") ∧ '\n' ∉ (blanks ++ comment).toList ∧
    (∀ c ∈ blanks.toList, isGap c = true) ∧ (comment = "" ∨ ∃ body, comment = "//" ++ body)

theorem foldl_frontStep_blanks {blanks : List Char} (h : ∀ c ∈ blanks, isGap c = true) :
    blanks.foldl frontStep [] = [] := by
  induction blanks with
  | nil => rfl
  | cons c blanks ih =>
    obtain ⟨hc, hblanks⟩ := List.forall_mem_cons.mp h
    have hstep : frontStep [] c = [] := by simp [frontStep, hc]
    rw [List.foldl_cons, hstep, ih hblanks]

/-- A text is cut before the front of its last line. -/
theorem exists_front (cs : List Char) :
    ∃ earlier blanks, cs = earlier ++ (blanks ++ front cs) ∧
      (earlier = [] ∨ ∃ lines, earlier = lines ++ ['\n']) ∧ '\n' ∉ blanks ++ front cs ∧
      ∀ c ∈ blanks, isGap c = true := by
  induction cs using List.reverseRecOn with
  | nil => exact ⟨[], [], rfl, .inl rfl, List.not_mem_nil, nofun⟩
  | append_singleton cs c ih =>
    obtain ⟨earlier, blanks, hcs, hearlier, hline, hblanks⟩ := ih
    have hfront : front (cs ++ [c]) = frontStep (front cs) c := front_append cs [c]
    by_cases hbreak : c = '\n'
    · subst hbreak
      exact ⟨cs ++ ['\n'], [], by simp [front_newline], .inr ⟨cs, rfl⟩, by simp [front_newline],
        nofun⟩
    by_cases hblank : front cs = [] ∧ isGap c = true
    · have hnil : front (cs ++ [c]) = [] := by simp [hfront, frontStep, hblank]
      rw [hblank.1, List.append_nil] at hcs hline
      refine ⟨earlier, blanks ++ [c], ?_, hearlier, ?_, ?_⟩
      · rw [hnil, List.append_nil, ← List.append_assoc, ← hcs]
      · rw [hnil, List.append_nil]
        simpa [hline] using Ne.symm hbreak
      · exact List.forall_mem_append.mpr ⟨hblanks, by simpa using hblank.2⟩
    · have hcons : front (cs ++ [c]) = front cs ++ [c] := by
        rw [hfront, frontStep, if_neg hbreak, if_neg (by simpa using hblank)]
      refine ⟨earlier, blanks, ?_, hearlier, ?_, hblanks⟩
      · rw [hcons, ← List.append_assoc blanks, ← List.append_assoc, ← hcs]
      · rw [hcons, ← List.append_assoc, List.mem_append, not_or]
        exact ⟨hline, by simpa using Ne.symm hbreak⟩

/-- The flag of a token tells what stands before it on its line. -/
theorem lineStartAt_iff {source : String} {before after : List Char}
    (h : source.toList = before ++ after) :
    LineStartAt source (byteSize before) ↔ Vacant before := by
  constructor
  · rintro ⟨earlier, blanks, comment, later, hcuts, hearlier, hline, hblanks, hcomment⟩
    have hbefore : before = earlier.toList ++ (blanks.toList ++ comment.toList) := by
      have htext := congrArg String.toList hcuts.source_eq
      have hsize : byteSize before = byteSize (earlier ++ (blanks ++ comment)).toList :=
        hcuts.stop_eq.trans (byteSize_toList _).symm
      simp only [String.toList_append] at htext hsize
      exact eq_of_byteSize_eq (h.symm.trans htext) hsize
    have hstart : front earlier.toList = [] := by
      rcases hearlier with rfl | ⟨lines, rfl⟩
      · rfl
      · rw [String.toList_append]
        exact front_newline lines.toList
    have hfront : front before = comment.toList.foldl frontStep [] := by
      rw [hbefore, front_append, List.foldl_append, hstart, foldl_frontStep_blanks hblanks]
    rw [Vacant, hfront]
    rcases hcomment with rfl | ⟨body, rfl⟩
    · exact .inl rfl
    · have hslashes : ("//" ++ body).toList = '/' :: '/' :: body.toList := String.toList_append
      rw [String.toList_append, List.mem_append, not_or, hslashes] at hline
      rw [hslashes, foldl_frontStep hline.2 (.inr (by rintro c ⟨⟩; rfl))]
      exact .inr ⟨body.toList, rfl⟩
  · intro hvacant
    obtain ⟨earlier, blanks, hbefore, hearlier, hline, hblanks⟩ := exists_front before
    have hcuts := Span.of_cuts (h.trans (congrArg (· ++ after) hbefore))
    refine ⟨String.ofList earlier, String.ofList blanks, String.ofList (front before),
      String.ofList after, ⟨?_, rfl, ?_⟩, ?_, ?_, ?_, ?_⟩
    · rw [← String.ofList_append]
      exact hcuts.source_eq
    · rw [← String.ofList_append, ← String.ofList_append]
      exact (congrArg byteSize hbefore).trans (byteSize_ofList _).symm
    · rcases hearlier with rfl | ⟨lines, rfl⟩
      · exact .inl rfl
      · exact .inr ⟨String.ofList lines, String.ofList_append⟩
    · rw [← String.ofList_append, String.toList_ofList]
      exact hline
    · rw [String.toList_ofList]
      exact hblanks
    · rcases hvacant with hnil | ⟨body, hbody⟩
      · exact .inl (congrArg String.ofList hnil)
      · refine .inr ⟨String.ofList body, ?_⟩
        rw [← hbody, String.ofList_append]

theorem blankAt_of {source : String} {before after : List Char} {c : Char}
    (h : source.toList = before ++ [c] ++ after) (hc : isGap c = true) :
    BlankAt source (byteSize before) := by
  have hcuts := Span.of_cuts h
  have hspan : Span.of before [c] = ⟨byteSize before, byteSize before + 1⟩ := by
    simp [Span.of, utf8Size_of_isGap hc]
  rw [hspan, ← String.singleton_eq_ofList] at hcuts
  exact ⟨_, c, _, hcuts, hc⟩

theorem commentAt_of {source : String} {before body after : List Char} {position : Nat}
    (h : source.toList = before ++ ('/' :: '/' :: body) ++ after) (hbody : '\n' ∉ body)
    (hfrom : byteSize before ≤ position)
    (hto : position < byteSize (before ++ '/' :: '/' :: body)) : CommentAt source position := by
  have hcuts := Span.of_cuts h
  have htext : String.ofList ('/' :: '/' :: body) = "//" ++ String.ofList body :=
    @String.ofList_append ['/', '/'] body
  rw [htext] at hcuts
  rw [byteSize_append] at hto
  exact ⟨_, _, String.ofList body, _, hcuts, by rwa [String.toList_ofList], hfrom, hto⟩

/-- Every byte of a gap is blank or in a comment. -/
theorem Gap.covered {rest gap : List Char} (hgap : Gap rest gap) {source : String}
    {before : List Char} (h : source.toList = before ++ gap ++ rest) {position : Nat}
    (hfrom : byteSize before ≤ position) (hto : position < byteSize (before ++ gap)) :
    BlankAt source position ∨ CommentAt source position := by
  induction hgap generalizing before with
  | nil =>
    rw [List.append_nil] at hto
    omega
  | @blank c cs hc _ ih =>
    have hcs : before ++ c :: cs = before ++ [c] ++ cs := by simp
    rw [hcs] at h hto
    by_cases hfirst : position = byteSize before
    · rw [List.append_assoc] at h
      exact .inl (hfirst ▸ blankAt_of h hc)
    · have hsize : byteSize (before ++ [c]) = byteSize before + 1 := by
        simp [utf8Size_of_isGap hc]
      exact ih h (by omega) hto
  | @comment body cs hbody _ ih =>
    have hcs : before ++ '/' :: '/' :: (body ++ '\n' :: cs) =
        before ++ ('/' :: '/' :: body) ++ ['\n'] ++ cs := by simp
    rw [hcs] at h hto
    by_cases hinside : position < byteSize (before ++ '/' :: '/' :: body)
    · rw [List.append_assoc, List.append_assoc] at h
      exact .inr (commentAt_of h hbody hfrom hinside)
    by_cases hbreak : position = byteSize (before ++ '/' :: '/' :: body)
    · rw [List.append_assoc] at h
      exact .inl (hbreak ▸ blankAt_of h rfl)
    · have hsize : byteSize (before ++ ('/' :: '/' :: body) ++ ['\n']) =
          byteSize (before ++ '/' :: '/' :: body) + 1 := by
        rw [byteSize_append]
        rfl
      exact ih h (by omega) hto
  | last hbody _ => exact .inr (commentAt_of h hbody hfrom hto)

/-! ## A source cut into gaps and pieces -/

/-- The token that a piece is read as, if there is one. -/
def Piece.tokens (piece : Piece) (before : List Char) (lineStart : Bool) : List Token :=
  (piece.lexeme?.map fun lexeme =>
    Token.mk lexeme (Span.of before piece.chars) lineStart).toList

/-- What is reported about a piece. -/
def Piece.problems (piece : Piece) (before : List Char) : List Diagnostic :=
  (piece.problem?.map fun problem => Diagnostic.mk problem (Span.of before piece.chars)).toList

/-- `Scan before cs tokens problems`: after `before`, the text `cs` is cut into gaps and pieces, with
these tokens and problems. -/
inductive Scan : List Char → List Char → List Token → List Diagnostic → Prop
  | finish {before gap : List Char} {lineStart : Bool} :
      Gap [] gap → (lineStart = true ↔ Vacant (before ++ gap)) →
      Scan before gap [⟨.symbol .endOfFile, Span.of (before ++ gap) [], lineStart⟩] []
  | piece {before gap : List Char} {piece : Piece} {lineStart : Bool} {tokens : List Token}
      {problems : List Diagnostic} :
      Gap (piece.chars ++ piece.rest) gap → piece.Sound →
      (lineStart = true ↔ Vacant (before ++ gap)) →
      Scan (before ++ gap ++ piece.chars) piece.rest tokens problems →
      Scan before (gap ++ (piece.chars ++ piece.rest))
        (piece.tokens (before ++ gap) lineStart ++ tokens)
        (piece.problems (before ++ gap) ++ problems)

/-- Reading cuts a text into gaps and pieces. Each piece takes a character, so the fuel lasts. -/
theorem scan_tokensFrom {fuel : Nat} {before cs : List Char} {lineStart : Bool}
    (hfuel : cs.length < fuel) (h : Between before cs lineStart) :
    Scan before cs (tokensFrom fuel (byteSize before) lineStart cs).1
      (tokensFrom fuel (byteSize before) lineStart cs).2 := by
  induction fuel generalizing before cs lineStart with
  | zero => omega
  | succ fuel ih =>
    obtain ⟨gap, rest, rfl, hgap, hstarts, hskip⟩ := skipGap_gap (byteSize before) lineStart cs
    obtain ⟨hvacant, hbetween⟩ := hgap.between h
    rw [← byteSize_append] at hskip
    simp only [tokensFrom, hskip]
    cases rest with
    | nil =>
      rw [List.append_nil]
      exact Scan.finish hgap hvacant
    | cons c rest =>
      obtain ⟨hsplit, hsound⟩ := nextPiece_sound (hstarts c rest rfl).1
      have hafter := hbetween (List.cons_ne_nil c rest)
      rw [← hsplit] at hgap hstarts hafter hfuel
      have hlength := List.length_pos_iff.mpr hsound.nonempty
      simp only [List.length_append] at hfuel
      have hlater := ih (by omega) (hafter.piece hstarts hsound.nonempty hsound.line)
      rw [byteSize_append] at hlater
      have hscan := Scan.piece hgap hsound hvacant hlater
      rwa [hsplit] at hscan

/-- Where a token stands and what is written there. -/
structure Token.Stands (token : Token) (before text after : List Char) : Prop where
  span_eq : token.span = Span.of before text
  lineStart : token.lineStart = true ↔ Vacant before
  kind : (token.lexeme = .symbol .endOfFile ∧ text = [] ∧ after = []) ∨
    (token.lexeme ≠ .symbol .endOfFile ∧ text ≠ [] ∧ token.lexeme.Fits text after)

namespace Scan

variable {before cs : List Char} {tokens : List Token} {problems : List Diagnostic}

theorem token (h : Scan before cs tokens problems) {token : Token} (ht : token ∈ tokens) :
    ∃ earlier text after, before ++ cs = earlier ++ text ++ after ∧
      byteSize before ≤ byteSize earlier ∧ token.Stands earlier text after := by
  induction h with
  | @finish before gap lineStart _ hvacant =>
    rw [List.mem_singleton.mp ht]
    exact ⟨before ++ gap, [], [], by simp, by simp, rfl, hvacant, .inl ⟨rfl, rfl, rfl⟩⟩
  | @piece before gap piece lineStart tokens problems _ hsound hvacant _ ih =>
    rcases List.mem_append.mp ht with hfirst | hlater
    · obtain ⟨lexeme, hlexeme, rfl⟩ := Option.map_eq_some_iff.mp (Option.mem_toList.mp hfirst)
      obtain ⟨hend, hfits⟩ := hsound.fits lexeme hlexeme
      exact ⟨before ++ gap, piece.chars, piece.rest, by simp, by simp, rfl, hvacant,
        .inr ⟨hend, hsound.nonempty, hfits⟩⟩
    · obtain ⟨earlier, text, after, htext, hsize, hstands⟩ := ih hlater
      refine ⟨earlier, text, after, ?_, ?_, hstands⟩
      · rw [← htext]
        simp
      · simp only [byteSize_append] at hsize
        omega

theorem problem (h : Scan before cs tokens problems) {found : Diagnostic}
    (hf : found ∈ problems) :
    ∃ earlier text after, before ++ cs = earlier ++ text ++ after ∧
      found.span = Span.of earlier text := by
  induction h with
  | finish => cases hf
  | @piece before gap piece lineStart tokens problems _ _ _ _ ih =>
    rcases List.mem_append.mp hf with hfirst | hlater
    · obtain ⟨problem, -, rfl⟩ := Option.map_eq_some_iff.mp (Option.mem_toList.mp hfirst)
      exact ⟨before ++ gap, piece.chars, piece.rest, by simp, rfl⟩
    · obtain ⟨earlier, text, after, htext, hspan⟩ := ih hlater
      exact ⟨earlier, text, after, by rw [← htext]; simp, hspan⟩

/-- Tokens follow each other without overlap. -/
theorem ordered (h : Scan before cs tokens problems) :
    tokens.Pairwise fun token later => token.span.stop ≤ later.span.start := by
  induction h with
  | finish => exact List.pairwise_singleton _ _
  | @piece before gap piece lineStart tokens problems _ _ _ hscan ih =>
    rw [List.pairwise_append]
    refine ⟨?_, ih, fun token hfirst later hlater => ?_⟩
    · unfold Piece.tokens
      cases piece.lexeme? <;> simp
    · obtain ⟨lexeme, -, rfl⟩ := Option.map_eq_some_iff.mp (Option.mem_toList.mp hfirst)
      obtain ⟨earlier, text, after, -, hsize, hstands⟩ := hscan.token hlater
      rw [hstands.span_eq]
      exact (byteSize_append _ _).symm.trans_le hsize

/-- The end of the file comes last, at the end of the text. -/
theorem ends (h : Scan before cs tokens problems) :
    ∃ others lineStart,
      tokens = others ++ [⟨.symbol .endOfFile, Span.of (before ++ cs) [], lineStart⟩] ∧
      ∀ token ∈ others, token.lexeme ≠ .symbol .endOfFile := by
  induction h with
  | finish => exact ⟨[], _, rfl, nofun⟩
  | @piece before gap piece lineStart tokens problems _ hsound _ _ ih =>
    obtain ⟨others, last, rfl, hothers⟩ := ih
    refine ⟨piece.tokens (before ++ gap) lineStart ++ others, last, by simp, ?_⟩
    refine List.forall_mem_append.mpr ⟨fun token hfirst => ?_, hothers⟩
    obtain ⟨lexeme, hlexeme, rfl⟩ := Option.map_eq_some_iff.mp (Option.mem_toList.mp hfirst)
    exact (hsound.fits lexeme hlexeme).1

/-- Every byte is in a token, or in a gap, or reported. -/
theorem covered (h : Scan before cs tokens problems) {source : String}
    (hsource : source.toList = before ++ cs) {position : Nat} (hfrom : byteSize before ≤ position)
    (hto : position < byteSize (before ++ cs)) :
    (∃ token ∈ tokens, token.span.Has position) ∨ BlankAt source position ∨
      CommentAt source position ∨ ∃ found ∈ problems, found.span.Has position := by
  induction h with
  | @finish before gap lineStart hgap _ =>
    have hblank := hgap.covered (by simpa using hsource) hfrom hto
    exact .inr (hblank.imp id .inl)
  | @piece before gap piece lineStart tokens problems hgap hsound _ _ ih =>
    rw [← List.append_assoc] at hsource hto
    by_cases hbefore : position < byteSize (before ++ gap)
    · exact .inr ((hgap.covered hsource hfrom hbefore).imp id .inl)
    rw [← List.append_assoc] at hsource hto
    by_cases hinside : position < byteSize (before ++ gap ++ piece.chars)
    · -- the piece itself: it has a token, or it is reported
      have hhas : (Span.of (before ++ gap) piece.chars).Has position :=
        ⟨Nat.le_of_not_lt hbefore, hinside.trans_eq (byteSize_append _ _)⟩
      cases hlexeme : piece.lexeme? with
      | some lexeme =>
        exact .inl ⟨_, List.mem_append_left _ (by simp [Piece.tokens, hlexeme]; rfl), hhas⟩
      | none =>
        obtain ⟨problem, hproblem⟩ := Option.ne_none_iff_exists'.mp (hsound.reported hlexeme)
        exact .inr (.inr (.inr
          ⟨_, List.mem_append_left _ (by simp [Piece.problems, hproblem]; rfl), hhas⟩))
    · rcases ih hsource (by omega) hto with ⟨token, ht, hhas⟩ | hblank | hcomment | ⟨found, hf, hhas⟩
      · exact .inl ⟨token, List.mem_append_right _ ht, hhas⟩
      · exact .inr (.inl hblank)
      · exact .inr (.inr (.inl hcomment))
      · exact .inr (.inr (.inr ⟨found, List.mem_append_right _ hf, hhas⟩))

end Scan

/-! ## Whole sources -/

theorem scan_tokenize (source : String) :
    Scan [] source.toList (tokenize source).1 (tokenize source).2 :=
  scan_tokensFrom (Nat.lt_succ_self _) (.of_front rfl)

theorem token_placed {source : String} {token : Token} (h : token ∈ (tokenize source).1) :
    token.span.Placed source := by
  obtain ⟨earlier, text, after, htext, -, hstands⟩ := (scan_tokenize source).token h
  rw [hstands.span_eq]
  exact (Span.of_cuts htext).placed

theorem problem_placed {source : String} {found : Diagnostic} (h : found ∈ (tokenize source).2) :
    found.span.Placed source := by
  obtain ⟨earlier, text, after, htext, hspan⟩ := (scan_tokenize source).problem h
  rw [hspan]
  exact (Span.of_cuts htext).placed

/-- How tokens and problems account for a source. -/
structure Tiles (source : String) (tokens : List Token) (problems : List Diagnostic) : Prop where
  /-- The end of the file comes last, at the end of the source, and nowhere else. -/
  ends : ∃ others lineStart,
    tokens = others ++
      [⟨.symbol .endOfFile, ⟨source.utf8ByteSize, source.utf8ByteSize⟩, lineStart⟩] ∧
    ∀ token ∈ others, token.lexeme ≠ .symbol .endOfFile
  ordered : tokens.Pairwise fun token later => token.span.stop ≤ later.span.start
  nonempty : ∀ token ∈ tokens, token.lexeme ≠ .symbol .endOfFile →
    token.span.start < token.span.stop
  placed : ∀ token ∈ tokens, token.span.Placed source
  /-- A byte in no token is blank, or in a comment, or in the range of a problem. -/
  covered : ∀ position < source.utf8ByteSize, (∃ token ∈ tokens, token.span.Has position) ∨
    BlankAt source position ∨ CommentAt source position ∨
      ∃ found ∈ problems, found.span.Has position
  /-- Names and keywords are written as they are, up to the end of the word. -/
  words : ∀ token ∈ tokens, ∀ text, token.lexeme.word? = some text →
    ∃ before after, token.span.Cuts source before text after ∧
      ∀ c ∈ after.toList.head?, isIdentRest c = false
  /-- Integers are written in decimal digits and fit in a word of 64 bits. -/
  integers : ∀ token ∈ tokens, ∀ n, token.lexeme = .integer n →
    ∃ before digits after, token.span.Cuts source before digits after ∧ digits ≠ "" ∧
      (∀ c ∈ digits.toList, c.isDigit = true) ∧ Nat.ofDigitChars 10 digits.toList 0 = n ∧ n < 2 ^ 64
  lineStarts : ∀ token ∈ tokens,
    token.lineStart = true ↔ LineStartAt source token.span.start

/-- A position in a source that is not too long fits in a word of 32 bits. -/
theorem Span.Placed.fits {span : Span} {source : String} (h : span.Placed source)
    (hsize : source.utf8ByteSize < 2 ^ 32) : span.stop < 2 ^ 32 :=
  h.within.trans_lt hsize

/-- Tokens and problems account for every byte of a source, and their positions fit in words of 32
bits. -/
theorem tokenize_tiles (source : String) (hsize : source.utf8ByteSize < 2 ^ 32) :
    Tiles source (tokenize source).1 (tokenize source).2 ∧
      (∀ token ∈ (tokenize source).1, token.span.stop < 2 ^ 32) ∧
      ∀ found ∈ (tokenize source).2, found.span.stop < 2 ^ 32 := by
  have hscan := scan_tokenize source
  refine ⟨?_, fun token ht => (token_placed ht).fits hsize,
    fun found hf => (problem_placed hf).fits hsize⟩
  constructor
  case ends =>
    obtain ⟨others, lineStart, htokens, hothers⟩ := hscan.ends
    rw [← byteSize_toList]
    exact ⟨others, lineStart, htokens, hothers⟩
  case ordered => exact hscan.ordered
  case nonempty =>
    intro token ht hend
    obtain ⟨earlier, text, after, -, -, hstands⟩ := hscan.token ht
    obtain ⟨-, htext, -⟩ := hstands.kind.resolve_left fun hkind => hend hkind.1
    have hlength := List.length_pos_iff.mpr htext
    have hsize := length_le_byteSize text
    rw [hstands.span_eq, Span.of]
    dsimp only
    omega
  case placed => exact fun token => token_placed
  case covered =>
    intro position hposition
    rw [← byteSize_toList] at hposition
    exact hscan.covered rfl (Nat.zero_le _) hposition
  case words =>
    intro token ht text hword
    obtain ⟨earlier, chars, after, htext, -, hstands⟩ := hscan.token ht
    rcases hstands.kind with ⟨hend, -⟩ | ⟨-, -, hfits⟩
    · rw [hend] at hword
      cases hword
    · obtain ⟨rfl, hstop⟩ := hfits.word text hword
      have hcuts := Span.of_cuts htext
      rw [← hstands.span_eq, String.ofList_toList] at hcuts
      exact ⟨_, _, hcuts, by rwa [String.toList_ofList]⟩
  case integers =>
    intro token ht n hinteger
    obtain ⟨earlier, chars, after, htext, -, hstands⟩ := hscan.token ht
    rcases hstands.kind with ⟨hend, -⟩ | ⟨-, hchars, hfits⟩
    · rw [hend] at hinteger
      cases hinteger
    · obtain ⟨hdigits, hvalue, hlimit⟩ := hfits.integer n hinteger
      have hcuts := Span.of_cuts htext
      rw [← hstands.span_eq] at hcuts
      refine ⟨_, _, _, hcuts, ?_, ?_, ?_, Nat.lt_of_le_of_lt hlimit (by decide)⟩
      · exact fun hempty => hchars (String.ofList_eq_empty_iff.mp hempty)
      · rwa [String.toList_ofList]
      · rwa [String.toList_ofList]
  case lineStarts =>
    intro token ht
    obtain ⟨earlier, text, after, htext, -, hstands⟩ := hscan.token ht
    rw [hstands.lineStart, hstands.span_eq]
    rw [List.append_assoc] at htext
    exact (lineStartAt_iff htext).symm

end ArrayOffload.Source

namespace ArrayOffload.Sample

/-- An exponent without digits, a character beyond ASCII, comments and an arrow. -/
def mixed : String := "fn // é\n 12e+x .5é\t->-.y"

end ArrayOffload.Sample

namespace ArrayOffload.Source

theorem tokenize_tiles_sample :
    Sample.mixed.utf8ByteSize < 2 ^ 32 ∧
      (tokenize Sample.mixed).1.map (fun token =>
        (token.lexeme.description, token.span, token.lineStart)) =
        [("'fn'", ⟨0, 2⟩, true), ("integer literal", ⟨10, 12⟩, true), ("identifier", ⟨12, 13⟩, false),
          ("identifier", ⟨14, 15⟩, false), ("number", ⟨16, 18⟩, false), ("'->'", ⟨21, 23⟩, false),
          ("number", ⟨23, 25⟩, false), ("identifier", ⟨25, 26⟩, false),
          ("end of file", ⟨26, 26⟩, false)] ∧
      (tokenize Sample.mixed).2.map (·.span) = [⟨13, 14⟩, ⟨18, 20⟩, ⟨23, 25⟩] ∧
      Tiles Sample.mixed (tokenize Sample.mixed).1 (tokenize Sample.mixed).2 := by
  have hsize : Sample.mixed.utf8ByteSize < 2 ^ 32 := by decide +kernel
  exact ⟨hsize, by decide +kernel, by decide +kernel, (tokenize_tiles Sample.mixed hsize).1⟩

end ArrayOffload.Source
