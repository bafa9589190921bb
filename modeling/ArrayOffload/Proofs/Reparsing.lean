import ArrayOffload.Proofs.RoundTrip

/-!
# Parsed functions are printable

Names in a source are identifiers and its integers are machine words, so a parsed function has a
text that is read as its findings. Reading the text gives the function again exactly when its
constants are finite: a literal out of range is read as an infinity, whose text is a word.

* `Source.written_holds`: what the lexer puts in a token;
* `Source.Drafted.printable`: drafts made from such tokens are printable;
* `Source.reparse_iff`: which parsed functions are read back.
-/

namespace ArrayOffload

namespace Source

/-! ## What tokens hold -/

/-- What the lexer puts in tokens: identifiers, machine words and any constant. -/
def written : Vocabulary where
  name := Identifier
  position n := n < Shape.wordLimit
  constant _ := True
  name_missing := identifier_of_check rfl
  position_zero := by decide
  constant_zero := trivial
  constant_ofNat _ _ := trivial

/-- The same without infinities. -/
def decimal : Vocabulary where
  name := Identifier
  position n := n < Shape.wordLimit
  constant s := s.isFinite = true
  name_missing := written.name_missing
  position_zero := written.position_zero
  constant_zero := by decide
  constant_ofNat _ := Scalar.isFinite_ofNat

theorem lt_wordLimit_of_readBounded? {text : List Char} {n : Nat}
    (h : Number.readBounded? integerLimit text = some n) : n < Shape.wordLimit := by
  unfold Number.readBounded? at h
  obtain ⟨_, hle⟩ := Option.filter_eq_some_iff.mp h
  exact Nat.lt_succ_of_le (of_decide_eq_true hle)

theorem written_number {text : NumberText} {lexeme : Lexeme} (h : text.lexeme? = some lexeme) :
    written.Has lexeme := by
  simp only [NumberText.lexeme?] at h
  split at h
  · next n hn =>
    cases h
    split at hn
    · exact lt_wordLimit_of_readBounded? hn
    · cases hn
  · obtain ⟨_, _, rfl⟩ := Option.map_eq_some_iff.mp h
    trivial

/-- A run of word characters is a keyword or an identifier. -/
theorem written_word {c : Char} {cs : List Char} (hc : isIdentStart c = true)
    (hcs : cs.all isIdentRest = true) : written.Has (wordLexeme (String.ofList (c :: cs))) := by
  unfold wordLexeme
  cases hkeyword : Symbol.keyword? (String.ofList (c :: cs)) with
  | some symbol => trivial
  | none =>
    refine ⟨isWord_of_all ?_ ?_, hkeyword⟩
    · simpa using hc
    · simpa [isIdentRest_of_isIdentStart hc] using hcs

theorem written_nextPiece (c : Char) (rest : List Char) :
    ∀ lexeme ∈ (nextPiece c rest).lexeme?, written.Has lexeme := by
  intro lexeme h
  -- a word, a number, an arrow, or a single character
  simp only [nextPiece] at h
  split at h
  · next hc =>
    cases h
    exact written_word hc List.all_takeWhile
  split at h
  · split at h
    · next found hfound =>
      cases h
      exact written_number hfound
    · cases h
      trivial
  split at h
  · cases h
    trivial
  split at h <;> cases h
  trivial

theorem written_tokensFrom (fuel position : Nat) (lineStart : Bool) (cs : List Char) :
    written.Holds (tokensFrom fuel position lineStart cs).1 := by
  have hend : ∀ span lineStart, written.Holds [⟨.symbol .endOfFile, span, lineStart⟩] := by
    intro span lineStart token htoken
    rw [List.mem_singleton.mp htoken]
    trivial
  induction fuel generalizing position lineStart cs with
  | zero => exact hend _ _
  | succ fuel ih =>
    rw [tokensFrom]
    cases hrest : (skipGap false position lineStart cs).rest with
    | nil => simpa [hrest] using hend _ _
    | cons c rest =>
      refine List.forall_mem_append.mpr ⟨fun token htoken => ?_, ih _ _ _⟩
      obtain ⟨lexeme, hlexeme, rfl⟩ := Option.map_eq_some_iff.mp (Option.mem_toList.mp htoken)
      exact written_nextPiece c rest lexeme hlexeme

theorem written_holds (source : String) : written.Holds (tokenize source).1 :=
  written_tokensFrom _ _ _ _

/-- No number of these tokens is out of range. -/
def InRange (tokens : List Token) : Prop :=
  ∀ token ∈ tokens, ∀ constant, token.lexeme = .number constant → constant.isFinite = true

theorem decimal_holds {tokens : List Token} (h : written.Holds tokens) (hrange : InRange tokens) :
    decimal.Holds tokens := by
  intro token htoken
  have hwritten := h token htoken
  cases hlexeme : token.lexeme with
  | ident name =>
    rw [hlexeme] at hwritten
    exact hwritten
  | integer n =>
    rw [hlexeme] at hwritten
    exact hwritten
  | symbol symbol => trivial
  | number constant => exact hrange token htoken constant hlexeme

theorem isFinite_of_mem_scalarFindings {s constant : Scalar}
    (h : .ok (.number constant) ∈ scalarFindings s) : constant.isFinite = true := by
  unfold scalarFindings at h
  split at h
  · next hfinite =>
    obtain rfl : constant = s := by simpa using h
    exact hfinite
  · split at h
    · simp at h
    · split at h <;> simp at h

/-- The text of a function never has a number out of range: an infinity is not written as one. -/
theorem inRange_of_readsApart {f : Func} {text : String} (h : ReadsApart text f.findings) :
    InRange (tokenize text).1 := by
  intro token htoken constant hlexeme
  have hmem := List.mem_map_of_mem (f := Token.lexeme) htoken
  rw [h.tokenize.1, hlexeme, List.mem_append, lexemesOf, List.mem_filterMap] at hmem
  obtain ⟨finding, hfinding, hnumber⟩ := hmem.resolve_right (by simp)
  rcases Func.accounts_findings finding hfinding with ⟨other, rfl, hother⟩ | ⟨_, _, s, _, hfrom⟩
  · exact absurd (Option.some.inj hnumber) (hother constant)
  · cases finding with
    | error problem => cases hnumber
    | ok other =>
      cases hnumber
      exact isFinite_of_mem_scalarFindings hfrom

end Source

/-! ## Where the arrays of a draft are -/

namespace Func.LaidOut

variable {f : Func}

/-- A parameter may follow parameters only. -/
theorem addParam (h : f.LaidOut) (hfull : f.params.length = f.arrays.length) (name : String)
    (elem : Elem) (rank : Nat) : (f.addParam name elem rank).2.LaidOut where
  params_eq := by simp [Func.addParam, declare, List.range_succ, ← hfull, ← h.params_eq]
  length_le := by simp [Func.addParam, declare, hfull]
  param_decl id decl hdecl hid := by
    rcases decl?_concat hdecl with hold | ⟨rfl, rfl⟩
    · exact h.param_decl id decl hold (hfull ▸ lt_of_decl? hold)
    · exact ⟨rfl, by rw [hfull]⟩
  local_decl id decl hdecl hid := by
    have hlength : (f.addParam name elem rank).2.params.length = f.arrays.length + 1 := by
      simp [Func.addParam, declare, hfull]
    rw [hlength] at hid
    have hlt := lt_of_decl? hdecl
    simp only [Func.addParam, declare, List.length_append, List.length_singleton] at hlt
    exact absurd hlt (Nat.not_lt_of_le hid)

theorem declare (h : f.LaidOut) {new : ArrayDecl} (hshape : new.shape ≠ .param)
    (hrole : new.role = .scratch) : (f.declare new).2.LaidOut where
  params_eq := h.params_eq
  length_le := by
    simp only [Func.declare, List.length_append]
    exact Nat.le_add_right_of_le h.length_le
  param_decl id decl hdecl hid := by
    rcases decl?_concat hdecl with hold | ⟨rfl, rfl⟩
    · exact h.param_decl id decl hold hid
    · exact absurd hid (Nat.not_lt_of_le h.length_le)
  local_decl id decl hdecl hid := by
    rcases decl?_concat hdecl with hold | ⟨rfl, rfl⟩
    · exact h.local_decl id decl hold hid
    · exact ⟨hshape, hrole⟩

end Func.LaidOut

namespace Source

variable {v : Vocabulary} {f : Func}

namespace Heading

theorem name (h : Heading v f) : v.name f.name := by
  induction h with
  | named _ hname => exact hname
  | param _ _ _ _ ih => exact ih

theorem names (h : Heading v f) : ∀ decl ∈ f.arrays, v.name decl.name := by
  induction h with
  | named => exact fun _ => nofun
  | param elem rank _ hname ih => exact List.forall_mem_append.mpr ⟨ih, by simpa using hname⟩

theorem body (h : Heading v f) : f.body = [] := by
  induction h with
  | named => rfl
  | param _ _ _ _ ih => exact ih

theorem laidOut (h : Heading v f) : f.params.length = f.arrays.length ∧ f.LaidOut := by
  induction h with
  | named => exact ⟨rfl, rfl, Nat.le_refl _, nofun, nofun⟩
  | param elem rank _ _ ih =>
    obtain ⟨hfull, laid⟩ := ih
    exact ⟨by simp [Func.addParam, Func.declare, hfull], laid.addParam hfull _ elem rank⟩

end Heading

namespace Drafted

theorem name (h : Drafted v f) : v.name f.name := by
  induction h with
  | heading h => exact h.name
  | like _ _ _ _ ih => exact ih
  | fixed _ _ _ _ ih => exact ih
  | push _ _ ih => exact ih
  | returns _ _ ih => exact ih

theorem names (h : Drafted v f) : ∀ decl ∈ f.arrays, v.name decl.name := by
  induction h with
  | heading h => exact h.names
  | like elem source _ hname ih => exact List.forall_mem_append.mpr ⟨ih, by simpa using hname⟩
  | fixed elem dims _ hname ih => exact List.forall_mem_append.mpr ⟨ih, by simpa using hname⟩
  | push _ _ ih => exact ih
  | returns _ _ ih => exact ih

theorem admits (h : Drafted v f) : ∀ op ∈ f.body, v.Admits op := by
  induction h with
  | heading h => exact h.body ▸ fun _ => nofun
  | like _ _ _ _ ih => exact ih
  | fixed _ _ _ _ ih => exact ih
  | push _ hop ih => exact List.forall_mem_append.mpr ⟨ih, by simpa using hop⟩
  | returns _ _ ih => exact ih

theorem laidOut (h : Drafted v f) : f.LaidOut := by
  induction h with
  | heading h => exact h.laidOut.2
  | like _ _ _ _ ih => exact ih.declare nofun rfl
  | fixed _ _ _ _ ih => exact ih.declare nofun rfl
  | push _ _ ih => exact ⟨ih.params_eq, ih.length_le, ih.param_decl, ih.local_decl⟩
  | returns _ _ ih => exact ⟨ih.params_eq, ih.length_le, ih.param_decl, ih.local_decl⟩

/-- What is made of a source has a text. -/
theorem printable (h : Drafted written f) : f.Printable where
  name := h.name
  names := h.names
  callees _ _ _ hop := (h.admits _ hop).2
  indices _ _ _ hop := (h.admits _ hop).2
  toLaidOut := h.laidOut

theorem finite (h : Drafted decimal f) : f.Finite := fun op hop => (h.admits op hop).1

end Drafted

/-! ## Reading a function again -/

/-- Numbers in range give finite constants. -/
theorem finite_of_inRange {source : String} {funcs : List Func}
    (accepted : parseSource source = .ok funcs) (hrange : InRange (tokenize source).1)
    (member : f ∈ funcs) : f.Finite :=
  (parseTokens_accepted (decimal_holds (written_holds source) hrange)
    (parseSource_ok accepted).2 member).1.finite

/-- What evaluation says about an accepted source. -/
theorem parseSource_of_toOption {source : String} {funcs : List Func}
    (h : (parseSource source).toOption = some funcs) : parseSource source = .ok funcs := by
  cases hparse : parseSource source with
  | ok found =>
    rw [hparse] at h
    exact congrArg _ (Option.some.inj h)
  | error problems =>
    rw [hparse] at h
    cases h

end Source

/-! ## A source and a function out of range -/

namespace Sample

/-- A source that is not laid out as a text is, with constants in range. -/
def source : String :=
  "// half of a\n#[serial] fn halve(a: f64[_, _])->t \x7b let t: f64 like a; t = mul(a, .5e0)\n" ++
    "  a[7] = 12 print(a,) \x7d"

def halve : Func where
  name := "halve"
  arrays := [⟨"a", .f64, 2, .param, .param 0⟩, ⟨"t", .f64, 2, .like 0, .scratch⟩]
  params := [0]
  body := [.map 1 .mul [.array 0, .scalar (.ofCode false 0x3fe0000000000000)],
    .store 0 7 (.ofNat 12), .print [0]]
  returns := some 1
  serialOnly := true

/-- A function that multiplies by an infinity. -/
def overflow : Func where
  name := "f"
  arrays := [⟨"a", .f64, 1, .param, .param 0⟩]
  params := [0]
  body := [.map 0 .mul [.array 0, .scalar (.ofCode false 0x7ff0000000000000)]]
  returns := none
  serialOnly := false

end Sample

namespace Source

variable {f : Func}

/-- The text of a parsed function is read as the same function exactly when every constant of it is
finite, so whenever the source has no number out of range. -/
theorem reparse_iff {source : String} {funcs : List Func} (accepted : parseSource source = .ok funcs)
    (member : f ∈ funcs) :
    ∃ text, f.text? = some text ∧ (parseSource text = .ok [f] ↔ f.Finite) ∧
      (InRange (tokenize source).1 → parseSource text = .ok [f]) := by
  obtain ⟨hdraft, hbuild⟩ :=
    parseTokens_accepted (written_holds source) (parseSource_ok accepted).2 member
  obtain ⟨_, hc⟩ := Func.build_ok hbuild
  obtain ⟨text, htext, hreads⟩ := hdraft.printable.exists_text hc
  have hback (finite : f.Finite) : parseSource text = .ok [f] :=
    parseSource_of_readsApart hdraft.printable hc finite hreads
  refine ⟨text, htext, ⟨fun hparse => ?_, hback⟩, fun hrange => ?_⟩
  · exact finite_of_inRange hparse (inRange_of_readsApart hreads) (List.mem_singleton_self f)
  · exact hback (finite_of_inRange accepted hrange member)

theorem reparse_iff_sample : parseSource Sample.source = .ok [Sample.halve] ∧
    Sample.halve.Finite ∧
    ∃ text, Sample.halve.text? = some text ∧ parseSource text = .ok [Sample.halve] := by
  have accepted : parseSource Sample.source = .ok [Sample.halve] :=
    parseSource_of_toOption (by decide +kernel)
  have finite : Sample.halve.Finite := by
    unfold Func.Finite
    decide +kernel
  obtain ⟨text, htext, hiff, _⟩ := reparse_iff accepted (List.mem_singleton_self _)
  exact ⟨accepted, finite, text, htext, hiff.mpr finite⟩

/-- A literal out of range is accepted, but the text of the function is not. -/
theorem overflow_not_reparsed :
    parseSource "fn f(a: f64[_]) \x7b\n    a = mul(a, 1e999)\n\x7d" = .ok [Sample.overflow] ∧
      Sample.overflow.text? = some "fn f(a: f64[_]) \x7b\n    a = mul(a, inf)\n\x7d" ∧
      parseSource "fn f(a: f64[_]) \x7b\n    a = mul(a, inf)\n\x7d" ≠ .ok [Sample.overflow] := by
  refine ⟨parseSource_of_toOption (by decide +kernel), by decide +kernel, fun h => ?_⟩
  have refused : (parseSource "fn f(a: f64[_]) \x7b\n    a = mul(a, inf)\n\x7d").toOption = none := by
    decide +kernel
  rw [h] at refused
  cases refused

end Source

end ArrayOffload
