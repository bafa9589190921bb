import ArrayOffload.Proofs.Tiling

/-!
# Taking tokens

The parts of the parser that have no loops. None gives a token back or takes the last one, and all that
they report has a place in the source. Some are sure to take a token, if it is one they look for.

* `Source.Reader.Sound`: the end of the file is still ahead, and all places are in the source;
* `Source.Steady`: what every part of the parser keeps;
* `Source.steady_eat` and so on: the parts, one by one.
-/

namespace ArrayOffload.Source

variable {α β : Type}

/-! ## Readers -/

/-- The end of the file is still ahead, and every place at hand lies in the source. -/
structure Reader.Sound (source : String) (r : Reader) : Prop where
  ends : ∃ others last, r.rest = others ++ [last] ∧ last.lexeme = .symbol .endOfFile
  tokens : ∀ token ∈ r.rest, token.span.Placed source
  previous : r.previous.Placed source
  problems : ∀ found ∈ r.problems, found.span.Placed source

/-- From a reader to a sound one with no more tokens left, and with fewer if one is taken. -/
structure Reader.Settles (source : String) (taken : Prop) (r s : Reader) : Prop where
  sound : s.Sound source
  length_le : s.rest.length ≤ r.rest.length
  length_lt : taken → s.rest.length < r.rest.length

theorem Span.Placed.merge {source : String} {a b : Span} (ha : a.Placed source)
    (hb : b.Placed source) : (a.merge b).Placed source where
  ordered := (Nat.min_le_left _ _).trans (ha.ordered.trans (Nat.le_max_left _ _))
  within := Nat.max_le.mpr ⟨ha.within, hb.within⟩
  start_valid := by
    rcases Nat.le_total a.start b.start with hle | hle
    · rw [Span.merge, Nat.min_eq_left hle]
      exact ha.start_valid
    · rw [Span.merge, Nat.min_eq_right hle]
      exact hb.start_valid
  stop_valid := by
    rcases Nat.le_total a.stop b.stop with hle | hle
    · rw [Span.merge, Nat.max_eq_right hle]
      exact hb.stop_valid
    · rw [Span.merge, Nat.max_eq_left hle]
      exact ha.stop_valid

namespace Reader

variable {source : String} {taken also : Prop} {r s u : Reader}

theorem Sound.exists_cons (h : r.Sound source) : ∃ rest, r.rest = r.current :: rest := by
  obtain ⟨others, last, hrest, -⟩ := h.ends
  unfold current
  cases others with
  | nil => exact ⟨[], by simp [hrest]⟩
  | cons token others => exact ⟨others ++ [last], by simp [hrest]⟩

theorem Sound.rest_ne_nil (h : r.Sound source) : r.rest.isEmpty = false := by
  obtain ⟨rest, hrest⟩ := h.exists_cons
  rw [hrest]
  rfl

theorem Sound.current_placed (h : r.Sound source) : r.current.span.Placed source := by
  obtain ⟨rest, hrest⟩ := h.exists_cons
  exact h.tokens _ (by simp [hrest])

/-- Only the end of the file is the last token. -/
theorem Sound.exists_next (h : r.Sound source) (hend : r.current.lexeme ≠ .symbol .endOfFile) :
    ∃ next rest, r.rest = r.current :: next :: rest := by
  obtain ⟨rest, hrest⟩ := h.exists_cons
  cases rest with
  | cons next rest => exact ⟨next, rest, hrest⟩
  | nil =>
    obtain ⟨others, last, hlast, heof⟩ := h.ends
    rw [hrest] at hlast
    obtain rfl : r.current = last := by
      simpa using congrArg List.getLast? hlast
    exact absurd heof hend

/-- The reader has other problems or another draft. -/
theorem Sound.settles (h : r.Sound source) (hrest : s.rest = r.rest)
    (hprevious : s.previous = r.previous)
    (hproblems : ∀ found ∈ s.problems, found.span.Placed source) : r.Settles source False s where
  sound := ⟨hrest ▸ h.ends, hrest ▸ h.tokens, hprevious ▸ h.previous, hproblems⟩
  length_le := Nat.le_of_eq (congrArg List.length hrest)
  length_lt := False.elim

theorem Sound.advance (h : r.Sound source) :
    r.Settles source (r.current.lexeme ≠ .symbol .endOfFile) r.advance := by
  obtain ⟨rest, hrest⟩ := h.exists_cons
  cases rest with
  | nil =>
    have hstay : r.advance = r := by simp only [Reader.advance, hrest]
    rw [hstay]
    refine ⟨h, le_rfl, fun hend => ?_⟩
    obtain ⟨next, rest, hnext⟩ := h.exists_next hend
    simp [hrest] at hnext
  | cons next rest =>
    have hmove : r.advance = { r with previous := r.current.span, rest := next :: rest } := by
      simp only [Reader.advance, hrest]
    obtain ⟨others, last, hlast, heof⟩ := h.ends
    have hends : ∃ others last, next :: rest = others ++ [last] ∧
        last.lexeme = .symbol .endOfFile := by
      rw [hrest] at hlast
      cases others with
      | nil => simp at hlast
      | cons token others => exact ⟨others, last, by simpa using (List.cons.inj hlast).2, heof⟩
    rw [hmove]
    exact
      { sound := ⟨hends, fun token htoken => h.tokens token (hrest ▸ .tail _ htoken),
          h.current_placed, h.problems⟩
        length_le := by simp [hrest]
        length_lt := fun _ => by simp [hrest] }

theorem isAt_iff {symbol : Symbol} : r.isAt symbol = true ↔ r.current.lexeme = .symbol symbol := by
  unfold isAt
  split
  · next s hs => simp [hs]
  · next hs => simpa using hs symbol

end Reader

/-! ## Work -/

/-- From a sound reader, work ends with a sound reader and a good value; it takes a token if `taken`
holds. -/
def Steady (source : String) (r : Reader) (work : Parser α) (taken : Prop) (good : α → Prop) :
    Prop :=
  r.Sound source → r.Settles source taken (work.run r).2 ∧ good (work.run r).1

namespace Steady

variable {source : String} {r : Reader} {work : Parser α} {next : α → Parser β}
  {taken also : Prop} {good : α → Prop} {better : β → Prop}

theorem weaken {weaker : α → Prop} (h : Steady source r work taken good) (htaken : also → taken)
    (hgood : ∀ a, good a → weaker a) : Steady source r work also weaker := fun hr =>
  have ⟨hsettles, ha⟩ := h hr
  ⟨⟨hsettles.sound, hsettles.length_le, hsettles.length_lt ∘ htaken⟩, hgood _ ha⟩

theorem given (h : r.Sound source → Steady source r work taken good) :
    Steady source r work taken good := fun hr => h hr hr

theorem pure {a : α} (ha : good a) : Steady source r (pure a) False good := fun hr =>
  ⟨⟨hr, le_rfl, False.elim⟩, ha⟩

/-- Two pieces of work, one of which takes a token if one is taken. -/
theorem bindOr (first : Steady source r work taken good)
    (second : ∀ a s, work.run r = (a, s) → good a → Steady source s (next a) also better) :
    Steady source r (work >>= next) (taken ∨ also) better := fun hr => by
  obtain ⟨hfirst, ha⟩ := first hr
  obtain ⟨hsecond, hb⟩ := second _ _ rfl ha hfirst.sound
  refine ⟨⟨hsecond.sound, hsecond.length_le.trans hfirst.length_le, ?_⟩, hb⟩
  rintro (htaken | halso)
  · exact hsecond.length_le.trans_lt (hfirst.length_lt htaken)
  · exact (hsecond.length_lt halso).trans_le hfirst.length_le

/-- The first piece takes the token. -/
theorem bind (first : Steady source r work taken good)
    (second : ∀ a s, good a → Steady source s (next a) False better) :
    Steady source r (work >>= next) taken better :=
  (first.bindOr fun a s _ => second a s).weaken .inl fun _ => id

/-- The first piece may take a token or not. -/
theorem before (first : Steady source r work taken good)
    (second : ∀ a s, good a → Steady source s (next a) False better) :
    Steady source r (work >>= next) False better :=
  (first.bind second).weaken False.elim fun _ => id

/-- A look at the reader. -/
theorem look {a : α} (hwork : work.run r = (a, r)) (h : Steady source r (next a) taken better) :
    Steady source r (work >>= next) taken better := fun hr => by
  have hrun : (work >>= next).run r = (next a).run r := by
    show (next (work.run r).1).run (work.run r).2 = _
    rw [hwork]
  rw [hrun]
  exact h hr

theorem ite {c : Prop} [Decidable c] {other : Parser α} (h : Steady source r work taken good)
    (hother : Steady source r other taken good) :
    Steady source r (if c then work else other) taken good := by
  split
  · exact h
  · exact hother

end Steady

section Primitives

variable {source : String} {r : Reader}

theorem steady_advance :
    Steady source r advance (r.current.lexeme ≠ .symbol .endOfFile) fun _ => True := fun hr =>
  ⟨hr.advance, trivial⟩

theorem steady_redraft (f : Reader → Func) :
    Steady source r (modify fun r => { r with draft := f r }) False fun _ => True := fun hr =>
  ⟨hr.settles rfl rfl hr.problems, trivial⟩

theorem steady_report {problem : Problem} {span : Span} (h : span.Placed source) :
    Steady source r (report problem span) False fun _ => True := fun hr =>
  ⟨hr.settles rfl rfl fun found hfound => by
    rcases List.mem_append.mp hfound with hold | hnew
    · exact hr.problems found hold
    · obtain rfl := List.mem_singleton.mp hnew
      exact h, trivial⟩

theorem steady_current : Steady source r current False fun token => token.span.Placed source :=
  fun hr => ⟨⟨hr, le_rfl, False.elim⟩, hr.current_placed⟩

theorem steady_previous :
    Steady source r get False fun r => r.previous.Placed source := fun hr =>
  ⟨⟨hr, le_rfl, False.elim⟩, hr.previous⟩

theorem steady_reportHere {problem : String → Problem} :
    Steady source r (reportHere problem) False fun _ => True :=
  steady_current.bind fun _ _ hspan => steady_report hspan

theorem steady_eat {symbol : Symbol} : Steady source r (eat symbol)
    (r.current.lexeme = .symbol symbol ∧ symbol ≠ .endOfFile) fun _ => True := by
  refine .look (rfl : (isAt symbol).run r = (r.isAt symbol, r)) ?_
  by_cases hat : r.isAt symbol = true
  · rw [if_pos hat]
    refine (steady_advance.bind fun _ _ _ => .pure trivial).weaken ?_ fun _ => id
    rintro ⟨hlexeme, hsymbol⟩ hend
    exact hsymbol (Lexeme.symbol.inj (hlexeme.symm.trans hend))
  · rw [if_neg hat]
    exact (Steady.pure trivial).weaken (fun h => hat (Reader.isAt_iff.mpr h.1)) fun _ => id

theorem steady_expect {symbol : Symbol} : Steady source r (expect symbol)
    (r.current.lexeme = .symbol symbol ∧ symbol ≠ .endOfFile) (Span.Placed · source) := by
  refine .given fun hr => .look (rfl : current.run r = (r.current, r)) ?_
  have hspan := hr.current_placed
  exact steady_eat.bind fun _ _ _ =>
    .ite (.pure hspan) (steady_reportHere.bind fun _ _ _ => .pure hspan)

theorem steady_expectIdent : Steady source r expectIdent (∃ name, r.current.lexeme = .ident name)
    fun name => name.span.Placed source := by
  refine .given fun hr => .look (rfl : current.run r = (r.current, r)) ?_
  have hspan := hr.current_placed
  cases hlexeme : r.current.lexeme with
  | ident name =>
    refine (steady_advance.bind fun _ _ _ => .pure hspan).weaken (fun _ => ?_) fun _ => id
    simp [hlexeme]
  | _ => exact (steady_reportHere.bind fun _ _ _ => .pure hspan).weaken (by simp) fun _ => id

theorem steady_expectInteger : Steady source r expectInteger False fun _ => True := by
  refine .look (rfl : current.run r = (r.current, r)) ?_
  cases r.current.lexeme with
  | integer value => exact steady_advance.before fun _ _ _ => .pure trivial
  | _ => exact steady_reportHere.bind fun _ _ _ => .pure trivial

theorem steady_expectScalar : Steady source r expectScalar False fun _ => True := by
  refine .look (rfl : current.run r = (r.current, r)) ?_
  cases r.current.lexeme with
  | integer value => exact steady_advance.before fun _ _ _ => .pure trivial
  | number value => exact steady_advance.before fun _ _ _ => .pure trivial
  | _ => exact steady_reportHere.bind fun _ _ _ => .pure trivial

theorem steady_reportUnknown {name : Located String} (h : name.span.Placed source) :
    Steady source r (reportUnknown name) False fun _ => True :=
  .look (rfl : (get : Parser Reader).run r = (r, r)) (steady_report h)

theorem steady_resolve {name : Located String} (h : name.span.Placed source) :
    Steady source r (resolve name) False fun _ => True := by
  refine .look (rfl : (get : Parser Reader).run r = (r, r)) ?_
  cases r.draft.lookup? name.value with
  | some id => exact .pure trivial
  | none =>
    dsimp only
    split
    · exact (steady_reportUnknown h).bind fun _ _ _ => .pure trivial
    · exact .pure trivial

theorem steady_declareAs {name : Located String} (h : name.span.Placed source)
    (add : Func → ArrayId × Func) : Steady source r (declareAs name add) False fun _ => True :=
  .look (rfl : (get : Parser Reader).run r = (r, r)) (.ite (steady_report h) (steady_redraft _))

theorem steady_addOp (op : Op) : Steady source r (addOp op) False fun _ => True :=
  steady_redraft _

theorem steady_parseElem : Steady source r parseElem False fun _ => True := by
  refine steady_expectIdent.before fun word _ hspan => ?_
  cases Elem.ofName? word.value with
  | some elem => exact .pure trivial
  | none => exact (steady_report hspan).bind fun _ _ _ => .pure trivial

theorem steady_parseArray : Steady source r parseArray (∃ name, r.current.lexeme = .ident name)
    fun _ => True :=
  steady_expectIdent.bind fun _ _ hspan => steady_resolve hspan

theorem steady_parseOperand : Steady source r parseOperand False fun _ => True := by
  refine .look (rfl : current.run r = (r.current, r)) ?_
  cases r.current.lexeme with
  | ident name => exact steady_parseArray.before fun _ _ _ => .pure trivial
  | _ => exact steady_expectScalar.bind fun _ _ _ => .pure trivial

theorem steady_parseFold (make : FoldOp → ArrayId → Op) :
    Steady source r (parseFold make) False fun _ => True := by
  refine steady_expectIdent.before fun word _ hspan => steady_expect.before fun _ _ _ => ?_
  cases FoldOp.ofName? word.value with
  | none => exact steady_report hspan
  | some op =>
    refine steady_expectIdent.before fun _ _ hinput => steady_expect.before fun _ _ _ =>
      (steady_resolve hinput).bind fun input _ _ => ?_
    cases input with
    | none => exact .pure trivial
    | some id => exact steady_addOp _

theorem steady_parseStore (array : ArrayId) :
    Steady source r (parseStore array) False fun _ => True :=
  steady_expectInteger.bind fun _ _ _ => steady_expect.before fun _ _ _ =>
    steady_expect.before fun _ _ _ => steady_expectScalar.bind fun _ _ _ => steady_addOp _

theorem steady_parseAttribute : Steady source r parseAttribute
    (r.current.lexeme = .symbol .hash) fun _ => True := by
  refine (steady_expect.weaken (fun h => ⟨h, by decide⟩) fun _ => id).bind fun _ _ hstart =>
    steady_expect.before fun _ _ _ => steady_expectIdent.before fun name _ _ =>
    steady_expect.before fun _ _ _ => .ite (steady_redraft _) ?_
  exact steady_previous.bind fun _ _ hprevious => steady_report (hstart.merge hprevious)

theorem steady_parseReturned : Steady source r parseReturned False fun returned =>
    ∀ name ∈ returned, name.span.Placed source := by
  refine steady_eat.before fun _ _ _ => .ite ?_ (.pure (by simp))
  exact steady_expectIdent.before fun name _ hspan => .pure (by simpa using hspan)

theorem steady_setReturn {name : Located String} (h : name.span.Placed source) :
    Steady source r (setReturn name) False fun _ => True := by
  refine .look (rfl : (get : Parser Reader).run r = (r, r)) ?_
  cases r.draft.lookup? name.value with
  | some id => exact steady_redraft _
  | none => exact steady_reportUnknown h

theorem steady_finishFunc {mark : Nat} {span : Span} (h : span.Placed source) :
    Steady source r (finishFunc mark span) False fun _ => True := by
  refine .look (rfl : (get : Parser Reader).run r = (r, r)) (.ite (.pure trivial) ?_)
  cases r.draft.build with
  | ok f => exact .pure trivial
  | error cause => exact (steady_report h).bind fun _ _ _ => .pure trivial

end Primitives

end ArrayOffload.Source
