import ArrayOffload.Proofs.Faithful

/-!
# Layout does not matter

Spaces, line breaks and comments decide where the parser goes on after a problem, and nothing else.
Two readings of the same lexemes go hand in hand until one of them finds a problem, and then the
other one finds a problem too. Problems are never taken back, so what happens afterwards cannot
make either text acceptable.

* `Source.Reader.Alike`: readers that differ in layout only;
* `Source.Blind`: work that both readers do alike, with a rule for sequences;
* `Source.blind_statementsWithin`, `Source.blind_parseFunc`: the places where the parser looks at
  the layout are out of reach while nothing is wrong;
* `Source.parseTokens_of_lexemes`, `Source.parse_of_layout`: texts with the same lexemes.
-/

namespace ArrayOffload.Source

/-- The readers stand before the same lexemes with the same draft, and nothing is wrong so far. -/
structure Reader.Alike (r s : Reader) : Prop where
  rest_eq : r.rest.map (·.lexeme) = s.rest.map (·.lexeme)
  draft_eq : r.draft = s.draft
  left : r.problems = []
  right : s.problems = []

variable {α β κ ι : Type}

/-- Problems are not taken back. -/
def Lasting (work : Parser α) : Prop := ∀ r : Reader, (work.run r).2.problems = [] → r.problems = []

/-- There is a problem in the end. -/
def Fails (work : Parser α) : Prop := ∀ r : Reader, (work.run r).2.problems ≠ []

/-- From readers that differ in layout only, both find a problem or neither does. If neither does,
the results have the same key and the readers still differ in layout only. -/
structure Blind (key : α → κ) (work other : Parser α) : Prop where
  left : Lasting work
  right : Lasting other
  agree : ∀ r s : Reader, r.Alike s →
    ((work.run r).2.problems ≠ [] ∧ (other.run s).2.problems ≠ []) ∨
      ((work.run r).2.Alike (other.run s).2 ∧ key (work.run r).1 = key (other.run s).1)

theorem Lasting.bind {work : Parser α} {next : α → Parser β} (first : Lasting work)
    (second : ∀ a, Lasting (next a)) : Lasting (work >>= next) :=
  fun r hend => first r (second _ _ hend)

theorem Fails.bind {work : Parser α} {next : α → Parser β} (first : Fails work)
    (second : ∀ a, Lasting (next a)) : Fails (work >>= next) :=
  fun r hend => first r (second _ _ hend)

theorem Derives.lasting {work : Parser α} {post : α → Func → List Lexeme → Prop}
    (h : Derives (fun _ _ => True) work post) : Lasting work := fun r hend => (h r hend).1

/-- Nothing that ends without a problem is left to show. -/
theorem Fails.blind {key : α → κ} {work other : Parser α} (left : Fails work)
    (right : Fails other) : Blind key work other where
  left r hend := absurd hend (left r)
  right r hend := absurd hend (right r)
  agree r s _ := .inl ⟨left r, right s⟩

theorem lasting_pure (a : α) : Lasting (pure a) := fun _ hend => hend

/-- A problem, and then a stand-in for what was not read. -/
theorem Fails.blind_return {key : α → κ} {work other : Parser β} (left : Fails work)
    (right : Fails other) (a b : α) : Blind key (work >>= fun _ => pure a)
      (other >>= fun _ => pure b) :=
  (left.bind fun _ => lasting_pure a).blind (right.bind fun _ => lasting_pure b)

namespace Blind

variable {key : α → κ} {key' : β → ι} {work other : Parser α} {next next' : α → Parser β}

theorem pure {a b : α} (h : key a = key b) : Blind key (Pure.pure a) (Pure.pure b) where
  left _ hend := hend
  right _ hend := hend
  agree _ _ halike := .inr ⟨halike, h⟩

theorem bind (first : Blind key work other)
    (second : ∀ a b, key a = key b → Blind key' (next a) (next' b)) :
    Blind key' (work >>= next) (other >>= next') where
  left := first.left.bind fun a => (second a a rfl).left
  right := first.right.bind fun a => (second a a rfl).right
  agree r s halike := by
    rcases first.agree r s halike with ⟨hleft, hright⟩ | ⟨halike', hkey⟩
    · refine .inl ⟨fun hend => hleft ?_, fun hend => hright ?_⟩
      · exact (second _ _ rfl).left _ hend
      · exact (second _ _ rfl).right _ hend
    · exact (second _ _ hkey).agree _ _ halike'

/-- Work with the same result for both. -/
theorem before (first : Blind id work other) (second : ∀ a, Blind key' (next a) (next' a)) :
    Blind key' (work >>= next) (other >>= next') := by
  refine first.bind fun a b hab => ?_
  obtain rfl : a = b := hab
  exact second a

/-- A result that is not used, such as a place. -/
theorem past (first : Blind (fun _ => ()) work other)
    (second : ∀ a b, Blind key' (next a) (next' b)) :
    Blind key' (work >>= next) (other >>= next') :=
  first.bind fun a b _ => second a b

theorem ite {c : Prop} [Decidable c] {yes yes' no no' : Parser α} (hyes : Blind key yes yes')
    (hno : Blind key no no') : Blind key (if c then yes else no) (if c then yes' else no') := by
  split
  · exact hyes
  · exact hno

/-- A look at the reader. -/
theorem look {next next' : Reader → Parser β} (left : ∀ r, Lasting (next r))
    (right : ∀ r, Lasting (next' r))
    (h : ∀ r s, r.Alike s → Blind key' (next r) (next' s)) :
    Blind key' (get >>= next) (get >>= next') where
  left r := left r r
  right r := right r r
  agree r s halike := (h r s halike).agree r s halike

/-- A look at something that does not depend on the layout. -/
theorem get {key : Reader → κ} (h : ∀ r s, r.Alike s → key r = key s) :
    Blind key MonadState.get MonadState.get where
  left _ hend := hend
  right _ hend := hend
  agree r s halike := .inr ⟨halike, h r s halike⟩

theorem redraft (change : Func → Func) :
    Blind id (modify fun r => { r with draft := change r.draft } : Parser Unit)
      (modify fun r => { r with draft := change r.draft }) where
  left _ hend := hend
  right _ hend := hend
  agree _ _ halike :=
    .inr ⟨⟨halike.rest_eq, congrArg change halike.draft_eq, halike.left, halike.right⟩, rfl⟩

end Blind

/-! ## Single tokens -/

theorem fails_report (problem : Problem) (span : Span) : Fails (report problem span) :=
  fun r => List.append_ne_nil_of_right_ne_nil r.problems (List.cons_ne_nil _ _)

theorem fails_reportHere (problem : String → Problem) : Fails (reportHere problem) :=
  fun r => fails_report _ _ r

theorem Reader.Alike.lexeme_eq {r s : Reader} (h : r.Alike s) :
    r.current.lexeme = s.current.lexeme := by
  have hrest := h.rest_eq
  unfold Reader.current
  cases hr : r.rest with
  | nil =>
    rw [hr] at hrest
    rw [List.map_eq_nil_iff.mp hrest.symm]
    rfl
  | cons token tokens =>
    cases hs : s.rest with
    | nil => simp [hr, hs] at hrest
    | cons token' tokens' =>
      rw [hr, hs] at hrest
      exact (List.cons.inj hrest).1

theorem Reader.Alike.advance {r s : Reader} (h : r.Alike s) : r.advance.Alike s.advance := by
  have hrest := h.rest_eq
  have hlength : r.rest.length = s.rest.length := by simpa using congrArg List.length hrest
  unfold Reader.advance
  split
  · next token next rest hr =>
    split
    · next token' next' rest' hs =>
      rw [hr, hs] at hrest
      exact ⟨(List.cons.inj hrest).2, h.draft_eq, h.left, h.right⟩
    · next hs =>
      -- readers before the same lexemes have a next token both or neither
      rw [hr] at hlength
      match hrest' : s.rest with
      | [] | [_] => simp [hrest'] at hlength
      | token' :: next' :: rest' => exact absurd hrest' (hs token' next' rest')
  · next hr =>
    split
    · next token' next' rest' hs =>
      rw [hs] at hlength
      match hrest' : r.rest with
      | [] | [_] => simp [hrest'] at hlength
      | token :: next :: rest => exact absurd hrest' (hr token next rest)
    · exact h

theorem blind_current : Blind Token.lexeme current current where
  left _ hend := hend
  right _ hend := hend
  agree _ _ halike := .inr ⟨halike, halike.lexeme_eq⟩

theorem blind_advance : Blind id advance advance where
  left r hend := r.problems_advance.symm.trans hend
  right r hend := r.problems_advance.symm.trans hend
  agree _ _ halike := .inr ⟨halike.advance, rfl⟩

theorem blind_isAt (symbol : Symbol) : Blind id (isAt symbol) (isAt symbol) where
  left _ hend := hend
  right _ hend := hend
  agree r s halike := by
    refine .inr ⟨halike, ?_⟩
    show r.isAt symbol = s.isAt symbol
    unfold Reader.isAt
    rw [halike.lexeme_eq]

theorem blind_eat (symbol : Symbol) : Blind id (eat symbol) (eat symbol) :=
  (blind_isAt symbol).before fun _ =>
    .ite (blind_advance.before fun _ => .pure rfl) (.pure rfl)

theorem blind_expect (symbol : Symbol) : Blind (fun _ => ()) (expect symbol) (expect symbol) := by
  refine blind_current.bind fun token token' _ => (blind_eat symbol).before fun _ =>
    .ite (.pure rfl) ?_
  exact (fails_reportHere _).blind_return (fails_reportHere _) _ _

/-- A place is no part of what was read. -/
theorem blind_expectIdent : Blind Located.value expectIdent expectIdent := by
  refine blind_current.bind fun token token' htoken => ?_
  rw [htoken]
  split
  · exact blind_advance.before fun _ => .pure rfl
  · exact (fails_reportHere _).blind_return (fails_reportHere _) _ _

theorem blind_expectInteger : Blind id expectInteger expectInteger := by
  refine blind_current.bind fun token token' htoken => ?_
  rw [htoken]
  split
  · exact blind_advance.before fun _ => .pure rfl
  · exact (fails_reportHere _).blind_return (fails_reportHere _) _ _

theorem blind_expectScalar : Blind id expectScalar expectScalar := by
  refine blind_current.bind fun token token' htoken => ?_
  rw [htoken]
  split
  · exact blind_advance.before fun _ => .pure rfl
  · exact blind_advance.before fun _ => .pure rfl
  · exact (fails_reportHere _).blind_return (fails_reportHere _) _ _

/-! ## Loops -/

theorem Reader.Alike.length_rest {r s : Reader} (h : r.Alike s) :
    r.rest.length = s.rest.length := by
  simpa using congrArg List.length h.rest_eq

theorem blind_itemsWithin {item : Parser Unit} (h : Blind id item item) (close : Symbol)
    (rounds : Nat) :
    Blind id (itemsWithin close item rounds) (itemsWithin close item rounds) := by
  induction rounds with
  | zero => exact .pure rfl
  | succ rounds ih =>
    refine (blind_isAt close).before fun _ => (blind_isAt .endOfFile).before fun _ => ?_
    refine .ite (.pure rfl) (h.before fun _ => (blind_eat .comma).before fun _ => ?_)
    exact .ite ih (.pure rfl)

theorem blind_collectWithin {item : Parser (Option α)} (h : Blind id item item) (close : Symbol)
    (rounds : Nat) :
    Blind id (collectWithin close item rounds) (collectWithin close item rounds) := by
  induction rounds with
  | zero => exact .pure rfl
  | succ rounds ih =>
    refine (blind_isAt close).before fun _ => (blind_isAt .endOfFile).before fun _ => ?_
    refine .ite (.pure rfl) (h.before fun found => (blind_eat .comma).before fun _ => ?_)
    exact .ite (ih.before fun later => .pure rfl) (.pure rfl)

theorem blind_length : Blind (fun r : Reader => r.rest.length) MonadState.get MonadState.get :=
  .get fun _ _ halike => halike.length_rest

theorem blind_items {item : Parser Unit} (h : Blind id item item) (close : Symbol) :
    Blind id (items close item) (items close item) :=
  blind_length.bind fun _ _ hlength => hlength ▸ blind_itemsWithin h close _

theorem blind_collect {item : Parser (Option α)} (h : Blind id item item) (close : Symbol) :
    Blind id (collect close item) (collect close item) :=
  blind_length.bind fun _ _ hlength => hlength ▸ blind_collectWithin h close _

/-! ## Names -/

theorem blind_draft : Blind Reader.draft MonadState.get MonadState.get :=
  .get fun _ _ halike => halike.draft_eq

theorem fails_reportUnknown (name : Located String) : Fails (reportUnknown name) :=
  fun r => fails_report _ _ r

theorem blind_resolve {name name' : Located String} (h : name.value = name'.value) :
    Blind id (resolve name) (resolve name') := by
  refine blind_draft.bind fun r s hdraft => ?_
  rw [hdraft, h]
  split
  · exact .pure rfl
  · refine .ite ?_ (.pure rfl)
    exact (fails_reportUnknown name).blind_return (fails_reportUnknown name') _ _

theorem blind_declareAs {name name' : Located String} (h : name.value = name'.value)
    (add : Func → ArrayId × Func) : Blind id (declareAs name add) (declareAs name' add) := by
  refine blind_draft.bind fun r s hdraft => ?_
  rw [hdraft, h]
  exact .ite ((fails_report _ _).blind (fails_report _ _)) (.redraft fun draft => (add draft).2)

theorem blind_addOp (op : Op) : Blind id (addOp op) (addOp op) := .redraft (·.push op)

theorem blind_parseElem : Blind id parseElem parseElem := by
  refine blind_expectIdent.bind fun word word' hword => ?_
  rw [hword]
  split
  · exact .pure rfl
  · exact (fails_report _ _).blind_return (fails_report _ _) _ _

/-! ## Statements -/

theorem blind_parseArray : Blind id parseArray parseArray :=
  blind_expectIdent.bind fun _ _ hname => blind_resolve hname

theorem blind_parseArrays : Blind id parseArrays parseArrays :=
  (blind_expect _).past fun _ _ => (blind_collect blind_parseArray _).before fun _ =>
    (blind_expect _).past fun _ _ => .pure rfl

theorem blind_parseLet : Blind id parseLet parseLet := by
  refine (blind_expect _).past fun _ _ => blind_expectIdent.bind fun name name' hname =>
    (blind_expect _).past fun _ _ => blind_parseElem.before fun elem =>
    (blind_eat _).before fun _ => .ite ?_ ((blind_eat _).before fun _ => .ite ?_ ?_)
  · refine blind_parseArray.before fun source => ?_
    rw [hname]
    cases source with
    | some source => exact blind_declareAs hname _
    | none => exact .pure rfl
  · have hdim : Blind id (some <$> expectInteger) (some <$> expectInteger) :=
      blind_expectInteger.before fun _ => .pure rfl
    refine (blind_collect hdim _).before fun dims => (blind_expect _).past fun _ _ => ?_
    rw [hname]
    exact .ite ((fails_report _ _).blind (fails_report _ _)) (blind_declareAs hname _)
  · exact (fails_reportHere _).blind (fails_reportHere _)

theorem blind_parseCall : Blind id parseCall parseCall := by
  refine (blind_expect _).past fun _ _ => blind_expectIdent.bind fun callee callee' hcallee =>
    blind_parseArrays.before fun reads => (blind_eat _).before fun _ => ?_
  rw [hcallee]
  exact .ite (blind_parseArrays.before fun _ => blind_addOp _) (blind_addOp _)

theorem blind_parseOperand : Blind id parseOperand parseOperand := by
  refine blind_current.bind fun token token' htoken => ?_
  rw [htoken]
  split
  · exact blind_parseArray.before fun _ => .pure rfl
  · exact blind_expectScalar.before fun _ => .pure rfl

theorem blind_parseFold (make : FoldOp → ArrayId → Op) :
    Blind id (parseFold make) (parseFold make) := by
  refine blind_expectIdent.bind fun word word' hword => (blind_expect _).past fun _ _ => ?_
  rw [hword]
  split
  · exact (fails_report _ _).blind (fails_report _ _)
  · refine blind_expectIdent.bind fun input input' hinput => (blind_expect _).past fun _ _ =>
      (blind_resolve hinput).before fun found => ?_
    cases found with
    | some input => exact blind_addOp _
    | none => exact .pure rfl

theorem blind_parseMap (out : ArrayId) : Blind id (parseMap out) (parseMap out) := by
  refine blind_expectIdent.bind fun word word' hword => (blind_expect _).past fun _ _ => ?_
  rw [hword]
  split
  · exact (fails_report _ _).blind (fails_report _ _)
  · exact (blind_collect blind_parseOperand _).before fun _ => (blind_expect _).past fun _ _ =>
      blind_addOp _

theorem blind_parseStore (array : ArrayId) : Blind id (parseStore array) (parseStore array) :=
  blind_expectInteger.before fun _ => (blind_expect _).past fun _ _ =>
    (blind_expect _).past fun _ _ => blind_expectScalar.before fun _ => blind_addOp _

theorem blind_parseAssign : Blind id parseAssign parseAssign := by
  refine blind_parseArray.before fun found => ?_
  cases found with
  | none => exact .pure rfl
  | some target =>
    refine (blind_eat _).before fun _ => .ite (blind_parseStore target) ?_
    refine (blind_expect _).past fun _ _ => (blind_eat _).before fun _ =>
      .ite (blind_parseFold _) ?_
    exact (blind_eat _).before fun _ => .ite (blind_parseFold _) (blind_parseMap target)

theorem blind_parseStatement : Blind id parseStatement parseStatement := by
  refine blind_current.bind fun token token' htoken => ?_
  rw [htoken]
  split
  · exact blind_parseLet
  · exact blind_advance.before fun _ => blind_parseArrays.before fun _ => blind_addOp _
  · exact blind_parseCall
  · exact blind_parseAssign
  · exact Fails.blind ((fails_reportHere _).bind fun _ => blind_advance.left)
      ((fails_reportHere _).bind fun _ => blind_advance.left)

theorem lasting_skipTo (stop : Token → Bool) : Lasting (skipTo stop) := fun _ hend => hend

theorem blind_mark :
    Blind (fun r : Reader => r.problems.length) MonadState.get MonadState.get :=
  .get fun r s halike => by rw [halike.left, halike.right]

/-- The line starts are looked at only after a problem. -/
theorem blind_statementsWithin (rounds : Nat) :
    Blind id (statementsWithin rounds) (statementsWithin rounds) := by
  induction rounds with
  | zero => exact .pure rfl
  | succ rounds ih =>
    refine (blind_isAt _).before fun _ => (blind_isAt _).before fun _ => .ite (.pure rfl) ?_
    refine blind_mark.bind fun start start' hstart => blind_parseStatement.before fun _ =>
      (blind_eat _).before fun _ => ?_
    have hlasting : ∀ mark : Nat, ∀ r : Reader, Lasting (if mark < r.problems.length then do
        skipToStatement
        statementsWithin rounds
        else statementsWithin rounds) := by
      intro mark r
      split
      · exact (lasting_skipTo _).bind fun _ => ih.left
      · exact ih.left
    rw [hstart]
    refine .look (hlasting _) (hlasting _) fun r s halike => ?_
    rw [halike.left, halike.right]
    exact ih

/-! ## Functions -/

theorem blind_parseParam : Blind id parseParam parseParam := by
  have hdim : Blind id (do
      let dim ← expectIdent
      if dim.value ≠ "_" then report (.paramDimension dim.value) dim.span
      return some ()) (do
      let dim ← expectIdent
      if dim.value ≠ "_" then report (.paramDimension dim.value) dim.span
      return some ()) := by
    refine blind_expectIdent.bind fun dim dim' hdim => ?_
    rw [hdim]
    exact .ite ((fails_report _ _).blind_return (fails_report _ _) _ _) (.pure rfl)
  refine blind_expectIdent.bind fun name name' hname => (blind_expect _).past fun _ _ =>
    blind_parseElem.before fun elem => (blind_expect _).past fun _ _ =>
    (blind_collect hdim _).before fun dims => (blind_expect _).past fun _ _ => ?_
  rw [hname]
  exact blind_declareAs hname _

theorem blind_parseAttribute : Blind id parseAttribute parseAttribute := by
  refine (blind_expect _).past fun start start' => (blind_expect _).past fun _ _ =>
    blind_expectIdent.bind fun name name' hname => (blind_expect _).past fun _ _ => ?_
  rw [hname]
  exact .ite (.redraft fun draft => { draft with serialOnly := true })
    (Fails.blind (fun r => fails_report _ _ r) fun r => fails_report _ _ r)

theorem blind_attributesWithin (rounds : Nat) :
    Blind id (attributesWithin rounds) (attributesWithin rounds) := by
  induction rounds with
  | zero => exact .pure rfl
  | succ rounds ih =>
    exact (blind_isAt _).before fun _ => .ite (blind_parseAttribute.before fun _ => ih) (.pure rfl)

theorem blind_parseReturned :
    Blind (Option.map Located.value) parseReturned parseReturned :=
  (blind_eat _).before fun _ =>
    .ite (blind_expectIdent.bind fun _ _ hname => .pure (congrArg some hname)) (.pure rfl)

theorem blind_setReturn {name name' : Located String} (h : name.value = name'.value) :
    Blind id (setReturn name) (setReturn name') := by
  refine blind_draft.bind fun r s hdraft => ?_
  rw [hdraft, h]
  split
  · exact .redraft fun draft => { draft with returns := some _ }
  · exact (fails_reportUnknown name).blind (fails_reportUnknown name')

/-- While nothing is wrong, the draft alone decides. -/
theorem run_finishFunc (mark : Nat) (span : Span) {r : Reader} (h : r.problems = []) :
    (finishFunc mark span).run r = match r.draft.build with
      | .ok f => (some f, r)
      | .error cause => (none, r.report (.rejected cause) span) := by
  show (if mark < r.problems.length then _ else _ : Parser _).run r = _
  rw [if_neg (by rw [h]; exact Nat.not_lt_zero mark)]
  cases r.draft.build <;> rfl

theorem blind_finishFunc (mark : Nat) (span span' : Span) :
    Blind id (finishFunc mark span) (finishFunc mark span') where
  left := (derives_finishFunc mark span).lasting
  right := (derives_finishFunc mark span').lasting
  agree r s halike := by
    rw [run_finishFunc mark span halike.left, run_finishFunc mark span' halike.right,
      halike.draft_eq]
    cases s.draft.build with
    | ok f => exact .inr ⟨halike, rfl⟩
    | error cause => exact .inl ⟨fails_report _ span r, fails_report _ span' s⟩

theorem blind_parseFunc : Blind id parseFunc parseFunc := by
  refine blind_current.bind fun start start' _ => blind_mark.bind fun mark mark' hmark =>
    (Blind.redraft fun _ => Func.empty "").before fun _ => blind_length.bind fun r s hlength => ?_
  rw [hlength, hmark]
  refine (blind_attributesWithin _).before fun _ => (blind_expect _).past fun _ _ =>
    blind_expectIdent.bind fun name name' hname => ?_
  rw [hname]
  refine (Blind.redraft fun draft => { draft with name := name'.value }).before fun _ =>
    (blind_expect _).past fun _ _ => (blind_items blind_parseParam _).before fun _ =>
    (blind_expect _).past fun _ _ => blind_parseReturned.bind fun returned returned' hreturned =>
    (blind_eat _).before fun _ => .ite ?_ ?_
  · refine blind_length.bind fun r s hlength => ?_
    rw [hlength]
    refine (blind_statementsWithin _).before fun _ => (blind_expect _).past fun _ _ =>
      blind_draft.bind fun r s _ => ?_
    match returned, returned', hreturned with
    | none, none, _ => exact blind_finishFunc _ _ _
    | some name, some name', hname =>
      exact (blind_setReturn (Option.some.inj hname)).before fun _ => blind_finishFunc _ _ _
  · have hskip : Fails (do
        reportHere (.expected Symbol.leftBrace.description)
        skipToItem
        return (none : Option Func)) :=
      (fails_reportHere _).bind fun _ => (lasting_skipTo _).bind fun _ => lasting_pure none
    exact hskip.blind hskip

theorem blind_funcsWithin (rounds : Nat) : Blind id (funcsWithin rounds) (funcsWithin rounds) := by
  induction rounds with
  | zero => exact .pure rfl
  | succ rounds ih =>
    refine (blind_isAt _).before fun _ => .ite (.pure rfl) ((blind_isAt _).before fun _ =>
      (blind_isAt _).before fun _ => .ite ?_ ?_)
    · exact blind_parseFunc.before fun f => ih.before fun later => .pure rfl
    · have hskip : Fails (do
          reportHere .expectedItem
          advance
          skipToItem
          funcsWithin rounds) :=
        (fails_reportHere _).bind fun _ => blind_advance.left.bind fun _ =>
          (lasting_skipTo _).bind fun _ => ih.left
      exact hskip.blind hskip

/-! ## Whole texts -/

theorem parseTokens_ok_iff {tokens : List Token} {funcs : List Func} :
    parseTokens tokens = .ok funcs ↔
      ((funcsWithin tokens.length).run ⟨Span.empty, tokens, [], Func.empty ""⟩).2.problems = [] ∧
      ((funcsWithin tokens.length).run ⟨Span.empty, tokens, [], Func.empty ""⟩).1 = funcs := by
  simp only [parseTokens, List.isEmpty_iff]
  split
  · next hclean => simp [hclean]
  · next hproblems => simp [hproblems]

theorem parseTokens_of_lexemes {tokens others : List Token}
    (h : tokens.map (·.lexeme) = others.map (·.lexeme)) (funcs : List Func) :
    parseTokens tokens = .ok funcs ↔ parseTokens others = .ok funcs := by
  have hlength : tokens.length = others.length := by simpa using congrArg List.length h
  have halike : Reader.Alike ⟨Span.empty, tokens, [], Func.empty ""⟩
      ⟨Span.empty, others, [], Func.empty ""⟩ := ⟨h, rfl, rfl, rfl⟩
  rw [parseTokens_ok_iff, parseTokens_ok_iff, hlength]
  rcases (blind_funcsWithin others.length).agree _ _ halike with ⟨hleft, hright⟩ | ⟨hend, hfuncs⟩
  · exact iff_of_false (fun hok => hleft hok.1) fun hok => hright hok.1
  · have hfuncs : (StateT.run (funcsWithin others.length) _).1 =
        (StateT.run (funcsWithin others.length) _).1 := hfuncs
    rw [hfuncs, and_iff_right hend.left, and_iff_right hend.right]

/-- The texts have the same lexemes, and what is no lexeme stands in both or in neither. -/
structure SameLexemes (source other : String) : Prop where
  lexemes : (tokenize source).1.map (·.lexeme) = (tokenize other).1.map (·.lexeme)
  problems : (tokenize source).2 = [] ↔ (tokenize other).2 = []

theorem parseSource_ok_iff {source : String} {funcs : List Func} :
    parseSource source = .ok funcs ↔
      (tokenize source).2 = [] ∧ parseTokens (tokenize source).1 = .ok funcs := by
  refine ⟨parseSource_ok, fun ⟨hclean, hparse⟩ => ?_⟩
  simp only [parseSource, hclean, List.isEmpty_nil, if_true]
  exact hparse

/-- Tokens with the same lexemes, and texts with the same lexemes, are accepted as the same
functions, or neither is accepted. -/
theorem parse_of_layout :
    (∀ tokens others : List Token, tokens.map (·.lexeme) = others.map (·.lexeme) →
      ∀ funcs, parseTokens tokens = .ok funcs ↔ parseTokens others = .ok funcs) ∧
    ∀ source other : String, SameLexemes source other →
      ∀ funcs, parseSource source = .ok funcs ↔ parseSource other = .ok funcs := by
  refine ⟨fun tokens others h => parseTokens_of_lexemes h, fun source other same funcs => ?_⟩
  rw [parseSource_ok_iff, parseSource_ok_iff, same.problems, parseTokens_of_lexemes same.lexemes]

end ArrayOffload.Source

namespace ArrayOffload.Sample

def echo : String := "fn f(a: f64[_]) \x7b a = neg(a) print(a) \x7d"

/-- The same over many lines, with comments. -/
def echoLines : String :=
  "// echo\nfn\nf(a: f64[\n_])\x7b\n a = // it\n neg(a)\n print(\n\na) \x7d\n"

def echoFunc : Func where
  name := "f"
  arrays := [⟨"a", .f64, 1, .param, .param 0⟩]
  params := [0]
  body := [.map 0 .neg [.array 0], .print [0]]
  returns := none
  serialOnly := false

/-- Two bad statements. On one line the second is skipped after the first. -/
def faulty : String := "fn f() \x7b b = 1 c = 2 \x7d"

def faultyLines : String := "fn f() \x7b\n b = 1\n c = 2 \x7d"

def problemsIn (source : String) : List Source.Diagnostic :=
  match Source.parseSource source with
  | .ok _ => []
  | .error problems => problems

end ArrayOffload.Sample

namespace ArrayOffload.Source

theorem parse_of_layout_sample :
    SameLexemes Sample.echo Sample.echoLines ∧
      parseSource Sample.echo = .ok [Sample.echoFunc] ∧
      parseSource Sample.echoLines = .ok [Sample.echoFunc] ∧
    SameLexemes Sample.faulty Sample.faultyLines ∧
      (Sample.problemsIn Sample.faulty).length = 1 ∧
      (Sample.problemsIn Sample.faultyLines).length = 2 := by
  have hecho : SameLexemes Sample.echo Sample.echoLines :=
    ⟨by decide +kernel, iff_of_true (by decide +kernel) (by decide +kernel)⟩
  have hfaulty : SameLexemes Sample.faulty Sample.faultyLines :=
    ⟨by decide +kernel, iff_of_true (by decide +kernel) (by decide +kernel)⟩
  have haccepted : parseSource Sample.echo = .ok [Sample.echoFunc] :=
    parseSource_of_toOption (by decide +kernel)
  exact ⟨hecho, haccepted, (parse_of_layout.2 _ _ hecho _).mp haccepted, hfaulty,
    by decide +kernel, by decide +kernel⟩

end ArrayOffload.Source
