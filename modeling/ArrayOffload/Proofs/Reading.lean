import ArrayOffload.Proofs.Printing
import ArrayOffload.Source.Parser

/-!
# What the parser takes

While nothing is wrong, positions and line starts do not matter to the parser: what it does depends
on the draft and on the lexemes ahead. One statement for each parser says which lexemes it takes,
what it returns and how it changes the draft.

* `Source.Takes`: those statements, with a rule for sequences;
* `Source.takes_collect`, `Source.takes_itemsWithin`: lists with commas;
* `Source.takes_statements`: one statement after the other.
-/

namespace ArrayOffload.Source

/-- The reader stands before these lexemes, with this draft and no problem so far. -/
structure Reader.At (r : Reader) (draft : Func) (lexemes : List Lexeme) : Prop where
  draft_eq : r.draft = draft
  rest_eq : r.rest.map (·.lexeme) = lexemes ++ [.symbol .endOfFile]
  problems_eq : r.problems = []

theorem Reader.At.length_rest {r : Reader} {draft : Func} {lexemes : List Lexeme}
    (h : r.At draft lexemes) : r.rest.length = lexemes.length + 1 := by
  simpa using congrArg List.length h.rest_eq

/-- From this draft and these lexemes, the work returns a value in `post` and leaves another draft
and the rest of the lexemes, with nothing wrong. -/
def Takes {α : Type} (work : Parser α) (draft : Func) (lexemes : List Lexeme) (post : α → Prop)
    (draft' : Func) (rest : List Lexeme) : Prop :=
  ∀ r : Reader, r.At draft lexemes → post (work.run r).1 ∧ (work.run r).2.At draft' rest

variable {α β : Type} {draft draft' draft'' : Func} {lexemes rest later : List Lexeme}

namespace Takes

variable {post : α → Prop} {post' : β → Prop}

theorem bind {work : Parser α} {next : α → Parser β} (first : Takes work draft lexemes post draft' rest)
    (second : ∀ a, post a → Takes (next a) draft' rest post' draft'' later) :
    Takes (work >>= next) draft lexemes post' draft'' later := by
  intro r hr
  obtain ⟨hpost, hat⟩ := first r hr
  exact second _ hpost _ hat

theorem map {work : Parser α} {g : α → β} (h : Takes work draft lexemes post draft' rest)
    (hg : ∀ a, post a → post' (g a)) : Takes (g <$> work) draft lexemes post' draft' rest :=
  fun r hr => ⟨hg _ (h r hr).1, (h r hr).2⟩

theorem pure {a : α} (h : post a) : Takes (Pure.pure a) draft lexemes post draft lexemes :=
  fun _ hr => ⟨h, hr⟩

theorem get : Takes (MonadState.get : Parser Reader) draft lexemes (·.At draft lexemes) draft
    lexemes :=
  fun _ hr => ⟨hr, hr⟩

/-- A change of the draft. -/
theorem redraft {change : Reader → Func} (h : ∀ r : Reader, r.draft = draft → change r = draft') :
    Takes (modify fun r => { r with draft := change r }) draft lexemes (fun _ => True) draft'
      lexemes :=
  fun r hr => ⟨trivial, h r hr.draft_eq, hr.rest_eq, hr.problems_eq⟩

end Takes

/-! ## Single tokens -/

/-- The lexeme that comes next. -/
def nextLexeme (lexemes : List Lexeme) : Lexeme := lexemes.head?.getD (.symbol .endOfFile)

def Lexeme.isSymbol (lexeme : Lexeme) (symbol : Symbol) : Bool :=
  match lexeme with
  | .symbol s => s = symbol
  | _ => false

theorem Reader.At.current {r : Reader} (h : r.At draft lexemes) :
    r.current.lexeme = nextLexeme lexemes := by
  have hrest := h.rest_eq
  unfold Reader.current nextLexeme
  cases htokens : r.rest with
  | nil => simp [htokens] at hrest
  | cons token tokens =>
    cases lexemes <;> simp_all

theorem takes_current :
    Takes current draft lexemes (·.lexeme = nextLexeme lexemes) draft lexemes :=
  fun _ hr => ⟨hr.current, hr⟩

theorem takes_isAt (symbol : Symbol) :
    Takes (isAt symbol) draft lexemes (· = (nextLexeme lexemes).isSymbol symbol) draft lexemes := by
  intro r hr
  refine ⟨?_, hr⟩
  show r.isAt symbol = _
  rw [Reader.isAt, hr.current]
  rfl

/-- The end of the file follows, so there is a token to go on to. -/
theorem takes_advance {lexeme : Lexeme} :
    Takes advance draft (lexeme :: lexemes) (fun _ => True) draft lexemes := by
  intro r hr
  refine ⟨trivial, ?_⟩
  show r.advance.At draft lexemes
  have hrest := hr.rest_eq
  cases htokens : r.rest with
  | nil => simp [htokens] at hrest
  | cons token tokens =>
    rw [htokens, List.map_cons, List.cons_append, List.cons.injEq] at hrest
    cases tokens with
    | nil => simp at hrest
    | cons next tokens =>
      have hadvance : r.advance = { r with previous := token.span, rest := next :: tokens } := by
        simp [Reader.advance, htokens]
      rw [hadvance]
      exact ⟨hr.draft_eq, hrest.2, hr.problems_eq⟩

theorem takes_eat {symbol : Symbol} :
    Takes (eat symbol) draft (.symbol symbol :: lexemes) (· = true) draft lexemes := by
  refine (takes_isAt symbol).bind ?_
  rintro _ rfl
  rw [if_pos (by simp [nextLexeme, Lexeme.isSymbol])]
  exact takes_advance.bind fun _ _ => .pure rfl

theorem takes_eat_other {symbol : Symbol} (h : (nextLexeme lexemes).isSymbol symbol = false) :
    Takes (eat symbol) draft lexemes (· = false) draft lexemes := by
  refine (takes_isAt symbol).bind ?_
  rintro _ rfl
  rw [h, if_neg Bool.false_ne_true]
  exact .pure rfl

theorem takes_expect {symbol : Symbol} :
    Takes (expect symbol) draft (.symbol symbol :: lexemes) (fun _ => True) draft lexemes := by
  refine takes_current.bind fun token _ => takes_eat.bind ?_
  rintro _ rfl
  rw [if_pos rfl]
  exact .pure trivial

theorem takes_expectIdent {text : String} :
    Takes expectIdent draft (.ident text :: lexemes) (·.value = text) draft lexemes := by
  refine takes_current.bind fun token htoken => ?_
  rw [htoken]
  exact takes_advance.bind fun _ _ => .pure rfl

theorem takes_expectInteger {value : Nat} :
    Takes expectInteger draft (.integer value :: lexemes) (· = value) draft lexemes := by
  refine takes_current.bind fun token htoken => ?_
  rw [htoken]
  exact takes_advance.bind fun _ _ => .pure rfl

theorem takes_expectScalar {value : Scalar} :
    Takes expectScalar draft (.number value :: lexemes) (· = value) draft lexemes := by
  refine takes_current.bind fun token htoken => ?_
  rw [htoken]
  exact takes_advance.bind fun _ _ => .pure rfl

/-! ## Names -/

theorem takes_resolve {name : Located String} {id : ArrayId}
    (h : draft.lookup? name.value = some id) :
    Takes (resolve name) draft lexemes (· = some id) draft lexemes := by
  refine Takes.get.bind fun r hr => ?_
  rw [hr.draft_eq, h]
  exact .pure rfl

theorem takes_parseArray {text : String} {id : ArrayId} (h : draft.lookup? text = some id) :
    Takes parseArray draft (.ident text :: lexemes) (· = some id) draft lexemes := by
  refine takes_expectIdent.bind ?_
  rintro name rfl
  exact takes_resolve h

theorem takes_declareAs {name : Located String} (add : Func → ArrayId × Func)
    (h : draft.lookup? name.value = none) :
    Takes (declareAs name add) draft lexemes (fun _ => True) (add draft).2 lexemes := by
  refine Takes.get.bind fun r hr => ?_
  rw [hr.draft_eq, h, if_neg (by simp)]
  exact .redraft fun r hr => by rw [hr]

theorem takes_addOp (op : Op) :
    Takes (addOp op) draft lexemes (fun _ => True) (draft.push op) lexemes :=
  .redraft fun r hr => by rw [hr]

theorem takes_parseElem (elem : Elem) :
    Takes parseElem draft (.ident elem.name :: lexemes) (· = elem) draft lexemes := by
  refine takes_expectIdent.bind ?_
  rintro word hword
  rw [hword, show Elem.ofName? elem.name = some elem by cases elem <;> rfl]
  exact .pure rfl

/-! ## Lists -/

/-- Lexemes with commas between them. -/
def commaLexemes (items : List (List Lexeme)) : List Lexeme := [.symbol .comma].intercalate items

/-- The lexemes start with one that ends no list. -/
def Begins (close : Symbol) (lexemes : List Lexeme) : Prop :=
  ∃ first more, lexemes = first :: more ∧ first.isSymbol close = false ∧
    first.isSymbol .endOfFile = false

theorem length_le_commaLexemes {close : Symbol} {items : List (List Lexeme)}
    (h : ∀ item ∈ items, Begins close item) : items.length ≤ (commaLexemes items).length := by
  induction items with
  | nil => simp
  | cons item items ih =>
    obtain ⟨first, more, rfl, _⟩ := h item (by simp)
    have := ih fun item hitem => h item (by simp [hitem])
    cases items with
    | nil => simp [commaLexemes]
    | cons second items =>
      simp only [commaLexemes, List.intercalate_cons_cons] at this ⊢
      simp at this ⊢
      omega

@[simp] theorem commaLexemes_nil : commaLexemes [] = [] := rfl

@[simp] theorem commaLexemes_singleton (item : List Lexeme) : commaLexemes [item] = item := by
  simp [commaLexemes]

@[simp] theorem commaLexemes_cons_cons (item next : List Lexeme) (items : List (List Lexeme)) :
    commaLexemes (item :: next :: items) = item ++ .symbol .comma :: commaLexemes (next :: items) := by
  simp [commaLexemes, List.intercalate_cons_cons]

/-- A list that has begun is not at its end. -/
theorem Begins.next {close : Symbol} {item : List Lexeme} (h : Begins close item)
    (items : List (List Lexeme)) (later : List Lexeme) :
    (nextLexeme (commaLexemes (item :: items) ++ later)).isSymbol close = false ∧
      (nextLexeme (commaLexemes (item :: items) ++ later)).isSymbol .endOfFile = false := by
  obtain ⟨first, more, rfl, hopen, hend⟩ := h
  cases items <;> exact ⟨hopen, hend⟩

/-- Items that each change the draft, one after the other. -/
theorem takes_itemsWithin {item : Parser Unit} {found : α → List Lexeme} {close : Symbol}
    (hclose : close ≠ .comma) (drafts : Nat → Func) (start : Nat) {xs : List α} {rounds : Nat}
    (hrounds : xs.length ≤ rounds) (hbegins : ∀ x ∈ xs, Begins close (found x))
    (hitem : ∀ i x, xs[i]? = some x → ∀ later, Takes item (drafts (start + i)) (found x ++ later)
      (fun _ => True) (drafts (start + i + 1)) later) :
    Takes (itemsWithin close item rounds) (drafts start)
      (commaLexemes (xs.map found) ++ .symbol close :: later) (fun _ => True)
      (drafts (start + xs.length)) (.symbol close :: later) := by
  induction xs generalizing start rounds with
  | nil =>
    cases rounds with
    | zero => exact .pure trivial
    | succ rounds =>
      refine (takes_isAt close).bind ?_
      rintro _ rfl
      refine (takes_isAt .endOfFile).bind fun atEnd _ => ?_
      rw [if_pos (by simp [nextLexeme, Lexeme.isSymbol])]
      exact .pure trivial
  | cons x xs ih =>
    obtain ⟨rounds, rfl⟩ := Nat.exists_eq_succ_of_ne_zero (Nat.ne_zero_of_lt hrounds)
    obtain ⟨hopen, hend⟩ :=
      (hbegins x (by simp)).next (xs.map found) (.symbol close :: later)
    refine (takes_isAt close).bind ?_
    rintro _ rfl
    refine (takes_isAt .endOfFile).bind ?_
    rintro _ rfl
    rw [List.map_cons, hopen, hend, if_neg (by simp)]
    have hfirst := hitem 0 x rfl
    cases xs with
    | nil =>
      rw [List.map_nil, commaLexemes_singleton]
      refine (hfirst _).bind fun _ _ => (takes_eat_other ?_).bind ?_
      · simpa [nextLexeme, Lexeme.isSymbol] using hclose
      · rintro _ rfl
        exact .pure trivial
    | cons y xs =>
      rw [List.map_cons, commaLexemes_cons_cons, List.append_assoc, List.cons_append]
      refine (hfirst _).bind fun _ _ => takes_eat.bind ?_
      rintro _ rfl
      rw [if_pos rfl, List.length_cons, show start + ((y :: xs).length + 1) =
        start + 0 + 1 + (y :: xs).length by omega]
      refine ih _ (Nat.le_of_succ_le_succ hrounds) (fun z hz => hbegins z (by simp [hz])) ?_
      intro i z hz later
      have := hitem (i + 1) z hz later
      rwa [show start + (i + 1) = start + 0 + 1 + i by omega] at this

/-- Values with commas between them. -/
theorem takes_collectWithin {item : Parser (Option β)} {found : α → List Lexeme} {value : α → β}
    {close : Symbol} (hclose : close ≠ .comma) {xs : List α} {rounds : Nat}
    (hrounds : xs.length ≤ rounds) (hbegins : ∀ x ∈ xs, Begins close (found x))
    (hitem : ∀ x ∈ xs, ∀ later, Takes item draft (found x ++ later) (· = some (value x)) draft later) :
    Takes (collectWithin close item rounds) draft
      (commaLexemes (xs.map found) ++ .symbol close :: later) (· = xs.map value) draft
      (.symbol close :: later) := by
  induction xs generalizing rounds with
  | nil =>
    cases rounds with
    | zero => exact .pure rfl
    | succ rounds =>
      refine (takes_isAt close).bind ?_
      rintro _ rfl
      refine (takes_isAt .endOfFile).bind fun atEnd _ => ?_
      rw [if_pos (by simp [nextLexeme, Lexeme.isSymbol])]
      exact .pure rfl
  | cons x xs ih =>
    obtain ⟨rounds, rfl⟩ := Nat.exists_eq_succ_of_ne_zero (Nat.ne_zero_of_lt hrounds)
    obtain ⟨hopen, hend⟩ :=
      (hbegins x (by simp)).next (xs.map found) (.symbol close :: later)
    refine (takes_isAt close).bind ?_
    rintro _ rfl
    refine (takes_isAt .endOfFile).bind ?_
    rintro _ rfl
    rw [List.map_cons, hopen, hend, if_neg (by simp)]
    have hfirst := hitem x (by simp)
    cases xs with
    | nil =>
      rw [List.map_nil, commaLexemes_singleton]
      refine (hfirst _).bind ?_
      rintro _ rfl
      refine (takes_eat_other ?_).bind ?_
      · simpa [nextLexeme, Lexeme.isSymbol] using hclose
      · rintro _ rfl
        exact .pure rfl
    | cons y xs =>
      rw [List.map_cons, commaLexemes_cons_cons, List.append_assoc, List.cons_append]
      refine (hfirst _).bind ?_
      rintro _ rfl
      refine takes_eat.bind ?_
      rintro _ rfl
      rw [if_pos rfl]
      refine (ih (Nat.le_of_succ_le_succ hrounds) (fun z hz => hbegins z (by simp [hz]))
        fun z hz => hitem z (by simp [hz])).bind ?_
      rintro _ rfl
      exact .pure rfl

/-- Every item takes a lexeme, so there are enough rounds. -/
theorem takes_collect {item : Parser (Option β)} {found : α → List Lexeme} {value : α → β}
    {close : Symbol} (hclose : close ≠ .comma) {xs : List α}
    (hbegins : ∀ x ∈ xs, Begins close (found x))
    (hitem : ∀ x ∈ xs, ∀ later, Takes item draft (found x ++ later) (· = some (value x)) draft later) :
    Takes (collect close item) draft (commaLexemes (xs.map found) ++ .symbol close :: later)
      (· = xs.map value) draft (.symbol close :: later) := by
  refine Takes.get.bind fun r hr => takes_collectWithin hclose ?_ hbegins hitem
  have hitems := length_le_commaLexemes (List.forall_mem_map.mpr hbegins)
  rw [List.length_map] at hitems
  rw [hr.length_rest, List.length_append]
  omega

theorem takes_items {item : Parser Unit} {found : α → List Lexeme} {close : Symbol}
    (hclose : close ≠ .comma) (drafts : Nat → Func) {xs : List α}
    (hbegins : ∀ x ∈ xs, Begins close (found x))
    (hitem : ∀ i x, xs[i]? = some x → ∀ later, Takes item (drafts i) (found x ++ later)
      (fun _ => True) (drafts (i + 1)) later) :
    Takes (items close item) (drafts 0) (commaLexemes (xs.map found) ++ .symbol close :: later)
      (fun _ => True) (drafts xs.length) (.symbol close :: later) := by
  refine Takes.get.bind fun r hr => ?_
  have hitems := length_le_commaLexemes (List.forall_mem_map.mpr hbegins)
  rw [List.length_map] at hitems
  have hrounds : xs.length ≤ r.rest.length := by
    rw [hr.length_rest, List.length_append]
    omega
  simpa using takes_itemsWithin hclose drafts 0 hrounds hbegins (by simpa using hitem)

/-! ## Arrays and operands -/

theorem takes_parseArrays {name : ArrayId → String} {ids : List ArrayId}
    (h : ∀ id ∈ ids, draft.lookup? (name id) = some id) :
    Takes parseArrays draft
      (.symbol .leftParen ::
        (commaLexemes (ids.map fun id => [.ident (name id)]) ++ .symbol .rightParen :: later))
      (· = ids) draft later := by
  have hids : Takes (collect .rightParen parseArray) draft
      (commaLexemes (ids.map fun id => [.ident (name id)]) ++ .symbol .rightParen :: later)
      (· = ids.map fun id => id) draft (.symbol .rightParen :: later) :=
    takes_collect (by decide) (fun id _ => ⟨_, [], rfl, rfl, rfl⟩)
      fun id hid later => takes_parseArray (h id hid)
  rw [List.map_id'] at hids
  refine takes_expect.bind fun _ _ => hids.bind ?_
  rintro _ rfl
  exact takes_expect.bind fun _ _ => .pure rfl

/-- The lexemes of an operand with a finite constant. -/
def operandLexemes (name : ArrayId → String) : Operand → List Lexeme
  | .array id => [.ident (name id)]
  | .scalar constant => [.number constant]

theorem takes_parseOperand {name : ArrayId → String} {operand : Operand}
    (h : ∀ id ∈ operand.array?, draft.lookup? (name id) = some id) :
    Takes parseOperand draft (operandLexemes name operand ++ later) (· = some operand) draft
      later := by
  refine takes_current.bind fun token htoken => ?_
  rw [htoken]
  cases operand with
  | array id =>
    refine (takes_parseArray (h id rfl)).bind ?_
    rintro _ rfl
    exact .pure rfl
  | scalar constant =>
    refine takes_expectScalar.bind ?_
    rintro _ rfl
    exact .pure rfl

/-! ## Single statements -/

theorem takes_parseLet_like {text source : String} (elem : Elem) {id : ArrayId}
    (hsource : draft.lookup? source = some id) (hfree : draft.lookup? text = none) :
    Takes parseLet draft
      (.symbol .let :: .ident text :: .symbol .colon :: .ident elem.name :: .symbol .like ::
        .ident source :: later)
      (fun _ => True) (draft.addLike text elem id).2 later := by
  refine takes_expect.bind fun _ _ => takes_expectIdent.bind ?_
  rintro name rfl
  refine takes_expect.bind fun _ _ => (takes_parseElem elem).bind ?_
  rintro elem rfl
  refine takes_eat.bind ?_
  rintro _ rfl
  refine (takes_parseArray hsource).bind ?_
  rintro _ rfl
  exact takes_declareAs (·.addLike name.value elem id) hfree

theorem takes_parseLet_fixed {text : String} (elem : Elem) {dims : Shape} (hdims : dims ≠ [])
    (hfree : draft.lookup? text = none) :
    Takes parseLet draft
      (.symbol .let :: .ident text :: .symbol .colon :: .ident elem.name :: .symbol .leftBracket ::
        (commaLexemes (dims.map fun dim => [.integer dim]) ++ .symbol .rightBracket :: later))
      (fun _ => True) (draft.addFixed text elem dims).2 later := by
  have hcollect : Takes (collect .rightBracket (some <$> expectInteger)) draft
      (commaLexemes (dims.map fun dim => [.integer dim]) ++ .symbol .rightBracket :: later)
      (· = dims.map fun dim => dim) draft (.symbol .rightBracket :: later) := by
    refine takes_collect (by decide) (fun dim _ => ⟨_, [], rfl, rfl, rfl⟩) fun dim _ later => ?_
    exact takes_expectInteger.map fun _ => congrArg some
  rw [List.map_id'] at hcollect
  refine takes_expect.bind fun _ _ => takes_expectIdent.bind ?_
  rintro name rfl
  refine takes_expect.bind fun _ _ => (takes_parseElem elem).bind ?_
  rintro elem rfl
  refine (takes_eat_other rfl).bind ?_
  rintro _ rfl
  refine takes_eat.bind ?_
  rintro _ rfl
  refine hcollect.bind ?_
  rintro dims rfl
  refine takes_expect.bind fun _ _ => ?_
  rw [if_neg (by simp [hdims])]
  exact takes_declareAs (·.addFixed name.value elem dims) hfree

theorem takes_parseFold (make : FoldOp → ArrayId → Op) (op : FoldOp) {text : String} {id : ArrayId}
    (h : draft.lookup? text = some id) :
    Takes (parseFold make) draft
      (.ident op.name :: .symbol .leftParen :: .ident text :: .symbol .rightParen :: later)
      (fun _ => True) (draft.push (make op id)) later := by
  refine takes_expectIdent.bind fun word hword => takes_expect.bind fun _ _ => ?_
  rw [hword, show FoldOp.ofName? op.name = some op by cases op <;> rfl]
  refine takes_expectIdent.bind ?_
  rintro name rfl
  refine takes_expect.bind fun _ _ => (takes_resolve h).bind ?_
  rintro _ rfl
  exact takes_addOp _

theorem takes_parseMap (out : ArrayId) (op : MapOp) {name : ArrayId → String} {args : List Operand}
    (h : ∀ arg ∈ args, ∀ id ∈ arg.array?, draft.lookup? (name id) = some id) :
    Takes (parseMap out) draft
      (.ident op.name :: .symbol .leftParen ::
        (commaLexemes (args.map (operandLexemes name)) ++ .symbol .rightParen :: later))
      (fun _ => True) (draft.push (.map out op args)) later := by
  have hargs : Takes (collect .rightParen parseOperand) draft
      (commaLexemes (args.map (operandLexemes name)) ++ .symbol .rightParen :: later)
      (· = args.map fun arg => arg) draft (.symbol .rightParen :: later) := by
    refine takes_collect (by decide) ?_ fun arg harg later => takes_parseOperand (h arg harg)
    intro arg _
    cases arg <;> exact ⟨_, [], rfl, rfl, rfl⟩
  rw [List.map_id'] at hargs
  refine takes_expectIdent.bind fun word hword => takes_expect.bind fun _ _ => ?_
  rw [hword, show MapOp.ofName? op.name = some op by cases op <;> rfl]
  refine hargs.bind ?_
  rintro _ rfl
  exact takes_expect.bind fun _ _ => takes_addOp _

/-- What stands after `a =` is a reduction, a scan or a map. -/
theorem takes_parseAssign {text : String} {target : ArrayId}
    (htarget : draft.lookup? text = some target)
    (h : Takes (do
        if ← eat .reduce then parseFold (.reduce target)
        else if ← eat .scan then parseFold (.scan target)
        else parseMap target) draft lexemes (fun _ => True) draft' later) :
    Takes parseAssign draft (.ident text :: .symbol .equals :: lexemes) (fun _ => True) draft'
      later := by
  refine (takes_parseArray htarget).bind ?_
  rintro _ rfl
  refine (takes_eat_other rfl).bind ?_
  rintro _ rfl
  exact takes_expect.bind fun _ _ => h

theorem takes_parseStore (array : ArrayId) {index : Nat} {constant : Scalar} :
    Takes (parseStore array) draft
      (.integer index :: .symbol .rightBracket :: .symbol .equals :: .number constant :: later)
      (fun _ => True) (draft.push (.store array index constant)) later := by
  refine takes_expectInteger.bind ?_
  rintro _ rfl
  refine takes_expect.bind fun _ _ => takes_expect.bind fun _ _ => takes_expectScalar.bind ?_
  rintro _ rfl
  exact takes_addOp _

/-- What follows does not carry on a statement that has ended. -/
def Parts (lexemes : List Lexeme) : Prop :=
  (nextLexeme lexemes).isSymbol .semicolon = false ∧ (nextLexeme lexemes).isSymbol .arrow = false

/-- A call with no results ends after its arguments. -/
theorem takes_parseCall {callee : String} {name : ArrayId → String} {reads writes : List ArrayId}
    (hreads : ∀ id ∈ reads, draft.lookup? (name id) = some id)
    (hwrites : ∀ id ∈ writes, draft.lookup? (name id) = some id) (hlater : Parts later) :
    Takes parseCall draft
      (.symbol .call :: .ident callee :: .symbol .leftParen ::
        (commaLexemes (reads.map fun id => [.ident (name id)]) ++ .symbol .rightParen ::
          if writes.isEmpty then later
          else .symbol .arrow :: .symbol .leftParen ::
            (commaLexemes (writes.map fun id => [.ident (name id)]) ++ .symbol .rightParen :: later)))
      (fun _ => True) (draft.push (.call callee reads writes)) later := by
  refine takes_expect.bind fun _ _ => takes_expectIdent.bind ?_
  rintro word rfl
  refine (takes_parseArrays hreads).bind ?_
  rintro _ rfl
  cases writes with
  | nil =>
    refine (takes_eat_other hlater.2).bind ?_
    rintro _ rfl
    exact takes_addOp _
  | cons id ids =>
    refine takes_eat.bind ?_
    rintro _ rfl
    refine (takes_parseArrays hwrites).bind ?_
    rintro _ rfl
    exact takes_addOp _

/-! ## Statements one after the other -/

/-- The lexemes of a statement, by their first one. -/
def OpensStatement (lexemes : List Lexeme) : Prop := Begins .rightBrace lexemes ∧ Parts lexemes

theorem OpensStatement.append {lexemes : List Lexeme} (h : OpensStatement lexemes)
    (later : List Lexeme) : OpensStatement (lexemes ++ later) := by
  obtain ⟨⟨first, more, rfl, hfirst⟩, hparts⟩ := h
  exact ⟨⟨first, more ++ later, rfl, hfirst⟩, hparts⟩

theorem takes_statements {found : α → List Lexeme} (drafts : Nat → Func) {xs : List α}
    {start rounds : Nat} (hopens : ∀ x ∈ xs, OpensStatement (found x)) (hlater : Parts later)
    (hitem : ∀ i x, xs[i]? = some x → ∀ later, Parts later → Takes parseStatement
      (drafts (start + i)) (found x ++ later) (fun _ => True) (drafts (start + i + 1)) later)
    (hthen : Takes (statementsWithin rounds) (drafts (start + xs.length)) later (fun _ => True)
      draft' rest) :
    Takes (statementsWithin (xs.length + rounds)) (drafts start)
      ((xs.map found).flatten ++ later) (fun _ => True) draft' rest := by
  induction xs generalizing start with
  | nil => simpa using hthen
  | cons x xs ih =>
    have hrest : Parts ((xs.map found).flatten ++ later) := by
      cases xs with
      | nil => exact hlater
      | cons y xs =>
        rw [List.map_cons, List.flatten_cons, List.append_assoc]
        exact ((hopens y (by simp)).append _).2
    obtain ⟨⟨first, more, hfirst, hopen, hend⟩, _⟩ := hopens x (by simp)
    rw [List.length_cons, Nat.add_right_comm, List.map_cons, List.flatten_cons, List.append_assoc]
    have hnext : nextLexeme (found x ++ ((xs.map found).flatten ++ later)) = first := by
      rw [hfirst]
      rfl
    refine (takes_isAt .rightBrace).bind ?_
    rintro _ rfl
    refine (takes_isAt .endOfFile).bind ?_
    rintro _ rfl
    rw [hnext, hopen, hend, if_neg (by simp)]
    refine Takes.get.bind fun before hbefore => (hitem 0 x rfl _ hrest).bind fun _ _ => ?_
    refine (takes_eat_other hrest.1).bind fun _ _ => Takes.get.bind fun after hafter => ?_
    rw [hafter.problems_eq, hbefore.problems_eq, if_neg (Nat.lt_irrefl _)]
    refine ih (fun y hy => hopens y (by simp [hy])) ?_ ?_
    · intro i y hy later hlater
      have := hitem (i + 1) y hy later hlater
      rwa [show start + (i + 1) = start + 0 + 1 + i by omega] at this
    · rwa [show start + 0 + 1 + xs.length = start + (x :: xs).length by
        rw [List.length_cons]; omega]

theorem takes_statements_end (rounds : Nat) :
    Takes (statementsWithin rounds) draft (.symbol .rightBrace :: later) (fun _ => True) draft
      (.symbol .rightBrace :: later) := by
  cases rounds with
  | zero => exact .pure trivial
  | succ rounds =>
    refine (takes_isAt .rightBrace).bind ?_
    rintro _ rfl
    refine (takes_isAt .endOfFile).bind fun _ _ => ?_
    rw [if_pos (by simp [nextLexeme, Lexeme.isSymbol])]
    exact .pure trivial

end ArrayOffload.Source
