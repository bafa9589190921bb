import ArrayOffload.Proofs.WellFormed
import ArrayOffload.Source.Parser

/-!
# Functions that come from text

The parser makes its functions the way a builder does: it starts from an empty draft, adds what it
reads, and returns only drafts that the checks accept. Names, positions and constants come from the
tokens; where one is missing, a fixed stand-in takes its place.

* `Source.Vocabulary`: what tokens may hold, closed under the stand-ins;
* `Source.Drafted`: the drafts that a vocabulary allows, parameters before local arrays;
* `Source.Leads`: what parsing work does to the tokens, to the draft, and its results;
* `Source.parseTokens_accepted`: functions are checked drafts in the vocabulary of their tokens;
* `Source.parseSource_built`: parsed functions are built functions.
-/

namespace ArrayOffload

def Operand.constants : Operand → List Scalar
  | .array _ => []
  | .scalar constant => [constant]

def Op.constants : Op → List Scalar
  | .map _ _ args => args.flatMap Operand.constants
  | .store _ _ constant => [constant]
  | _ => []

namespace Source

/-- Names, positions and constants that tokens may hold. The parser takes an integer for a constant
where one is asked for, and goes on with stand-ins after a problem. -/
structure Vocabulary where
  name : String → Prop
  position : Nat → Prop
  constant : Scalar → Prop
  name_missing : name missingName
  position_zero : position 0
  constant_zero : constant .zero
  constant_ofNat : ∀ n, position n → constant (.ofNat n)

namespace Vocabulary

def Has (v : Vocabulary) : Lexeme → Prop
  | .ident name => v.name name
  | .integer n => v.position n
  | .number constant => v.constant constant
  | .symbol _ => True

def Holds (v : Vocabulary) (tokens : List Token) : Prop := ∀ token ∈ tokens, v.Has token.lexeme

/-- The operation takes its texts and numbers from the vocabulary. -/
def Admits (v : Vocabulary) (op : Op) : Prop :=
  (∀ constant ∈ op.constants, v.constant constant) ∧
    match op with
    | .store _ index _ => v.position index
    | .call callee _ _ => v.name callee
    | _ => True

/-- No restriction at all. -/
def all : Vocabulary where
  name _ := True
  position _ := True
  constant _ := True
  name_missing := trivial
  position_zero := trivial
  constant_zero := trivial
  constant_ofNat _ _ := trivial

theorem all_holds (tokens : List Token) : all.Holds tokens := by
  intro token _
  cases token.lexeme <;> trivial

end Vocabulary

variable {v : Vocabulary}

/-- Drafts while the attributes are read. -/
def Opened (draft : Func) : Prop := ∃ serial, draft = { Func.empty "" with serialOnly := serial }

/-- Drafts while the parameters are read. -/
inductive Heading (v : Vocabulary) : Func → Prop
  | named {name : String} (serial : Bool) :
      v.name name → Heading v { Func.empty name with serialOnly := serial }
  | param {f : Func} {name : String} (elem : Elem) (rank : Nat) :
      Heading v f → v.name name → Heading v (f.addParam name elem rank).2

/-- Drafts while the body is read. -/
inductive Drafted (v : Vocabulary) : Func → Prop
  | heading {f : Func} : Heading v f → Drafted v f
  | like {f : Func} {name : String} (elem : Elem) (source : ArrayId) :
      Drafted v f → v.name name → Drafted v (f.addLike name elem source).2
  | fixed {f : Func} {name : String} (elem : Elem) (dims : Shape) :
      Drafted v f → v.name name → Drafted v (f.addFixed name elem dims).2
  | push {f : Func} {op : Op} : Drafted v f → v.Admits op → Drafted v (f.push op)
  | returns {f : Func} (id : ArrayId) : Drafted v f → Drafted v { f with returns := some id }

theorem Heading.building {f : Func} (h : Heading v f) : f.Building := by
  induction h with
  | @named name serial _ =>
    cases serial with
    | false => exact .empty name
    | true => exact (Func.Building.empty name).serialOnly
  | param elem rank _ _ ih => exact ih.param _ elem rank

/-- A builder could have made the draft. -/
theorem Drafted.building {f : Func} (h : Drafted v f) : f.Building := by
  induction h with
  | heading h => exact h.building
  | like elem source _ _ ih => exact ih.like _ elem source
  | fixed elem dims _ _ ih => exact ih.fixed _ elem dims
  | push _ _ ih => exact ih.push _
  | returns id _ ih => exact ih.returns id

/-- From tokens of the vocabulary and a draft in `p`, this work leaves such tokens and a draft in
`p'`, with a result in `q`. -/
def Leads {α : Type} (v : Vocabulary) (p : Func → Prop) (work : Parser α) (q : α → Prop)
    (p' : Func → Prop) : Prop :=
  ∀ r, v.Holds r.rest → p r.draft →
    v.Holds (work.run r).2.rest ∧ p' (work.run r).2.draft ∧ q (work.run r).1

/-- Work that leaves the draft as it should be. -/
abbrev Retains {α : Type} (v : Vocabulary) (p : Func → Prop) (work : Parser α) (q : α → Prop) : Prop :=
  Leads v p work q p

variable {p p' p'' : Func → Prop} {α β : Type} {q : α → Prop} {s : β → Prop}

namespace Leads

theorem pure {a : α} (h : q a) : Leads v p (Pure.pure a) q p := fun _ htokens hp => ⟨htokens, hp, h⟩

theorem bind {work : Parser α} {next : α → Parser β} (first : Leads v p work q p')
    (second : ∀ a, q a → Leads v p' (next a) s p'') : Leads v p (work >>= next) s p'' := by
  intro r htokens hp
  obtain ⟨htokens', hp', hq⟩ := first r htokens hp
  exact second _ hq _ htokens' hp'

theorem weaken {work : Parser α} {q' : α → Prop} (h : Leads v p work q p') (hq : ∀ a, q a → q' a) :
    Leads v p work q' p' := by
  intro r htokens hp
  obtain ⟨htokens', hp', hresult⟩ := h r htokens hp
  exact ⟨htokens', hp', hq _ hresult⟩

theorem get : Leads v p (MonadState.get : Parser Reader) (fun _ => True) p :=
  fun _ htokens hp => ⟨htokens, hp, trivial⟩

theorem update {change : Reader → Reader}
    (h : ∀ r, v.Holds r.rest → p r.draft → v.Holds (change r).rest ∧ p' (change r).draft) :
    Leads v p (modify change : Parser Unit) (fun _ => True) p' := by
  intro r htokens hp
  obtain ⟨htokens', hp'⟩ := h r htokens hp
  exact ⟨htokens', hp', trivial⟩

theorem ite {c : Prop} [Decidable c] {yes no : Parser α} (hyes : Leads v p yes q p')
    (hno : Leads v p no q p') : Leads v p (if c then yes else no) q p' := by
  split
  · exact hyes
  · exact hno

end Leads

/-! ## Single tokens -/

theorem retains_current : Retains v p current fun token => v.Has token.lexeme := by
  intro r htokens hp
  refine ⟨htokens, hp, ?_⟩
  change v.Has r.current.lexeme
  rw [Reader.current]
  cases hrest : r.rest with
  | nil => trivial
  | cons token rest => exact htokens token (by simp [hrest])

theorem retains_isAt (symbol : Symbol) : Retains v p (isAt symbol) fun _ => True :=
  fun _ htokens hp => ⟨htokens, hp, trivial⟩

theorem retains_advance : Retains v p advance fun _ => True := by
  intro r htokens hp
  change v.Holds r.advance.rest ∧ p r.advance.draft ∧ True
  unfold Reader.advance
  split
  · next token next rest hrest =>
    refine ⟨fun other hother => htokens other ?_, hp, trivial⟩
    rw [hrest]
    exact List.mem_cons_of_mem _ hother
  · exact ⟨htokens, hp, trivial⟩

theorem retains_report (problem : Problem) (span : Span) :
    Retains v p (report problem span) fun _ => True :=
  fun _ htokens hp => ⟨htokens, hp, trivial⟩

theorem retains_reportHere (problem : String → Problem) :
    Retains v p (reportHere problem) fun _ => True :=
  fun _ htokens hp => ⟨htokens, hp, trivial⟩

theorem retains_eat (symbol : Symbol) : Retains v p (eat symbol) fun _ => True :=
  (retains_isAt symbol).bind fun _ _ =>
    .ite (retains_advance.bind fun _ _ => .pure trivial) (.pure trivial)

theorem retains_expect (symbol : Symbol) : Retains v p (expect symbol) fun _ => True :=
  retains_current.bind fun _ _ => (retains_eat symbol).bind fun _ _ =>
    .ite (.pure trivial) ((retains_reportHere _).bind fun _ _ => .pure trivial)

theorem retains_expectIdent : Retains v p expectIdent fun name => v.name name.value := by
  refine retains_current.bind fun token htoken => ?_
  split
  · next name hname =>
    rw [hname] at htoken
    exact retains_advance.bind fun _ _ => .pure htoken
  · exact (retains_reportHere _).bind fun _ _ => .pure v.name_missing

theorem retains_expectInteger : Retains v p expectInteger v.position := by
  refine retains_current.bind fun token htoken => ?_
  split
  · next n hn =>
    rw [hn] at htoken
    exact retains_advance.bind fun _ _ => .pure htoken
  · exact (retains_reportHere _).bind fun _ _ => .pure v.position_zero

theorem retains_expectScalar : Retains v p expectScalar v.constant := by
  refine retains_current.bind fun token htoken => ?_
  split
  · next n hn =>
    rw [hn] at htoken
    exact retains_advance.bind fun _ _ => .pure (v.constant_ofNat n htoken)
  · next constant hconstant =>
    rw [hconstant] at htoken
    exact retains_advance.bind fun _ _ => .pure htoken
  · exact (retains_reportHere _).bind fun _ _ => .pure v.constant_zero

theorem mem_of_mem_dropUntil {stop : Token → Bool} {previous : Span} {tokens : List Token}
    {token : Token} (h : token ∈ (dropUntil stop previous tokens).2) : token ∈ tokens := by
  fun_induction dropUntil stop previous tokens with
  | case1 => exact h
  | case2 _ _ _ _ _ ih => exact List.mem_cons_of_mem _ (ih h)
  | case3 => exact h

theorem retains_skipTo (stop : Token → Bool) : Retains v p (skipTo stop) fun _ => True :=
  fun _ htokens hp => ⟨fun token htoken => htokens token (mem_of_mem_dropUntil htoken), hp, trivial⟩

/-! ## Loops -/

theorem retains_itemsWithin {item : Parser Unit} (h : Retains v p item fun _ => True) (close : Symbol)
    (rounds : Nat) : Retains v p (itemsWithin close item rounds) fun _ => True := by
  induction rounds with
  | zero => exact .pure trivial
  | succ rounds ih =>
    refine (retains_isAt close).bind fun _ _ => (retains_isAt .endOfFile).bind fun _ _ => ?_
    refine .ite (.pure trivial) (h.bind fun _ _ => (retains_eat .comma).bind fun _ _ => ?_)
    exact .ite ih (.pure trivial)

theorem retains_collectWithin {item : Parser (Option α)}
    (h : Retains v p item fun found => ∀ a ∈ found, q a) (close : Symbol) (rounds : Nat) :
    Retains v p (collectWithin close item rounds) fun found => ∀ a ∈ found, q a := by
  induction rounds with
  | zero => exact .pure (by simp)
  | succ rounds ih =>
    refine (retains_isAt close).bind fun _ _ => (retains_isAt .endOfFile).bind fun _ _ => ?_
    refine .ite (.pure (by simp)) (h.bind fun found hfound => (retains_eat .comma).bind fun _ _ => ?_)
    have hfirst : ∀ a ∈ found.toList, q a := fun a ha => hfound a (Option.mem_toList.mp ha)
    exact .ite (ih.bind fun later hlater => .pure (List.forall_mem_append.mpr ⟨hfirst, hlater⟩))
      (.pure hfirst)

theorem retains_items {item : Parser Unit} (h : Retains v p item fun _ => True) (close : Symbol) :
    Retains v p (items close item) fun _ => True :=
  Leads.get.bind fun _ _ => retains_itemsWithin h close _

theorem retains_collect {item : Parser (Option α)}
    (h : Retains v p item fun found => ∀ a ∈ found, q a) (close : Symbol) :
    Retains v p (collect close item) fun found => ∀ a ∈ found, q a :=
  Leads.get.bind fun _ _ => retains_collectWithin h close _

/-! ## Names -/

theorem retains_reportUnknown (name : Located String) :
    Retains v p (reportUnknown name) fun _ => True :=
  fun _ htokens hp => ⟨htokens, hp, trivial⟩

theorem retains_resolve (name : Located String) : Retains v p (resolve name) fun _ => True := by
  refine Leads.get.bind fun r _ => ?_
  split
  · exact .pure trivial
  · exact .ite ((retains_reportUnknown name).bind fun _ _ => .pure trivial) (.pure trivial)

theorem retains_parseElem : Retains v p parseElem fun _ => True := by
  refine retains_expectIdent.bind fun word _ => ?_
  split
  · exact .pure trivial
  · exact (retains_report _ _).bind fun _ _ => .pure trivial

theorem retains_parseArray : Retains v p parseArray fun _ => True :=
  retains_expectIdent.bind fun name _ => retains_resolve name

theorem retains_parseArrays : Retains v p parseArrays fun _ => True := by
  have harray : Retains v p parseArray fun found => ∀ id ∈ found, True :=
    retains_parseArray.weaken fun _ _ _ _ => trivial
  exact (retains_expect _).bind fun _ _ => (retains_collect harray _).bind fun _ _ =>
    (retains_expect _).bind fun _ _ => .pure trivial

theorem retains_parseOperand : Retains v p parseOperand fun found =>
    ∀ operand ∈ found, ∀ constant ∈ operand.constants, v.constant constant := by
  refine retains_current.bind fun token _ => ?_
  split
  · refine retains_parseArray.bind fun found _ => .pure ?_
    cases found <;> simp [Operand.constants]
  · exact retains_expectScalar.bind fun constant hconstant => .pure (by simpa [Operand.constants])

theorem retains_declareAs (name : Located String) {add : Func → ArrayId × Func}
    (h : ∀ f, p f → p (add f).2) : Retains v p (declareAs name add) fun _ => True :=
  Leads.get.bind fun _ _ => .ite (retains_report _ _) (.update fun r htokens hp => ⟨htokens, h r.draft hp⟩)

/-! ## Statements -/

theorem retains_addOp {op : Op} (h : v.Admits op) : Retains v (Drafted v) (addOp op) fun _ => True :=
  .update fun _ htokens hdraft => ⟨htokens, hdraft.push h⟩

theorem retains_parseLet : Retains v (Drafted v) parseLet fun _ => True := by
  refine (retains_expect _).bind fun _ _ => retains_expectIdent.bind fun name hname =>
    (retains_expect _).bind fun _ _ => retains_parseElem.bind fun elem _ =>
    (retains_eat _).bind fun _ _ => .ite ?_ ((retains_eat _).bind fun _ _ => .ite ?_ ?_)
  · refine retains_parseArray.bind fun source _ => ?_
    split
    · exact retains_declareAs name fun _ hdraft => hdraft.like elem _ hname
    · exact .pure trivial
  · have hdim : Retains v (Drafted v) (some <$> expectInteger) fun found => ∀ n ∈ found, v.position n :=
      retains_expectInteger.bind fun n hn => .pure (by simpa)
    refine (retains_collect hdim _).bind fun dims _ => (retains_expect _).bind fun _ _ =>
      .ite (retains_report _ _) ?_
    exact retains_declareAs name fun _ hdraft => hdraft.fixed elem dims hname
  · exact retains_reportHere _

theorem retains_parseCall : Retains v (Drafted v) parseCall fun _ => True := by
  refine (retains_expect _).bind fun _ _ => retains_expectIdent.bind fun callee hcallee =>
    retains_parseArrays.bind fun reads _ => (retains_eat _).bind fun _ _ => ?_
  have hop : ∀ writes, v.Admits (.call callee.value reads writes) :=
    fun writes => ⟨by simp [Op.constants], hcallee⟩
  exact .ite (retains_parseArrays.bind fun _ _ => retains_addOp (hop _)) (retains_addOp (hop []))

theorem retains_parseFold {make : FoldOp → ArrayId → Op} (h : ∀ op input, v.Admits (make op input)) :
    Retains v (Drafted v) (parseFold make) fun _ => True := by
  refine retains_expectIdent.bind fun word _ => (retains_expect _).bind fun _ _ => ?_
  split
  · exact retains_report _ _
  · refine retains_expectIdent.bind fun name _ => (retains_expect _).bind fun _ _ =>
      (retains_resolve name).bind fun input _ => ?_
    split
    · exact retains_addOp (h _ _)
    · exact .pure trivial

theorem retains_parseMap (out : ArrayId) : Retains v (Drafted v) (parseMap out) fun _ => True := by
  refine retains_expectIdent.bind fun word _ => (retains_expect _).bind fun _ _ => ?_
  split
  · exact retains_report _ _
  · refine (retains_collect retains_parseOperand _).bind fun args hargs =>
      (retains_expect _).bind fun _ _ => retains_addOp ⟨fun constant hconstant => ?_, trivial⟩
    obtain ⟨arg, harg, hconstant⟩ := List.mem_flatMap.mp hconstant
    exact hargs arg harg constant hconstant

theorem retains_parseStore (array : ArrayId) : Retains v (Drafted v) (parseStore array) fun _ => True :=
  retains_expectInteger.bind fun _ hindex => (retains_expect _).bind fun _ _ =>
    (retains_expect _).bind fun _ _ => retains_expectScalar.bind fun _ hconstant =>
    retains_addOp ⟨by simpa [Op.constants], hindex⟩

theorem retains_parseAssign : Retains v (Drafted v) parseAssign fun _ => True := by
  refine retains_parseArray.bind fun found _ => ?_
  split
  · next target =>
    refine (retains_eat _).bind fun _ _ => .ite (retains_parseStore target) ?_
    refine (retains_expect _).bind fun _ _ => (retains_eat _).bind fun _ _ => ?_
    refine .ite (retains_parseFold fun _ _ => ⟨by simp [Op.constants], trivial⟩) ?_
    refine (retains_eat _).bind fun _ _ => ?_
    exact .ite (retains_parseFold fun _ _ => ⟨by simp [Op.constants], trivial⟩)
      (retains_parseMap target)
  · exact .pure trivial

/-- No statement takes a draft out of the vocabulary. -/
theorem retains_parseStatement : Retains v (Drafted v) parseStatement fun _ => True := by
  refine retains_current.bind fun token _ => ?_
  split
  · exact retains_parseLet
  · exact retains_advance.bind fun _ _ => retains_parseArrays.bind fun _ _ =>
      retains_addOp ⟨by simp [Op.constants], trivial⟩
  · exact retains_parseCall
  · exact retains_parseAssign
  · exact (retains_reportHere _).bind fun _ _ => retains_advance

theorem retains_statementsWithin (rounds : Nat) :
    Retains v (Drafted v) (statementsWithin rounds) fun _ => True := by
  induction rounds with
  | zero => exact .pure trivial
  | succ rounds ih =>
    refine (retains_isAt _).bind fun _ _ => (retains_isAt _).bind fun _ _ => .ite (.pure trivial) ?_
    refine Leads.get.bind fun _ _ => retains_parseStatement.bind fun _ _ =>
      (retains_eat _).bind fun _ _ => Leads.get.bind fun _ _ => ?_
    exact .ite ((retains_skipTo _).bind fun _ _ => ih) ih

/-! ## Functions -/

theorem retains_parseParam : Retains v (Heading v) parseParam fun _ => True := by
  have hdim : Retains v (Heading v) (do
      let dim ← expectIdent
      if dim.value ≠ "_" then report (.paramDimension dim.value) dim.span
      return some ()) fun found => ∀ dim ∈ found, True := by
    refine retains_expectIdent.bind fun dim _ => ?_
    exact .ite ((retains_report _ _).bind fun _ _ => .pure (by simp)) (.pure (by simp))
  exact retains_expectIdent.bind fun name hname => (retains_expect _).bind fun _ _ =>
    retains_parseElem.bind fun elem _ => (retains_expect _).bind fun _ _ =>
    (retains_collect hdim _).bind fun dims _ => (retains_expect _).bind fun _ _ =>
    retains_declareAs name fun _ hdraft => hdraft.param elem dims.length hname

theorem retains_attributesWithin (rounds : Nat) :
    Retains v Opened (attributesWithin rounds) fun _ => True := by
  induction rounds with
  | zero => exact .pure trivial
  | succ rounds ih =>
    refine (retains_isAt _).bind fun _ _ => .ite (Leads.bind (q := fun _ => True) ?_ fun _ _ => ih)
      (.pure trivial)
    refine (retains_expect _).bind fun _ _ => (retains_expect _).bind fun _ _ =>
      retains_expectIdent.bind fun _ _ => (retains_expect _).bind fun _ _ => .ite ?_ ?_
    · refine .update fun r htokens hdraft => ⟨htokens, true, ?_⟩
      obtain ⟨serial, hdraft⟩ := hdraft
      rw [hdraft]
    · exact Leads.get.bind fun _ _ => retains_report _ _

theorem retains_parseReturned : Retains v p parseReturned fun _ => True :=
  (retains_eat _).bind fun _ _ =>
    .ite (retains_expectIdent.bind fun _ _ => .pure trivial) (.pure trivial)

theorem retains_setReturn (name : Located String) :
    Retains v (Drafted v) (setReturn name) fun _ => True := by
  refine Leads.get.bind fun r _ => ?_
  split
  · next id _ => exact .update fun _ htokens hdraft => ⟨htokens, hdraft.returns id⟩
  · exact retains_reportUnknown name

/-- What the parser makes of tokens in the vocabulary: a draft that the checks accept. -/
def Accepted (v : Vocabulary) (f : Func) : Prop := Drafted v f ∧ f.build = .ok f

theorem leads_finishFunc (mark : Nat) (span : Span) :
    Leads v (Drafted v) (finishFunc mark span) (∀ f ∈ ·, Accepted v f) fun _ => True := by
  intro r htokens hdraft
  by_cases hmark : mark < r.problems.length
  · simp only [finishFunc, StateT.run_bind, StateT.run_get, pure_bind, if_pos hmark]
    exact ⟨htokens, trivial, nofun⟩
  · cases hbuild : r.draft.build with
    | error cause =>
      simp only [finishFunc, StateT.run_bind, StateT.run_get, pure_bind, if_neg hmark, hbuild]
      exact ⟨htokens, trivial, nofun⟩
    | ok found =>
      obtain ⟨rfl, _⟩ := Func.build_ok hbuild
      simp only [finishFunc, StateT.run_bind, StateT.run_get, pure_bind, if_neg hmark, hbuild]
      refine ⟨htokens, trivial, ?_⟩
      rintro _ ⟨⟩
      exact ⟨hdraft, hbuild⟩

theorem leads_parseFunc :
    Leads v (fun _ => True) parseFunc (∀ f ∈ ·, Accepted v f) fun _ => True := by
  have hopen : Leads v (fun _ => True)
      (modify fun r => { r with draft := Func.empty "" } : Parser Unit) (fun _ => True) Opened :=
    .update fun _ htokens _ => ⟨htokens, false, rfl⟩
  refine retains_current.bind fun start _ => Leads.get.bind fun _ _ => hopen.bind fun _ _ =>
    Leads.get.bind fun _ _ => (retains_attributesWithin _).bind fun _ _ =>
    (retains_expect _).bind fun _ _ => retains_expectIdent.bind fun name hname => ?_
  have hnamed : Leads v Opened
      (modify fun r : Reader => { r with draft := { r.draft with name := name.value } })
      (fun _ => True) (Heading v) := by
    refine .update fun r htokens hdraft => ⟨htokens, ?_⟩
    obtain ⟨serial, hdraft⟩ := hdraft
    rw [hdraft]
    exact .named serial hname
  refine hnamed.bind fun _ _ => (retains_expect _).bind fun _ _ =>
    (retains_items retains_parseParam _).bind fun _ _ => (retains_expect _).bind fun _ _ =>
    retains_parseReturned.bind fun returned _ => (retains_eat _).bind fun _ _ => .ite ?_ ?_
  · -- From here on local arrays may follow, but no parameters.
    suffices h : Leads v (Drafted v) _ (∀ f ∈ ·, Accepted v f) fun _ => True from
      fun r htokens hdraft => h r htokens (.heading hdraft)
    refine Leads.get.bind fun _ _ => (retains_statementsWithin _).bind fun _ _ =>
      (retains_expect _).bind fun _ _ => Leads.get.bind fun _ _ => ?_
    cases returned with
    | none => exact leads_finishFunc _ _
    | some name => exact (retains_setReturn name).bind fun _ _ => leads_finishFunc _ _
  · refine (retains_reportHere _).bind fun _ _ => (retains_skipTo _).bind fun _ _ => ?_
    exact fun _ htokens _ => ⟨htokens, trivial, nofun⟩

theorem retains_funcsWithin (rounds : Nat) :
    Retains v (fun _ => True) (funcsWithin rounds) (∀ f ∈ ·, Accepted v f) := by
  induction rounds with
  | zero => exact .pure nofun
  | succ rounds ih =>
    refine (retains_isAt _).bind fun _ _ => .ite (.pure nofun) ?_
    refine (retains_isAt _).bind fun _ _ => (retains_isAt _).bind fun _ _ => .ite ?_ ?_
    · refine leads_parseFunc.bind fun found hfound => ih.bind fun later hlater => .pure ?_
      exact List.forall_mem_append.mpr ⟨fun f hf => hfound f (Option.mem_toList.mp hf), hlater⟩
    · exact (retains_reportHere _).bind fun _ _ => retains_advance.bind fun _ _ =>
        (retains_skipTo _).bind fun _ _ => ih

theorem parseTokens_accepted {tokens : List Token} (htokens : v.Holds tokens) {funcs : List Func}
    (h : parseTokens tokens = .ok funcs) {f : Func} (hf : f ∈ funcs) : Accepted v f := by
  simp only [parseTokens] at h
  split at h
  · cases h
    exact (retains_funcsWithin _ _ htokens trivial).2.2 f hf
  · cases h

/-- A text that the parser accepts has tokens that it accepts. -/
theorem parseSource_ok {source : String} {funcs : List Func} (h : parseSource source = .ok funcs) :
    (tokenize source).2 = [] ∧ parseTokens (tokenize source).1 = .ok funcs := by
  simp only [parseSource] at h
  split at h
  · next hproblems => exact ⟨List.isEmpty_iff.mp hproblems, h⟩
  · cases h

/-- Every function of a text that the parser accepts is a built one. -/
theorem parseSource_built {source : String} {funcs : List Func}
    (h : parseSource source = .ok funcs) {f : Func} (hf : f ∈ funcs) : f.Built := by
  obtain ⟨hdraft, hbuild⟩ :=
    parseTokens_accepted (Vocabulary.all_holds _) (parseSource_ok h).2 hf
  exact ⟨f, hdraft.building, hbuild⟩

end Source

end ArrayOffload
