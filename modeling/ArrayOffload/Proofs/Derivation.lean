import ArrayOffload.Proofs.Grammar

/-!
# What an accepted text was

The parser goes on after a problem, but problems are never taken back. So where none is left at the
end, none was found on the way, and every token that was taken is a lexeme of a tree. One statement
for each parser says which lexemes stood before it and what it made of them.

An array name that is not declared is a problem, with one exception: the name that stands for a
missing one was reported already, so it is passed over in silence, even when it is written.

* `Source.Derives`: those statements, with a rule for sequences;
* `Source.derives_collect`: lists with commas;
* `Source.Step`: what reading one statement does to the draft;
* `Source.derives_funcsWithin`: whole sources.
-/

namespace ArrayOffload.Source

open ArrayOffload.Source.Tree

/-- If the work ends without a problem, then there was none before it, and from a draft and lexemes
in `pre` it leads to a result, a draft and lexemes in `post`. -/
def Derives {α : Type} (pre : Func → List Lexeme → Prop) (work : Parser α)
    (post : α → Func → List Lexeme → Prop) : Prop :=
  ∀ r : Reader, (work.run r).2.problems = [] →
    r.problems = [] ∧ ∀ draft lexemes, r.At draft lexemes → pre draft lexemes →
      ∃ draft' rest, (work.run r).2.At draft' rest ∧ post (work.run r).1 draft' rest

variable {α β : Type} {pre : Func → List Lexeme → Prop}

namespace Derives

variable {mid post : α → Func → List Lexeme → Prop} {last : β → Func → List Lexeme → Prop}

theorem bind {work : Parser α} {next : α → Parser β} (first : Derives pre work mid)
    (second : ∀ a, Derives (mid a) (next a) last) : Derives pre (work >>= next) last := by
  intro r hend
  obtain ⟨hmiddle, hsecond⟩ := second _ _ hend
  obtain ⟨hstart, hfirst⟩ := first r hmiddle
  refine ⟨hstart, fun draft lexemes hat hpre => ?_⟩
  obtain ⟨draft', rest, hat', hmid⟩ := hfirst draft lexemes hat hpre
  exact hsecond draft' rest hat' hmid

theorem weaken {work : Parser α} (h : Derives pre work mid)
    (hpost : ∀ a draft lexemes, mid a draft lexemes → post a draft lexemes) :
    Derives pre work post := by
  intro r hend
  obtain ⟨hstart, hwork⟩ := h r hend
  refine ⟨hstart, fun draft lexemes hat hpre => ?_⟩
  obtain ⟨draft', rest, hat', hmid⟩ := hwork draft lexemes hat hpre
  exact ⟨draft', rest, hat', hpost _ _ _ hmid⟩

theorem strengthen {pre' : Func → List Lexeme → Prop} {work : Parser α} (h : Derives pre' work post)
    (hpre : ∀ draft lexemes, pre draft lexemes → pre' draft lexemes) : Derives pre work post :=
  fun r hend => ⟨(h r hend).1, fun draft lexemes hat hdraft =>
    (h r hend).2 draft lexemes hat (hpre _ _ hdraft)⟩

/-- Work that always leaves a problem. -/
theorem elim {work : Parser α} (h : Derives pre work fun _ _ _ => False) : Derives pre work post :=
  h.weaken fun _ _ _ hfalse => hfalse.elim

theorem pure {a : α} (h : ∀ draft lexemes, pre draft lexemes → post a draft lexemes) :
    Derives pre (Pure.pure a) post :=
  fun _ hend => ⟨hend, fun draft lexemes hat hpre => ⟨draft, lexemes, hat, h _ _ hpre⟩⟩

theorem get : Derives pre (MonadState.get : Parser Reader)
    fun r draft lexemes => pre draft lexemes ∧ r.At draft lexemes :=
  fun _ hend => ⟨hend, fun draft lexemes hat hpre => ⟨draft, lexemes, hat, hpre, hat⟩⟩

theorem redraft (change : Func → Func) :
    Derives pre (modify fun r => { r with draft := change r.draft } : Parser Unit)
      fun _ draft lexemes => ∃ before, pre before lexemes ∧ draft = change before :=
  fun _ hend => ⟨hend, fun draft lexemes hat hpre =>
    ⟨change draft, lexemes, ⟨congrArg change hat.draft_eq, hat.rest_eq, hat.problems_eq⟩, draft,
      hpre, rfl⟩⟩

theorem ite {c : Prop} [Decidable c] {yes no : Parser α}
    (hyes : Derives (fun draft lexemes => pre draft lexemes ∧ c) yes post)
    (hno : Derives (fun draft lexemes => pre draft lexemes ∧ ¬c) no post) :
    Derives pre (if c then yes else no) post := by
  split
  · next hc => exact hyes.strengthen fun _ _ hpre => ⟨hpre, hc⟩
  · next hc => exact hno.strengthen fun _ _ hpre => ⟨hpre, hc⟩

end Derives

/-! ## Single tokens -/

/-- Problems stay, so nothing good follows from here. -/
theorem derives_report (problem : Problem) (span : Span) :
    Derives pre (report problem span) fun _ _ _ => False :=
  fun r hend => absurd hend (List.append_ne_nil_of_right_ne_nil r.problems (List.cons_ne_nil _ _))

theorem derives_current : Derives pre current fun token draft lexemes =>
    pre draft lexemes ∧ token.lexeme = nextLexeme lexemes :=
  fun _ hend => ⟨hend, fun draft lexemes hat hpre => ⟨draft, lexemes, hat, hpre, hat.current⟩⟩

theorem derives_reportHere (problem : String → Problem) :
    Derives pre (reportHere problem) fun _ _ _ => False :=
  derives_current.bind fun _ => derives_report _ _

theorem derives_isAt (symbol : Symbol) : Derives pre (isAt symbol) fun found draft lexemes =>
    pre draft lexemes ∧ found = (nextLexeme lexemes).isSymbol symbol :=
  fun r hend => ⟨hend, fun draft lexemes hat hpre =>
    ⟨draft, lexemes, hat, hpre, (takes_isAt symbol r hat).1⟩⟩

theorem Reader.problems_advance (r : Reader) : r.advance.problems = r.problems := by
  unfold Reader.advance
  split <;> rfl

/-- A token that was seen and is not the last one is taken. -/
theorem derives_take {token : Token} {lexeme : Lexeme} (htoken : token.lexeme = lexeme)
    (hlexeme : lexeme ≠ .symbol .endOfFile) :
    Derives (fun draft lexemes => pre draft lexemes ∧ token.lexeme = nextLexeme lexemes) advance
      fun _ draft lexemes => pre draft (lexeme :: lexemes) := by
  intro r hend
  refine ⟨r.problems_advance.symm.trans hend, fun draft lexemes hat hpre => ?_⟩
  cases lexemes with
  | nil => exact absurd (htoken.symm.trans hpre.2) hlexeme
  | cons first rest =>
    obtain rfl : lexeme = first := htoken.symm.trans hpre.2
    exact ⟨draft, rest, (takes_advance r hat).2, hpre.1⟩

theorem derives_advance_of_false : Derives (fun _ _ => False) advance fun _ _ _ => False :=
  fun r hend => ⟨r.problems_advance.symm.trans hend, fun _ _ _ hpre => hpre.elim⟩

theorem Lexeme.eq_of_isSymbol {lexeme : Lexeme} {symbol : Symbol}
    (h : lexeme.isSymbol symbol = true) : lexeme = .symbol symbol := by
  cases lexeme <;> simp_all [Lexeme.isSymbol]

theorem derives_eat {symbol : Symbol} (hsymbol : symbol ≠ .endOfFile) :
    Derives pre (eat symbol) fun found draft lexemes =>
      if found then pre draft (.symbol symbol :: lexemes)
      else pre draft lexemes ∧ (nextLexeme lexemes).isSymbol symbol = false := by
  intro r hend
  have hadvance : (eat symbol).run r = if r.isAt symbol then (true, r.advance) else (false, r) := by
    show (if r.isAt symbol then _ else _ : Parser Bool).run r = _
    split <;> rfl
  rw [hadvance] at hend ⊢
  cases hat : r.isAt symbol with
  | false =>
    rw [hat] at hend
    refine ⟨hend, fun draft lexemes hreader hpre => ⟨draft, lexemes, hreader, hpre, ?_⟩⟩
    exact (takes_isAt symbol r hreader).1.symm.trans hat
  | true =>
    rw [hat] at hend
    refine ⟨r.problems_advance.symm.trans hend, fun draft lexemes hreader hpre => ?_⟩
    have hnext : (nextLexeme lexemes).isSymbol symbol = true :=
      (takes_isAt symbol r hreader).1.symm.trans hat
    cases lexemes with
    | nil => simp [nextLexeme, Lexeme.isSymbol, hsymbol.symm] at hnext
    | cons first rest =>
      obtain rfl : first = .symbol symbol := Lexeme.eq_of_isSymbol hnext
      exact ⟨draft, rest, (takes_advance r hreader).2, hpre⟩

/-- A choice by the next symbol. -/
theorem derives_ifEat {symbol : Symbol} (hsymbol : symbol ≠ .endOfFile) {yes no : Parser α}
    {post : α → Func → List Lexeme → Prop}
    (hyes : Derives (fun draft lexemes => pre draft (.symbol symbol :: lexemes)) yes post)
    (hno : Derives (fun draft lexemes =>
      pre draft lexemes ∧ (nextLexeme lexemes).isSymbol symbol = false) no post) :
    Derives pre (do if ← eat symbol then yes else no) post := by
  refine (derives_eat hsymbol).bind fun found => ?_
  cases found with
  | true => exact hyes
  | false => exact hno

theorem derives_expect {symbol : Symbol} (hsymbol : symbol ≠ .endOfFile) :
    Derives pre (expect symbol) fun _ draft lexemes => pre draft (.symbol symbol :: lexemes) := by
  refine derives_current.bind fun token => derives_ifEat hsymbol (.pure fun _ _ h => h.1) ?_
  exact (derives_reportHere _).bind fun _ => .pure fun _ _ h => h.elim

theorem derives_expectIdent :
    Derives pre expectIdent fun name draft lexemes => pre draft (.ident name.value :: lexemes) := by
  refine derives_current.bind fun token => ?_
  split
  · next name htoken => exact (derives_take htoken nofun).bind fun _ => .pure fun _ _ h => h
  · exact (derives_reportHere _).bind fun _ => .pure fun _ _ h => h.elim

theorem derives_expectInteger :
    Derives pre expectInteger fun value draft lexemes => pre draft (.integer value :: lexemes) := by
  refine derives_current.bind fun token => ?_
  split
  · next value htoken => exact (derives_take htoken nofun).bind fun _ => .pure fun _ _ h => h
  · exact (derives_reportHere _).bind fun _ => .pure fun _ _ h => h.elim

theorem derives_expectScalar : Derives pre expectScalar fun constant draft lexemes =>
    ∃ l : Literal, constant = l.value ∧ pre draft (l.lexeme :: lexemes) := by
  refine derives_current.bind fun token => ?_
  split
  · next n htoken =>
    exact (derives_take htoken nofun).bind fun _ => .pure fun _ _ h => ⟨.integer n, rfl, h⟩
  · next constant htoken =>
    exact (derives_take htoken nofun).bind fun _ => .pure fun _ _ h => ⟨.number constant, rfl, h⟩
  · exact (derives_reportHere _).bind fun _ => .pure fun _ _ h => h.elim

/-! ## Names -/

theorem derives_reportUnknown (name : Located String) :
    Derives pre (reportUnknown name) fun _ _ _ => False :=
  Derives.get.bind fun _ => derives_report _ _

/-- What a name stands for: an array of that name, or nothing where the name is the stand-in. -/
def Resolves (draft : Func) (name : String) (found : Option ArrayId) : Prop :=
  found = draft.lookup? name ∧ (found = none → name = missingName)

theorem derives_resolve (name : Located String) :
    Derives pre (resolve name) fun found draft lexemes =>
      pre draft lexemes ∧ Resolves draft name.value found := by
  refine Derives.get.bind fun r => ?_
  split
  · next id hid =>
    exact .pure fun draft lexemes h => ⟨h.1, by rw [← h.2.draft_eq, hid], nofun⟩
  · next hnone =>
    refine .ite ((derives_reportUnknown name).bind fun _ => .pure fun _ _ h => h.elim) ?_
    refine .pure fun draft lexemes h => ⟨h.1.1, ?_, fun _ => Classical.not_not.mp h.2⟩
    rw [← h.1.2.draft_eq, hnone]

theorem derives_parseArray : Derives pre parseArray fun found draft lexemes =>
    ∃ name, pre draft (.ident name :: lexemes) ∧ Resolves draft name found :=
  derives_expectIdent.bind fun name => (derives_resolve name).weaken fun _ _ _ h => ⟨name.value, h⟩

theorem derives_declareAs (name : Located String) (add : Func → ArrayId × Func) :
    Derives pre (declareAs name add) fun _ draft lexemes =>
      ∃ before, pre before lexemes ∧ draft = (add before).2 := by
  refine Derives.get.bind fun r => .ite ((derives_report _ _).elim) ?_
  exact (Derives.redraft fun draft => (add draft).2).weaken
    fun _ _ _ ⟨before, h, hdraft⟩ => ⟨before, h.1.1, hdraft⟩

theorem derives_addOp (op : Op) : Derives pre (addOp op) fun _ draft lexemes =>
    ∃ before, pre before lexemes ∧ draft = before.push op :=
  Derives.redraft (·.push op)

theorem derives_parseElem : Derives pre parseElem fun elem draft lexemes =>
    pre draft (.ident elem.name :: lexemes) := by
  refine derives_expectIdent.bind fun word => ?_
  split
  · next elem helem =>
    have hname : elem.name = word.value := by simpa using List.find?_some helem
    exact .pure fun _ _ h => hname ▸ h
  · exact (derives_report _ _).bind fun _ => .pure fun _ _ h => h.elim

/-! ## Lists -/

/-- Lists of items that leave the draft alone. An item that gives nothing is left out. -/
theorem derives_collectWithin {item : Parser (Option β)} {spell : α → List Lexeme}
    {means : Func → α → Option β → Prop}
    (hitem : ∀ pre, Derives pre item fun found draft lexemes =>
      ∃ x, pre draft (spell x ++ lexemes) ∧ means draft x found)
    (close : Symbol) (rounds : Nat) (pre : Func → List Lexeme → Prop) :
    Derives pre (collectWithin close item rounds) fun values draft lexemes =>
      ∃ (listing : Listing α) (founds : List (Option β)),
        pre draft (listing.lexemes spell ++ lexemes) ∧
        List.Forall₂ (means draft) listing.items founds ∧ values = founds.filterMap id := by
  -- The items read so far are in the condition that the next round starts from.
  induction rounds generalizing pre with
  | zero => exact .pure fun _ _ h => ⟨.done, [], h, .nil, rfl⟩
  | succ rounds ih =>
    refine (derives_isAt close).bind fun _ => (derives_isAt .endOfFile).bind fun _ =>
      .ite (.pure fun _ _ h => ⟨.done, [], h.1.1.1, .nil, rfl⟩) ?_
    refine (hitem _).bind fun found => derives_ifEat (by decide) ?_ ?_
    · refine (ih _).bind fun values => .pure fun draft lexemes h => ?_
      obtain ⟨listing, founds, ⟨x, hpre, hx⟩, hlisting, rfl⟩ := h
      refine ⟨.next x listing, found :: founds, ?_, .cons hx hlisting, ?_⟩
      · simpa [Listing.lexemes] using hpre.1.1.1
      · cases found <;> simp
    · refine .pure fun draft lexemes h => ?_
      obtain ⟨⟨x, hpre, hx⟩, -⟩ := h
      refine ⟨.last x, [found], hpre.1.1.1, .cons hx .nil, ?_⟩
      cases found <;> simp

theorem derives_collect {item : Parser (Option β)} (spell : α → List Lexeme)
    {means : Func → α → Option β → Prop}
    (hitem : ∀ pre, Derives pre item fun found draft lexemes =>
      ∃ x, pre draft (spell x ++ lexemes) ∧ means draft x found) (close : Symbol) :
    Derives pre (collect close item) fun values draft lexemes =>
      ∃ (listing : Listing α) (founds : List (Option β)),
        pre draft (listing.lexemes spell ++ lexemes) ∧
        List.Forall₂ (means draft) listing.items founds ∧ values = founds.filterMap id := by
  refine Derives.get.bind fun r => (derives_collectWithin hitem close _ _).weaken ?_
  rintro values draft lexemes ⟨listing, founds, hpre, h⟩
  exact ⟨listing, founds, hpre.1, h⟩

/-- Lists of items that each change the draft. -/
theorem derives_itemsWithin {item : Parser Unit} {spell : α → List Lexeme}
    {change : Func → α → Func}
    (hitem : ∀ pre, Derives pre item fun _ draft lexemes =>
      ∃ before x, pre before (spell x ++ lexemes) ∧ draft = change before x)
    (close : Symbol) (rounds : Nat) (pre : Func → List Lexeme → Prop) :
    Derives pre (itemsWithin close item rounds) fun _ draft lexemes =>
      ∃ before, ∃ listing : Listing α, pre before (listing.lexemes spell ++ lexemes) ∧
        draft = listing.items.foldl change before := by
  induction rounds generalizing pre with
  | zero => exact .pure fun draft _ h => ⟨draft, .done, h, rfl⟩
  | succ rounds ih =>
    refine (derives_isAt close).bind fun _ => (derives_isAt .endOfFile).bind fun _ =>
      .ite (.pure fun draft _ h => ⟨draft, .done, h.1.1.1, rfl⟩) ?_
    refine (hitem _).bind fun _ => derives_ifEat (by decide) ?_ ?_
    · refine (ih _).weaken ?_
      rintro _ draft lexemes ⟨_, listing, ⟨before, x, hpre, rfl⟩, hdraft⟩
      refine ⟨before, .next x listing, ?_, hdraft⟩
      simpa [Listing.lexemes] using hpre.1.1.1
    · refine .pure fun draft lexemes h => ?_
      obtain ⟨⟨before, x, hpre, rfl⟩, -⟩ := h
      exact ⟨before, .last x, hpre.1.1.1, rfl⟩

theorem derives_items {item : Parser Unit} {spell : α → List Lexeme} {change : Func → α → Func}
    (hitem : ∀ pre, Derives pre item fun _ draft lexemes =>
      ∃ before x, pre before (spell x ++ lexemes) ∧ draft = change before x) (close : Symbol) :
    Derives pre (items close item) fun _ draft lexemes =>
      ∃ before, ∃ listing : Listing α, pre before (listing.lexemes spell ++ lexemes) ∧
        draft = listing.items.foldl change before := by
  refine Derives.get.bind fun r => (derives_itemsWithin hitem close _ _).weaken ?_
  rintro _ draft lexemes ⟨before, listing, hpre, h⟩
  exact ⟨before, listing, hpre.1, h⟩

/-- Items that each give a value. -/
theorem filterMap_of_some {value : α → β} {xs : List α} {founds : List (Option β)}
    (h : List.Forall₂ (fun x found => found = some (value x)) xs founds) :
    founds.filterMap id = xs.map value := by
  induction h with
  | nil => rfl
  | cons hx _ ih =>
    rw [hx]
    exact congrArg (value _ :: ·) ih

theorem derives_dim : Derives pre (some <$> expectInteger) fun found draft lexemes =>
    ∃ n, pre draft ([.integer n] ++ lexemes) ∧ found = some n :=
  derives_expectInteger.bind fun n => .pure fun _ _ h => ⟨n, h, rfl⟩

theorem derives_parseArrays : Derives pre parseArrays fun ids draft lexemes =>
    ∃ (arrays : Listing String) (founds : List (Option ArrayId)),
      pre draft (arraysLexemes arrays ++ lexemes) ∧
      List.Forall₂ (Resolves draft) arrays.items founds ∧ ids = founds.filterMap id := by
  refine (derives_expect (by decide)).bind fun _ => ?_
  refine (derives_collect (fun name => [.ident name]) (fun _ => derives_parseArray) _).bind
    fun ids => ?_
  refine (derives_expect (by decide)).bind fun _ => .pure fun draft lexemes h => ?_
  obtain ⟨arrays, founds, hpre, h⟩ := h
  exact ⟨arrays, founds, by simpa [arraysLexemes] using hpre, h⟩

/-! ## Names that are found -/

section Found

variable {draft : Func}

theorem names_of_lookup? {name : String} {id : ArrayId} (h : draft.lookup? name = some id) :
    Names draft draft.arrays.length name id := by
  obtain ⟨hlt, hname, -⟩ := List.findIdx?_eq_some_iff_getElem.mp h
  refine ⟨hlt, ?_⟩
  simpa [Func.nameOf?, Func.decl?, List.getElem?_eq_getElem hlt] using hname

theorem lookup?_eq_none_iff {name : String} :
    draft.lookup? name = none ↔ name ∉ draft.declaredNames := by
  simp [Func.lookup?, Func.declaredNames]

theorem mem_declaredNames_of_names {scope : Nat} {name : String} {id : ArrayId}
    (h : Names draft scope name id) : name ∈ draft.declaredNames := by
  obtain ⟨decl, hdecl, rfl⟩ := Option.map_eq_some_iff.mp h.2
  exact List.mem_map.mpr ⟨decl, List.mem_of_getElem? hdecl, rfl⟩

/-- The stand-in is written where no array has this name. -/
def Missing (draft : Func) (name : String) : Prop :=
  name = missingName ∧ missingName ∉ draft.declaredNames

theorem Resolves.cases {name : String} {found : Option ArrayId} (h : Resolves draft name found) :
    (∃ id, found = some id ∧ Names draft draft.arrays.length name id) ∨ Missing draft name := by
  obtain ⟨hfound, hnone⟩ := h
  cases found with
  | some id => exact .inl ⟨id, rfl, names_of_lookup? hfound.symm⟩
  | none =>
    obtain rfl := hnone rfl
    exact .inr ⟨rfl, lookup?_eq_none_iff.mp hfound.symm⟩

theorem Resolves.known {name : String} {found : Option ArrayId} (h : Resolves draft name found)
    (hname : name ≠ missingName) : name ∈ draft.declaredNames := by
  rcases h.cases with ⟨id, -, hid⟩ | ⟨hmissing, -⟩
  · exact mem_declaredNames_of_names hid
  · exact absurd hmissing hname

theorem Resolves.missing {name : String} (h : Resolves draft name none) : Missing draft name :=
  h.cases.resolve_left nofun

/-- What an operand stands for. -/
def Supplies (draft : Func) : Term → Option Operand → Prop
  | .array name, found => ∃ id, Resolves draft name id ∧ found = id.map .array
  | .literal l, found => found = some (.scalar l.value)

theorem Supplies.cases {term : Term} {found : Option Operand} (h : Supplies draft term found) :
    (∃ operand, found = some operand ∧ term.Denotes draft draft.arrays.length operand) ∨
      ∃ name ∈ term.array?, Missing draft name := by
  cases term with
  | literal l => exact .inl ⟨_, h, rfl⟩
  | array name =>
    obtain ⟨id, hid, rfl⟩ := h
    rcases hid.cases with ⟨id, rfl, hnames⟩ | hmissing
    · exact .inl ⟨_, rfl, hnames⟩
    · exact .inr ⟨name, rfl, hmissing⟩

/-- Either every item gives a value, and none is lost, or one of them gives nothing. -/
theorem forall₂_filterMap {means : α → Option β → Prop} {good : α → β → Prop} {bad : α → Prop}
    {xs : List α} {founds : List (Option β)} (h : List.Forall₂ means xs founds)
    (hcases : ∀ x found, means x found → (∃ y, found = some y ∧ good x y) ∨ bad x) :
    List.Forall₂ good xs (founds.filterMap id) ∨ ∃ x ∈ xs, bad x := by
  induction h with
  | nil => exact .inl .nil
  | @cons x found xs founds hx _ ih =>
    rcases hcases x found hx with ⟨y, rfl, hy⟩ | hbad
    · rcases ih with hall | ⟨z, hz, hbad⟩
      · exact .inl (.cons hy hall)
      · exact .inr ⟨z, List.mem_cons_of_mem _ hz, hbad⟩
    · exact .inr ⟨x, List.mem_cons_self, hbad⟩

theorem resolves_all {names : List String} {founds : List (Option ArrayId)}
    (h : List.Forall₂ (Resolves draft) names founds) :
    (List.Forall₂ (Names draft draft.arrays.length) names (founds.filterMap id) ∨
      ∃ name ∈ names, Missing draft name) ∧
      ∀ name ∈ names, name ≠ missingName → name ∈ draft.declaredNames := by
  refine ⟨forall₂_filterMap h fun _ _ hx => hx.cases, fun name hname => ?_⟩
  obtain ⟨found, hfound⟩ := exists_of_forall₂ h hname
  exact hfound.known

theorem supplies_all {terms : List Term} {founds : List (Option Operand)}
    (h : List.Forall₂ (Supplies draft) terms founds) :
    (List.Forall₂ (Term.Denotes draft draft.arrays.length) terms (founds.filterMap id) ∨
      ∃ name ∈ terms.filterMap Term.array?, Missing draft name) ∧
      ∀ name ∈ terms.filterMap Term.array?, name ≠ missingName → name ∈ draft.declaredNames := by
  constructor
  · rcases forall₂_filterMap h fun _ _ hx => hx.cases with hall | ⟨term, hterm, name, hname, hbad⟩
    · exact .inl hall
    · exact .inr ⟨name, List.mem_filterMap.mpr ⟨term, hterm, hname⟩, hbad⟩
  · intro name hname
    obtain ⟨term, hterm, harray⟩ := List.mem_filterMap.mp hname
    obtain ⟨found, hfound⟩ := exists_of_forall₂ h hterm
    cases term with
    | literal l => cases harray
    | array text =>
      cases harray
      obtain ⟨id, hid, -⟩ := hfound
      exact hid.known

end Found

/-! ## Statements -/

/-- The later draft has the same heading and goes on where the earlier one ends. -/
structure Extends (before after : Func) : Prop where
  arrays : before.arrays <+: after.arrays
  body : before.body <+: after.body
  heading : { after with arrays := before.arrays, body := before.body } = before

theorem Extends.refl (f : Func) : Extends f f :=
  ⟨List.prefix_rfl, List.prefix_rfl, rfl⟩

theorem Extends.trans {f g h : Func} (first : Extends f g) (second : Extends g h) :
    Extends f h where
  arrays := first.arrays.trans second.arrays
  body := first.body.trans second.body
  heading :=
    (congrArg (fun k : Func => { k with arrays := f.arrays, body := f.body }) second.heading).trans
      first.heading

/-- The draft grows by what the statement describes. -/
inductive Adds (before : Func) (statement : Statement) : Func → Prop
  | declare {decl : ArrayDecl} : statement.Declares before before.arrays.length decl →
      Adds before statement (before.declare decl).2
  | perform {op : Op} : statement.Performs before before.arrays.length op →
      Adds before statement (before.push op)

/-- What reading a statement does to the draft: it adds what the statement describes if all names
that are mentioned are declared, and only the stand-in may be mentioned without being declared. -/
structure Step (before : Func) (statement : Statement) (after : Func) : Prop where
  known : ∀ name ∈ statement.mentions, name ≠ missingName → name ∈ before.declaredNames
  adds : (∀ name ∈ statement.mentions, name ∈ before.declaredNames) → Adds before statement after
  scope : ∀ name ∈ after.declaredNames, name ∈ before.declaredNames ∨ name ∈ statement.declares?
  grows : Extends before after

namespace Step

variable {before : Func} {statement : Statement}

theorem of_declares {decl : ArrayDecl}
    (h : statement.Declares before before.arrays.length decl) :
    Step before statement (before.declare decl).2 where
  known name hname _ := by
    obtain ⟨id, hid⟩ := h.names.2 name hname
    exact mem_declaredNames_of_names hid
  adds _ := .declare h
  scope name hname := by
    rw [h.names.1]
    simpa [Func.declaredNames, Func.declare, eq_comm] using hname
  grows := ⟨List.prefix_append _ _, List.prefix_rfl, rfl⟩

theorem of_performs {op : Op} (h : statement.Performs before before.arrays.length op) :
    Step before statement (before.push op) where
  known name hname _ := by
    obtain ⟨id, hid⟩ := h.names.2 name hname
    exact mem_declaredNames_of_names hid
  adds _ := .perform h
  scope _ hname := .inl hname
  grows := ⟨List.prefix_rfl, List.prefix_append _ _, rfl⟩

/-- Nothing is asked of a statement that mentions a missing name but that it declares no array. -/
theorem of_missing {after : Func} (hmissing : ∃ name ∈ statement.mentions, Missing before name)
    (hknown : ∀ name ∈ statement.mentions, name ≠ missingName → name ∈ before.declaredNames)
    (harrays : after.arrays = before.arrays) (hgrows : Extends before after) :
    Step before statement after where
  known := hknown
  adds hall := by
    obtain ⟨name, hname, rfl, hundeclared⟩ := hmissing
    exact absurd (hall _ hname) hundeclared
  scope name hname := by
    rw [Func.declaredNames, harrays] at hname
    exact .inl hname
  grows := hgrows

/-- A statement that is dropped. -/
theorem dropped (hmissing : ∃ name ∈ statement.mentions, Missing before name)
    (hknown : ∀ name ∈ statement.mentions, name ≠ missingName → name ∈ before.declaredNames) :
    Step before statement before :=
  of_missing hmissing hknown rfl (.refl before)

/-- A statement whose operation lacks an operand. -/
theorem lacking {op : Op} (hmissing : ∃ name ∈ statement.mentions, Missing before name)
    (hknown : ∀ name ∈ statement.mentions, name ≠ missingName → name ∈ before.declaredNames) :
    Step before statement (before.push op) :=
  of_missing hmissing hknown rfl ⟨List.prefix_rfl, List.prefix_append _ _, rfl⟩

end Step

/-- The lexemes in front were a statement, and the draft has made the step. -/
def ReadsStatement (pre : Func → List Lexeme → Prop) (_ : Unit) (draft : Func)
    (lexemes : List Lexeme) : Prop :=
  ∃ before statement, pre before (statement.lexemes ++ lexemes) ∧ Step before statement draft

theorem derives_parseLet : Derives pre parseLet (ReadsStatement pre) := by
  refine (derives_expect (by decide)).bind fun _ => derives_expectIdent.bind fun name =>
    (derives_expect (by decide)).bind fun _ => derives_parseElem.bind fun elem =>
    derives_ifEat (by decide) ?_ (derives_ifEat (by decide) ?_ ?_)
  · refine derives_parseArray.bind fun found => ?_
    cases found with
    | some id =>
      refine (derives_declareAs _ _).weaken ?_
      rintro _ _ lexemes ⟨before, ⟨source, hpre, hsource, -⟩, rfl⟩
      refine ⟨before, .like name.value elem source, hpre, .of_declares ⟨id, ?_, rfl⟩⟩
      exact names_of_lookup? hsource.symm
    | none =>
      refine .pure ?_
      rintro before lexemes ⟨source, hpre, hsource⟩
      refine ⟨before, .like name.value elem source, hpre, .dropped ?_ ?_⟩
      · exact ⟨source, List.mem_singleton_self _, hsource.missing⟩
      · simpa [Statement.mentions] using hsource.known
  · refine (derives_collect (fun n => [.integer n]) (fun _ => derives_dim) _).bind fun dims =>
      (derives_expect (by decide)).bind fun _ =>
      .ite ((derives_report _ _).elim) ?_
    refine (derives_declareAs _ _).weaken ?_
    rintro _ _ lexemes ⟨before, ⟨⟨listing, founds, hpre, hfounds, rfl⟩, -⟩, rfl⟩
    have hdims := (filterMap_of_some hfounds).trans (List.map_id' _)
    refine ⟨before, .fixed name.value elem listing, ?_, .of_declares ?_⟩
    · simpa [Statement.lexemes] using hpre.1
    · rw [hdims]
      exact rfl
  · exact (derives_reportHere _).elim

theorem derives_parseCall : Derives pre parseCall (ReadsStatement pre) := by
  -- The step, whichever of the names are declared.
  have hstep : ∀ {before : Func} {callee : String} {reads : Listing String}
      {writes : Option (Listing String)} {readFounds writeFounds : List (Option ArrayId)},
      List.Forall₂ (Resolves before) reads.items readFounds →
      List.Forall₂ (Resolves before) (writes.elim [] Listing.items) writeFounds →
      Step before (.call callee reads writes)
        (before.push (.call callee (readFounds.filterMap id) (writeFounds.filterMap id))) := by
    intro before callee reads writes readFounds writeFounds hreads hwrites
    obtain ⟨hreads, hknown⟩ := resolves_all hreads
    obtain ⟨hwrites, hknown'⟩ := resolves_all hwrites
    have hall := List.forall_mem_append.mpr ⟨hknown, hknown'⟩
    rcases hreads with hreads | ⟨name, hname, hmissing⟩
    · rcases hwrites with hwrites | ⟨name, hname, hmissing⟩
      · exact .of_performs ⟨_, _, hreads, hwrites, rfl⟩
      · exact .lacking ⟨name, List.mem_append_right _ hname, hmissing⟩ hall
    · exact .lacking ⟨name, List.mem_append_left _ hname, hmissing⟩ hall
  refine (derives_expect (by decide)).bind fun _ => derives_expectIdent.bind fun callee =>
    derives_parseArrays.bind fun reads => derives_ifEat (by decide) ?_ ?_
  · refine derives_parseArrays.bind fun writes => (derives_addOp _).weaken ?_
    rintro _ _ lexemes
      ⟨before, ⟨writes, writeFounds, ⟨reads, readFounds, hpre, hreads, rfl⟩, hwrites, rfl⟩, rfl⟩
    refine ⟨before, .call callee.value reads (some writes), ?_, hstep hreads hwrites⟩
    simpa [Statement.lexemes] using hpre
  · refine (derives_addOp _).weaken ?_
    rintro _ _ lexemes ⟨before, ⟨⟨reads, readFounds, hpre, hreads, rfl⟩, -⟩, rfl⟩
    have hwrites : List.Forall₂ (Resolves before)
        ((none : Option (Listing String)).elim [] Listing.items) [] := .nil
    refine ⟨before, .call callee.value reads none, ?_, hstep hreads hwrites⟩
    simpa [Statement.lexemes] using hpre

theorem derives_parseOperand : Derives pre parseOperand fun found draft lexemes =>
    ∃ term : Term, pre draft ([term.lexeme] ++ lexemes) ∧ Supplies draft term found := by
  refine derives_current.bind fun token => ?_
  split
  · refine derives_parseArray.bind fun found => .pure ?_
    rintro draft lexemes ⟨name, hpre, hname⟩
    exact ⟨.array name, hpre.1, found, hname, rfl⟩
  · refine derives_expectScalar.bind fun constant => .pure ?_
    rintro draft lexemes ⟨l, rfl, hpre⟩
    exact ⟨.literal l, hpre.1, rfl⟩

/-- The part of an assignment after its target and `=`, or after the bracket. -/
theorem derives_parseFold (make : FoldOp → ArrayId → Op) :
    Derives pre (parseFold make) fun _ draft lexemes => ∃ before op input found,
      pre before (.ident op.name :: .symbol .leftParen :: .ident input :: .symbol .rightParen ::
        lexemes) ∧
      Resolves before input found ∧
      draft = found.elim before fun id => before.push (make op id) := by
  refine derives_expectIdent.bind fun word => (derives_expect (by decide)).bind fun _ => ?_
  split
  · exact (derives_report _ _).elim
  · next op hop =>
    have hname : op.name = word.value := by simpa using List.find?_some hop
    refine derives_expectIdent.bind fun input => (derives_expect (by decide)).bind fun _ =>
      (derives_resolve input).bind fun found => ?_
    cases found with
    | some id =>
      refine (derives_addOp _).weaken ?_
      rintro _ _ lexemes ⟨before, ⟨hpre, hinput⟩, rfl⟩
      exact ⟨before, op, input.value, some id, hname ▸ hpre, hinput, rfl⟩
    | none =>
      refine .pure ?_
      rintro before lexemes ⟨hpre, hinput⟩
      exact ⟨before, op, input.value, none, hname ▸ hpre, hinput, rfl⟩

theorem derives_parseMap (out : ArrayId) :
    Derives pre (parseMap out) fun _ draft lexemes =>
      ∃ before op, ∃ (args : Listing Term) (founds : List (Option Operand)), pre before (.ident op.name :: .symbol .leftParen ::
        (args.lexemes (fun term => [term.lexeme]) ++ .symbol .rightParen :: lexemes)) ∧
      List.Forall₂ (Supplies before) args.items founds ∧
      draft = before.push (.map out op (founds.filterMap id)) := by
  refine derives_expectIdent.bind fun word => (derives_expect (by decide)).bind fun _ => ?_
  split
  · exact (derives_report _ _).elim
  · next op hop =>
    have hname : op.name = word.value := by simpa using List.find?_some hop
    refine (derives_collect (fun term => [Term.lexeme term]) (fun _ => derives_parseOperand) _).bind
      fun args => (derives_expect (by decide)).bind fun _ => (derives_addOp _).weaken ?_
    rintro _ _ lexemes ⟨before, ⟨args, founds, hpre, hargs, rfl⟩, rfl⟩
    exact ⟨before, op, args, founds, hname ▸ hpre, hargs, rfl⟩

theorem derives_parseStore (array : ArrayId) :
    Derives pre (parseStore array) fun _ draft lexemes => ∃ before index, ∃ value : Literal,
      pre before (.integer index :: .symbol .rightBracket :: .symbol .equals :: value.lexeme ::
        lexemes) ∧
      draft = before.push (.store array index value.value) := by
  refine derives_expectInteger.bind fun index => (derives_expect (by decide)).bind fun _ =>
    (derives_expect (by decide)).bind fun _ => derives_expectScalar.bind fun constant =>
    (derives_addOp _).weaken ?_
  rintro _ _ lexemes ⟨before, ⟨value, rfl, hpre⟩, rfl⟩
  exact ⟨before, index, value, hpre, rfl⟩

theorem step_fold {before : Func} {kind : FoldKind} {target input : String} {out : ArrayId}
    {op : FoldOp} {found : Option ArrayId} (htarget : Resolves before target (some out))
    (hinput : Resolves before input found) :
    Step before (.fold kind target op input)
      (found.elim before fun id => before.push (kind.op out op id)) := by
  cases found with
  | some id =>
    exact .of_performs
      ⟨out, id, names_of_lookup? htarget.1.symm, names_of_lookup? hinput.1.symm, rfl⟩
  | none =>
    refine .dropped ⟨input, by simp [Statement.mentions], hinput.missing⟩ ?_
    simpa [Statement.mentions] using ⟨htarget.known, hinput.known⟩

theorem derives_parseAssign : Derives pre parseAssign (ReadsStatement pre) := by
  refine derives_parseArray.bind fun found => ?_
  cases found with
  | none =>
    refine .pure ?_
    rintro before lexemes ⟨name, hpre, hname⟩
    refine ⟨before, .bare name, hpre, .dropped ?_ ?_⟩
    · exact ⟨name, List.mem_singleton_self _, hname.missing⟩
    · simpa [Statement.mentions] using hname.known
  | some out =>
    refine derives_ifEat (by decide) ?_ ((derives_expect (by decide)).bind fun _ =>
      derives_ifEat (by decide) ?_ (derives_ifEat (by decide) ?_ ?_))
    · refine (derives_parseStore out).weaken ?_
      rintro _ _ lexemes ⟨before, index, value, ⟨target, hpre, htarget⟩, rfl⟩
      refine ⟨before, .store target index value, hpre, .of_performs ⟨out, ?_, rfl⟩⟩
      exact names_of_lookup? htarget.1.symm
    · refine (derives_parseFold _).weaken ?_
      rintro _ _ lexemes ⟨before, op, input, found, ⟨⟨target, hpre, htarget⟩, -⟩, hinput, rfl⟩
      exact ⟨before, .fold .reduce target op input, hpre, step_fold htarget hinput⟩
    · refine (derives_parseFold _).weaken ?_
      rintro _ _ lexemes ⟨before, op, input, found, ⟨⟨⟨target, hpre, htarget⟩, -⟩, -⟩, hinput, rfl⟩
      exact ⟨before, .fold .scan target op input, hpre, step_fold htarget hinput⟩
    · refine (derives_parseMap out).weaken ?_
      rintro _ _ lexemes
        ⟨before, op, args, founds, ⟨⟨⟨⟨target, hpre, htarget⟩, -⟩, -⟩, -⟩, hargs, rfl⟩
      refine ⟨before, .map target op args, by simpa [Statement.lexemes] using hpre, ?_⟩
      obtain ⟨hargs | ⟨name, hname, hmissing⟩, hknown⟩ := supplies_all hargs
      · exact .of_performs ⟨out, _, names_of_lookup? htarget.1.symm, hargs, rfl⟩
      · exact .lacking ⟨name, List.mem_cons_of_mem _ hname, hmissing⟩
          (List.forall_mem_cons.mpr ⟨htarget.known, hknown⟩)

theorem derives_parseStatement : Derives pre parseStatement (ReadsStatement pre) := by
  refine derives_current.bind fun token => ?_
  have hpast : ∀ {work : Parser Unit}, (∀ pre, Derives pre work (ReadsStatement pre)) →
      Derives (fun draft lexemes => pre draft lexemes ∧ token.lexeme = nextLexeme lexemes) work
        (ReadsStatement pre) :=
    fun hwork => (hwork _).weaken fun _ _ _ ⟨before, statement, hpre, hstep⟩ =>
      ⟨before, statement, hpre.1, hstep⟩
  split
  · exact hpast fun _ => derives_parseLet
  · next htoken =>
    refine (derives_take htoken nofun).bind fun _ => derives_parseArrays.bind fun ids =>
      (derives_addOp _).weaken ?_
    rintro _ _ lexemes ⟨before, ⟨arrays, founds, hpre, hfounds, rfl⟩, rfl⟩
    refine ⟨before, .print arrays, hpre, ?_⟩
    obtain ⟨hall | hmissing, hknown⟩ := resolves_all hfounds
    · exact .of_performs ⟨_, hall, rfl⟩
    · exact .lacking hmissing hknown
  · exact hpast fun _ => derives_parseCall
  · exact hpast fun _ => derives_parseAssign
  · exact (derives_reportHere _).bind fun _ => derives_advance_of_false.elim

/-- Statements one after the other. -/
inductive Steps : Func → List Line → Func → Prop
  | nil (f : Func) : Steps f [] f
  | cons {f g h : Func} {line : Line} {lines : List Line} :
      Step f line.statement g → Steps g lines h → Steps f (line :: lines) h

theorem Steps.grows {f g : Func} {lines : List Line} (h : Steps f lines g) : Extends f g := by
  induction h with
  | nil f => exact .refl f
  | cons hstep _ ih => exact hstep.grows.trans ih

theorem derives_skipTo_of_false (stop : Token → Bool) :
    Derives (fun _ _ => False) (skipTo stop) fun _ _ _ => False :=
  fun _ hend => ⟨hend, fun _ _ _ hpre => hpre.elim⟩

theorem derives_statementsWithin (rounds : Nat) (pre : Func → List Lexeme → Prop) :
    Derives pre (statementsWithin rounds) fun _ draft lexemes =>
      ∃ before lines, pre before (lines.flatMap Line.lexemes ++ lexemes) ∧
        Steps before lines draft := by
  induction rounds generalizing pre with
  | zero => exact .pure fun draft _ h => ⟨draft, [], h, .nil draft⟩
  | succ rounds ih =>
    refine (derives_isAt _).bind fun _ => (derives_isAt _).bind fun _ =>
      .ite (.pure fun draft _ h => ⟨draft, [], h.1.1.1, .nil draft⟩) ?_
    refine Derives.get.bind fun start => derives_parseStatement.bind fun _ =>
      (derives_eat (by decide)).bind fun ended => Derives.get.bind fun stop => .ite ?_ ?_
    · -- A problem of this statement would still be there.
      refine ((derives_skipTo_of_false _).bind fun _ => ?_).strengthen
        fun _ _ h => absurd h.2 (by simp [h.1.2.problems_eq])
      exact (ih fun _ _ => False).weaken fun _ _ _ ⟨_, _, h, _⟩ => h.elim
    · refine (ih _).weaken ?_
      rintro _ draft lexemes ⟨middle, lines, ⟨⟨hstatement, -⟩, -⟩, hsteps⟩
      cases ended with
      | true =>
        obtain ⟨before, statement, ⟨hpre, -⟩, hstep⟩ := hstatement
        refine ⟨before, ⟨statement, true⟩ :: lines, ?_, .cons hstep hsteps⟩
        simpa [Line.lexemes] using hpre.1.1.1
      | false =>
        obtain ⟨⟨before, statement, ⟨hpre, -⟩, hstep⟩, -⟩ := hstatement
        refine ⟨before, ⟨statement, false⟩ :: lines, ?_, .cons hstep hsteps⟩
        simpa [Line.lexemes] using hpre.1.1.1

/-! ## Functions -/

def addParam (f : Func) (param : Param) : Func :=
  (f.addParam param.name param.elem param.dims.items.length).2

theorem derives_parseParam : Derives pre parseParam fun _ draft lexemes =>
    ∃ before, ∃ param : Param, pre before (param.lexemes ++ lexemes) ∧
      draft = addParam before param := by
  have hdim : ∀ pre, Derives pre (do
      let dim ← expectIdent
      if dim.value ≠ "_" then report (.paramDimension dim.value) dim.span
      return some ()) fun found draft lexemes =>
        ∃ dim : Unit, pre draft ([.ident "_"] ++ lexemes) ∧ found = some dim := by
    intro pre
    refine derives_expectIdent.bind fun dim => .ite ?_ ?_
    · exact (derives_report _ _).bind fun _ => .pure fun _ _ h => h.elim
    · exact .pure fun _ _ h => ⟨(), by simpa [Classical.not_not.mp h.2] using h.1, rfl⟩
  refine derives_expectIdent.bind fun name => (derives_expect (by decide)).bind fun _ =>
    derives_parseElem.bind fun elem => (derives_expect (by decide)).bind fun _ =>
    (derives_collect (fun _ => [.ident "_"]) hdim _).bind fun dims =>
    (derives_expect (by decide)).bind fun _ => (derives_declareAs _ _).weaken ?_
  rintro _ _ lexemes ⟨before, ⟨listing, founds, hpre, hfounds, rfl⟩, rfl⟩
  have hlength := congrArg List.length (filterMap_of_some hfounds)
  rw [List.length_map] at hlength
  refine ⟨before, ⟨name.value, elem, listing⟩, ?_, by rw [hlength]; rfl⟩
  simpa [Param.lexemes] using hpre

theorem derives_parseAttribute : Derives pre parseAttribute fun _ draft lexemes =>
    ∃ before, pre before (serialLexemes ++ lexemes) ∧
      draft = { before with serialOnly := true } := by
  refine (derives_expect (by decide)).bind fun _ => (derives_expect (by decide)).bind fun _ =>
    derives_expectIdent.bind fun name => (derives_expect (by decide)).bind fun _ => .ite ?_ ?_
  · refine (Derives.redraft fun draft => { draft with serialOnly := true }).weaken ?_
    rintro _ draft lexemes ⟨before, ⟨hpre, hname⟩, hdraft⟩
    exact ⟨before, by rwa [hname] at hpre, hdraft⟩
  · exact Derives.get.bind fun _ => (derives_report _ _).elim

theorem derives_attributesWithin (rounds : Nat) (pre : Func → List Lexeme → Prop) :
    Derives pre (attributesWithin rounds) fun _ draft lexemes => ∃ before serial,
      pre before ((List.replicate serial serialLexemes).flatten ++ lexemes) ∧
      draft = { before with serialOnly := before.serialOnly || decide (0 < serial) } := by
  induction rounds generalizing pre with
  | zero => exact .pure fun draft _ h => ⟨draft, 0, h, by simp⟩
  | succ rounds ih =>
    refine (derives_isAt _).bind fun _ => .ite ?_ (.pure fun draft _ h => ⟨draft, 0, h.1.1, by simp⟩)
    refine derives_parseAttribute.bind fun _ => (ih _).weaken ?_
    rintro _ _ lexemes ⟨_, serial, ⟨before, hpre, rfl⟩, rfl⟩
    refine ⟨before, serial + 1, ?_, by simp⟩
    simpa [List.replicate_succ] using hpre.1.1

theorem derives_parseReturned : Derives pre parseReturned fun returned draft lexemes =>
    pre draft ((returned.elim [] fun name => [.symbol .arrow, .ident name.value]) ++ lexemes) := by
  refine derives_ifEat (by decide) ?_ (.pure fun _ _ h => h.1)
  exact derives_expectIdent.bind fun name => .pure fun _ _ h => h

theorem derives_setReturn (name : Located String) :
    Derives pre (setReturn name) fun _ draft lexemes =>
      ∃ before id, pre before lexemes ∧ before.lookup? name.value = some id ∧
        draft = { before with returns := some id } := by
  refine Derives.get.bind fun r => ?_
  split
  · next id hid =>
    refine (Derives.redraft fun draft => { draft with returns := some id }).weaken ?_
    rintro _ _ lexemes ⟨before, ⟨hpre, hat⟩, hdraft⟩
    exact ⟨before, id, hpre, by rw [← hat.draft_eq, hid], hdraft⟩
  · exact (derives_reportUnknown name).elim

theorem derives_finishFunc (mark : Nat) (span : Span) :
    Derives pre (finishFunc mark span) fun found draft lexemes =>
      pre draft lexemes ∧ found = some draft := by
  refine Derives.get.bind fun r => .ite ?_ ?_
  · exact .pure fun _ _ h => absurd h.2 (by simp [h.1.2.problems_eq])
  · split
    · next f hbuild =>
      obtain ⟨rfl, -⟩ := Func.build_ok hbuild
      exact .pure fun _ _ h => ⟨h.1.1, congrArg some h.1.2.draft_eq⟩
    · exact (derives_report _ _).bind fun _ => .pure fun _ _ h => h.elim

/-- The draft when the body of a function begins. -/
def Tree.Function.opening (tree : Function) : Func :=
  tree.params.items.foldl addParam
    { Func.empty tree.name with serialOnly := decide (0 < tree.serial) }

theorem foldl_addParam (params : List Param) (f : Func) :
    params.foldl addParam f =
      { f with
        arrays := f.arrays ++ params.mapIdx fun i => Param.decl (f.params.length + i)
        params := f.params ++ (List.range params.length).map (f.arrays.length + ·) } := by
  induction params generalizing f with
  | nil => simp
  | cons param params ih =>
    rw [List.foldl_cons, ih]
    simp [addParam, Func.addParam, Func.declare, Param.decl, List.mapIdx_cons,
      List.range_succ_eq_map, Nat.add_assoc, Nat.add_comm 1]

theorem Tree.Function.opening_eq (tree : Function) : tree.opening =
    ⟨tree.name, tree.params.items.mapIdx Param.decl, List.range tree.params.items.length, [], none,
      decide (0 < tree.serial)⟩ := by
  simp [opening, foldl_addParam, Func.empty]

/-- What the parser made of a function: its statements were read one after the other, and then the
returned array was looked up among all of them. -/
inductive Parsed (tree : Function) : Func → Prop
  | intro {f : Func} {returns : Option ArrayId} : Steps tree.opening tree.body f →
      Option.Rel (fun name id => f.lookup? name = some id) tree.returned returns →
      Parsed tree { f with returns := returns }

theorem Steps.returns {tree : Function} {f : Func} {lines : List Line}
    (h : Steps tree.opening lines f) : f = { f with returns := none } := by
  have hreturns := congrArg Func.returns h.grows.heading
  rw [tree.opening_eq] at hreturns
  obtain ⟨name, arrays, params, body, returns, serialOnly⟩ := f
  obtain rfl : returns = none := hreturns
  rfl

theorem derives_parseFunc : Derives pre parseFunc fun found _ lexemes =>
    ∃ before, ∃ tree : Function, ∃ f,
      pre before (tree.lexemes ++ lexemes) ∧ found = some f ∧ Parsed tree f := by
  refine derives_current.bind fun start => Derives.get.bind fun mark =>
    (Derives.redraft fun _ => Func.empty "").bind fun _ => Derives.get.bind fun _ =>
    (derives_attributesWithin _ _).bind fun _ => (derives_expect (by decide)).bind fun _ =>
    derives_expectIdent.bind fun name =>
    (Derives.redraft fun draft => { draft with name := name.value }).bind fun _ =>
    (derives_expect (by decide)).bind fun _ =>
    (derives_items (fun _ => derives_parseParam) _).bind fun _ =>
    (derives_expect (by decide)).bind fun _ => derives_parseReturned.bind fun returned =>
    derives_ifEat (by decide) ?_ ?_
  · -- What stands before the body becomes a tree that waits for its lines.
    suffices h : Derives (fun draft lexemes => ∃ before, ∃ tree : List Line → Function,
        (∀ lines, (tree lines).body = lines ∧ (tree lines).opening = draft ∧
          (tree lines).returned = returned.map (·.value)) ∧
        ∀ lines later, lexemes = lines.flatMap Line.lexemes ++ .symbol .rightBrace :: later →
          pre before ((tree lines).lexemes ++ later)) _ _ by
      refine h.strengthen ?_
      rintro _ lexemes ⟨_, params, ⟨_, ⟨_, serial, ⟨⟨before, hpre, rfl⟩, -⟩, rfl⟩, rfl⟩, rfl⟩
      refine ⟨before, fun lines => ⟨serial, name.value, params, returned.map (·.value), lines⟩,
        fun lines => ⟨rfl, by simp [Function.opening, Func.empty], rfl⟩, ?_⟩
      rintro lines later rfl
      have := hpre.1.1
      cases returned <;> simpa [Function.lexemes] using this
    refine Derives.get.bind fun _ => (derives_statementsWithin _ _).bind fun _ =>
      (derives_expect (by decide)).bind fun _ => Derives.get.bind fun _ => ?_
    cases returned with
    | none =>
      refine (derives_finishFunc _ _).weaken ?_
      rintro _ f lexemes ⟨⟨⟨_, lines, ⟨⟨before, tree, htree, hpre⟩, -⟩, hsteps⟩, -⟩, rfl⟩
      obtain ⟨hbody, rfl, hreturned⟩ := htree lines
      refine ⟨before, tree lines, f, hpre lines lexemes rfl, rfl, ?_⟩
      rw [hsteps.returns]
      exact .intro (hbody.symm ▸ hsteps) (hreturned ▸ .none)
    | some returned =>
      refine (derives_setReturn returned).bind fun _ => (derives_finishFunc _ _).weaken ?_
      rintro _ _ lexemes
        ⟨⟨f, id, ⟨⟨_, lines, ⟨⟨before, tree, htree, hpre⟩, -⟩, hsteps⟩, -⟩, hid, rfl⟩, rfl⟩
      obtain ⟨hbody, rfl, hreturned⟩ := htree lines
      refine ⟨before, tree lines, _, hpre lines lexemes rfl, rfl, ?_⟩
      exact .intro (hbody.symm ▸ hsteps) (hreturned ▸ .some hid)
  · exact (derives_reportHere _).bind fun _ => (derives_skipTo_of_false _).bind fun _ =>
      .pure fun _ _ h => h.elim

/-- The functions of a source, up to its end or the last round. -/
theorem derives_funcsWithin (rounds : Nat) (pre : Func → List Lexeme → Prop) :
    Derives pre (funcsWithin rounds) fun funcs _ lexemes => ∃ before, ∃ trees : List Function,
      pre before (trees.flatMap Function.lexemes ++ lexemes) ∧ List.Forall₂ Parsed trees funcs ∧
      (nextLexeme lexemes = .symbol .endOfFile ∨ trees.length = rounds) := by
  induction rounds generalizing pre with
  | zero => exact .pure fun draft _ h => ⟨draft, [], h, .nil, .inr rfl⟩
  | succ rounds ih =>
    refine (derives_isAt _).bind fun atEnd => .ite ?_ ((derives_isAt _).bind fun _ =>
      (derives_isAt _).bind fun _ => .ite ?_ ?_)
    · refine .pure fun draft lexemes h => ⟨draft, [], h.1.1, .nil, .inl ?_⟩
      exact Lexeme.eq_of_isSymbol (h.1.2.symm.trans h.2)
    · refine derives_parseFunc.bind fun found => (ih _).bind fun funcs => .pure ?_
      rintro _ lexemes ⟨_, trees, ⟨before, tree, f, hpre, rfl, hf⟩, hfuncs, hend⟩
      refine ⟨before, tree :: trees, ?_, .cons hf hfuncs, ?_⟩
      · simpa using hpre.1.1.1.1.1
      · exact hend.imp_right (congrArg Nat.succ)
    · refine (derives_reportHere _).bind fun _ => derives_advance_of_false.bind fun _ =>
        (derives_skipTo_of_false _).bind fun _ => (ih _).weaken ?_
      exact fun _ _ _ ⟨_, _, h, _⟩ => h.elim

end ArrayOffload.Source
