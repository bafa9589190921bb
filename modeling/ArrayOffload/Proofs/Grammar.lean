import ArrayOffload.Proofs.Reading
import ArrayOffload.Proofs.Separation

/-!
# What a text says

A source is a list of functions, and a function a list of statements. The trees below hold all that
is written but blanks and comments: the commas after the last item of a list and the semicolons too,
so a tree has one spelling. No two trees have the same one.

* `Source.Tree.Function`, `Source.Tree.Spells`: trees and their texts;
* `Source.Tree.spells_unique`: a text is spelled by one list of trees at most;
* `Source.Tree.Function.Scoped`: names that are declared before they are mentioned;
* `Source.Tree.Function.Becomes`: the function that a tree describes, statement by statement;
* `Source.Tree.Function.Becomes.scoped`: a tree that mentions an undeclared name describes none.
-/

deriving instance DecidableEq for ArrayOffload.Source.Lexeme

namespace ArrayOffload.Source.Tree

/-! ## Trees -/

/-- A constant. -/
inductive Literal where
  | integer (value : Nat)
  | number (value : Scalar)

/-- What a map may be applied to. -/
inductive Term where
  | array (name : String)
  | literal (literal : Literal)

/-- Items with commas between them; one more comma may follow the last item. -/
inductive Listing (α : Type) where
  | done
  | last (item : α)
  | next (item : α) (rest : Listing α)

inductive FoldKind where
  | reduce
  | scan

inductive Statement where
  /-- `let t: f32 like a` -/
  | like (name : String) (elem : Elem) (source : String)
  /-- `let s: f64[4]` -/
  | fixed (name : String) (elem : Elem) (dims : Listing Nat)
  /-- `a = op(x, 2.0)` -/
  | map (target : String) (op : MapOp) (args : Listing Term)
  /-- `s = reduce sum(a)` or `t = scan max(a)` -/
  | fold (kind : FoldKind) (target : String) (op : FoldOp) (input : String)
  /-- `a[3] = 1.5` -/
  | store (target : String) (index : Nat) (value : Literal)
  | print (arrays : Listing String)
  /-- `call f(a, b) -> (c)`, where the arrow with its list may be left out. -/
  | call (callee : String) (reads : Listing String) (writes : Option (Listing String))
  /-- A name alone, which says nothing. -/
  | bare (name : String)

/-- A statement and whether a semicolon follows. -/
structure Line where
  statement : Statement
  ended : Bool

/-- A parameter has one `_` for each of its dimensions. -/
structure Param where
  name : String
  elem : Elem
  dims : Listing Unit

structure Function where
  /-- How often `#[serial]` stands before the function. -/
  serial : Nat
  name : String
  params : Listing Param
  returned : Option String
  body : List Line

/-! ## Spelling -/

def Literal.lexeme : Literal → Lexeme
  | integer n => .integer n
  | number constant => .number constant

def Term.lexeme : Term → Lexeme
  | array name => .ident name
  | literal l => l.lexeme

namespace Listing

variable {α : Type}

def items : Listing α → List α
  | done => []
  | last item => [item]
  | next item rest => item :: rest.items

def lexemes (spell : α → List Lexeme) : Listing α → List Lexeme
  | done => []
  | last item => spell item
  | next item rest => spell item ++ .symbol .comma :: rest.lexemes spell

end Listing

def FoldKind.symbol : FoldKind → Symbol
  | reduce => .reduce
  | scan => .scan

/-- Array names in parentheses. -/
def arraysLexemes (arrays : Listing String) : List Lexeme :=
  .symbol .leftParen :: (arrays.lexemes (fun name => [.ident name]) ++ [.symbol .rightParen])

def Statement.lexemes : Statement → List Lexeme
  | like name elem source =>
    [.symbol .let, .ident name, .symbol .colon, .ident elem.name, .symbol .like, .ident source]
  | fixed name elem dims =>
    .symbol .let :: .ident name :: .symbol .colon :: .ident elem.name :: .symbol .leftBracket ::
      (dims.lexemes (fun n => [.integer n]) ++ [.symbol .rightBracket])
  | map target op args =>
    .ident target :: .symbol .equals :: .ident op.name :: .symbol .leftParen ::
      (args.lexemes (fun term => [term.lexeme]) ++ [.symbol .rightParen])
  | fold kind target op input =>
    [.ident target, .symbol .equals, .symbol kind.symbol, .ident op.name, .symbol .leftParen,
      .ident input, .symbol .rightParen]
  | store target index value =>
    [.ident target, .symbol .leftBracket, .integer index, .symbol .rightBracket, .symbol .equals,
      value.lexeme]
  | print arrays => .symbol .print :: arraysLexemes arrays
  | call callee reads writes =>
    .symbol .call :: .ident callee :: (arraysLexemes reads ++
      writes.elim [] fun writes => .symbol .arrow :: arraysLexemes writes)
  | bare name => [.ident name]

def Line.lexemes (line : Line) : List Lexeme :=
  line.statement.lexemes ++ if line.ended then [.symbol .semicolon] else []

def Param.lexemes (param : Param) : List Lexeme :=
  .ident param.name :: .symbol .colon :: .ident param.elem.name :: .symbol .leftBracket ::
    (param.dims.lexemes (fun _ => [.ident "_"]) ++ [.symbol .rightBracket])

def serialLexemes : List Lexeme :=
  [.symbol .hash, .symbol .leftBracket, .ident "serial", .symbol .rightBracket]

def Function.lexemes (tree : Function) : List Lexeme :=
  (List.replicate tree.serial serialLexemes).flatten ++ .symbol .fn :: .ident tree.name ::
    .symbol .leftParen :: (tree.params.lexemes Param.lexemes ++ .symbol .rightParen ::
      ((tree.returned.elim [] fun name => [.symbol .arrow, .ident name]) ++ .symbol .leftBrace ::
        (tree.body.flatMap Line.lexemes ++ [.symbol .rightBrace])))

/-- The trees that a text spells: the lexemes of its tokens are theirs, and then the file ends. -/
def Spells (source : String) (trees : List Function) : Prop :=
  (tokenize source).1.map (·.lexeme) = trees.flatMap Function.lexemes ++ [.symbol .endOfFile]

instance (source : String) (trees : List Function) : Decidable (Spells source trees) :=
  inferInstanceAs (Decidable (_ = _))

/-! ## One tree for a text -/

theorem Literal.lexeme_inj {a b : Literal} (h : a.lexeme = b.lexeme) : a = b := by
  cases a <;> cases b <;> simp_all [Literal.lexeme]

theorem Term.lexeme_inj {a b : Term} (h : a.lexeme = b.lexeme) : a = b := by
  cases a with
  | array name =>
    cases b with
    | array other => simpa [Term.lexeme] using h
    | literal l => cases l <;> simp [Term.lexeme, Literal.lexeme] at h
  | literal l =>
    cases b with
    | array other => cases l <;> simp [Term.lexeme, Literal.lexeme] at h
    | literal other => rw [Literal.lexeme_inj h]

theorem Term.lexeme_ne_symbol (term : Term) (symbol : Symbol) : term.lexeme ≠ .symbol symbol := by
  cases term with
  | array name => nofun
  | literal l => cases l <;> nofun

theorem elemName_inj {a b : Elem} (h : a.name = b.name) : a = b := by
  cases a <;> cases b <;> simp_all [Elem.name]

/-- A list is cut off by its closing symbol, which starts no item. -/
theorem Listing.lexemes_inj {α : Type} {spell : α → List Lexeme} {close : Symbol}
    (hclose : close ≠ .comma) (hbegins : ∀ x, Begins close (spell x))
    (hspell : ∀ {x y : α} {r s : List Lexeme}, spell x ++ r = spell y ++ s → x = y ∧ r = s)
    {a b : Listing α} {r s : List Lexeme}
    (h : a.lexemes spell ++ .symbol close :: r = b.lexemes spell ++ .symbol close :: s) :
    a = b ∧ r = s := by
  have hopen : ∀ (x : α) (later r : List Lexeme), spell x ++ later ≠ .symbol close :: r := by
    intro x later r heq
    obtain ⟨first, more, hx, hfirst, _⟩ := hbegins x
    rw [hx, List.cons_append, List.cons.injEq] at heq
    simp [heq.1, Lexeme.isSymbol] at hfirst
  induction a generalizing b with
  | done =>
    cases b with
    | done => exact ⟨rfl, (List.cons.inj h).2⟩
    | last y => exact absurd h.symm (hopen y _ _)
    | next y rest =>
      rw [lexemes, lexemes, List.append_assoc] at h
      exact absurd h.symm (hopen y _ _)
  | last x =>
    cases b with
    | done => exact absurd h (hopen x _ _)
    | last y =>
      obtain ⟨rfl, hrest⟩ := hspell h
      exact ⟨rfl, (List.cons.inj hrest).2⟩
    | next y rest =>
      rw [lexemes, lexemes, List.append_assoc] at h
      obtain ⟨-, hrest⟩ := hspell h
      simp [hclose] at hrest
  | next x rest ih =>
    rw [lexemes, List.append_assoc] at h
    cases b with
    | done => exact absurd h (hopen x _ _)
    | last y =>
      obtain ⟨-, hrest⟩ := hspell h
      simp [hclose.symm] at hrest
    | next y others =>
      rw [lexemes, List.append_assoc] at h
      obtain ⟨rfl, hrest⟩ := hspell h
      obtain ⟨rfl, hlater⟩ := ih (List.cons.inj hrest).2
      exact ⟨rfl, hlater⟩

/-- Items of one lexeme each. -/
theorem Listing.lexemes_inj_single {α : Type} {lexeme : α → Lexeme} {close : Symbol}
    (hclose : close ≠ .comma) (hsymbol : ∀ x symbol, lexeme x ≠ .symbol symbol)
    (hinj : ∀ {x y : α}, lexeme x = lexeme y → x = y) {a b : Listing α} {r s : List Lexeme}
    (h : a.lexemes (fun x => [lexeme x]) ++ .symbol close :: r =
      b.lexemes (fun x => [lexeme x]) ++ .symbol close :: s) :
    a = b ∧ r = s := by
  refine lexemes_inj hclose (fun x => ⟨lexeme x, [], rfl, ?_⟩) (fun hxy => ?_) h
  · cases hx : lexeme x with
    | symbol symbol => exact absurd hx (hsymbol x symbol)
    | _ => exact ⟨rfl, rfl⟩
  · obtain ⟨hxy, hrest⟩ := List.cons.inj hxy
    exact ⟨hinj hxy, hrest⟩

theorem arraysLexemes_inj {a b : Listing String} {r s : List Lexeme}
    (h : arraysLexemes a ++ r = arraysLexemes b ++ s) : a = b ∧ r = s := by
  simp only [arraysLexemes, List.cons_append, List.append_assoc, List.nil_append, List.cons.injEq,
    true_and] at h
  exact Listing.lexemes_inj_single (by decide) (by simp) (by simp) h

/-- The lexemes start with none of these symbols. -/
def Avoids (symbols : List Symbol) (lexemes : List Lexeme) : Prop :=
  ∀ symbol ∈ symbols, ∀ more, lexemes ≠ .symbol symbol :: more

theorem Avoids.mono {few many : List Symbol} {lexemes : List Lexeme} (h : Avoids many lexemes)
    (hfew : few ⊆ many) : Avoids few lexemes :=
  fun symbol hsymbol => h symbol (hfew hsymbol)

/-- What carries on a name alone or a call. -/
def carries : List Symbol := [.equals, .leftBracket, .arrow]

/-- A part that is left out or starts with an arrow. -/
theorem arrow_inj {α : Type} {spell : α → List Lexeme}
    (hspell : ∀ {x y : α} {r s : List Lexeme}, spell x ++ r = spell y ++ s → x = y ∧ r = s)
    {a b : Option α} {r s : List Lexeme} (hr : Avoids [.arrow] r) (hs : Avoids [.arrow] s)
    (h : (a.elim [] fun x => .symbol .arrow :: spell x) ++ r =
      (b.elim [] fun x => .symbol .arrow :: spell x) ++ s) : a = b ∧ r = s := by
  cases a with
  | none =>
    cases b with
    | none => exact ⟨rfl, h⟩
    | some y => exact absurd h (hr .arrow (by decide) _)
  | some x =>
    cases b with
    | none => exact absurd h.symm (hs .arrow (by decide) _)
    | some y =>
      obtain ⟨rfl, hrest⟩ := hspell (List.cons.inj h).2
      exact ⟨rfl, hrest⟩

namespace Statement

/-- A statement is cut off by what follows: a name alone by anything but an assignment, a call by
anything but an arrow, and any other statement by its own last lexeme. -/
theorem lexemes_inj {a b : Statement} {r s : List Lexeme} (hr : Avoids carries r)
    (hs : Avoids carries s) (h : a.lexemes ++ r = b.lexemes ++ s) : a = b ∧ r = s := by
  -- Different kinds differ in one of their first lexemes, but for a name alone: there the difference
  -- is in what follows.
  cases a with
  | like name elem source =>
    cases b with
    | like name' elem' source' =>
      simp only [lexemes, List.cons_append, List.nil_append, List.cons.injEq, Lexeme.ident.injEq,
        true_and] at h
      obtain ⟨rfl, helem, rfl, hrest⟩ := h
      rw [elemName_inj helem]
      exact ⟨rfl, hrest⟩
    | _ => simp [lexemes] at h
  | fixed name elem dims =>
    cases b with
    | fixed name' elem' dims' =>
      simp only [lexemes, List.cons_append, List.nil_append, List.append_assoc, List.cons.injEq,
        Lexeme.ident.injEq, true_and] at h
      obtain ⟨rfl, helem, hdims⟩ := h
      obtain ⟨rfl, hrest⟩ := Listing.lexemes_inj_single (by decide) (by simp) (by simp) hdims
      rw [elemName_inj helem]
      exact ⟨rfl, hrest⟩
    | _ => simp [lexemes] at h
  | map target op args =>
    cases b with
    | map target' op' args' =>
      simp only [lexemes, List.cons_append, List.nil_append, List.append_assoc, List.cons.injEq,
        Lexeme.ident.injEq, true_and] at h
      obtain ⟨rfl, hop, hargs⟩ := h
      obtain ⟨rfl, hrest⟩ :=
        Listing.lexemes_inj_single (by decide) Term.lexeme_ne_symbol Term.lexeme_inj hargs
      rw [Encoding.mapName_inj hop]
      exact ⟨rfl, hrest⟩
    | bare name => simp [lexemes, (hs .equals (by decide) _).symm] at h
    | _ => simp [lexemes] at h
  | fold kind target op input =>
    cases b with
    | fold kind' target' op' input' =>
      simp only [lexemes, List.cons_append, List.nil_append, List.cons.injEq, Lexeme.ident.injEq,
        Lexeme.symbol.injEq, true_and] at h
      obtain ⟨rfl, hkind, hop, rfl, hrest⟩ := h
      obtain rfl : kind = kind' := by cases kind <;> cases kind' <;> simp_all [FoldKind.symbol]
      rw [Encoding.foldName_inj hop]
      exact ⟨rfl, hrest⟩
    | bare name => simp [lexemes, (hs .equals (by decide) _).symm] at h
    | _ => simp [lexemes] at h
  | store target index value =>
    cases b with
    | store target' index' value' =>
      simp only [lexemes, List.cons_append, List.nil_append, List.cons.injEq, Lexeme.ident.injEq,
        Lexeme.integer.injEq, true_and] at h
      obtain ⟨rfl, rfl, hvalue, hrest⟩ := h
      rw [Literal.lexeme_inj hvalue]
      exact ⟨rfl, hrest⟩
    | bare name => simp [lexemes, (hs .leftBracket (by decide) _).symm] at h
    | _ => simp [lexemes] at h
  | print arrays =>
    cases b with
    | print arrays' =>
      obtain ⟨rfl, hrest⟩ := arraysLexemes_inj (List.cons.inj h).2
      exact ⟨rfl, hrest⟩
    | _ => simp [lexemes] at h
  | call callee reads writes =>
    cases b with
    | call callee' reads' writes' =>
      simp only [lexemes, List.cons_append, List.append_assoc, List.cons.injEq,
        Lexeme.ident.injEq, true_and] at h
      obtain ⟨rfl, hreads⟩ := h
      obtain ⟨rfl, hwrites⟩ := arraysLexemes_inj hreads
      obtain ⟨rfl, hrest⟩ :=
        arrow_inj arraysLexemes_inj (hr.mono (by decide)) (hs.mono (by decide)) hwrites
      exact ⟨rfl, hrest⟩
    | _ => simp [lexemes] at h
  | bare name =>
    cases b with
    | bare name' =>
      simp only [lexemes, List.cons_append, List.nil_append, List.cons.injEq,
        Lexeme.ident.injEq] at h
      exact ⟨by rw [h.1], h.2⟩
    | map => simp [lexemes, hr .equals (by decide)] at h
    | fold => simp [lexemes, hr .equals (by decide)] at h
    | store => simp [lexemes, hr .leftBracket (by decide)] at h
    | _ => simp [lexemes] at h

/-- No statement starts with a mark. -/
theorem lexemes_avoids (statement : Statement) (later : List Lexeme) :
    Avoids (.rightBrace :: .semicolon :: carries) (statement.lexemes ++ later) := by
  intro symbol hsymbol more h
  cases statement <;> simp [lexemes] at h <;> simp [carries, ← h.1] at hsymbol

end Statement

namespace Line

theorem lexemes_inj {a b : Line} {r s : List Lexeme} (hr : Avoids (.semicolon :: carries) r)
    (hs : Avoids (.semicolon :: carries) s) (h : a.lexemes ++ r = b.lexemes ++ s) :
    a = b ∧ r = s := by
  have hend : ∀ {ended : Bool} {later : List Lexeme}, Avoids (.semicolon :: carries) later →
      Avoids carries ((if ended then [.symbol .semicolon] else []) ++ later) := by
    intro ended later hlater symbol hsymbol more heq
    cases ended with
    | false => exact hlater symbol (List.mem_cons_of_mem _ hsymbol) more heq
    | true =>
      rw [if_pos rfl, List.cons_append, List.cons.injEq, Lexeme.symbol.injEq] at heq
      simp [carries, ← heq.1] at hsymbol
  obtain ⟨statement, ended⟩ := a
  obtain ⟨statement', ended'⟩ := b
  simp only [lexemes, List.append_assoc] at h
  obtain ⟨rfl, hrest⟩ := Statement.lexemes_inj (hend hr) (hend hs) h
  cases ended <;> cases ended'
  · exact ⟨rfl, hrest⟩
  · exact absurd hrest (hr .semicolon (by decide) _)
  · exact absurd hrest.symm (hs .semicolon (by decide) _)
  · exact ⟨rfl, (List.cons.inj hrest).2⟩

theorem lexemes_avoids (line : Line) (later : List Lexeme) :
    Avoids (.rightBrace :: .semicolon :: carries) (line.lexemes ++ later) := by
  rw [lexemes, List.append_assoc]
  exact line.statement.lexemes_avoids _

/-- A body is cut off by the brace that closes it. -/
theorem body_inj {a b : List Line} {r s : List Lexeme}
    (h : a.flatMap lexemes ++ .symbol .rightBrace :: r =
      b.flatMap lexemes ++ .symbol .rightBrace :: s) : a = b ∧ r = s := by
  have hends : ∀ (lines : List Line) (later : List Lexeme),
      Avoids (.semicolon :: carries) (lines.flatMap lexemes ++ .symbol .rightBrace :: later) := by
    intro lines later
    cases lines with
    | nil => simp [Avoids, carries]
    | cons line lines =>
      rw [List.flatMap_cons, List.append_assoc]
      exact (line.lexemes_avoids _).mono (List.subset_cons_self _ _)
  induction a generalizing b with
  | nil =>
    cases b with
    | nil => exact ⟨rfl, (List.cons.inj h).2⟩
    | cons line lines =>
      rw [List.flatMap_cons, List.append_assoc] at h
      exact absurd h.symm (line.lexemes_avoids _ .rightBrace (by simp) r)
  | cons line lines ih =>
    rw [List.flatMap_cons, List.append_assoc] at h
    cases b with
    | nil => exact absurd h (line.lexemes_avoids _ .rightBrace (by simp) s)
    | cons line' lines' =>
      rw [List.flatMap_cons, List.append_assoc] at h
      obtain ⟨rfl, hlines⟩ := lexemes_inj (hends lines r) (hends lines' s) h
      obtain ⟨rfl, hrest⟩ := ih hlines
      exact ⟨rfl, hrest⟩

end Line

theorem Param.lexemes_inj {a b : Param} {r s : List Lexeme} (h : a.lexemes ++ r = b.lexemes ++ s) :
    a = b ∧ r = s := by
  obtain ⟨name, elem, dims⟩ := a
  obtain ⟨name', elem', dims'⟩ := b
  simp only [lexemes, List.cons_append, List.nil_append, List.append_assoc, List.cons.injEq,
    Lexeme.ident.injEq, true_and] at h
  obtain ⟨rfl, helem, hdims⟩ := h
  obtain ⟨rfl, hrest⟩ := Listing.lexemes_inj_single (by decide) (by simp) (by simp) hdims
  rw [elemName_inj helem]
  exact ⟨rfl, hrest⟩

theorem serial_inj {a b : Nat} {r s : List Lexeme}
    (h : (List.replicate a serialLexemes).flatten ++ .symbol .fn :: r =
      (List.replicate b serialLexemes).flatten ++ .symbol .fn :: s) : a = b ∧ r = s := by
  induction a generalizing b with
  | zero =>
    cases b with
    | zero => exact ⟨rfl, (List.cons.inj h).2⟩
    | succ b => simp [List.replicate_succ, serialLexemes] at h
  | succ a ih =>
    cases b with
    | zero => simp [List.replicate_succ, serialLexemes] at h
    | succ b =>
      simp only [List.replicate_succ, List.flatten_cons, List.append_assoc] at h
      obtain ⟨rfl, hrest⟩ := ih (List.append_cancel_left h)
      exact ⟨rfl, hrest⟩

theorem Function.lexemes_inj {a b : Function} {r s : List Lexeme}
    (h : a.lexemes ++ r = b.lexemes ++ s) : a = b ∧ r = s := by
  obtain ⟨serial, name, params, returned, body⟩ := a
  obtain ⟨serial', name', params', returned', body'⟩ := b
  simp only [lexemes, List.append_assoc, List.cons_append, List.nil_append] at h
  obtain ⟨rfl, hname⟩ := serial_inj h
  simp only [List.cons.injEq, Lexeme.ident.injEq, true_and] at hname
  obtain ⟨rfl, hparams⟩ := hname
  obtain ⟨rfl, hreturned⟩ :=
    Listing.lexemes_inj (by decide) (fun param => ⟨_, _, rfl, rfl, rfl⟩) Param.lexemes_inj hparams
  have hname : ∀ {x y : String} {r s : List Lexeme},
      [Lexeme.ident x] ++ r = [.ident y] ++ s → x = y ∧ r = s := by simp
  have hbrace : ∀ later, Avoids [.arrow] (.symbol .leftBrace :: later) := by simp [Avoids]
  obtain ⟨rfl, hbody⟩ := arrow_inj hname (hbrace _) (hbrace _) hreturned
  obtain ⟨rfl, hrest⟩ := Line.body_inj (List.cons.inj hbody).2
  exact ⟨rfl, hrest⟩

theorem Function.lexemes_ne_end (tree : Function) (later : List Lexeme) :
    tree.lexemes ++ later ≠ [.symbol .endOfFile] := by
  cases hserial : tree.serial <;> simp [lexemes, hserial, List.replicate_succ, serialLexemes]

/-- A text is spelled by one list of trees at most. -/
theorem spells_unique {source : String} {a b : List Function} (ha : Spells source a)
    (hb : Spells source b) : a = b := by
  have h := ha.symm.trans hb
  clear ha hb
  induction a generalizing b with
  | nil =>
    cases b with
    | nil => rfl
    | cons tree trees =>
      rw [List.flatMap_cons, List.append_assoc] at h
      exact absurd h.symm (tree.lexemes_ne_end _)
  | cons tree trees ih =>
    rw [List.flatMap_cons, List.append_assoc] at h
    cases b with
    | nil => exact absurd h (tree.lexemes_ne_end _)
    | cons tree' trees' =>
      rw [List.flatMap_cons, List.append_assoc] at h
      obtain ⟨rfl, htrees⟩ := Function.lexemes_inj h
      rw [ih htrees]

/-! ## Scope -/

def Term.array? : Term → Option String
  | array name => some name
  | literal _ => none

namespace Statement

/-- The names that stand where an array is meant. -/
def mentions : Statement → List String
  | like _ _ source => [source]
  | fixed .. => []
  | map target _ args => target :: args.items.filterMap Term.array?
  | fold _ target _ input => [target, input]
  | store target _ _ => [target]
  | print arrays => arrays.items
  | call _ reads writes => reads.items ++ writes.elim [] Listing.items
  | bare name => [name]

def declares? : Statement → Option String
  | like name _ _ | fixed name _ _ => some name
  | _ => none

end Statement

/-- Every name in `names` is declared before a line that mentions it. -/
def ScopedFrom (names : String → Prop) : List String → List Line → Prop
  | _, [] => True
  | known, line :: lines =>
    (∀ name ∈ line.statement.mentions, names name → name ∈ known) ∧
      ScopedFrom names (known ++ line.statement.declares?.toList) lines

def decideScopedFrom (names : String → Prop) [DecidablePred names] :
    (known : List String) → (lines : List Line) → Decidable (ScopedFrom names known lines)
  | _, [] => .isTrue trivial
  | known, line :: lines =>
    have := decideScopedFrom names (known ++ line.statement.declares?.toList) lines
    inferInstanceAs (Decidable (_ ∧ _))

instance (names : String → Prop) [DecidablePred names] (known : List String) (lines : List Line) :
    Decidable (ScopedFrom names known lines) :=
  decideScopedFrom names known lines

namespace Function

def paramNames (tree : Function) : List String := tree.params.items.map (·.name)

def declared (tree : Function) : List String :=
  tree.paramNames ++ tree.body.filterMap (·.statement.declares?)

/-- The function declares the names in `names` that it mentions, before their use; the returned
array may be declared anywhere. -/
structure Scoped (names : String → Prop) (tree : Function) : Prop where
  body : ScopedFrom names tree.paramNames tree.body
  returned : ∀ name ∈ tree.returned, names name → name ∈ tree.declared

instance (names : String → Prop) [DecidablePred names] (tree : Function) :
    Decidable (tree.Scoped names) :=
  decidable_of_iff (ScopedFrom names tree.paramNames tree.body ∧
    ∀ name ∈ tree.returned, names name → name ∈ tree.declared)
    ⟨fun h => ⟨h.1, h.2⟩, fun h => ⟨h.body, h.returned⟩⟩

end Function

/-! ## Meaning -/

/-- The name of one of the first `scope` arrays. -/
def Names (f : Func) (scope : Nat) (name : String) (id : ArrayId) : Prop :=
  id < scope ∧ f.nameOf? id = some name

def Literal.value : Literal → Scalar
  | integer n => .ofNat n
  | number constant => constant

def FoldKind.op : FoldKind → ArrayId → FoldOp → ArrayId → Op
  | reduce => .reduce
  | scan => .scan

def Term.Denotes (f : Func) (scope : Nat) : Term → Operand → Prop
  | array name, .array id => Names f scope name id
  | literal l, .scalar constant => constant = l.value
  | _, _ => False

namespace Statement

/-- A `let` describes one local array. -/
def Declares (f : Func) (scope : Nat) : Statement → ArrayDecl → Prop
  | like name elem source, decl => ∃ id, Names f scope source id ∧
      decl = ⟨name, elem, ((f.decl? id).map (·.rank)).getD 0, .like id, .scratch⟩
  | fixed name elem dims, decl =>
    decl = ⟨name, elem, dims.items.length, .fixed dims.items, .scratch⟩
  | _, _ => False

/-- Any other statement describes one operation, item by item. -/
def Performs (f : Func) (scope : Nat) : Statement → Op → Prop
  | map target op args, done => ∃ out operands, Names f scope target out ∧
      List.Forall₂ (Term.Denotes f scope) args.items operands ∧ done = .map out op operands
  | fold kind target op input, done => ∃ out id, Names f scope target out ∧
      Names f scope input id ∧ done = kind.op out op id
  | store target index value, done => ∃ id, Names f scope target id ∧
      done = .store id index value.value
  | print arrays, done => ∃ ids, List.Forall₂ (Names f scope) arrays.items ids ∧ done = .print ids
  | call callee reads writes, done => ∃ readIds writeIds,
      List.Forall₂ (Names f scope) reads.items readIds ∧
      List.Forall₂ (Names f scope) (writes.elim [] Listing.items) writeIds ∧
      done = .call callee readIds writeIds
  | _, _ => False

end Statement

/-- The arrays from number `n` on and the operations from number `m` on are what the lines describe,
one for each line and in their order. -/
inductive Unfolds (f : Func) : Nat → Nat → List Line → Prop
  | nil : Unfolds f f.arrays.length f.body.length []
  | declare {n m : Nat} {line : Line} {lines : List Line} {decl : ArrayDecl} :
      f.decl? n = some decl → line.statement.Declares f n decl → Unfolds f (n + 1) m lines →
      Unfolds f n m (line :: lines)
  | perform {n m : Nat} {line : Line} {lines : List Line} {op : Op} :
      f.body[m]? = some op → line.statement.Performs f n op → Unfolds f n (m + 1) lines →
      Unfolds f n m (line :: lines)

def Param.decl (position : Nat) (param : Param) : ArrayDecl :=
  ⟨param.name, param.elem, param.dims.items.length, .param, .param position⟩

/-- The function says what the tree says, all of it and no more. -/
structure Function.Becomes (tree : Function) (f : Func) : Prop where
  name : f.name = tree.name
  serial : f.serialOnly = decide (0 < tree.serial)
  params : f.params = List.range tree.params.items.length
  heading : f.arrays.take tree.params.items.length = tree.params.items.mapIdx Param.decl
  body : Unfolds f tree.params.items.length 0 tree.body
  returned : Option.Rel (Names f f.arrays.length) tree.returned f.returns

/-! ## Names that a function resolves -/

theorem exists_of_forall₂ {α β : Type} {r : α → β → Prop} {xs : List α} {ys : List β}
    (h : List.Forall₂ r xs ys) {x : α} (hx : x ∈ xs) : ∃ y, r x y := by
  induction h with
  | nil => cases hx
  | cons hxy _ ih =>
    cases hx with
    | head => exact ⟨_, hxy⟩
    | tail _ hx => exact ih hx

namespace Statement

variable {f : Func} {scope : Nat} {statement : Statement}

theorem Declares.names {decl : ArrayDecl} (h : statement.Declares f scope decl) :
    statement.declares? = some decl.name ∧
      ∀ name ∈ statement.mentions, ∃ id, Names f scope name id := by
  cases statement with
  | like name elem source =>
    obtain ⟨id, hid, rfl⟩ := h
    exact ⟨rfl, by simpa [mentions] using ⟨id, hid⟩⟩
  | fixed name elem dims =>
    obtain rfl := h
    exact ⟨rfl, by simp [mentions]⟩
  | _ => exact h.elim

theorem Performs.names {op : Op} (h : statement.Performs f scope op) :
    statement.declares? = none ∧ ∀ name ∈ statement.mentions, ∃ id, Names f scope name id := by
  cases statement with
  | map target op args =>
    obtain ⟨out, operands, hout, hargs, -⟩ := h
    refine ⟨rfl, List.forall_mem_cons.mpr ⟨⟨out, hout⟩, fun name hname => ?_⟩⟩
    obtain ⟨term, hterm, harray⟩ := List.mem_filterMap.mp hname
    obtain ⟨operand, hoperand⟩ := exists_of_forall₂ hargs hterm
    cases term with
    | literal l => cases harray
    | array text =>
      cases harray
      cases operand with
      | array id => exact ⟨id, hoperand⟩
      | scalar constant => exact hoperand.elim
  | fold kind target op input =>
    obtain ⟨out, id, hout, hid, -⟩ := h
    exact ⟨rfl, by simpa [mentions] using ⟨⟨out, hout⟩, id, hid⟩⟩
  | store target index value =>
    obtain ⟨id, hid, -⟩ := h
    exact ⟨rfl, by simpa [mentions] using ⟨id, hid⟩⟩
  | print arrays =>
    obtain ⟨ids, hids, -⟩ := h
    exact ⟨rfl, fun name hname => exists_of_forall₂ hids hname⟩
  | call callee reads writes =>
    obtain ⟨readIds, writeIds, hreads, hwrites, -⟩ := h
    exact ⟨rfl, List.forall_mem_append.mpr ⟨fun name hname => exists_of_forall₂ hreads hname,
      fun name hname => exists_of_forall₂ hwrites hname⟩⟩
  | _ => exact h.elim

end Statement

/-- What the lines mention is declared, and so is every array. -/
theorem Unfolds.scoped {f : Func} {n m : Nat} {lines : List Line} (h : Unfolds f n m lines)
    (names : String → Prop) {known : List String}
    (hknown : ∀ name id, Names f n name id → name ∈ known) :
    ScopedFrom names known lines ∧ ∀ name id, Names f f.arrays.length name id →
      name ∈ known ++ lines.filterMap (·.statement.declares?) := by
  induction h generalizing known with
  | nil => exact ⟨trivial, by simpa using hknown⟩
  | @declare n m line lines decl hdecl hline _ ih =>
    obtain ⟨hdeclares, hmentions⟩ := hline.names
    have hnext : ∀ name id, Names f (n + 1) name id → name ∈ known ++ [decl.name] := by
      rintro name id ⟨hid, hname⟩
      by_cases hlast : id = n
      · simp_all [Func.nameOf?]
      · have hlt := Nat.lt_of_le_of_ne (Nat.le_of_lt_succ hid) hlast
        exact List.mem_append_left _ (hknown name id ⟨hlt, hname⟩)
    obtain ⟨hscoped, hall⟩ := ih hnext
    refine ⟨⟨fun name hname _ => ?_, ?_⟩, ?_⟩
    · obtain ⟨id, hid⟩ := hmentions name hname
      exact hknown name id hid
    · rwa [hdeclares]
    · simpa [hdeclares] using hall
  | @perform n m line lines op _ hline _ ih =>
    obtain ⟨hdeclares, hmentions⟩ := hline.names
    obtain ⟨hscoped, hall⟩ := ih hknown
    refine ⟨⟨fun name hname _ => ?_, ?_⟩, ?_⟩
    · obtain ⟨id, hid⟩ := hmentions name hname
      exact hknown name id hid
    · simpa [hdeclares] using hscoped
    · simpa [hdeclares] using hall

/-- A tree with an undeclared name describes no function. -/
theorem Function.Becomes.scoped {tree : Function} {f : Func} (h : tree.Becomes f)
    (names : String → Prop) : tree.Scoped names := by
  have hknown : ∀ name id, Names f tree.params.items.length name id → name ∈ tree.paramNames := by
    rintro name id ⟨hid, hname⟩
    have hdecl := congrArg (·[id]?) h.heading
    simp only [List.getElem?_take_of_lt hid, List.getElem?_mapIdx] at hdecl
    simp only [Func.nameOf?, Func.decl?, hdecl, List.getElem?_eq_getElem hid] at hname
    obtain rfl : tree.params.items[id].name = name := by simpa [Param.decl] using hname
    exact List.mem_map.mpr ⟨_, List.getElem_mem hid, rfl⟩
  obtain ⟨hbody, hall⟩ := h.body.scoped names hknown
  refine ⟨hbody, fun name hname _ => ?_⟩
  have hreturned := h.returned
  rw [hname] at hreturned
  generalize f.returns = returns at hreturned
  cases hreturned with
  | some hid => exact hall name _ hid

/-! ## Functions that grow

More arrays behind those in scope change no meaning.
-/

section Growth

variable {f g : Func} {scope : Nat}

theorem decl?_of_isPrefix (harrays : f.arrays <+: g.arrays) {id : ArrayId} {decl : ArrayDecl}
    (h : f.decl? id = some decl) : g.decl? id = some decl := by
  obtain ⟨later, hlater⟩ := harrays
  obtain ⟨hlt, -⟩ := List.getElem?_eq_some_iff.mp h
  rw [Func.decl?, ← hlater, List.getElem?_append_left hlt]
  exact h

theorem Names.mono (harrays : f.arrays <+: g.arrays) {name : String} {id : ArrayId}
    (h : Names f scope name id) : Names g scope name id := by
  obtain ⟨decl, hdecl, hname⟩ := Option.map_eq_some_iff.mp h.2
  exact ⟨h.1, Option.map_eq_some_iff.mpr ⟨decl, decl?_of_isPrefix harrays hdecl, hname⟩⟩

theorem Term.Denotes.mono (harrays : f.arrays <+: g.arrays) {term : Term} {operand : Operand}
    (h : term.Denotes f scope operand) : term.Denotes g scope operand := by
  cases term with
  | literal l => cases operand <;> exact h
  | array name =>
    cases operand with
    | scalar constant => exact h
    | array id => exact Names.mono harrays h

theorem Statement.Declares.mono (harrays : f.arrays <+: g.arrays) {statement : Statement}
    {decl : ArrayDecl} (h : statement.Declares f scope decl) : statement.Declares g scope decl := by
  cases statement with
  | like name elem source =>
    obtain ⟨id, hid, rfl⟩ := h
    obtain ⟨found, hfound, -⟩ := Option.map_eq_some_iff.mp hid.2
    refine ⟨id, hid.mono harrays, ?_⟩
    rw [hfound, decl?_of_isPrefix harrays hfound]
  | _ => exact h

theorem Statement.Performs.mono (harrays : f.arrays <+: g.arrays) {statement : Statement} {op : Op}
    (h : statement.Performs f scope op) : statement.Performs g scope op := by
  have hnames : ∀ name id, Names f scope name id → Names g scope name id :=
    fun _ _ => Names.mono harrays
  cases statement with
  | map target op args =>
    obtain ⟨out, operands, hout, hargs, rfl⟩ := h
    exact ⟨out, operands, hout.mono harrays, hargs.imp fun _ _ harg => harg.mono harrays, rfl⟩
  | fold kind target op input =>
    obtain ⟨out, id, hout, hid, rfl⟩ := h
    exact ⟨out, id, hout.mono harrays, hid.mono harrays, rfl⟩
  | store target index value =>
    obtain ⟨id, hid, rfl⟩ := h
    exact ⟨id, hid.mono harrays, rfl⟩
  | print arrays =>
    obtain ⟨ids, hids, rfl⟩ := h
    exact ⟨ids, hids.imp hnames, rfl⟩
  | call callee reads writes =>
    obtain ⟨readIds, writeIds, hreads, hwrites, rfl⟩ := h
    exact ⟨readIds, writeIds, hreads.imp hnames, hwrites.imp hnames, rfl⟩
  | _ => exact h

end Growth

end ArrayOffload.Source.Tree
