import ArrayOffload.Proofs.Derivation
import ArrayOffload.Proofs.Reparsing

/-!
# Nothing written is lost

A text that the parser accepts spells one list of trees, and its functions say what the trees say:
one array for each `let` and one operation for each other statement, in order and with as many
operands and entries as are written. An undeclared name where an array is meant is refused. The one
exception is the name that stands for a missing one: where it is written but not declared, the text
is accepted and the mention dropped, with its whole statement in some places.

* `Source.exists_spells`: accepted texts spell trees;
* `Source.Steps.scoped`, `Source.Steps.unfolds`: what a chain of statements leaves in the draft;
* `Source.accepted_keeps_iff`: which accepted texts are kept whole.
-/

namespace ArrayOffload.Source

open ArrayOffload.Source.Tree

/-! ## The end of a file -/

theorem number_ne_end (text : NumberText) : text.lexeme? ≠ some (.symbol .endOfFile) := by
  simp only [NumberText.lexeme?]
  split
  · simp
  · cases Scalar.read? text.chars <;> simp

theorem word_ne_end (name : String) : wordLexeme name ≠ .symbol .endOfFile := by
  unfold wordLexeme
  cases hkeyword : Symbol.keyword? name with
  | none => simp
  | some symbol =>
    have hmem : symbol ∈ Symbol.keywords := List.mem_of_find?_eq_some hkeyword
    intro h
    obtain rfl : symbol = .endOfFile := by simpa using h
    revert hmem
    decide

theorem mark_ne_end (c : Char) : Symbol.mark? c ≠ some .endOfFile := by
  intro h
  obtain ⟨before, after, hmarks, -⟩ := List.lookup_eq_some_iff.mp h
  have hmem : (c, Symbol.endOfFile) ∈ Symbol.marks := by simp [hmarks]
  simp [Symbol.marks] at hmem

theorem nextPiece_ne_end (c : Char) (rest : List Char) :
    (nextPiece c rest).lexeme? ≠ some (.symbol .endOfFile) := by
  -- A word, a number, an arrow, or a single character.
  simp only [nextPiece]
  split
  · exact fun h => word_ne_end _ (Option.some.inj h)
  split
  · split
    · next found hfound => exact fun h => number_ne_end _ (hfound.trans h)
    · simp
  split
  · simp
  split
  · next symbol hmark =>
    intro h
    obtain rfl : symbol = .endOfFile := by simpa using h
    exact mark_ne_end c hmark
  · simp
  · simp

/-- The end of the file is the last lexeme of a source and no other one. -/
theorem tokensFrom_end (fuel position : Nat) (lineStart : Bool) (cs : List Char) :
    ∃ lexemes, (tokensFrom fuel position lineStart cs).1.map (·.lexeme) =
      lexemes ++ [.symbol .endOfFile] ∧ .symbol .endOfFile ∉ lexemes := by
  induction fuel generalizing position lineStart cs with
  | zero => exact ⟨[], rfl, List.not_mem_nil⟩
  | succ fuel ih =>
    rw [tokensFrom]
    cases hrest : (skipGap false position lineStart cs).rest with
    | nil => exact ⟨[], rfl, List.not_mem_nil⟩
    | cons c rest =>
      obtain ⟨later, hlater, hend⟩ := ih
        ((skipGap false position lineStart cs).position + byteSize (nextPiece c rest).chars) false
        (nextPiece c rest).rest
      refine ⟨(nextPiece c rest).lexeme?.toList ++ later, ?_, ?_⟩
      · simp only [List.map_append, hlater, List.append_assoc]
        cases (nextPiece c rest).lexeme? <;> rfl
      · simpa [hend] using nextPiece_ne_end c rest

/-! ## Accepted texts -/

theorem length_le_flatMap (trees : List Function) :
    trees.length ≤ (trees.flatMap Function.lexemes).length := by
  induction trees with
  | nil => simp
  | cons tree trees ih =>
    have hfirst : 0 < tree.lexemes.length := by simp [Function.lexemes]
    simp only [List.flatMap_cons, List.length_append, List.length_cons]
    omega

/-- Every token of an accepted text belongs to a tree. -/
theorem exists_spells {source : String} {funcs : List Func} (h : parseSource source = .ok funcs) :
    ∃ trees, Spells source trees ∧ List.Forall₂ Parsed trees funcs := by
  obtain ⟨lexemes, hlexemes, hend⟩ :=
    tokensFrom_end (source.toList.length + 1) 0 true source.toList
  have htokens := (parseSource_ok h).2
  simp only [parseTokens] at htokens
  split at htokens
  · next hproblems =>
    cases htokens
    obtain ⟨_, rest, -, _, trees, hspell, htrees, hstop⟩ :=
      (derives_funcsWithin (tokenize source).1.length (fun _ ls => ls = lexemes) _
        (List.isEmpty_iff.mp hproblems)).2 (Func.empty "") lexemes ⟨rfl, hlexemes, rfl⟩ rfl
    refine ⟨trees, ?_, htrees⟩
    have hrest : rest = [] := by
      rcases hstop with hnext | hrounds
      · cases rest with
        | nil => rfl
        | cons first rest =>
          obtain rfl : first = .symbol .endOfFile := hnext
          exact absurd (hspell ▸ by simp) hend
      · -- Each tree has a lexeme of its own, so the rounds are not used up.
        have hlength := congrArg List.length hlexemes
        have htaken := congrArg List.length hspell
        have := length_le_flatMap trees
        simp only [List.length_map, List.length_append, List.length_singleton] at hlength htaken
        change (tokenize source).1.length = _ at hlength
        omega
    rw [hrest, List.append_nil] at hspell
    rw [Spells, hspell]
    exact hlexemes
  · cases htokens

theorem ne_nil_of_parseSource {source : String} {problems : List Diagnostic}
    (h : parseSource source = .error problems) : problems ≠ [] := by
  simp only [parseSource, parseTokens] at h
  split at h
  · split at h
    · cases h
    · next hproblems =>
      cases h
      simpa using hproblems
  · next hproblems =>
    cases h
    simpa using hproblems

/-! ## From drafts to functions -/

/-- Only the stand-in is mentioned without being declared, and every array of the draft is declared
by the lines. -/
theorem Steps.scoped {f g : Func} {lines : List Line} (h : Steps f lines g) {known : List String}
    (hknown : ∀ name ∈ f.declaredNames, name ∈ known) :
    ScopedFrom (· ≠ missingName) known lines ∧
      ∀ name ∈ g.declaredNames, name ∈ known ++ lines.filterMap (·.statement.declares?) := by
  induction h generalizing known with
  | nil f => exact ⟨trivial, by simpa using hknown⟩
  | @cons f g h line lines hstep _ ih =>
    have hnext : ∀ name ∈ g.declaredNames, name ∈ known ++ line.statement.declares?.toList := by
      intro name hname
      rcases hstep.scope name hname with hold | hnew
      · exact List.mem_append_left _ (hknown name hold)
      · exact List.mem_append_right _ (Option.mem_toList.mpr hnew)
    obtain ⟨hscoped, hall⟩ := ih hnext
    refine ⟨⟨fun name hname hne => hknown name (hstep.known name hname hne), hscoped⟩, ?_⟩
    cases hdeclares : line.statement.declares? <;> simpa [hdeclares] using hall

/-- Where the stand-in is declared too, every line has added what it describes. -/
theorem Steps.unfolds {f g k : Func} {lines : List Line} (h : Steps f lines g)
    (harrays : k.arrays = g.arrays) (hbody : k.body = g.body)
    (hscoped : ScopedFrom (· = missingName) f.declaredNames lines) :
    Unfolds k f.arrays.length f.body.length lines := by
  induction h with
  | nil f =>
    rw [← harrays, ← hbody]
    exact .nil
  | @cons f g h line lines hstep hsteps ih =>
    -- All names that the line mentions are declared, so nothing of it was dropped.
    have hadds : Adds f line.statement g := by
      refine hstep.adds fun name hname => ?_
      by_cases hmissing : name = missingName
      · exact hscoped.1 name hname hmissing
      · exact hstep.known name hname hmissing
    have hprefix : f.arrays <+: k.arrays := harrays ▸ (hstep.grows.trans hsteps.grows).arrays
    have hlater := hscoped.2
    cases hadds with
    | @declare decl hdecl =>
      have hnames : f.declaredNames ++ line.statement.declares?.toList =
          (f.declare decl).2.declaredNames := by
        simp [hdecl.names.1, Func.declaredNames, Func.declare]
      have hlines := ih harrays hbody (hnames ▸ hlater)
      refine .declare ?_ (hdecl.mono hprefix) (by simpa [Func.declare] using hlines)
      exact decl?_of_isPrefix (harrays ▸ hsteps.grows.arrays) (by simp [Func.decl?, Func.declare])
    | @perform op hop =>
      have hnames : f.declaredNames ++ line.statement.declares?.toList =
          (f.push op).declaredNames := by
        simp [hop.names.1, Func.declaredNames, Func.push]
      have hlines := ih harrays hbody (hnames ▸ hlater)
      refine .perform ?_ (hop.mono hprefix) (by simpa [Func.push] using hlines)
      obtain ⟨later, hops⟩ := hsteps.grows.body
      simp [hbody, ← hops, Func.push]

theorem declaredNames_opening (tree : Function) :
    tree.opening.declaredNames = tree.paramNames := by
  rw [Func.declaredNames, tree.opening_eq, Function.paramNames]
  exact List.ext_getElem? fun i => by simp [Param.decl, Function.comp_def]

theorem Parsed.scoped {tree : Function} {f : Func} (h : Parsed tree f) :
    tree.Scoped (· ≠ missingName) := by
  obtain @⟨f, returns, hsteps, hreturned⟩ := h
  obtain ⟨hbody, hall⟩ := hsteps.scoped (fun name hname => declaredNames_opening tree ▸ hname)
  refine ⟨hbody, fun name hname _ => ?_⟩
  rw [hname] at hreturned
  cases hreturned with
  | some hid => exact hall name (mem_declaredNames_of_names (names_of_lookup? hid))

theorem Parsed.becomes {tree : Function} {f : Func} (h : Parsed tree f)
    (hscoped : tree.Scoped (· = missingName)) : tree.Becomes f := by
  obtain @⟨f, returns, hsteps, hreturned⟩ := h
  have hbody := hsteps.unfolds (k := { f with returns := returns }) rfl rfl
    (declaredNames_opening tree ▸ hscoped.body)
  obtain ⟨harrays, -, hheading⟩ := hsteps.grows
  rw [tree.opening_eq] at hbody harrays hheading
  refine ⟨congrArg Func.name hheading, congrArg Func.serialOnly hheading,
    congrArg Func.params hheading, ?_, by simpa using hbody, ?_⟩
  · simpa using (List.prefix_iff_eq_take.mp harrays).symm
  · generalize tree.returned = returned at hreturned
    cases hreturned with
    | none => exact .none
    | some hid => exact .some (names_of_lookup? hid)

/-- A text is refused with a problem to show for it, or it spells one list of trees in which every
name is declared but perhaps the stand-in. The functions of the text say all that the trees say if
and only if the stand-in, too, is declared wherever it is mentioned. -/
theorem accepted_keeps_iff (source : String) :
    (∀ problems, parseSource source = .error problems → problems ≠ []) ∧
    ∀ funcs, parseSource source = .ok funcs →
      ∃ trees, Spells source trees ∧ (∀ others, Spells source others → others = trees) ∧
        (∀ tree ∈ trees, tree.Scoped (· ≠ missingName)) ∧
        (List.Forall₂ Function.Becomes trees funcs ↔
          ∀ tree ∈ trees, tree.Scoped (· = missingName)) := by
  refine ⟨fun problems => ne_nil_of_parseSource, fun funcs haccepted => ?_⟩
  obtain ⟨trees, hspells, hparsed⟩ := exists_spells haccepted
  refine ⟨trees, hspells, fun others hothers => spells_unique hothers hspells, ?_, ?_, ?_⟩
  · intro tree htree
    obtain ⟨f, hf⟩ := exists_of_forall₂ hparsed htree
    exact hf.scoped
  · intro hbecomes tree htree
    obtain ⟨f, hf⟩ := exists_of_forall₂ hbecomes htree
    exact hf.scoped _
  · intro hscoped
    clear hspells haccepted
    induction hparsed with
    | nil => exact .nil
    | cons hf _ ih =>
      exact .cons (hf.becomes (hscoped _ List.mem_cons_self))
        (ih fun tree htree => hscoped tree (List.mem_cons_of_mem _ htree))

end ArrayOffload.Source

namespace ArrayOffload.Sample

open ArrayOffload.Source.Tree

/-- A comma and a semicolon that could be left out, and statements on one line. -/
def survey : String :=
  "#[serial] fn f(a: f64[_],) -> t \x7b let t: f64 like a; t = add(a, 2) t[0] = 7 print(t, a) \x7d"

def surveyTree : Function where
  serial := 1
  name := "f"
  params := .next ⟨"a", .f64, .last ()⟩ .done
  returned := some "t"
  body :=
    [⟨.like "t" .f64 "a", true⟩,
      ⟨.map "t" .add (.next (.array "a") (.last (.literal (.integer 2)))), false⟩,
      ⟨.store "t" 0 (.integer 7), false⟩, ⟨.print (.next "t" (.last "a")), false⟩]

def surveyFunc : Func where
  name := "f"
  arrays := [⟨"a", .f64, 1, .param, .param 0⟩, ⟨"t", .f64, 1, .like 0, .scratch⟩]
  params := [0]
  body := [.map 1 .add [.array 0, .scalar (.ofNat 2)], .store 1 0 (.ofNat 7), .print [1, 0]]
  returns := some 1
  serialOnly := true

/-- The stand-in, written where an array is meant. -/
def standIn : String := "fn f(a: f64[_]) \x7b\n    print(_error_)\n\x7d"

def standInTree : Function where
  serial := 0
  name := "f"
  params := .last ⟨"a", .f64, .last ()⟩
  returned := none
  body := [⟨.print (.last "_error_"), false⟩]

def standInFunc : Func where
  name := "f"
  arrays := [⟨"a", .f64, 1, .param, .param 0⟩]
  params := [0]
  body := [.print []]
  returns := none
  serialOnly := false

end ArrayOffload.Sample

namespace ArrayOffload.Source

open ArrayOffload.Source.Tree

theorem accepted_keeps_sample :
    parseSource Sample.survey = .ok [Sample.surveyFunc] ∧
      Spells Sample.survey [Sample.surveyTree] ∧ Sample.surveyTree.Becomes Sample.surveyFunc := by
  have haccepted : parseSource Sample.survey = .ok [Sample.surveyFunc] :=
    parseSource_of_toOption (by decide +kernel)
  have hspells : Spells Sample.survey [Sample.surveyTree] := by decide +kernel
  obtain ⟨trees, -, hunique, -, hiff⟩ := (accepted_keeps_iff Sample.survey).2 _ haccepted
  obtain rfl := hunique _ hspells
  have hscoped : Sample.surveyTree.Scoped (· = missingName) := by decide +kernel
  have hbecomes := hiff.mpr (by simpa using hscoped)
  exact ⟨haccepted, hspells, (List.forall₂_cons.mp hbecomes).1⟩

/-- An undeclared name is accepted if it is the stand-in, and is missing from what is printed. -/
theorem standIn_dropped :
    parseSource Sample.standIn = .ok [Sample.standInFunc] ∧
      Spells Sample.standIn [Sample.standInTree] ∧
      ¬ Sample.standInTree.Scoped (fun _ => True) ∧
      ¬ Sample.standInTree.Becomes Sample.standInFunc := by
  have hscoped : ¬ Sample.standInTree.Scoped fun _ => True := by decide +kernel
  refine ⟨parseSource_of_toOption (by decide +kernel), by decide +kernel, hscoped, fun h => ?_⟩
  exact hscoped (h.scoped _)

end ArrayOffload.Source
