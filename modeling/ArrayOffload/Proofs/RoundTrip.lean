import ArrayOffload.Proofs.Reading
import Mathlib.Tactic.IntervalCases

/-!
# Printed functions are read back

The parser builds the function again from its text. After some declarations and operations its draft
is a stage of the function: the function cut off there. Names are resolved in the stage, so every
array has its old position.

* `Func.stage`: the drafts that the parser goes through;
* `Func.Printable.takes_local`, `Func.Printable.takes_op`: one line of the text;
* `Source.parseSource_text`: the whole text.
-/

namespace ArrayOffload

open Source

namespace Source

/-- What the parser sees of some findings. -/
def lexemesOf (found : List Finding) : List Lexeme := found.filterMap Finding.lexeme?

@[simp] theorem lexemesOf_nil : lexemesOf [] = [] := rfl

@[simp] theorem lexemesOf_ok (lexeme : Lexeme) (found : List Finding) :
    lexemesOf (.ok lexeme :: found) = lexeme :: lexemesOf found := rfl

@[simp] theorem lexemesOf_mark (symbol : Symbol) (found : List Finding) :
    lexemesOf (mark symbol :: found) = .symbol symbol :: lexemesOf found := rfl

@[simp] theorem lexemesOf_ident (text : String) (found : List Finding) :
    lexemesOf (ident text :: found) = .ident text :: lexemesOf found := rfl

@[simp] theorem lexemesOf_append (found more : List Finding) :
    lexemesOf (found ++ more) = lexemesOf found ++ lexemesOf more := List.filterMap_append

@[simp] theorem lexemesOf_commas (items : List (List Finding)) :
    lexemesOf (commas items) = commaLexemes (items.map lexemesOf) := by
  induction items with
  | nil => rfl
  | cons item items ih =>
    cases items with
    | nil => simp [commas]
    | cons next items =>
      have hcommas : commas (item :: next :: items) = item ++ mark .comma :: commas (next :: items) := by
        simp [commas, List.intercalate_cons_cons]
      rw [hcommas, lexemesOf_append, lexemesOf_mark, ih]
      simp

theorem lexemesOf_flatten (items : List (List Finding)) :
    lexemesOf items.flatten = (items.map lexemesOf).flatten := List.filterMap_flatten

end Source

namespace Func

variable {f : Func}

theorem checkDecl_rank {before : List ArrayDecl} {decl : ArrayDecl}
    (h : checkDecl before decl = .ok ()) : decl.rank ≠ 0 := by
  unfold checkDecl at h
  grind

/-! ## Stages -/

/-- The function up to some declarations and operations. -/
def stage (f : Func) (arrays ops : Nat) : Func :=
  ⟨f.name, f.arrays.take arrays, f.params.take arrays, f.body.take ops, none, f.serialOnly⟩

/-- No two arrays have one name. -/
theorem name_ne (hc : f.check = .ok ()) {i j : ArrayId} {earlier later : ArrayDecl} (hij : i < j)
    (hi : f.decl? i = some earlier) (hj : f.decl? j = some later) : earlier.name ≠ later.name := by
  have hdecl := checkDecls_ok (check_ok hc).1 hj
  have hmem : earlier ∈ f.arrays.take j := by
    refine List.mem_of_getElem? (i := i) ?_
    rw [List.getElem?_take_of_lt hij]
    exact hi
  intro hname
  have htwice : (([] : List ArrayDecl) ++ f.arrays.take j).any
      (fun other => other.name = later.name) = true :=
    List.any_eq_true.mpr ⟨earlier, by simpa using hmem, by simpa using hname⟩
  unfold checkDecl at hdecl
  rw [if_pos htwice] at hdecl
  cases hdecl

theorem decl?_stage {n m id : Nat} (h : id < n) : (f.stage n m).decl? id = f.decl? id :=
  List.getElem?_take_of_lt h

/-- A name is resolved to the array that has it. -/
theorem lookup?_stage (hc : f.check = .ok ()) {id n m : Nat} (hid : id < n)
    (hlt : id < f.arrays.length) : (f.stage n m).lookup? (f.nameAt id) = some id := by
  obtain ⟨decl, hdecl⟩ := exists_decl hlt
  have hname : f.nameAt id = decl.name := by simp [nameAt, nameOf?, hdecl]
  obtain ⟨hbound, hget⟩ := List.getElem?_eq_some_iff.mp ((decl?_stage hid).trans hdecl)
  rw [hname, lookup?, List.findIdx?_eq_some_iff_getElem]
  refine ⟨hbound, by rw [hget]; simp, fun j hj => ?_⟩
  have hother : f.decl? j = some (f.stage n m).arrays[j] := by
    rw [← decl?_stage (hj.trans hid)]
    exact List.getElem?_eq_getElem (hj.trans hbound)
  simpa using name_ne hc hj hother hdecl

/-- A name is free until it is declared. -/
theorem lookup?_stage_none (hc : f.check = .ok ()) {n m : Nat} {decl : ArrayDecl}
    (hdecl : f.decl? n = some decl) : (f.stage n m).lookup? decl.name = none := by
  rw [lookup?, List.findIdx?_eq_none_iff]
  intro other hother
  obtain ⟨i, hi⟩ := List.mem_iff_getElem?.mp hother
  have hin : i < n := by
    have := (List.getElem?_eq_some_iff.mp hi).1
    simp only [stage, List.length_take] at this
    omega
  simpa using name_ne hc hin ((decl?_stage hin).symm.trans hi) hdecl

theorem push_stage {n m : Nat} {op : Op} (h : f.body[m]? = some op) :
    (f.stage n m).push op = f.stage n (m + 1) := by
  simp [stage, push, List.take_add_one, h]

/-- The last stage lacks the returned array only. -/
theorem stage_complete (h : f.params.length ≤ f.arrays.length) :
    { f.stage f.arrays.length f.body.length with returns := f.returns } = f := by
  simp [stage, List.take_of_length_le h]

namespace Printable

theorem addParam_stage (h : f.Printable) {n : Nat} {decl : ArrayDecl} (hdecl : f.decl? n = some decl)
    (hn : n < f.params.length) :
    ((f.stage n 0).addParam decl.name decl.elem decl.rank).2 = f.stage (n + 1) 0 := by
  obtain ⟨hshape, hrole⟩ := h.param_decl n decl hdecl hn
  have hparam : f.params[n]? = some n := by
    rw [h.params_eq, List.getElem?_range hn]
  have hnew : (⟨decl.name, decl.elem, decl.rank, .param, .param n⟩ : ArrayDecl) = decl := by
    rw [← hshape, ← hrole]
  have hlength : min n f.params.length = n := Nat.min_eq_left (Nat.le_of_lt hn)
  have hcount : min n f.arrays.length = n := Nat.min_eq_left (Nat.le_of_lt (lt_of_decl? hdecl))
  rw [decl?] at hdecl
  simp [stage, addParam, declare, List.take_add_one, hdecl, hparam, hlength, hcount, hnew]

/-- A local array leaves the parameters alone. -/
theorem declare_stage {n : Nat} {decl : ArrayDecl} (hdecl : f.decl? n = some decl)
    (hn : f.params.length ≤ n) : ((f.stage n 0).declare decl).2 = f.stage (n + 1) 0 := by
  rw [decl?] at hdecl
  simp [stage, declare, List.take_add_one, hdecl, List.take_of_length_le hn, hn]

theorem addLike_stage (wf : f.WellFormed) (h : f.Printable) {n source : Nat} {decl : ArrayDecl}
    (hdecl : f.decl? n = some decl) (hn : f.params.length ≤ n) (hshape : decl.shape = .like source) :
    ((f.stage n 0).addLike decl.name decl.elem source).2 = f.stage (n + 1) 0 := by
  obtain ⟨hsource, other, hother, hrank⟩ := wf.like_source hdecl hshape
  have hnew : (⟨decl.name, decl.elem, other.rank, .like source, .scratch⟩ : ArrayDecl) = decl := by
    rw [hrank, ← hshape, ← (h.local_decl n decl hdecl hn).2]
  rw [addLike, decl?_stage hsource, hother]
  simp only [Option.map_some, Option.getD_some, hnew]
  exact declare_stage hdecl hn

theorem addFixed_stage (wf : f.WellFormed) (h : f.Printable) {n : Nat} {dims : Shape}
    {decl : ArrayDecl} (hdecl : f.decl? n = some decl) (hn : f.params.length ≤ n)
    (hshape : decl.shape = .fixed dims) :
    ((f.stage n 0).addFixed decl.name decl.elem dims).2 = f.stage (n + 1) 0 := by
  have hnew : (⟨decl.name, decl.elem, dims.length, .fixed dims, .scratch⟩ : ArrayDecl) = decl := by
    rw [wf.fixed_dims hdecl hshape, ← hshape, ← (h.local_decl n decl hdecl hn).2]
  rw [addFixed, hnew]
  exact declare_stage hdecl hn

/-! ## Lines -/

theorem takes_param (h : f.Printable) (hc : f.check = .ok ()) {n : Nat} {decl : ArrayDecl}
    (hdecl : f.decl? n = some decl) (hn : n < f.params.length) (later : List Lexeme) :
    Takes parseParam (f.stage n 0) (lexemesOf (paramFindings decl) ++ later) (fun _ => True)
      (f.stage (n + 1) 0) later := by
  have hdims : Takes (collect .rightBracket do
        let dim ← expectIdent
        if dim.value ≠ "_" then report (.paramDimension dim.value) dim.span
        return some ()) (f.stage n 0)
      (commaLexemes ((List.replicate decl.rank ()).map fun _ => [.ident "_"]) ++
        .symbol .rightBracket :: later)
      (· = (List.replicate decl.rank ()).map fun _ => ()) (f.stage n 0)
      (.symbol .rightBracket :: later) := by
    refine takes_collect (by decide) (fun _ _ => ⟨_, [], rfl, rfl, rfl⟩) fun _ _ later => ?_
    refine takes_expectIdent.bind fun dim hdim => ?_
    rw [if_neg (by simp [hdim])]
    exact .pure rfl
  have hlexemes : lexemesOf (paramFindings decl) ++ later =
      .ident decl.name :: .symbol .colon :: .ident decl.elem.name :: .symbol .leftBracket ::
        (commaLexemes ((List.replicate decl.rank ()).map fun _ => [.ident "_"]) ++
          .symbol .rightBracket :: later) := by
    simp [paramFindings, List.map_replicate]
  rw [hlexemes]
  refine takes_expectIdent.bind fun name hname => takes_expect.bind fun _ _ => ?_
  refine (takes_parseElem decl.elem).bind ?_
  rintro _ rfl
  refine takes_expect.bind fun _ _ => hdims.bind ?_
  rintro _ rfl
  refine takes_expect.bind fun _ _ => ?_
  rw [← h.addParam_stage hdecl hn, ← hname]
  have hfree : (f.stage n 0).lookup? name.value = none := hname ▸ lookup?_stage_none hc hdecl
  simpa using takes_declareAs (·.addParam name.value decl.elem decl.rank) hfree

/-- The line of a local array. -/
theorem takes_local (h : f.Printable) (hc : f.check = .ok ()) {n : Nat} {decl : ArrayDecl}
    (hdecl : f.decl? n = some decl) (hn : f.params.length ≤ n) (later : List Lexeme) :
    Takes parseStatement (f.stage n 0) (lexemesOf (f.localFindings decl) ++ later) (fun _ => True)
      (f.stage (n + 1) 0) later := by
  have wf := h.wellFormed hc
  have hfree : (f.stage n 0).lookup? decl.name = none := lookup?_stage_none hc hdecl
  refine takes_current.bind fun token htoken => ?_
  rw [htoken]
  cases hshape : decl.shape with
  | param => exact absurd hshape (h.local_decl n decl hdecl hn).1
  | like source =>
    obtain ⟨hsource, _⟩ := wf.like_source hdecl hshape
    rw [← addLike_stage wf h hdecl hn hshape]
    simp only [localFindings, hshape, lexemesOf_mark, lexemesOf_ident, lexemesOf_nil,
      List.cons_append, List.nil_append]
    exact takes_parseLet_like decl.elem
      (lookup?_stage hc hsource (lt_trans hsource (lt_of_decl? hdecl))) hfree
  | fixed dims =>
    have hdims : dims ≠ [] := by
      rintro rfl
      exact checkDecl_rank (checkDecls_ok (check_ok hc).1 hdecl) (wf.fixed_dims hdecl hshape).symm
    rw [← addFixed_stage wf h hdecl hn hshape]
    simp only [localFindings, hshape, lexemesOf_append, lexemesOf_mark, lexemesOf_ident,
      lexemesOf_commas, List.map_map, lexemesOf_nil, List.cons_append, List.nil_append,
      List.append_assoc]
    exact takes_parseLet_fixed decl.elem hdims hfree

theorem lexemesOf_operand {operand : Operand}
    (finite : ∀ constant ∈ operand.constants, constant.isFinite = true) :
    lexemesOf (f.operandFindings operand) = operandLexemes f.nameAt operand := by
  cases operand with
  | array id => rfl
  | scalar constant =>
    simp [operandFindings, scalarFindings, finite constant (by simp [Operand.constants]),
      operandLexemes]

/-- The line of an operation whose constants are finite. -/
theorem takes_op (h : f.Printable) (hc : f.check = .ok ()) {m : Nat} {op : Op}
    (hop : f.body[m]? = some op) (finite : ∀ constant ∈ op.constants, constant.isFinite = true)
    {later : List Lexeme} (hlater : Parts later) :
    Takes parseStatement (f.stage f.arrays.length m) (lexemesOf (f.opFindings op) ++ later)
      (fun _ => True) (f.stage f.arrays.length (m + 1)) later := by
  have wf := h.wellFormed hc
  have hmem : op ∈ f.body := List.mem_of_getElem? hop
  have resolved : ∀ id ∈ op.reads ++ op.writes,
      (f.stage f.arrays.length m).lookup? (f.nameAt id) = some id :=
    fun id hid => lookup?_stage hc (wf.mem_lt hmem hid) (wf.mem_lt hmem hid)
  rw [List.forall_mem_append] at resolved
  obtain ⟨read, written⟩ := resolved
  rw [← push_stage hop]
  refine takes_current.bind fun token htoken => ?_
  rw [htoken]
  -- the first lexeme of each form decides which parser runs
  cases op with
  | map out op args =>
    have hargs : (args.map f.operandFindings).map lexemesOf = args.map (operandLexemes f.nameAt) := by
      rw [List.map_map]
      refine List.map_congr_left fun arg harg => lexemesOf_operand fun constant hconstant => ?_
      exact finite constant (List.mem_flatMap.mpr ⟨arg, harg, hconstant⟩)
    simp only [opFindings, lexemesOf_append, lexemesOf_mark, lexemesOf_ident, lexemesOf_commas,
      hargs, lexemesOf_nil, List.cons_append, List.nil_append, List.append_assoc]
    refine takes_parseAssign (written out (by simp [Op.writes])) ?_
    refine (takes_eat_other rfl).bind ?_
    rintro _ rfl
    refine (takes_eat_other rfl).bind ?_
    rintro _ rfl
    refine takes_parseMap out op fun arg harg id hid => read id ?_
    exact mem_distinct.mpr (List.mem_filterMap.mpr ⟨arg, harg, hid⟩)
  | reduce out op input =>
    simp only [opFindings, lexemesOf_mark, lexemesOf_ident, lexemesOf_nil, List.cons_append,
      List.nil_append]
    refine takes_parseAssign (written out (by simp [Op.writes])) (takes_eat.bind ?_)
    rintro _ rfl
    exact takes_parseFold _ op (read input (by simp [Op.reads]))
  | scan out op input =>
    simp only [opFindings, lexemesOf_mark, lexemesOf_ident, lexemesOf_nil, List.cons_append,
      List.nil_append]
    refine takes_parseAssign (written out (by simp [Op.writes])) ?_
    refine (takes_eat_other rfl).bind ?_
    rintro _ rfl
    refine takes_eat.bind ?_
    rintro _ rfl
    exact takes_parseFold _ op (read input (by simp [Op.reads]))
  | store array index constant =>
    have hconstant : lexemesOf (scalarFindings constant) = [.number constant] := by
      simp [scalarFindings, finite constant (by simp [Op.constants])]
    simp only [opFindings, lexemesOf_mark, lexemesOf_ident, lexemesOf_ok, hconstant,
      List.cons_append, List.nil_append]
    refine (takes_parseArray (written array (by simp [Op.writes]))).bind ?_
    rintro _ rfl
    refine takes_eat.bind ?_
    rintro _ rfl
    exact takes_parseStore array
  | print arrays =>
    simp only [opFindings, nameFindings, lexemesOf_append, lexemesOf_mark, lexemesOf_commas,
      List.map_map, lexemesOf_nil, List.cons_append, List.nil_append, List.append_assoc]
    refine takes_advance.bind fun _ _ => ?_
    refine (takes_parseArrays fun id hid => read id (mem_distinct.mpr hid)).bind ?_
    rintro _ rfl
    exact takes_addOp _
  | call callee reads writes =>
    have hlexemes : lexemesOf (f.opFindings (.call callee reads writes)) ++ later =
        .symbol .call :: .ident callee :: .symbol .leftParen ::
          (commaLexemes (reads.map fun id => [.ident (f.nameAt id)]) ++ .symbol .rightParen ::
            if writes.isEmpty then later
            else .symbol .arrow :: .symbol .leftParen ::
              (commaLexemes (writes.map fun id => [.ident (f.nameAt id)]) ++
                .symbol .rightParen :: later)) := by
      cases writes <;> simp [opFindings, nameFindings, Function.comp_def]
    rw [hlexemes]
    exact takes_parseCall (fun id hid => read id (mem_distinct.mpr hid))
      (fun id hid => written id (mem_distinct.mpr hid)) hlater

/-! ## The whole text -/

end Printable

theorem opensStatement_local (f : Func) (decl : ArrayDecl) :
    OpensStatement (lexemesOf (f.localFindings decl)) :=
  ⟨⟨_, _, rfl, rfl, rfl⟩, rfl, rfl⟩

theorem opensStatement_op (f : Func) (op : Op) : OpensStatement (lexemesOf (f.opFindings op)) := by
  cases op <;> exact ⟨⟨_, _, rfl, rfl, rfl⟩, rfl, rfl⟩

namespace Printable

theorem paramDecls_eq (h : f.Printable) : f.paramDecls = f.arrays.take f.params.length := by
  rw [paramDecls, h.params_eq, List.length_range]
  generalize f.params.length = n
  induction n with
  | zero => rfl
  | succ n ih =>
    rw [List.range_succ, List.filterMap_append, ih, List.take_add_one]
    cases hn : f.arrays[n]? <;> simp [decl?, hn]

theorem localDecls_eq (h : f.Printable) : f.localDecls = f.arrays.drop f.params.length := by
  have hsplit := List.take_append_drop f.params.length f.arrays
  have hparams : (f.arrays.take f.params.length).filter (fun decl => decl.role = .scratch) = [] := by
    rw [List.filter_eq_nil_iff]
    intro decl hdecl
    obtain ⟨i, hi⟩ := List.mem_iff_getElem?.mp hdecl
    rw [List.getElem?_take] at hi
    split at hi
    · next hlt => simp [(h.param_decl i decl hi hlt).2]
    · cases hi
  have hlocals : (f.arrays.drop f.params.length).filter (fun decl => decl.role = .scratch) =
      f.arrays.drop f.params.length := by
    rw [List.filter_eq_self]
    intro decl hdecl
    obtain ⟨i, hi⟩ := List.mem_iff_getElem?.mp hdecl
    rw [List.getElem?_drop] at hi
    simp [(h.local_decl _ decl hi (Nat.le_add_right _ _)).2]
  rw [localDecls, ← hsplit, List.filter_append, hparams, hlocals, List.nil_append, hsplit]

/-- The body: every declaration and every operation. -/
theorem takes_body (h : f.Printable) (hc : f.check = .ok ()) (finite : f.Finite) {rounds : Nat}
    (hrounds : f.localDecls.length + f.body.length ≤ rounds) (later : List Lexeme) :
    Takes (statementsWithin rounds) (f.stage f.params.length 0)
      ((f.localDecls.map fun decl => lexemesOf (f.localFindings decl)).flatten ++
        ((f.body.map fun op => lexemesOf (f.opFindings op)).flatten ++
          .symbol .rightBrace :: later))
      (fun _ => True) (f.stage f.arrays.length f.body.length) (.symbol .rightBrace :: later) := by
  obtain ⟨extra, rfl⟩ := Nat.exists_eq_add_of_le hrounds
  -- operations are read when every array is declared, so the stages grow in arrays first
  have hlast : Parts (.symbol .rightBrace :: later) := ⟨rfl, rfl⟩
  have hops : Takes (statementsWithin (f.body.length + extra)) (f.stage f.arrays.length 0)
      ((f.body.map fun op => lexemesOf (f.opFindings op)).flatten ++ .symbol .rightBrace :: later)
      (fun _ => True) (f.stage f.arrays.length f.body.length) (.symbol .rightBrace :: later) := by
    refine takes_statements (fun m => f.stage f.arrays.length m) (fun op _ => f.opensStatement_op op)
      hlast ?_ ?_
    · intro i op hop later hlater
      rw [Nat.zero_add]
      exact h.takes_op hc hop (finite op (List.mem_of_getElem? hop)) hlater
    · rw [Nat.zero_add]
      exact takes_statements_end extra
  have hparts : Parts ((f.body.map fun op => lexemesOf (f.opFindings op)).flatten ++
      .symbol .rightBrace :: later) := by
    cases f.body with
    | nil => exact hlast
    | cons op ops =>
      rw [List.map_cons, List.flatten_cons, List.append_assoc]
      exact ((f.opensStatement_op op).append _).2
  have hlength : f.params.length + f.localDecls.length = f.arrays.length := by
    have := h.length_le
    rw [h.localDecls_eq, List.length_drop]
    exact Nat.add_sub_cancel' this
  rw [Nat.add_assoc]
  refine takes_statements (fun n => f.stage n 0) (fun decl _ => f.opensStatement_local decl) hparts ?_
    (by rwa [hlength])
  intro i decl hdecl later _
  rw [h.localDecls_eq, List.getElem?_drop] at hdecl
  exact h.takes_local hc hdecl (Nat.le_add_right _ _) later

end Printable

/-- The attribute, if the function has it, makes the draft serial. -/
theorem takes_attributes (serial : Bool) {rounds : Nat} (hrounds : 0 < rounds)
    (later : List Lexeme) :
    Takes (attributesWithin rounds) (empty "")
      (lexemesOf (if serial then
          [mark .hash] ++ [mark .leftBracket] ++ [ident "serial"] ++ [mark .rightBracket]
        else []) ++ .symbol .fn :: later)
      (fun _ => True) { empty "" with serialOnly := serial } (.symbol .fn :: later) := by
  have hdone : ∀ rounds draft, Takes (attributesWithin rounds) draft (.symbol .fn :: later)
      (fun _ => True) draft (.symbol .fn :: later) := by
    intro rounds draft
    cases rounds with
    | zero => exact .pure trivial
    | succ rounds =>
      refine (takes_isAt .hash).bind ?_
      rintro _ rfl
      exact .pure trivial
  cases serial with
  | false => exact hdone _ _
  | true =>
    have hattribute : Takes parseAttribute (empty "")
        (.symbol .hash :: .symbol .leftBracket :: .ident "serial" :: .symbol .rightBracket ::
          .symbol .fn :: later)
        (fun _ => True) { empty "" with serialOnly := true } (.symbol .fn :: later) := by
      refine takes_expect.bind fun _ _ => takes_expect.bind fun _ _ => takes_expectIdent.bind ?_
      intro name hname
      refine takes_expect.bind fun _ _ => ?_
      rw [if_pos hname]
      exact .redraft fun r hr => by rw [hr]
    obtain ⟨rounds, rfl⟩ := Nat.exists_eq_succ_of_ne_zero hrounds.ne'
    refine (takes_isAt .hash).bind ?_
    rintro _ rfl
    exact hattribute.bind fun _ _ => hdone rounds _

theorem takes_parseReturned (returned : Option String) {draft : Func} (later : List Lexeme) :
    Takes parseReturned draft
      (lexemesOf (returned.elim [] fun text => [mark .arrow] ++ [ident text]) ++
        .symbol .leftBrace :: later)
      (fun name => name.map (·.value) = returned) draft (.symbol .leftBrace :: later) := by
  cases returned with
  | none =>
    refine (takes_eat_other rfl).bind ?_
    rintro _ rfl
    exact .pure rfl
  | some text =>
    refine takes_eat.bind ?_
    rintro _ rfl
    exact takes_expectIdent.bind fun name hname => .pure (congrArg some hname)

theorem takes_setReturn {name : Located String} {draft : Func} {id : ArrayId}
    (h : draft.lookup? name.value = some id) {lexemes : List Lexeme} :
    Takes (setReturn name) draft lexemes (fun _ => True) { draft with returns := some id }
      lexemes := by
  refine Takes.get.bind fun r hr => ?_
  rw [hr.draft_eq, h]
  exact .redraft fun r hr => by rw [hr]

/-- A draft that passes the checks is the function. -/
theorem takes_finishFunc (hc : f.check = .ok ()) (span : Span) {lexemes : List Lexeme} :
    Takes (finishFunc 0 span) f lexemes (· = some f) f lexemes := by
  refine Takes.get.bind fun r hr => ?_
  have hbuild : f.build = .ok f := by simp [build, validate, hc, Except.mapError, Except.map]
  rw [hr.problems_eq, if_neg (by simp), hr.draft_eq, hbuild]
  exact .pure rfl

namespace Printable

/-- Every line takes a lexeme, so there are enough rounds for the body. -/
theorem length_le_flatten {items : List (List Lexeme)} (h : ∀ item ∈ items, OpensStatement item) :
    items.length ≤ items.flatten.length := by
  induction items with
  | nil => simp
  | cons item items ih =>
    obtain ⟨⟨first, more, rfl, _⟩, _⟩ := h item (by simp)
    have := ih fun item hitem => h item (by simp [hitem])
    simp only [List.length_cons, List.flatten_cons, List.length_append]
    omega

theorem takes_params (h : f.Printable) (hc : f.check = .ok ()) (later : List Lexeme) :
    Takes (items .rightParen parseParam) (f.stage 0 0)
      (commaLexemes (f.paramDecls.map fun decl => lexemesOf (paramFindings decl)) ++
        .symbol .rightParen :: later)
      (fun _ => True) (f.stage f.params.length 0) (.symbol .rightParen :: later) := by
  have hlength : f.paramDecls.length = f.params.length := by
    rw [h.paramDecls_eq, List.length_take, Nat.min_eq_left h.length_le]
  rw [← hlength]
  refine takes_items (by decide) (fun n => f.stage n 0) (fun decl _ => ⟨_, _, rfl, rfl, rfl⟩) ?_
  intro i decl hdecl later
  rw [h.paramDecls_eq, List.getElem?_take] at hdecl
  split at hdecl
  · next hi => exact h.takes_param hc hdecl hi later
  · cases hdecl

end Printable

theorem lexemesOf_findings (f : Func) : lexemesOf f.findings =
    lexemesOf (if f.serialOnly then
        [mark .hash] ++ [mark .leftBracket] ++ [ident "serial"] ++ [mark .rightBracket]
      else []) ++ .symbol .fn :: .ident f.name :: .symbol .leftParen ::
      (commaLexemes (f.paramDecls.map fun decl => lexemesOf (paramFindings decl)) ++
        .symbol .rightParen ::
          (lexemesOf ((f.returns.map f.nameAt).elim [] fun text => [mark .arrow] ++ [ident text]) ++
            .symbol .leftBrace ::
              ((f.localDecls.map fun decl => lexemesOf (f.localFindings decl)).flatten ++
                ((f.body.map fun op => lexemesOf (f.opFindings op)).flatten ++
                  [.symbol .rightBrace])))) := by
  simp only [findings, lexemesOf_append, lexemesOf_mark, lexemesOf_ident, lexemesOf_commas,
    lexemesOf_nil, lexemesOf_flatten, List.map_map, List.append_assoc, List.cons_append,
    List.nil_append, Function.comp_def]
  cases f.returns <;> rfl

namespace Printable

/-- The whole function, from any draft. -/
theorem takes_parseFunc (h : f.Printable) (hc : f.check = .ok ()) (finite : f.Finite)
    {draft : Func} :
    Takes parseFunc draft (lexemesOf f.findings) (· = some f) f [] := by
  rw [lexemesOf_findings]
  refine takes_current.bind fun start _ => Takes.get.bind fun before hbefore => ?_
  rw [hbefore.problems_eq]
  refine (Takes.redraft fun _ _ => rfl).bind fun _ _ => Takes.get.bind fun opened hopened => ?_
  refine (takes_attributes f.serialOnly (by rw [hopened.length_rest]; omega) _).bind fun _ _ => ?_
  refine takes_expect.bind fun _ _ => takes_expectIdent.bind fun name hname => ?_
  have hnamed : ∀ later, Takes
      (modify fun r : Reader => { r with draft := { r.draft with name := name.value } })
      { empty "" with serialOnly := f.serialOnly } later (fun _ => True) (f.stage 0 0) later :=
    fun later => .redraft fun r hr => by simp [hr, hname, stage, empty]
  refine (hnamed _).bind fun _ _ => takes_expect.bind fun _ _ => ?_
  refine (h.takes_params hc _).bind fun _ _ => takes_expect.bind fun _ _ => ?_
  refine (takes_parseReturned _ _).bind fun returned hreturned => takes_eat.bind ?_
  rintro _ rfl
  refine Takes.get.bind fun atBody hatBody => (h.takes_body hc finite ?_ []).bind fun _ _ => ?_
  · -- the parser allows as many rounds as there are lexemes left
    have hlocals := length_le_flatten (List.forall_mem_map.mpr fun decl
      (_ : decl ∈ f.localDecls) => f.opensStatement_local decl)
    have hops := length_le_flatten (List.forall_mem_map.mpr fun op
      (_ : op ∈ f.body) => f.opensStatement_op op)
    rw [List.length_map] at hlocals hops
    rw [hatBody.length_rest]
    simp only [List.length_append]
    omega
  refine takes_expect.bind fun _ _ => Takes.get.bind fun _ _ => ?_
  -- the returned array is set last: it may be any array, also one declared in the body
  have hcomplete := stage_complete h.length_le
  cases returned with
  | none =>
    have hnone : f.returns = none := by simpa using hreturned.symm
    have hstage : f.stage f.arrays.length f.body.length = f := by
      rw [hnone] at hcomplete
      exact hcomplete
    rw [hstage]
    exact takes_finishFunc hc _
  | some name =>
    obtain ⟨id, hid, hname⟩ := Option.map_eq_some_iff.mp hreturned.symm
    have hlt := (h.wellFormed hc).returned hid
    refine (takes_setReturn (hname ▸ lookup?_stage hc hlt hlt)).bind fun _ _ => ?_
    rw [← hid, hcomplete]
    exact takes_finishFunc hc _

theorem takes_funcs (h : f.Printable) (hc : f.check = .ok ()) (finite : f.Finite) {draft : Func}
    {rounds : Nat} (hrounds : 1 < rounds) :
    Takes (funcsWithin rounds) draft (lexemesOf f.findings) (· = [f]) f [] := by
  obtain ⟨rounds, rfl⟩ := Nat.exists_eq_add_of_le' hrounds
  have hfirst : (nextLexeme (lexemesOf f.findings)).isSymbol .endOfFile = false ∧
      ((nextLexeme (lexemesOf f.findings)).isSymbol .hash ||
        (nextLexeme (lexemesOf f.findings)).isSymbol .fn) = true := by
    rw [lexemesOf_findings]
    cases f.serialOnly <;> exact ⟨rfl, rfl⟩
  refine (takes_isAt .endOfFile).bind ?_
  rintro _ rfl
  rw [hfirst.1, if_neg Bool.false_ne_true]
  refine (takes_isAt .hash).bind ?_
  rintro _ rfl
  refine (takes_isAt .fn).bind ?_
  rintro _ rfl
  rw [if_pos hfirst.2]
  refine (h.takes_parseFunc hc finite).bind ?_
  rintro _ rfl
  have hend : Takes (funcsWithin (rounds + 1)) f [] (· = []) f [] := by
    refine (takes_isAt .endOfFile).bind ?_
    rintro _ rfl
    exact .pure rfl
  refine hend.bind ?_
  rintro _ rfl
  exact .pure rfl

end Printable

end Func

namespace Source

/-- What the parser is given when the whole text is read as some findings. -/
theorem ReadsApart.tokenize {text : String} {found : List Finding} (h : ReadsApart text found) :
    (tokenize text).1.map (·.lexeme) = lexemesOf found ++ [.symbol .endOfFile] ∧
      (tokenize text).2.map (·.problem) = found.filterMap Finding.problem? := by
  have := h [] [] .nil
  rw [List.append_nil, List.append_nil] at this
  exact this _ 0 true (Nat.lt_succ_self _)

/-- What is read as the findings of a function with finite constants is that function. -/
theorem parseSource_of_readsApart {f : Func} (h : f.Printable) (hc : f.check = .ok ())
    (finite : f.Finite) {text : String} (hreads : ReadsApart text f.findings) :
    parseSource text = .ok [f] := by
  obtain ⟨htokens, hproblems⟩ := hreads.tokenize
  rw [finite.problems, List.map_eq_nil_iff] at hproblems
  have hrounds : 1 < (tokenize text).1.length := by
    have := congrArg List.length htokens
    rw [Func.lexemesOf_findings] at this
    simp at this
    omega
  have hrun := h.takes_funcs hc finite hrounds
    ⟨Span.empty, (tokenize text).1, [], Func.empty ""⟩ ⟨rfl, htokens, rfl⟩
  simp [parseSource, parseTokens, hproblems, hrun.2.problems_eq, hrun.1]

end Source

/-! ## A function with everything in it -/

namespace Sample

/-- A function with every kind of declaration and operation, and constants at the ends of the range. -/
def study : Func where
  name := "study"
  arrays := [⟨"grid", .f64, 2, .param, .param 0⟩, ⟨"row_1", .f32, 1, .param, .param 1⟩,
    ⟨"like_grid", .f64, 2, .like 0, .scratch⟩, ⟨"total", .i64, 1, .fixed [1], .scratch⟩,
    ⟨"_", .f64, 2, .fixed [3, 18446744073709551], .scratch⟩]
  params := [0, 1]
  body := [.map 2 .add [.array 0, .scalar (.ofCode true 1)],
    .map 4 .max [.scalar (.ofCode false 0x7fefffffffffffff), .array 2],
    .reduce 3 .sum 0, .scan 1 .max 1, .store 1 18446744073709551615 (.ofCode true 0),
    .store 1 0 (.ofCode false 0x3fb999999999999a), .print [0, 3], .call "log" [1] [],
    .call "mix" [] [0, 1]]
  returns := some 4
  serialOnly := true

theorem study_printable : study.Printable where
  name := identifier_of_check rfl
  names := by
    simp only [study, List.forall_mem_cons, List.not_mem_nil, false_implies, implies_true,
      and_true]
    exact ⟨identifier_of_check rfl, identifier_of_check rfl, identifier_of_check rfl,
      identifier_of_check rfl, identifier_of_check rfl⟩
  callees callee reads writes hop := by
    simp only [study, List.mem_cons, Op.call.injEq, reduceCtorEq, List.not_mem_nil, false_or,
      or_false] at hop
    rcases hop with ⟨rfl, _⟩ | ⟨rfl, _⟩ <;> exact identifier_of_check rfl
  indices array index constant hop := by
    simp only [study, List.mem_cons, Op.store.injEq, reduceCtorEq, List.not_mem_nil, false_or,
      or_false] at hop
    rcases hop with ⟨_, rfl, _⟩ | ⟨_, rfl, _⟩ <;> decide
  params_eq := rfl
  length_le := by decide
  param_decl id decl hdecl hid := by
    have hid : id < 2 := hid
    interval_cases id <;> cases hdecl <;> exact ⟨rfl, rfl⟩
  local_decl id decl hdecl hid := by
    have hlow : 2 ≤ id := hid
    have hhigh : id < 5 := Func.lt_of_decl? hdecl
    interval_cases id <;> cases hdecl <;> exact ⟨nofun, rfl⟩

theorem study_finite : study.Finite := by
  unfold Func.Finite
  decide +kernel

end Sample

namespace Source

/-- The text of a function whose constants are finite is read as that function and nothing else. -/
theorem parseSource_text {f : Func} (valid : f.validate = .ok ()) (printable : f.Printable)
    (finite : f.Finite) : ∃ text, f.text? = some text ∧ parseSource text = .ok [f] := by
  have hbuild : f.build = .ok f := by
    rw [Func.build, valid]
    rfl
  obtain ⟨_, hc⟩ := Func.build_ok hbuild
  obtain ⟨text, htext, hreads⟩ := printable.exists_text hc
  exact ⟨text, htext, parseSource_of_readsApart printable hc finite hreads⟩

theorem parseSource_text_sample :
    Sample.study.validate = .ok () ∧ Sample.study.Printable ∧ Sample.study.Finite ∧
      ∃ text, Sample.study.text? = some text ∧ parseSource text = .ok [Sample.study] := by
  have valid : Sample.study.validate = .ok () := rfl
  exact ⟨valid, Sample.study_printable, Sample.study_finite,
    parseSource_text valid Sample.study_printable Sample.study_finite⟩

end Source

end ArrayOffload
