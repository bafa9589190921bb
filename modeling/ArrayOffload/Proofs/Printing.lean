import ArrayOffload.Func.Printer
import ArrayOffload.Proofs.Exec
import ArrayOffload.Proofs.Lexing
import ArrayOffload.Proofs.Parsing

/-!
# What the text of a function is read as

The findings of a function are written down next to its text: one list for each piece of text. A
well-formed function whose names are identifiers has a text, and the text is read as its findings.

* `Func.Printable`: functions that the source language can express, whatever their constants;
* `Func.findings`: the findings of a whole function;
* `Func.Printable.exists_text`: the text and its findings;
* `Func.accounts_findings`, `Func.Finite.problems`: only a constant that is not finite is out of place.
-/

namespace ArrayOffload

namespace Source

/-- A name that the source language has room for. -/
structure Identifier (text : String) : Prop where
  word : IsWord text
  free : Symbol.keyword? text = none

/-- A symbol as it is found. -/
def mark (symbol : Symbol) : Finding := .ok (.symbol symbol)

/-- A name as it is found. -/
def ident (text : String) : Finding := .ok (.ident text)

/-- Findings with commas between them. -/
def commas (items : List (List Finding)) : List Finding := [mark .comma].intercalate items

theorem Identifier.reads {text : String} (h : Identifier text) : Reads text [ident text] := by
  have := reads_word h.word
  rwa [wordLexeme, h.free] at this

theorem identifier_of_check {text : String}
    (h : (text.toList.head?.any isIdentStart && text.toList.all isIdentRest &&
      (Symbol.keyword? text).isNone) = true) : Identifier text := by
  simp only [Bool.and_eq_true, Option.isNone_iff_eq_none] at h
  exact ⟨isWord_of_all h.1.1 h.1.2, h.2⟩

/-! ## Fixed texts -/

theorem readsApart_leftParen : ReadsApart "(" [mark .leftParen] :=
  readsApart_mark (by decide : ('(', Symbol.leftParen) ∈ Symbol.marks)

theorem readsApart_rightParen : ReadsApart ")" [mark .rightParen] :=
  readsApart_mark (by decide : (')', Symbol.rightParen) ∈ Symbol.marks)

theorem readsApart_leftBracket : ReadsApart "[" [mark .leftBracket] :=
  readsApart_mark (by decide : ('[', Symbol.leftBracket) ∈ Symbol.marks)

theorem readsApart_rightBracket : ReadsApart "]" [mark .rightBracket] :=
  readsApart_mark (by decide : (']', Symbol.rightBracket) ∈ Symbol.marks)

theorem readsApart_comma : ReadsApart ", " [mark .comma] :=
  ((readsApart_mark (by decide : (',', Symbol.comma) ∈ Symbol.marks)).append_apart
    readsApart_blank).spelled rfl

theorem readsApart_colon : ReadsApart ": " [mark .colon] :=
  ((readsApart_mark (by decide : (':', Symbol.colon) ∈ Symbol.marks)).append_apart
    readsApart_blank).spelled rfl

theorem readsApart_equals : ReadsApart " = " [mark .equals] :=
  ((readsApart_blank.append_apart
    (readsApart_mark (by decide : ('=', Symbol.equals) ∈ Symbol.marks))).append_apart
    readsApart_blank).spelled rfl

/-- A keyword with a blank after it. -/
theorem readsApart_keyword {symbol : Symbol} (h : symbol ∈ Symbol.keywords) :
    ReadsApart (symbol.text ++ " ") [mark symbol] := by
  have hword : Reads symbol.text [mark symbol] := by
    simp only [Symbol.keywords, List.mem_cons, List.not_mem_nil, or_false] at h
    rcases h with rfl | rfl | rfl | rfl | rfl | rfl | rfl <;>
      exact reads_word (isWord_of_all rfl rfl)
  simpa using hword.append_apart readsApart_blank ⟨' ', rfl, rfl, by decide⟩

theorem readsApart_reduce : ReadsApart " = reduce " ([mark .equals] ++ [mark .reduce]) :=
  (readsApart_equals.append_apart
    (readsApart_keyword (by decide : Symbol.reduce ∈ Symbol.keywords))).spelled rfl

theorem readsApart_scan : ReadsApart " = scan " ([mark .equals] ++ [mark .scan]) :=
  (readsApart_equals.append_apart
    (readsApart_keyword (by decide : Symbol.scan ∈ Symbol.keywords))).spelled rfl

theorem readsApart_call : ReadsApart "call " [mark .call] :=
  (readsApart_keyword (by decide : Symbol.call ∈ Symbol.keywords)).spelled rfl

theorem readsApart_to : ReadsApart " -> " [mark .arrow] :=
  ((readsApart_blank.append_apart readsApart_arrow).append_apart readsApart_blank).spelled rfl

theorem readsApart_results : ReadsApart " -> (" ([mark .arrow] ++ [mark .leftParen]) :=
  (readsApart_to.append_apart readsApart_leftParen).spelled rfl

theorem readsApart_indent : ReadsApart "    " [] :=
  (((readsApart_blank.append_apart readsApart_blank).append_apart readsApart_blank).append_apart
    readsApart_blank).spelled rfl

theorem readsApart_let : ReadsApart "    let " [mark .let] :=
  (readsApart_indent.append_apart
    (readsApart_keyword (by decide : Symbol.let ∈ Symbol.keywords))).spelled rfl

theorem readsApart_like : ReadsApart " like " [mark .like] :=
  (readsApart_blank.append_apart
    (readsApart_keyword (by decide : Symbol.like ∈ Symbol.keywords))).spelled rfl

theorem readsApart_fn : ReadsApart "fn " [mark .fn] :=
  (readsApart_keyword (by decide : Symbol.fn ∈ Symbol.keywords)).spelled rfl

theorem readsApart_open : ReadsApart " \x7b\n" [mark .leftBrace] :=
  ((readsApart_blank.append_apart
    (readsApart_mark (by decide : ('{', Symbol.leftBrace) ∈ Symbol.marks))).append_apart
    readsApart_newline).spelled rfl

theorem readsApart_rightBrace : ReadsApart "\x7d" [mark .rightBrace] :=
  readsApart_mark (by decide : ('}', Symbol.rightBrace) ∈ Symbol.marks)

theorem readsApart_serial : ReadsApart "#[serial]\n"
    ([mark .hash] ++ [mark .leftBracket] ++ [ident "serial"] ++ [mark .rightBracket]) := by
  have hserial : Reads "serial" [ident "serial"] := (identifier_of_check rfl).reads
  have hopened := (readsApart_mark (by decide : ('#', Symbol.hash) ∈ Symbol.marks)).append_apart
    readsApart_leftBracket
  exact (((hopened.append hserial).append_apart readsApart_rightBracket
    ⟨']', rfl, rfl, by decide⟩).append_apart readsApart_newline).spelled rfl

/-! ## Lists -/

theorem reads_commaList {texts : List String} {found : List (List Finding)}
    (h : List.Forall₂ Reads texts found) : Reads (Text.commaList texts) (commas found) := by
  induction h with
  | nil => exact readsApart_empty.reads
  | @cons text items texts found hfirst hrest ih =>
    cases hrest with
    | nil => simpa [Text.commaList, commas] using hfirst
    | @cons second _ texts found hsecond hrest =>
      have := (hfirst.append_apart readsApart_comma ⟨',', rfl, rfl, by decide⟩).append ih
      simpa [Text.commaList, commas, String.intercalate_cons_cons, List.intercalate] using this

theorem readsApart_join {lines : List String} {found : List (List Finding)}
    (h : List.Forall₂ ReadsApart lines found) : ReadsApart (String.join lines) found.flatten := by
  induction h with
  | nil => exact readsApart_empty
  | cons hline _ ih =>
    rw [String.join_cons, List.flatten_cons]
    exact hline.append_apart ih

/-- Texts that exist one by one exist as a list. -/
theorem exists_mapM_forall₂ {α : Type} (r : String → List Finding → Prop)
    {print : α → Option String} (found : α → List Finding) {xs : List α}
    (h : ∀ x ∈ xs, ∃ text, print x = some text ∧ r text (found x)) :
    ∃ texts, xs.mapM print = some texts ∧ List.Forall₂ r texts (xs.map found) := by
  induction xs with
  | nil => exact ⟨[], rfl, .nil⟩
  | cons x xs ih =>
    obtain ⟨text, htext, hr⟩ := h x (by simp)
    obtain ⟨texts, htexts, hall⟩ := ih fun y hy => h y (by simp [hy])
    exact ⟨text :: texts, by simp [List.mapM_cons, htext, htexts], .cons hr hall⟩

theorem readsApart_bracketed {texts : List String} {found : List (List Finding)}
    (h : List.Forall₂ Reads texts found) :
    ReadsApart (Text.bracketed texts) ([mark .leftBracket] ++ commas found ++ [mark .rightBracket]) :=
  (readsApart_leftBracket.append (reads_commaList h)).append_apart readsApart_rightBracket
    ⟨']', rfl, rfl, by decide⟩

theorem separates_bracketed (texts : List String) : Separates (Text.bracketed texts) :=
  Separates.append (Separates.append ⟨'[', rfl, rfl, by decide⟩ _) _

/-- Something in parentheses after a word. -/
theorem Reads.parenthesized {a b : String} {x y : List Finding} (ha : Reads a x) (hb : Reads b y) :
    ReadsApart (a ++ "(" ++ b ++ ")") (x ++ [mark .leftParen] ++ y ++ [mark .rightParen]) :=
  ((ha.append_apart readsApart_leftParen ⟨'(', rfl, rfl, by decide⟩).append hb).append_apart
    readsApart_rightParen ⟨')', rfl, rfl, by decide⟩

theorem identifier_mapOp (op : MapOp) : Identifier op.name := by
  cases op <;> exact identifier_of_check rfl

theorem identifier_foldOp (op : FoldOp) : Identifier op.name := by
  cases op <;> exact identifier_of_check rfl

theorem identifier_elem (elem : Elem) : Identifier elem.name := by
  cases elem <;> exact identifier_of_check rfl

theorem forall_mem_commas {p : Finding → Prop} {items : List (List Finding)} (hcomma : p (mark .comma))
    (h : ∀ item ∈ items, ∀ finding ∈ item, p finding) : ∀ finding ∈ commas items, p finding := by
  induction items with
  | nil => simp [commas]
  | cons item items ih =>
    have hitem := h item (by simp)
    have hitems := ih fun item hitem => h item (by simp [hitem])
    cases items with
    | nil => simpa [commas] using hitem
    | cons next items =>
      simp only [commas, List.intercalate_cons_cons] at hitems ⊢
      rw [List.forall_mem_append, List.forall_mem_append]
      exact ⟨⟨hitem, by simpa using hcomma⟩, hitems⟩

end Source

namespace Func

open Source

/-! ## Findings -/

/-- The name of a declared array. -/
def nameAt (f : Func) (id : ArrayId) : String := (f.nameOf? id).getD ""

def nameFindings (f : Func) (ids : List ArrayId) : List Finding :=
  commas (ids.map fun id => [ident (f.nameAt id)])

def operandFindings (f : Func) : Operand → List Finding
  | .array id => [ident (f.nameAt id)]
  | .scalar constant => scalarFindings constant

def opFindings (f : Func) : Op → List Finding
  | .map out op args =>
    [ident (f.nameAt out)] ++ [mark .equals] ++ [ident op.name] ++ [mark .leftParen] ++
      commas (args.map f.operandFindings) ++ [mark .rightParen]
  | .reduce out op input =>
    [ident (f.nameAt out)] ++ ([mark .equals] ++ [mark .reduce]) ++ [ident op.name] ++
      [mark .leftParen] ++ [ident (f.nameAt input)] ++ [mark .rightParen]
  | .scan out op input =>
    [ident (f.nameAt out)] ++ ([mark .equals] ++ [mark .scan]) ++ [ident op.name] ++
      [mark .leftParen] ++ [ident (f.nameAt input)] ++ [mark .rightParen]
  | .store array index constant =>
    [ident (f.nameAt array)] ++ [mark .leftBracket] ++ [.ok (.integer index)] ++
      ([mark .rightBracket] ++ [mark .equals]) ++ scalarFindings constant
  | .print arrays =>
    [mark .print] ++ [mark .leftParen] ++ f.nameFindings arrays ++ [mark .rightParen]
  | .call callee reads writes =>
    [mark .call] ++ [ident callee] ++ [mark .leftParen] ++ f.nameFindings reads ++
      [mark .rightParen] ++
      if writes.isEmpty then []
      else [mark .arrow] ++ [mark .leftParen] ++ f.nameFindings writes ++ [mark .rightParen]

def paramFindings (decl : ArrayDecl) : List Finding :=
  [ident decl.name] ++ [mark .colon] ++ [ident decl.elem.name] ++
    ([mark .leftBracket] ++ commas (List.replicate decl.rank [ident "_"]) ++ [mark .rightBracket])

def localFindings (f : Func) (decl : ArrayDecl) : List Finding :=
  [mark .let] ++ [ident decl.name] ++ [mark .colon] ++ [ident decl.elem.name] ++
    match decl.shape with
    | .like source => [mark .like] ++ [ident (f.nameAt source)]
    | .fixed dims =>
      [mark .leftBracket] ++ commas (dims.map fun dim => [.ok (.integer dim)]) ++
        [mark .rightBracket]
    | .param => []

/-- The declarations of the parameters, in order. -/
def paramDecls (f : Func) : List ArrayDecl := f.params.filterMap f.decl?

/-- The declarations of the local arrays, in order. -/
def localDecls (f : Func) : List ArrayDecl := f.arrays.filter fun decl => decl.role = .scratch

def findings (f : Func) : List Finding :=
  (if f.serialOnly then
      [mark .hash] ++ [mark .leftBracket] ++ [ident "serial"] ++ [mark .rightBracket]
    else []) ++
    [mark .fn] ++ [ident f.name] ++ [mark .leftParen] ++ commas (f.paramDecls.map paramFindings) ++
    [mark .rightParen] ++ (f.returns.elim [] fun id => [mark .arrow] ++ [ident (f.nameAt id)]) ++
    [mark .leftBrace] ++ (f.localDecls.map f.localFindings).flatten ++
    (f.body.map f.opFindings).flatten ++ [mark .rightBrace]

/-! ## Texts -/

/-- The arrays are the parameters in order, then the local arrays. -/
structure LaidOut (f : Func) : Prop where
  params_eq : f.params = List.range f.params.length
  length_le : f.params.length ≤ f.arrays.length
  param_decl : ∀ id decl, f.decl? id = some decl → id < f.params.length →
    decl.shape = .param ∧ decl.role = .param id
  local_decl : ∀ id decl, f.decl? id = some decl → f.params.length ≤ id →
    decl.shape ≠ .param ∧ decl.role = .scratch

/-- What the source language can express: names are identifiers and positions are machine words. -/
structure Printable (f : Func) : Prop extends LaidOut f where
  name : Identifier f.name
  names : ∀ decl ∈ f.arrays, Identifier decl.name
  callees : ∀ callee reads writes, .call callee reads writes ∈ f.body → Identifier callee
  indices : ∀ array index constant, .store array index constant ∈ f.body → index < Shape.wordLimit

/-- The constants of a function have digits: there is no infinity and no NaN among them. -/
def Finite (f : Func) : Prop :=
  ∀ op ∈ f.body, ∀ constant ∈ op.constants, constant.isFinite = true

variable {f : Func}

theorem nameOf?_eq {id : ArrayId} (h : id < f.arrays.length) :
    f.nameOf? id = some (f.nameAt id) := by
  obtain ⟨decl, hdecl⟩ := exists_decl h
  simp [nameAt, nameOf?, hdecl]

/-- The extents of an addressable shape are machine words. -/
theorem lt_wordLimit_of_product? {total n : Nat} {dims : Shape}
    (h : Shape.product? total dims = some n) (hpos : 0 < total) (hzero : 0 ∉ dims) :
    ∀ dim ∈ dims, dim < Shape.wordLimit := by
  induction dims generalizing total with
  | nil => simp
  | cons extent rest ih =>
    rw [List.mem_cons, not_or] at hzero
    have hextent : 0 < extent := Nat.pos_of_ne_zero (Ne.symm hzero.1)
    simp only [Shape.product?] at h
    split at h
    · next hlt =>
      intro dim hdim
      rcases List.mem_cons.mp hdim with rfl | hrest
      · exact lt_of_le_of_lt (Nat.le_mul_of_pos_left _ hpos) hlt
      · exact ih h (Nat.mul_pos hpos hextent) hzero.2 dim hrest
    · cases h

theorem checkDecl_words {before : List ArrayDecl} {decl : ArrayDecl} {dims : Shape}
    (h : checkDecl before decl = .ok ()) (hs : decl.shape = .fixed dims) :
    ∀ dim ∈ dims, dim ≤ integerLimit := by
  have hchecks : 0 ∉ dims ∧ (Shape.count? dims).isNone = false := by
    simp only [checkDecl, hs] at h
    grind
  obtain ⟨hzero, hsome⟩ := hchecks
  obtain ⟨total, hcount⟩ := Option.isSome_iff_exists.mp (Option.isNone_eq_false_iff.mp hsome)
  obtain ⟨hproduct, _⟩ := Option.filter_eq_some_iff.mp hcount
  exact fun dim hdim =>
    Nat.le_of_lt_succ (lt_wordLimit_of_product? hproduct Nat.one_pos hzero dim hdim)

namespace Printable

/-- With the layout of the source language, the checks are all that is left to ask. -/
theorem wellFormed (h : f.Printable) (hc : f.check = .ok ()) : f.WellFormed := by
  refine wellFormed_of_check hc fun id decl hdecl => ?_
  rcases Nat.lt_or_ge id f.params.length with hlt | hge
  · obtain ⟨hshape, hrole⟩ := h.param_decl id decl hdecl hlt
    refine .inl ⟨id, hrole, hshape, ?_⟩
    rw [h.params_eq, List.getElem?_range hlt]
  · obtain ⟨hshape, hrole⟩ := h.local_decl id decl hdecl hge
    exact .inr ⟨hrole, hshape⟩

theorem reads_nameAt (h : f.Printable) {id : ArrayId} (hid : id < f.arrays.length) :
    Reads (f.nameAt id) [ident (f.nameAt id)] := by
  obtain ⟨decl, hdecl⟩ := exists_decl hid
  have hmem : decl ∈ f.arrays := List.mem_of_getElem? hdecl
  simpa [nameAt, nameOf?, hdecl] using (h.names decl hmem).reads

theorem exists_nameList (h : f.Printable) {ids : List ArrayId}
    (hids : ∀ id ∈ ids, id < f.arrays.length) :
    ∃ text, f.nameList? ids = some text ∧ Reads text (f.nameFindings ids) := by
  obtain ⟨texts, htexts, hreads⟩ := exists_mapM_forall₂ Reads (fun id => [ident (f.nameAt id)])
    fun id hid => ⟨_, nameOf?_eq (hids id hid), h.reads_nameAt (hids id hid)⟩
  exact ⟨_, by rw [nameList?, htexts, Option.map_some], reads_commaList hreads⟩

theorem exists_operandText (h : f.Printable) {operand : Operand}
    (hoperand : ∀ id ∈ operand.array?, id < f.arrays.length) :
    ∃ text, f.operandText? operand = some text ∧ Reads text (f.operandFindings operand) := by
  cases operand with
  | array id => exact ⟨_, nameOf?_eq (hoperand id rfl), h.reads_nameAt (hoperand id rfl)⟩
  | scalar constant => exact ⟨_, rfl, reads_scalar constant⟩

/-- The text of a reduction or a scan, which differ in their keyword. -/
theorem reads_fold (h : f.Printable) (op : FoldOp) {out input : ArrayId} {assign : String}
    {found : List Finding} (hassign : ReadsApart assign found) (hsep : Separates assign)
    (hout : out < f.arrays.length) (hinput : input < f.arrays.length) :
    Reads (f.nameAt out ++ assign ++ op.name ++ "(" ++ f.nameAt input ++ ")")
      ([ident (f.nameAt out)] ++ found ++ [ident op.name] ++ [mark .leftParen] ++
        [ident (f.nameAt input)] ++ [mark .rightParen]) := by
  have hleft := (h.reads_nameAt hout).append_apart hassign hsep
  exact ((hleft.append (identifier_foldOp op).reads).parenthesized (h.reads_nameAt hinput)).reads

/-- Operations use declared arrays, so they have a text. -/
theorem exists_opText (h : f.Printable) (wf : f.WellFormed) {op : Op} (hop : op ∈ f.body) :
    ∃ text, f.opText? op = some text ∧ Reads text (f.opFindings op) := by
  have read : ∀ {id}, id ∈ op.reads → id < f.arrays.length :=
    fun hid => wf.mem_lt hop (List.mem_append_left _ hid)
  have written : ∀ {id}, id ∈ op.writes → id < f.arrays.length :=
    fun hid => wf.mem_lt hop (List.mem_append_right _ hid)
  cases op with
  | map out op args =>
    have hout : out < f.arrays.length := written (by simp [Op.writes])
    have hargs : ∀ arg ∈ args, ∀ id ∈ arg.array?, id < f.arrays.length := by
      intro arg harg id hid
      exact read (mem_distinct.mpr (List.mem_filterMap.mpr ⟨arg, harg, hid⟩))
    obtain ⟨texts, htexts, hreads⟩ := exists_mapM_forall₂ Reads f.operandFindings
      fun arg harg => h.exists_operandText (hargs arg harg)
    have hleft := (h.reads_nameAt hout).append_apart readsApart_equals ⟨' ', rfl, rfl, by decide⟩
    simp only [opText?, nameOf?_eq hout, htexts, Option.bind_eq_bind, Option.bind_some]
    exact ⟨_, rfl, ((hleft.append (identifier_mapOp op).reads).parenthesized
      (reads_commaList hreads)).reads⟩
  | reduce out op input =>
    have hout : out < f.arrays.length := written (by simp [Op.writes])
    have hinput : input < f.arrays.length := read (by simp [Op.reads])
    simp only [opText?, nameOf?_eq hout, nameOf?_eq hinput, Option.bind_eq_bind, Option.bind_some]
    exact ⟨_, rfl, h.reads_fold op readsApart_reduce ⟨' ', rfl, rfl, by decide⟩ hout hinput⟩
  | scan out op input =>
    have hout : out < f.arrays.length := written (by simp [Op.writes])
    have hinput : input < f.arrays.length := read (by simp [Op.reads])
    simp only [opText?, nameOf?_eq hout, nameOf?_eq hinput, Option.bind_eq_bind, Option.bind_some]
    exact ⟨_, rfl, h.reads_fold op readsApart_scan ⟨' ', rfl, rfl, by decide⟩ hout hinput⟩
  | store array index constant =>
    have harray : array < f.arrays.length := written (by simp [Op.writes])
    have hindex : index ≤ integerLimit := Nat.le_of_lt_succ (h.indices _ _ _ hop)
    have hleft := (h.reads_nameAt harray).append_apart readsApart_leftBracket
      ⟨'[', rfl, rfl, by decide⟩
    have hright := readsApart_rightBracket.append_apart readsApart_equals
    simp only [opText?, nameOf?_eq harray, Option.bind_eq_bind, Option.bind_some]
    exact ⟨_, rfl, ((hleft.append (reads_integer hindex)).append_apart hright
      ⟨']', rfl, rfl, by decide⟩).append (reads_scalar constant)⟩
  | print arrays =>
    obtain ⟨texts, htexts, hreads⟩ :=
      h.exists_nameList fun id (hid : id ∈ arrays) => read (mem_distinct.mpr hid)
    have hprint : Reads "print" [mark .print] := reads_word (isWord_of_all rfl rfl)
    simp only [opText?, htexts, Option.bind_eq_bind, Option.bind_some]
    exact ⟨_, rfl, (hprint.parenthesized hreads).reads⟩
  | call callee reads writes =>
    obtain ⟨readTexts, hreadTexts, hreads⟩ :=
      h.exists_nameList fun id (hid : id ∈ reads) => read (mem_distinct.mpr hid)
    obtain ⟨writeTexts, hwriteTexts, hwrites⟩ :=
      h.exists_nameList fun id (hid : id ∈ writes) => written (mem_distinct.mpr hid)
    have hhead := (readsApart_call.append (h.callees callee reads writes hop).reads).parenthesized hreads
    simp only [opText?, opFindings, hreadTexts, hwriteTexts, Option.bind_eq_bind, Option.bind_some]
    split
    · exact ⟨_, rfl, by simpa using hhead.reads⟩
    · refine ⟨_, rfl, ?_⟩
      have := ((hhead.append_apart readsApart_results).append hwrites).append_apart readsApart_rightParen
        ⟨')', rfl, rfl, by decide⟩
      simpa using this.reads

theorem reads_paramText (h : f.Printable) {decl : ArrayDecl} (hdecl : decl ∈ f.arrays) :
    Reads (paramText decl) (paramFindings decl) := by
  have hdims : List.Forall₂ Reads (List.replicate decl.rank "_")
      (List.replicate decl.rank [ident "_"]) := by
    induction decl.rank with
    | zero => exact .nil
    | succ rank ih => exact .cons (identifier_of_check rfl).reads ih
  have hname := (h.names decl hdecl).reads.append_apart readsApart_colon ⟨':', rfl, rfl, by decide⟩
  exact ((hname.append (identifier_elem decl.elem).reads).append_apart
    (readsApart_bracketed hdims) (separates_bracketed _)).reads

/-- Sources of shapes are declared and extents are machine words, so local arrays have a line. -/
theorem exists_localLine (h : f.Printable) (hc : f.check = .ok ()) {decl : ArrayDecl}
    (hdecl : decl ∈ f.localDecls) :
    ∃ line, f.localLine? decl = some line ∧ ReadsApart line (f.localFindings decl) := by
  have wf := h.wellFormed hc
  obtain ⟨hmem, hrole⟩ := List.mem_filter.mp hdecl
  obtain ⟨id, hid⟩ := List.mem_iff_getElem?.mp hmem
  have hname := (readsApart_let.append (h.names decl hmem).reads).append_apart readsApart_colon
    ⟨':', rfl, rfl, by decide⟩
  have hhead := hname.append (identifier_elem decl.elem).reads
  unfold localLine? localFindings
  cases hshape : decl.shape with
  | param => exact absurd hshape (wf.scratch_role hid (of_decide_eq_true hrole))
  | like source =>
    obtain ⟨hlt, _⟩ := wf.like_source hid hshape
    have hsource : source < f.arrays.length := lt_trans hlt (lt_of_decl? hid)
    simp only [nameOf?_eq hsource, Option.map_some]
    refine ⟨_, rfl, ?_⟩
    have := ((hhead.append_apart readsApart_like ⟨' ', rfl, rfl, by decide⟩).append
      (h.reads_nameAt hsource)).append_apart readsApart_newline ⟨'\n', rfl, rfl, by decide⟩
    simpa using this
  | fixed dims =>
    have hdims : List.Forall₂ Reads (dims.map toString) (dims.map fun dim => [.ok (.integer dim)]) := by
      rw [List.forall₂_map_left_iff, List.forall₂_map_right_iff, List.forall₂_same]
      exact fun dim hdim =>
        reads_integer (checkDecl_words (checkDecls_ok (check_ok hc).1 hid) hshape dim hdim)
    refine ⟨_, rfl, ?_⟩
    have := (hhead.append_apart (readsApart_bracketed hdims) (separates_bracketed _)).append_apart
      readsApart_newline
    simpa [Text.dims] using this

/-- The line of an operation. -/
theorem exists_opLine (h : f.Printable) (wf : f.WellFormed) {op : Op} (hop : op ∈ f.body) :
    ∃ line, f.opLine? op = some line ∧ ReadsApart line (f.opFindings op) := by
  obtain ⟨text, htext, hreads⟩ := h.exists_opText wf hop
  refine ⟨_, by rw [opLine?, htext, Option.map_some], ?_⟩
  have := (readsApart_indent.append hreads).append_apart readsApart_newline
    ⟨'\n', rfl, rfl, by decide⟩
  simpa using this

/-- The parameters are declared, so their declarations are all found. -/
theorem mapM_params (wf : f.WellFormed) : f.params.mapM f.decl? = some f.paramDecls := by
  have declared : ∀ id ∈ f.params, ∃ decl, f.decl? id = some decl := by
    intro id hid
    obtain ⟨position, hposition⟩ := List.mem_iff_getElem?.mp hid
    obtain ⟨decl, hdecl, _⟩ := wf.param_decl hposition
    exact ⟨decl, hdecl⟩
  unfold paramDecls
  generalize f.params = ids at declared
  induction ids with
  | nil => rfl
  | cons id ids ih =>
    obtain ⟨decl, hdecl⟩ := declared id (by simp)
    simp [List.mapM_cons, hdecl, ih fun id hid => declared id (by simp [hid])]

/-- A function that the source language can express has a text, which is read as its findings. -/
theorem exists_text (h : f.Printable) (hc : f.check = .ok ()) :
    ∃ text, f.text? = some text ∧ ReadsApart text f.findings := by
  have wf := h.wellFormed hc
  obtain ⟨locals, hlocals, hreadLocals⟩ := exists_mapM_forall₂ ReadsApart f.localFindings
    fun decl hdecl => h.exists_localLine hc hdecl
  obtain ⟨ops, hops, hreadOps⟩ := exists_mapM_forall₂ ReadsApart f.opFindings
    fun op hop => h.exists_opLine wf hop
  have hreturned : Reads (f.returns.elim "" fun id => " -> " ++ f.nameAt id)
      (f.returns.elim [] fun id => [mark .arrow] ++ [ident (f.nameAt id)]) := by
    cases hreturns : f.returns with
    | none => exact readsApart_empty.reads
    | some id => exact readsApart_to.append (h.reads_nameAt (wf.returned hreturns))
  have hserial : ReadsApart (if f.serialOnly then "#[serial]\n" else "")
      (if f.serialOnly then
        [mark .hash] ++ [mark .leftBracket] ++ [ident "serial"] ++ [mark .rightBracket]
      else []) := by
    split
    · exact readsApart_serial
    · exact readsApart_empty
  have hparams : List.Forall₂ Reads (f.paramDecls.map paramText) (f.paramDecls.map paramFindings) := by
    rw [List.forall₂_map_left_iff, List.forall₂_map_right_iff, List.forall₂_same]
    intro decl hdecl
    obtain ⟨id, _, hid⟩ := List.mem_filterMap.mp hdecl
    exact h.reads_paramText (List.mem_of_getElem? hid)
  have hhead := ((hserial.append_apart readsApart_fn).append h.name.reads).parenthesized
    (reads_commaList hparams)
  have hopened := (hhead.append hreturned).append_apart readsApart_open ⟨' ', rfl, rfl, by decide⟩
  have hlines := (hopened.append_apart (readsApart_join hreadLocals)).append_apart
    (readsApart_join hreadOps)
  refine ⟨_, ?_, hlines.append_apart readsApart_rightBrace⟩
  rw [localDecls] at hlocals
  unfold text?
  rw [mapM_params wf]
  cases hreturns : f.returns with
  | none => simp [hlocals, hops]
  | some id => simp [hlocals, hops, nameOf?_eq (wf.returned hreturns)]

end Printable

/-! ## Findings that are not constants -/

/-- A finding is a lexeme other than a number, or it comes from the text of a constant. -/
def Accounts (f : Func) (finding : Finding) : Prop :=
  (∃ lexeme, finding = .ok lexeme ∧ ∀ s, lexeme ≠ .number s) ∨
    ∃ op ∈ f.body, ∃ constant ∈ op.constants, finding ∈ scalarFindings constant

theorem accounts_mark (symbol : Symbol) : f.Accounts (mark symbol) :=
  .inl ⟨_, rfl, fun _ => nofun⟩

theorem accounts_ident (text : String) : f.Accounts (ident text) := .inl ⟨_, rfl, fun _ => nofun⟩

theorem accounts_integer (n : Nat) : f.Accounts (.ok (.integer n)) := .inl ⟨_, rfl, fun _ => nofun⟩

theorem accounts_op {op : Op} (hop : op ∈ f.body) :
    ∀ finding ∈ f.opFindings op, f.Accounts finding := by
  have hnames : ∀ ids : List ArrayId, ∀ finding ∈ f.nameFindings ids, f.Accounts finding := by
    intro ids
    refine forall_mem_commas (accounts_mark _) (List.forall_mem_map.mpr fun id _ => ?_)
    simpa using accounts_ident _
  have hconstant : ∀ constant ∈ op.constants, ∀ finding ∈ scalarFindings constant,
      f.Accounts finding :=
    fun constant hconstant finding hfinding => .inr ⟨op, hop, constant, hconstant, hfinding⟩
  cases op with
  | map out op args =>
    have hargs : ∀ finding ∈ commas (args.map f.operandFindings), f.Accounts finding := by
      refine forall_mem_commas (accounts_mark _) (List.forall_mem_map.mpr fun arg harg => ?_)
      cases arg with
      | array id => simpa [operandFindings] using accounts_ident _
      | scalar constant =>
        exact hconstant constant (List.mem_flatMap.mpr ⟨_, harg, by simp [Operand.constants]⟩)
    simp only [opFindings, List.forall_mem_append, List.forall_mem_singleton, accounts_mark,
      accounts_ident, true_and, and_true]
    exact hargs
  | reduce out op input =>
    simp only [opFindings, List.forall_mem_append, List.forall_mem_singleton, accounts_mark,
      accounts_ident, and_self]
  | scan out op input =>
    simp only [opFindings, List.forall_mem_append, List.forall_mem_singleton, accounts_mark,
      accounts_ident, and_self]
  | store array index constant =>
    simp only [opFindings, List.forall_mem_append, List.forall_mem_singleton, accounts_mark,
      accounts_ident, accounts_integer, true_and, and_true]
    exact hconstant constant (by simp [Op.constants])
  | print arrays =>
    simp only [opFindings, List.forall_mem_append, List.forall_mem_singleton, accounts_mark,
      true_and, and_true]
    exact hnames arrays
  | call callee reads writes =>
    simp only [opFindings, List.forall_mem_append, List.forall_mem_singleton, accounts_mark,
      accounts_ident, true_and, and_true]
    refine ⟨hnames reads, ?_⟩
    split
    · simp
    · simp only [List.forall_mem_append, List.forall_mem_singleton, accounts_mark, true_and, and_true]
      exact hnames writes

theorem accounts_param (decl : ArrayDecl) : ∀ finding ∈ paramFindings decl, f.Accounts finding := by
  simp only [paramFindings, List.forall_mem_append, List.forall_mem_singleton, accounts_mark,
    accounts_ident, true_and, and_true]
  refine forall_mem_commas (accounts_mark _) fun item hitem => ?_
  rw [List.eq_of_mem_replicate hitem]
  simpa using accounts_ident _

theorem accounts_local (decl : ArrayDecl) : ∀ finding ∈ f.localFindings decl, f.Accounts finding := by
  unfold localFindings
  simp only [List.forall_mem_append, List.forall_mem_singleton, accounts_mark, accounts_ident,
    true_and]
  split
  · simpa using ⟨accounts_mark _, accounts_ident _⟩
  · simp only [List.forall_mem_append, List.forall_mem_singleton, accounts_mark, true_and, and_true]
    refine forall_mem_commas (accounts_mark _) (List.forall_mem_map.mpr fun dim _ => ?_)
    simpa using accounts_integer dim
  · simp

theorem accounts_findings : ∀ finding ∈ f.findings, f.Accounts finding := by
  have hserial : ∀ finding ∈ (if f.serialOnly then
      [mark .hash] ++ [mark .leftBracket] ++ [ident "serial"] ++ [mark .rightBracket] else []),
      f.Accounts finding := by
    split
    · simp [accounts_mark, accounts_ident]
    · simp
  have hreturned : ∀ finding ∈ (f.returns.elim [] fun id => [mark .arrow] ++ [ident (f.nameAt id)]),
      f.Accounts finding := by
    cases f.returns <;> simp [accounts_mark, accounts_ident]
  simp only [findings, List.forall_mem_append, List.forall_mem_singleton, accounts_mark,
    accounts_ident, and_true]
  refine ⟨⟨⟨⟨hserial, ?_⟩, hreturned⟩, ?_⟩, ?_⟩
  · exact forall_mem_commas (accounts_mark _) (List.forall_mem_map.mpr fun decl _ =>
      accounts_param decl)
  · exact List.forall_mem_flatten.mpr (List.forall_mem_map.mpr fun decl _ => accounts_local decl)
  · exact List.forall_mem_flatten.mpr (List.forall_mem_map.mpr fun op hop => accounts_op hop)

/-- Finite constants leave nothing wrong in the text. -/
theorem Finite.problems (h : f.Finite) : f.findings.filterMap Finding.problem? = [] := by
  refine List.filterMap_eq_nil_iff.mpr fun finding hfinding => ?_
  rcases accounts_findings finding hfinding with ⟨lexeme, rfl, _⟩ | ⟨op, hop, constant, hmem, hfrom⟩
  · rfl
  · rw [scalarFindings, if_pos (h op hop constant hmem)] at hfrom
    rw [List.mem_singleton.mp hfrom]
    rfl

end Func

end ArrayOffload
