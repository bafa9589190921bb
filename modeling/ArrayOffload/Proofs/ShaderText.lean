import ArrayOffload.Proofs.Lexing
import ArrayOffload.Proofs.Planning

/-!
# Variables of a shader

A shader declares one variable for each slot of its kernel and then lists the statements of the
operations, line by line. A line that assigns an element of a variable begins with its name. So
the text itself says which variables are assigned, and these are the targets of the operations.

* `KernelOp.out`: the slot that an operation assigns;
* `Shader.Declares`, `Shader.Assigns`: what a line of the text does;
* `Shader.opText_assigns`: the statements of one operation;
* `Shader.lower_writable`: a variable is writable exactly if a statement assigns it, for kernels
  whose accesses say what the operations assign.
-/

namespace ArrayOffload

/-- The slot that the operation assigns. -/
def KernelOp.out : KernelOp → Nat
  | .map out _ _ | .reduce out _ _ => out

namespace Shader

/-- A text within one line. -/
def Inline (text : String) : Prop := '\n' ∉ text.toList

instance (text : String) : Decidable (Inline text) := inferInstanceAs (Decidable (¬ _))

theorem Inline.append {a b : String} (ha : Inline a) (hb : Inline b) : Inline (a ++ b) := by
  simp only [Inline, String.toList_append, List.mem_append, not_or] at *
  exact ⟨ha, hb⟩

theorem toList_toString (n : Nat) : (toString n).toList = Nat.toDigits 10 n := by
  rw [Nat.toString_eq_ofList_toDigits, String.toList_ofList]

theorem isDigit_of_mem {n : Nat} {c : Char} (h : c ∈ (toString n).toList) :
    c.isDigit = true := by
  rw [toList_toString] at h
  exact Nat.isDigit_of_mem_toDigits (by decide) le_rfl h

theorem inline_of_digits {text : String} (h : ∀ c ∈ text.toList, c.isDigit = true) :
    Inline text := fun hline => absurd (h _ hline) (by decide)

theorem inline_toString (n : Nat) : Inline (toString n) :=
  inline_of_digits fun _ => isDigit_of_mem

/-- The text of a finite constant is a sign and digits around a point. -/
theorem inline_scalar {constant : Scalar} (h : constant.isFinite = true) :
    Inline constant.text := by
  obtain ⟨text, whole, fraction, hpointed, htext, _⟩ := Scalar.read?_text h
  have hsign : '\n' ∉ Number.signOf constant.isNegative := by
    cases constant.isNegative <;> decide
  have hdigits : '\n' ∉ whole ++ fraction := fun hline =>
    absurd (hpointed.digits _ hline) (by decide)
  rw [Inline, htext, hpointed.text_eq]
  simp only [List.mem_append, List.mem_cons, not_or] at hdigits ⊢
  exact ⟨hsign, hdigits.1, by decide, hdigits.2⟩

/-! ## Lines -/

/-- Lines as one text. -/
def unlines (lines : List String) : String := String.join (lines.map (· ++ "\n"))

theorem unlines_append (lines more : List String) :
    unlines (lines ++ more) = unlines lines ++ unlines more := by
  rw [unlines, List.map_append, String.join_append]
  rfl

/-- The line declares the variable of a slot. -/
def Declares (slot : Nat) (access line : String) : Prop :=
  ∃ type, line = "@group(0) @binding(" ++ toString slot ++ ") var<storage, " ++ access ++ "> b" ++
    toString slot ++ ": array<" ++ type ++ ">;\n"

/-- The line assigns an element of the variable of a slot. -/
def Assigns (slot : Nat) (line : String) : Prop :=
  ∃ rest, line.toList.dropWhile (· = ' ') = 'b' :: ((toString slot).toList ++ '[' :: rest)

/-- The name of a variable ends at the bracket. -/
theorem assigns_iff {line : String} {out slot : Nat} {rest : List Char}
    (h : line.toList.dropWhile (· = ' ') = 'b' :: ((toString out).toList ++ '[' :: rest)) :
    Assigns slot line ↔ out = slot := by
  constructor
  · rintro ⟨more, hmore⟩
    have heq := List.cons.inj (h.symm.trans hmore)
    have hout := (Number.takeWhile_run ('[' :: rest) (fun c hc => isDigit_of_mem (n := out) hc)
      (by rintro c ⟨⟩; decide)).1
    have hslot := (Number.takeWhile_run ('[' :: more) (fun c hc => isDigit_of_mem (n := slot) hc)
      (by rintro c ⟨⟩; decide)).1
    have hdigits : Nat.toDigits 10 out = Nat.toDigits 10 slot := by
      rw [← toList_toString, ← toList_toString, ← hout, ← hslot, heq.2]
    have hvalue := congrArg Number.digitsValue hdigits
    rwa [Number.digitsValue_toDigits, Number.digitsValue_toDigits] at hvalue
  · rintro rfl
    exact ⟨rest, h⟩

theorem not_assigns {line : String} {slot : Nat}
    (h : (line.toList.dropWhile (· = ' ')).head? ≠ some 'b') : ¬ Assigns slot line := by
  rintro ⟨rest, hrest⟩
  exact h (by rw [hrest]; rfl)

/-- Lines that assign one slot and no other. -/
def AssignsOnly (lines : List String) (out : Nat) : Prop :=
  ∀ slot, (∃ line ∈ lines, Assigns slot line) ↔ out = slot

/-! ## One operation -/

theorem inline_call2 {name a b : String} (hname : Inline name) (ha : Inline a) (hb : Inline b) :
    Inline (call2 name a b) :=
  ((((hname.append (by decide)).append ha).append (by decide)).append hb).append (by decide)

theorem inline_between {sign a b : String} (hsign : Inline sign) (ha : Inline a)
    (hb : Inline b) : Inline (between sign a b) :=
  (((((Inline.append (by decide) ha).append (by decide)).append hsign).append
    (by decide)).append hb).append (by decide)

theorem inline_closed {before a : String} (hbefore : Inline before) (ha : Inline a) :
    Inline (before ++ a ++ ")") := (hbefore.append ha).append (by decide)

theorem inline_mapExpr {op : MapOp} {operands : List String} {expr : String}
    (hops : ∀ operand ∈ operands, Inline operand) (h : mapExpr? op operands = some expr) :
    Inline expr := by
  rcases operands with _ | ⟨a, rest⟩
  · cases op <;> cases h
  have ha := hops a (by simp)
  cases op with
  | copy =>
    cases h
    exact ha
  | neg | abs | sqrt | exp =>
    cases h
    exact inline_closed (by decide) ha
  | add | sub | mul | div =>
    rcases rest with _ | ⟨b, rest⟩ <;> cases h
    exact inline_between (by decide) ha (hops b (by simp))
  | min | max =>
    rcases rest with _ | ⟨b, rest⟩ <;> cases h
    exact inline_call2 (by decide) ha (hops b (by simp))

theorem inline_operand {index : Nat} {op : MapOp} {operand : KernelOperand} {expr : String}
    (h : operandExpr index op operand = .ok expr) : Inline expr := by
  cases operand with
  | slot slot =>
    cases h
    exact (Inline.append (by decide) (inline_toString slot)).append (by decide)
  | scalar constant =>
    unfold operandExpr at h
    split at h
    · next heq => cases heq
    · next found heq =>
      cases heq
      split at h
      · next hfinite =>
        cases h
        exact (Inline.append (by decide) (inline_scalar hfinite)).append (by decide)
      · cases h

theorem inline_combine {op : FoldOp} {acc x : String} (hacc : Inline acc) (hx : Inline x) :
    Inline (combineExpr op acc x) := by
  cases op with
  | sum | product => exact (hacc.append (by decide)).append hx
  | min | max => exact inline_call2 (by decide) hacc hx

theorem inline_identity (op : FoldOp) : Inline (identityLiteral op) := by
  cases op <;> decide

theorem exists_of_mapM {ε α β : Type} {f : α → Except ε β} {xs : List α} {ys : List β}
    (h : xs.mapM f = .ok ys) {y : β} (hy : y ∈ ys) : ∃ x ∈ xs, f x = .ok y := by
  induction xs generalizing ys with
  | nil =>
    cases h
    cases hy
  | cons x xs ih =>
    rw [List.mapM_cons, bind_eq_ok] at h
    obtain ⟨first, hfirst, h⟩ := h
    obtain ⟨rest, hrest, h⟩ := bind_eq_ok.mp h
    cases h
    rcases List.mem_cons.mp hy with rfl | hy
    · exact ⟨x, by simp, hfirst⟩
    · obtain ⟨found, hmem, hfound⟩ := ih hrest hy
      exact ⟨found, List.mem_cons_of_mem x hmem, hfound⟩

/-- The statements of an operation assign its target and nothing else. -/
theorem opText_assigns {index : Nat} {types : List String} (htypes : ∀ type ∈ types, Inline type)
    {op : KernelOp} {text : String} (h : opText index types op = .ok text) :
    ∃ lines, text = unlines lines ∧ (∀ line ∈ lines, Inline line) ∧ AssignsOnly lines op.out := by
  cases op with
  | map out op args =>
    obtain ⟨operands, hoperands, h⟩ := bind_eq_ok.mp h
    obtain ⟨type, htype, h⟩ := bind_eq_ok.mp h
    obtain ⟨expr, hexpr, h⟩ := bind_eq_ok.mp h
    cases h
    have hinline : ∀ operand ∈ operands, Inline operand := fun operand hmem => by
      obtain ⟨arg, _, harg⟩ := exists_of_mapM hoperands hmem
      exact inline_operand harg
    have hvalue : Inline (type ++ "(" ++ expr ++ ");") :=
      (((htypes type (List.mem_of_getElem? (orFault_eq_ok.mp htype))).append (by decide)).append
        (inline_mapExpr hinline (orFault_eq_ok.mp hexpr))).append (by decide)
    refine ⟨["    b" ++ toString out ++ "[i] = " ++ (type ++ "(" ++ expr ++ ");")], ?_, ?_, ?_⟩
    · apply String.toList_injective
      simp [unlines, String.join]
    · intro line hline
      rw [List.mem_singleton.mp hline]
      exact ((Inline.append (by decide) (inline_toString out)).append (by decide)).append hvalue
    · intro slot
      simp only [List.mem_singleton, exists_eq_left]
      exact assigns_iff (by simp [List.append_assoc]; rfl)
  | reduce out op input =>
    obtain ⟨type, htype, h⟩ := bind_eq_ok.mp h
    cases h
    have hnext : Inline (combineExpr op "acc" ("f32(b" ++ toString input ++ "[j])")) :=
      inline_combine (by decide)
        ((Inline.append (by decide) (inline_toString input)).append (by decide))
    have htype : Inline type := htypes type (List.mem_of_getElem? (orFault_eq_ok.mp htype))
    refine ⟨["    if (i == 0u) \x7b", "        var acc = " ++ identityLiteral op ++ ";",
      "        for (var j = 0u; j < n; j = j + 1u) \x7b",
      "            acc = " ++ combineExpr op "acc" ("f32(b" ++ toString input ++ "[j])") ++ ";",
      "        \x7d", "        b" ++ toString out ++ "[0] = " ++ (type ++ "(acc);"), "    \x7d"],
      ?_, ?_, ?_⟩
    · apply String.toList_injective
      simp [unlines, String.join]
    · simp only [List.forall_mem_cons, List.not_mem_nil, false_imp_iff, implies_true, and_true]
      exact ⟨by decide, (Inline.append (by decide) (inline_identity op)).append (by decide),
        by decide, (Inline.append (by decide) hnext).append (by decide), by decide,
        ((Inline.append (by decide) (inline_toString out)).append (by decide)).append
          (htype.append (by decide)), by decide⟩
    · intro slot
      -- only the last but one begins with the name of a variable
      simp only [List.exists_mem_cons_iff, List.not_mem_nil, false_and, exists_false, or_false]
      rw [or_iff_right (not_assigns (by decide)), or_iff_right (not_assigns (by simp)),
        or_iff_right (not_assigns (by decide)), or_iff_right (not_assigns (by simp)),
        or_iff_right (not_assigns (by decide)), or_iff_left (not_assigns (by decide))]
      exact assigns_iff (by simp [List.append_assoc]; rfl)

/-! ## The shader of a kernel -/

theorem body_assigns {index : Nat} {types : List String} (htypes : ∀ type ∈ types, Inline type)
    {body : List KernelOp} {texts : List String} (h : body.mapM (opText index types) = .ok texts) :
    ∃ lines, String.join texts = unlines lines ∧ (∀ line ∈ lines, Inline line) ∧
      ∀ slot, (∃ line ∈ lines, Assigns slot line) ↔ ∃ op ∈ body, op.out = slot := by
  induction body generalizing texts with
  | nil =>
    cases h
    exact ⟨[], rfl, by simp, by simp⟩
  | cons op body ih =>
    rw [List.mapM_cons, bind_eq_ok] at h
    obtain ⟨text, htext, h⟩ := h
    obtain ⟨rest, hrest, h⟩ := bind_eq_ok.mp h
    cases h
    obtain ⟨lines, rfl, hinline, honly⟩ := opText_assigns htypes htext
    obtain ⟨more, hmore, hinline', hall⟩ := ih hrest
    refine ⟨lines ++ more, ?_, ?_, fun slot => ?_⟩
    · rw [String.join_cons, hmore, unlines_append]
    · intro line hline
      exact (List.mem_append.mp hline).elim (hinline line) (hinline' line)
    · simp only [List.mem_append, or_and_right, exists_or, List.exists_mem_cons_iff]
      rw [honly slot, hall slot]

theorem declares_bindingLine (param : KernelParam) (type : String) :
    Declares param.slot (if param.access.writes then "read_write" else "read")
      (bindingLine param type) := ⟨type, rfl⟩

/-- No line declares a variable as writable and as read only. -/
theorem not_declares_both {slot : Nat} {line : String} (h : Declares slot "read" line) :
    ¬ Declares slot "read_write" line := by
  obtain ⟨type, rfl⟩ := h
  rintro ⟨other, heq⟩
  have hchars := congrArg String.toList heq
  simp only [String.toList_append, List.append_assoc] at hchars
  have hrest := List.append_cancel_left (List.append_cancel_left (List.append_cancel_left hchars))
  simp at hrest

theorem declares_writable_iff (param : KernelParam) (type : String) :
    Declares param.slot "read_write" (bindingLine param type) ↔ param.access.writes = true := by
  have hline := declares_bindingLine param type
  cases haccess : param.access.writes with
  | true => simpa [haccess] using hline
  | false =>
    rw [haccess] at hline
    simpa using not_declares_both hline

/-- The parts of a source: a declaration for each slot, and the statements of the operations. A
variable is writable exactly if a statement assigns it. -/
structure Writable (kernel : Kernel) (source : String) (declarations statements : List String) :
    Prop where
  text : source = "// kernel " ++ kernel.name ++ "\n" ++ String.join declarations ++
    headText kernel ++ guardText kernel ++ unlines statements ++ "\x7d\n"
  lines : ∀ line ∈ statements, Inline line
  length : declarations.length = kernel.params.length
  writable : ∀ slot line, declarations[slot]? = some line →
    (Declares slot "read_write" line ↔ ∃ statement ∈ statements, Assigns slot statement) ∧
      (Declares slot "read" line ↔ ¬ ∃ statement ∈ statements, Assigns slot statement)

theorem inline_type {index : Nat} {param : KernelParam} {type : String}
    (h : paramType index param = .ok type) : Inline type := by
  unfold paramType storageType? at h
  cases helem : param.elem <;> simp only [helem] at h <;> cases h <;> decide

/-- The shader of a kernel whose accesses say what its operations assign. -/
theorem lower_writable {kernel : Kernel} {source : String}
    (numbered : ∀ (slot : Nat) (param : KernelParam), kernel.params[slot]? = some param →
      param.slot = slot)
    (writes : ∀ (slot : Nat) (param : KernelParam), kernel.params[slot]? = some param →
      (param.access.writes = true ↔ ∃ op ∈ kernel.body, op.out = slot))
    (h : lower kernel = .ok source) :
    ∃ declarations statements, Writable kernel source declarations statements := by
  unfold lower at h
  dsimp only at h
  split at h
  · cases h
  obtain ⟨types, htypes, h⟩ := bind_eq_ok.mp h
  obtain ⟨texts, htexts, h⟩ := bind_eq_ok.mp h
  cases h
  have hinline : ∀ type ∈ types, Inline type := fun type hmem => by
    obtain ⟨param, _, hparam⟩ := exists_of_mapM htypes hmem
    exact inline_type hparam
  obtain ⟨statements, hjoin, hlines, hassigns⟩ := body_assigns hinline htexts
  refine ⟨kernel.params.zipWith bindingLine types, statements, by rw [hjoin], hlines, ?_, ?_⟩
  · rw [List.length_zipWith, length_of_mapM htypes, Nat.min_self]
  · intro slot line hline
    obtain ⟨param, type, hparam, _, rfl⟩ := List.getElem?_zipWith_eq_some.mp hline
    have hwritable := declares_writable_iff param type
    rw [numbered slot param hparam, writes slot param hparam, ← hassigns slot] at hwritable
    refine ⟨hwritable, fun hread => hwritable.not.mp (not_declares_both hread), fun hnone => ?_⟩
    have hline := declares_bindingLine param type
    rw [hassigns slot, ← writes slot param hparam] at hnone
    rwa [if_neg hnone, numbered slot param hparam] at hline

end Shader

end ArrayOffload
