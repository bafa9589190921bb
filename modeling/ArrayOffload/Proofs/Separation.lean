import ArrayOffload.UnitKey
import Mathlib.Algebra.Group.Nat.Defs

/-!
# Encodings determine what they encode

Numbers have a fixed width, lists and texts carry their length, and every construct starts with a
tag. The one list without a length is that of the operands of a map: it ends where the next tag is
none of an operand. So an encoding can be cut into the encodings of its parts in one way only, as
long as the numbers in it fit into their bytes.

* `Encoding.Separates`: an encoding that can be cut off from what follows it;
* `Encoding.Separates.flatMap`: lists of known length, part by part;
* `Encoding.separates_operands`: operands, cut off by the tag behind them;
* `encoding_eq_iff`: functions with equal encodings differ in names only, and what a compiled unit
  depends on is all in its encoding.
-/

namespace ArrayOffload

/-! ## What fits into its bytes -/

namespace Encoding

/-- One past the largest number of four bytes. -/
def shortLimit : Nat := 0x100000000

end Encoding

open Encoding (shortLimit)

/-- A parameter is encoded by its position plus one. -/
def Role.Fits : Role → Prop
  | .param position => position + 1 < shortLimit
  | .scratch => True

def ShapeSource.Fits : ShapeSource → Prop
  | .param => True
  | .like source => source < shortLimit
  | .fixed dims => dims.length < shortLimit ∧ ∀ extent ∈ dims, extent < Shape.wordLimit

structure ArrayDecl.Fits (decl : ArrayDecl) : Prop where
  rank : decl.rank < shortLimit
  role : decl.role.Fits
  shape : decl.shape.Fits

def Operand.Fits : Operand → Prop
  | .array id => id < shortLimit
  | .scalar _ => True

/-- Arrays in a list with its length before it. -/
def FitIds (ids : List ArrayId) : Prop := ids.length < shortLimit ∧ ∀ id ∈ ids, id < shortLimit

def Op.Fits : Op → Prop
  | .map out _ args => out < shortLimit ∧ ∀ arg ∈ args, arg.Fits
  | .reduce out _ input | .scan out _ input => out < shortLimit ∧ input < shortLimit
  | .store array index _ => array < shortLimit ∧ index < Shape.wordLimit
  | .print arrays => FitIds arrays
  | .call callee reads writes =>
    (Encoding.utf8 callee).length < shortLimit ∧ FitIds reads ∧ FitIds writes

/-- Every number of a function fits into its bytes. Array numbers are words of 32 bits, extents and
positions of stores words of 64 bits; what is left are counts, ranks, parameter positions and the
lengths of texts. -/
structure Func.Fits (f : Func) : Prop where
  arrays : f.arrays.length < shortLimit
  decls : ∀ decl ∈ f.arrays, decl.Fits
  returns : ∀ id ∈ f.returns, id < shortLimit
  body : f.body.length < shortLimit
  ops : ∀ op ∈ f.body, op.Fits

structure Signature.Fits (signature : Signature) : Prop where
  args : signature.args.length < shortLimit
  ranks : ∀ arg ∈ signature.args, arg.type.rank < shortLimit
  returns : ∀ type ∈ signature.returns, type.rank < shortLimit

/-- Device numbers are words of 32 bits. -/
def DeviceContext.Fits (context : DeviceContext) : Prop :=
  ∀ handle ∈ context.handle, handle < shortLimit

/-- A digest has 32 bytes. -/
def ContentHash.Whole (hash : ContentHash) : Prop := hash.bytes.length = 32

namespace Encoding

/-! ## Cutting codes off -/

/-- Codes of values in `p` can be cut off from what follows, as long as that is in `q`. -/
def Separates {α : Type} (code : α → List UInt8) (p : α → Prop) (q : List UInt8 → Prop) : Prop :=
  ∀ ⦃a b : α⦄ ⦃r s : List UInt8⦄, p a → p b → q r → q s → code a ++ r = code b ++ s → a = b ∧ r = s

/-- No condition on what follows. -/
def Any (_ : List UInt8) : Prop := True

namespace Separates

variable {α : Type} {code : α → List UInt8} {p : α → Prop} {q : List UInt8 → Prop}

/-- Codes of one length are cut off by their length. -/
theorem of_length {width : Nat} (hwidth : ∀ a, p a → (code a).length = width)
    (hinj : ∀ a b, p a → p b → code a = code b → a = b) : Separates code p q := by
  intro a b r s ha hb _ _ h
  obtain ⟨hcode, hrest⟩ := List.append_inj h ((hwidth a ha).trans (hwidth b hb).symm)
  exact ⟨hinj a b ha hb hcode, hrest⟩

/-- Lists of the same length are cut off part by part. -/
theorem flatMap (h : Separates code p q) (hfollow : ∀ a r, q r → q (code a ++ r)) {xs ys : List α}
    {r s : List UInt8} (hlength : xs.length = ys.length) (hxs : ∀ x ∈ xs, p x) (hys : ∀ y ∈ ys, p y)
    (hr : q r) (hs : q s) (heq : xs.flatMap code ++ r = ys.flatMap code ++ s) :
    xs = ys ∧ r = s := by
  have hall : ∀ (zs : List α) {r}, q r → q (zs.flatMap code ++ r) := by
    intro zs
    induction zs with
    | nil => exact fun hr => hr
    | cons z zs ih =>
      intro r hr
      rw [List.flatMap_cons, List.append_assoc]
      exact hfollow z _ (ih hr)
  induction xs generalizing ys with
  | nil =>
    rw [List.length_nil, eq_comm, List.length_eq_zero_iff] at hlength
    subst hlength
    exact ⟨rfl, heq⟩
  | cons x xs ih =>
    obtain ⟨y, ys, rfl⟩ := List.exists_cons_of_length_eq_add_one hlength.symm
    rw [List.flatMap_cons, List.flatMap_cons, List.append_assoc, List.append_assoc] at heq
    obtain ⟨hfirst, htail⟩ := h (hxs x (by simp)) (hys y (by simp)) (hall xs hr) (hall ys hs) heq
    obtain ⟨hothers, hrest⟩ := ih (Nat.succ.inj hlength) (fun z hz => hxs z (by simp [hz]))
      (fun z hz => hys z (by simp [hz])) htail
    exact ⟨by rw [hfirst, hothers], hrest⟩

end Separates

/-! ## Numbers and texts -/

theorem length_little (count value : Nat) : (little count value).length = count := by
  induction count generalizing value with
  | zero => rfl
  | succ count ih => rw [little, List.length_cons, ih]

/-- The bytes determine the number that they hold. -/
theorem little_inj {count a b : Nat} (ha : a < 256 ^ count) (hb : b < 256 ^ count)
    (h : little count a = little count b) : a = b := by
  induction count generalizing a b with
  | zero => omega
  | succ count ih =>
    rw [little, little, List.cons.injEq] at h
    have hlow : a % 256 = b % 256 := by
      have := congrArg UInt8.toNat h.1
      simpa using this
    have hhigh : a / 256 = b / 256 := by
      refine ih ?_ ?_ h.2
      · rw [Nat.div_lt_iff_lt_mul (by decide), ← Nat.pow_succ]
        exact ha
      · rw [Nat.div_lt_iff_lt_mul (by decide), ← Nat.pow_succ]
        exact hb
    omega

theorem separates_word32 : Separates word32 (· < shortLimit) Any :=
  .of_length (fun value _ => length_little 4 value) fun _ _ ha hb => little_inj ha hb

theorem separates_word64 : Separates word64 (· < Shape.wordLimit) Any :=
  .of_length (fun value _ => length_little 8 value) fun _ _ ha hb => little_inj ha hb

theorem separates_scalar : Separates scalar (fun _ => True) Any := by
  refine .of_length (fun _ _ => length_little 8 _) fun a b _ _ h => ?_
  have hbits := little_inj a.bits.toNat_lt b.bits.toNat_lt h
  cases a
  cases b
  exact congrArg Scalar.mk (UInt64.toNat_inj.mp hbits)

/-- The bytes of a text, as a list and as an array. -/
theorem utf8_eq (text : String) : utf8 text = text.toByteArray.data.toList := by
  have general : ∀ (bytes : ByteArray) (i : Nat) (done : List UInt8),
      ByteArray.toList.loop bytes i done = done.reverse ++ bytes.data.toList.drop i := by
    intro bytes i done
    induction i, done using ByteArray.toList.loop.induct bytes with
    | case1 i done hlt ih =>
      rw [ByteArray.toList.loop, if_pos hlt, ih]
      have hlt' : i < bytes.data.toList.length := hlt
      rw [List.drop_eq_getElem_cons hlt']
      simp [ByteArray.get!, hlt]
    | case2 i done hge =>
      rw [ByteArray.toList.loop, if_neg hge, List.drop_eq_nil_of_le (Nat.le_of_not_lt hge),
        List.append_nil]
  exact general text.toByteArray 0 []

theorem utf8_inj {a b : String} (h : utf8 a = utf8 b) : a = b := by
  rw [utf8_eq, utf8_eq, Array.toList_inj] at h
  exact String.toByteArray_inj.mp (ByteArray.ext h)

/-- A text is cut off by its length. -/
theorem separates_string : Separates string (fun text => (utf8 text).length < shortLimit) Any := by
  intro a b r s ha hb _ _ h
  rw [string, string, List.append_assoc, List.append_assoc] at h
  obtain ⟨hlength, h⟩ := separates_word32 ha hb trivial trivial h
  obtain ⟨htext, hrest⟩ := List.append_inj h hlength
  exact ⟨utf8_inj htext, hrest⟩

/-- A list with its length before it. -/
theorem separates_counted {α : Type} {code : α → List UInt8} {p : α → Prop}
    (h : Separates code p Any) :
    Separates (fun xs : List α => word32 xs.length ++ xs.flatMap code)
      (fun xs => xs.length < shortLimit ∧ ∀ x ∈ xs, p x) Any := by
  intro xs ys r s hxs hys _ _ heq
  rw [List.append_assoc, List.append_assoc] at heq
  obtain ⟨hlength, heq⟩ := separates_word32 hxs.1 hys.1 trivial trivial heq
  exact h.flatMap (fun _ _ _ => trivial) hlength hxs.2 hys.2 trivial trivial heq

theorem separates_ids : Separates ids FitIds Any := separates_counted separates_word32

/-! ## Declarations -/

theorem elem_inj {a b : Elem} (h : elem a = elem b) : a = b := by
  cases a <;> cases b <;> first | rfl | cases h

theorem bool_inj {a b : Bool} (h : bool a = bool b) : a = b := by
  cases a <;> cases b <;> first | rfl | cases h

theorem separates_role : Separates role Role.Fits Any := by
  intro a b r s ha hb _ _ h
  have hzero : (0 : Nat) < shortLimit := by decide
  cases a with
  | param p =>
    cases b with
    | param q =>
      obtain ⟨hsame, hrest⟩ := separates_word32 ha hb trivial trivial h
      exact ⟨congrArg Role.param (Nat.succ.inj hsame), hrest⟩
    | scratch => exact absurd (separates_word32 ha hzero trivial trivial h).1 (Nat.succ_ne_zero p)
  | scratch =>
    cases b with
    | param q =>
      exact absurd (separates_word32 hzero hb trivial trivial h).1 (Nat.succ_ne_zero q).symm
    | scratch => exact ⟨rfl, (separates_word32 hzero hzero trivial trivial h).2⟩

theorem separates_shape : Separates shape ShapeSource.Fits Any := by
  intro a b r s ha hb _ _ h
  cases a <;> cases b <;> simp only [shape, List.cons_append, List.cons.injEq] at h <;>
    try (exact absurd h.1 (by decide))
  case param.param => exact ⟨rfl, h.2⟩
  case like.like m n =>
    obtain ⟨rfl, hrest⟩ := separates_word32 ha hb trivial trivial h.2
    exact ⟨rfl, hrest⟩
  case fixed.fixed m n =>
    obtain ⟨rfl, hrest⟩ := separates_counted separates_word64 ha hb trivial trivial h.2
    exact ⟨rfl, hrest⟩

end Encoding

/-- A declaration without its name. -/
def ArrayDecl.nameless (decl : ArrayDecl) : ArrayDecl := { decl with name := "" }

/-- A function without names and without the list of its parameters, whose roles tell as much. -/
def Func.nameless (f : Func) : Func :=
  { f with name := "", arrays := f.arrays.map ArrayDecl.nameless, params := [] }

namespace Encoding

theorem decl_nameless (d : ArrayDecl) : decl d.nameless = decl d := rfl

theorem separates_decl :
    Separates decl (fun d => d.nameless = d ∧ d.Fits) Any := by
  rintro a b r s ⟨ha, fita⟩ ⟨hb, fitb⟩ _ _ h
  simp only [decl, List.cons_append, List.append_assoc, List.cons.injEq, true_and] at h
  obtain ⟨helem, h⟩ := h
  obtain ⟨hrank, h⟩ := separates_word32 fita.rank fitb.rank trivial trivial h
  obtain ⟨hrole, h⟩ := separates_role fita.role fitb.role trivial trivial h
  obtain ⟨hshape, h⟩ := separates_shape fita.shape fitb.shape trivial trivial h
  refine ⟨?_, h⟩
  rw [← ha, ← hb, ArrayDecl.nameless, ArrayDecl.nameless, elem_inj helem, hrank, hrole, hshape]

/-! ## Operations -/

theorem separates_operand : Separates operand Operand.Fits Any := by
  intro a b r s ha hb _ _ h
  cases a <;> cases b <;> simp only [operand, List.cons_append, List.cons.injEq] at h <;>
    try (exact absurd h.1 (by decide))
  case array.array m n =>
    obtain ⟨rfl, hrest⟩ := separates_word32 ha hb trivial trivial h.2
    exact ⟨rfl, hrest⟩
  case scalar.scalar m n =>
    obtain ⟨rfl, hrest⟩ := separates_scalar trivial trivial trivial trivial h.2
    exact ⟨rfl, hrest⟩

/-- What follows does not start with the tag of an operand. -/
def EndsOperands (rest : List UInt8) : Prop := ∀ tag ∈ rest.head?, tag ≠ 0x09 ∧ tag ≠ 0x0a

theorem not_endsOperands (a : Operand) (rest : List UInt8) :
    ¬ EndsOperands (operand a ++ rest) := by
  intro h
  cases a with
  | array id => exact (h 0x09 rfl).1 rfl
  | scalar constant => exact (h 0x0a rfl).2 rfl

/-- The operands of a map have no length before them. They end with the first tag of another
kind. -/
theorem separates_operands :
    Separates (fun args : List Operand => args.flatMap operand) (fun args => ∀ arg ∈ args, arg.Fits)
      EndsOperands := by
  intro xs ys r s hxs hys hr hs heq
  induction xs generalizing ys with
  | nil =>
    cases ys with
    | nil => exact ⟨rfl, heq⟩
    | cons y ys =>
      refine absurd hr ?_
      rw [show r = operand y ++ (ys.flatMap operand ++ s) by simpa using heq]
      exact not_endsOperands y _
  | cons x xs ih =>
    cases ys with
    | nil =>
      refine absurd hs ?_
      rw [show s = operand x ++ (xs.flatMap operand ++ r) by simpa using heq.symm]
      exact not_endsOperands x _
    | cons y ys =>
      simp only [List.flatMap_cons, List.append_assoc] at heq
      obtain ⟨hfirst, htail⟩ :=
        separates_operand (hxs x (by simp)) (hys y (by simp)) trivial trivial heq
      obtain ⟨hothers, hrest⟩ := ih (fun z hz => hxs z (by simp [hz]))
        (fun z hz => hys z (by simp [hz])) htail
      exact ⟨by rw [hfirst, hothers], hrest⟩

theorem mapName_inj {a b : MapOp} (h : a.name = b.name) : a = b := by
  have hread : ∀ op : MapOp, MapOp.ofName? op.name = some op := by
    intro op
    cases op <;> rfl
  exact Option.some.inj ((hread a).symm.trans ((congrArg MapOp.ofName? h).trans (hread b)))

theorem foldName_inj {a b : FoldOp} (h : a.name = b.name) : a = b := by
  have hread : ∀ op : FoldOp, FoldOp.ofName? op.name = some op := by
    intro op
    cases op <;> rfl
  exact Option.some.inj ((hread a).symm.trans ((congrArg FoldOp.ofName? h).trans (hread b)))

theorem mapName_fits (op : MapOp) : (utf8 op.name).length < shortLimit := by
  cases op <;> decide +kernel

theorem foldName_fits (op : FoldOp) : (utf8 op.name).length < shortLimit := by
  cases op <;> decide +kernel

/-- The name of a fold and two arrays. -/
theorem separates_fold {a b : FoldOp} {out target input source : ArrayId} {r s : List UInt8}
    (ha : out < shortLimit ∧ input < shortLimit) (hb : target < shortLimit ∧ source < shortLimit)
    (h : string a.name ++ (word32 out ++ (word32 input ++ r)) =
      string b.name ++ (word32 target ++ (word32 source ++ s))) :
    a = b ∧ out = target ∧ input = source ∧ r = s := by
  obtain ⟨hname, h⟩ := separates_string (foldName_fits a) (foldName_fits b) trivial trivial h
  obtain ⟨hout, h⟩ := separates_word32 ha.1 hb.1 trivial trivial h
  obtain ⟨hinput, h⟩ := separates_word32 ha.2 hb.2 trivial trivial h
  exact ⟨foldName_inj hname, hout, hinput, h⟩

/-- Operations start with different tags, none of them that of an operand. -/
theorem separates_op : Separates op Op.Fits EndsOperands := by
  intro a b r s ha hb hr hs h
  cases a <;> cases b <;>
    simp only [op, List.cons_append, List.append_assoc, List.cons.injEq, true_and] at h <;>
    try (exact absurd h.1 (by decide))
  -- different tags are out, so both are operations of one kind
  case map.map out a args target b others =>
    obtain ⟨hname, h⟩ := separates_string (mapName_fits a) (mapName_fits b) trivial trivial h
    obtain ⟨hout, h⟩ := separates_word32 ha.1 hb.1 trivial trivial h
    obtain ⟨hargs, h⟩ := separates_operands ha.2 hb.2 hr hs h
    exact ⟨by rw [mapName_inj hname, hout, hargs], h⟩
  case reduce.reduce =>
    obtain ⟨hop, hout, hinput, h⟩ := separates_fold ha hb h
    exact ⟨by rw [hop, hout, hinput], h⟩
  case scan.scan =>
    obtain ⟨hop, hout, hinput, h⟩ := separates_fold ha hb h
    exact ⟨by rw [hop, hout, hinput], h⟩
  case store.store =>
    obtain ⟨harray, h⟩ := separates_word32 ha.1 hb.1 trivial trivial h
    obtain ⟨hindex, h⟩ := separates_word64 ha.2 hb.2 trivial trivial h
    obtain ⟨hconstant, h⟩ := separates_scalar trivial trivial trivial trivial h
    exact ⟨by rw [harray, hindex, hconstant], h⟩
  case print.print =>
    obtain ⟨harrays, h⟩ := separates_ids ha hb trivial trivial h
    exact ⟨by rw [harrays], h⟩
  case call.call =>
    obtain ⟨hcallee, h⟩ := separates_string ha.1 hb.1 trivial trivial h
    obtain ⟨hreads, h⟩ := separates_ids ha.2.1 hb.2.1 trivial trivial h
    obtain ⟨hwrites, h⟩ := separates_ids ha.2.2 hb.2.2 trivial trivial h
    exact ⟨by rw [hcallee, hreads, hwrites], h⟩

theorem endsOperands_op (a : Op) (rest : List UInt8) : EndsOperands (op a ++ rest) := by
  cases a <;> exact fun tag htag => by cases htag; decide

/-! ## Functions -/

theorem separates_returned : Separates returned (∀ id ∈ ·, id < shortLimit) Any := by
  intro a b r s ha hb _ _ h
  cases a <;> cases b <;> simp only [returned, List.cons_append, List.cons.injEq] at h <;>
    try (exact absurd h.1 (by decide))
  case none.none => exact ⟨rfl, h.2⟩
  case some.some m n =>
    obtain ⟨rfl, hrest⟩ := separates_word32 (ha m rfl) (hb n rfl) trivial trivial h.2
    exact ⟨rfl, hrest⟩

theorem func_nameless (f : Func) : func f.nameless = func f := by
  simp [func, Func.nameless, List.flatMap_map, decl_nameless]

/-- Two functions with equal encodings are the same but for their names. -/
theorem nameless_eq_of_func_eq {f g : Func} (hf : f.Fits) (hg : g.Fits) (h : func f = func g) :
    f.nameless = g.nameless := by
  have plain : ∀ {f : Func}, f.Fits →
      ∀ d ∈ f.arrays.map ArrayDecl.nameless, d.nameless = d ∧ d.Fits := by
    intro f hf d hd
    obtain ⟨original, ho, rfl⟩ := List.mem_map.mp hd
    have fits := hf.decls original ho
    exact ⟨rfl, fits.rank, fits.role, fits.shape⟩
  rw [← func_nameless f, ← func_nameless g] at h
  simp only [func, Func.nameless, List.length_map, List.cons_append, List.append_assoc,
    List.cons.injEq, true_and] at h
  obtain ⟨hserial, h⟩ := h
  obtain ⟨hcount, h⟩ := separates_word32 hf.arrays hg.arrays trivial trivial h
  obtain ⟨harrays, h⟩ := separates_decl.flatMap (fun _ _ _ => trivial) (by simpa using hcount)
    (plain hf) (plain hg) trivial trivial h
  obtain ⟨hreturns, h⟩ := separates_returned hf.returns hg.returns trivial trivial h
  obtain ⟨hlength, h⟩ := separates_word32 hf.body hg.body trivial trivial h
  -- nothing follows the last operation, so nothing carries on its operands
  have hend : EndsOperands [] := fun _ => nofun
  obtain ⟨hbody, _⟩ := separates_op.flatMap (fun a rest _ => endsOperands_op a rest) hlength hf.ops
    hg.ops hend hend (by simpa using h)
  rw [Func.nameless, Func.nameless, harrays, hreturns, hbody, bool_inj hserial]

/-! ## Units -/

/-- An element type and a rank. -/
def arrayType (type : ArrayType) : List UInt8 := elem type.elem :: word32 type.rank

theorem separates_arrayType : Separates arrayType (·.rank < shortLimit) Any := by
  intro a b r s ha hb _ _ h
  simp only [arrayType, List.cons_append, List.cons.injEq] at h
  obtain ⟨helem, h⟩ := h
  obtain ⟨hrank, h⟩ := separates_word32 ha hb trivial trivial h
  refine ⟨?_, h⟩
  cases a
  cases b
  exact congr (congrArg ArrayType.mk (elem_inj helem)) hrank

theorem allocator_inj {a b : Allocator} (h : allocator a = allocator b) : a = b := by
  cases a <;> cases b <;> first | rfl | cases h

theorem separates_argType : Separates argType (·.type.rank < shortLimit) Any := by
  intro a b r s ha hb _ _ h
  have hparts : ∀ arg, argType arg = arrayType arg.type ++ [allocator arg.allocator] := fun _ => rfl
  rw [hparts, hparts, List.append_assoc, List.append_assoc] at h
  obtain ⟨htype, h⟩ := separates_arrayType ha hb trivial trivial h
  simp only [List.cons_append, List.nil_append, List.cons.injEq] at h
  refine ⟨?_, h.2⟩
  cases a
  cases b
  exact congr (congrArg ArgType.mk htype) (allocator_inj h.1)

/-- The tag of a call without a result is that of no element type. -/
theorem separates_returnType : Separates returnType (∀ type ∈ ·, type.rank < shortLimit) Any := by
  have hunit : ∀ e : Elem, elem e ≠ 0x10 := by
    intro e
    cases e <;> decide
  intro a b r s ha hb _ _ h
  cases a with
  | none =>
    cases b with
    | none => exact ⟨rfl, (List.cons.inj h).2⟩
    | some type => exact absurd (List.cons.inj h).1.symm (hunit type.elem)
  | some type =>
    cases b with
    | none => exact absurd (List.cons.inj h).1 (hunit type.elem)
    | some other =>
      obtain ⟨hsame, hrest⟩ := separates_arrayType (ha type rfl) (hb other rfl) trivial trivial h
      exact ⟨congrArg some hsame, hrest⟩

theorem separates_signature : Separates signature Signature.Fits Any := by
  rintro ⟨argsa, reta⟩ ⟨argsb, retb⟩ r s ha hb _ _ h
  simp only [signature, List.append_assoc] at h
  obtain ⟨hcount, h⟩ := separates_word32 ha.args hb.args trivial trivial h
  obtain ⟨hargs, h⟩ := separates_argType.flatMap (fun _ _ _ => trivial) hcount ha.ranks hb.ranks
    trivial trivial h
  obtain ⟨hreturns, h⟩ := separates_returnType ha.returns hb.returns trivial trivial h
  exact ⟨by rw [show argsa = argsb from hargs, show reta = retb from hreturns], h⟩

theorem deviceKind_inj {a b : DeviceKind} (h : deviceKind a = deviceKind b) : a = b := by
  cases a <;> cases b <;> first | rfl | cases h

theorem context_inj {a b : DeviceContext} (ha : a.Fits) (hb : b.Fits) (h : context a = context b) :
    a = b := by
  obtain ⟨kind, handle⟩ := a
  obtain ⟨other, number⟩ := b
  simp only [context, List.cons.injEq] at h
  obtain ⟨hkind, h⟩ := h
  cases deviceKind_inj hkind
  cases handle <;> cases number <;> simp only [List.cons.injEq] at h <;>
    try (exact absurd h.1 (by decide))
  case none.none => rfl
  case some.some m n =>
    obtain ⟨rfl, _⟩ := separates_word32 (ha m rfl) (hb n rfl) (r := []) (s := []) trivial trivial
      (by simpa using h.2)
    rfl

/-- A digest is cut off by its length, and the rest as above. -/
theorem unit_inj {u v : ContentHash} {a b : Signature} {c d : DeviceContext} (hu : u.Whole)
    (hv : v.Whole) (ha : a.Fits) (hb : b.Fits) (hc : c.Fits) (hd : d.Fits)
    (h : unit u a c = unit v b d) : u = v ∧ a = b ∧ c = d := by
  rw [unit, unit, List.append_assoc, List.append_assoc] at h
  obtain ⟨hbytes, h⟩ := List.append_inj h (hu.trans hv.symm)
  obtain ⟨hsignature, h⟩ := separates_signature ha hb trivial trivial h
  refine ⟨?_, hsignature, context_inj hc hd h⟩
  cases u
  cases v
  exact congrArg ContentHash.mk hbytes

end Encoding

/-- Two functions have the same encoding exactly when they agree in all but their names. The
encoding of what a compiled unit depends on determines the digest of its function, the signature and
the context. -/
theorem encoding_eq_iff {f g : Func} (hf : f.Fits) (hg : g.Fits) {u v : ContentHash}
    {a b : Signature} {c d : DeviceContext} (hu : u.Whole) (hv : v.Whole) (ha : a.Fits) (hb : b.Fits)
    (hc : c.Fits) (hd : d.Fits) :
    (Encoding.func f = Encoding.func g ↔ f.nameless = g.nameless) ∧
      (Encoding.unit u a c = Encoding.unit v b d ↔ u = v ∧ a = b ∧ c = d) := by
  refine ⟨⟨Encoding.nameless_eq_of_func_eq hf hg, fun h => ?_⟩,
    ⟨Encoding.unit_inj hu hv ha hb hc hd, ?_⟩⟩
  · rw [← Encoding.func_nameless f, h, Encoding.func_nameless]
  · rintro ⟨rfl, rfl, rfl⟩
    rfl

namespace Sample

/-- A function whose last map is followed by an operation, under names of choice. -/
def doubled (name array callee : String) : Func where
  name := name
  arrays := [⟨array, .f32, 1, .param, .param 0⟩, ⟨"t", .f32, 2, .fixed [2, 3], .scratch⟩]
  params := [0]
  body := [.map 0 .mul [.array 0, .scalar (.ofNat 2)], .call callee [0] [1]]
  returns := some 0
  serialOnly := false

theorem doubled_fits (name array : String) : (doubled name array "log").Fits where
  arrays := by simp [doubled, shortLimit]
  decls := by
    simp only [doubled, List.forall_mem_cons, List.not_mem_nil, false_implies, implies_true,
      and_true]
    exact ⟨⟨by simp [shortLimit], by simp [Role.Fits, shortLimit], trivial⟩,
      ⟨by simp [shortLimit], trivial, by simp [ShapeSource.Fits, shortLimit, Shape.wordLimit]⟩⟩
  returns := by simp [doubled, shortLimit]
  body := by simp [doubled, shortLimit]
  ops := by
    have hlog : (Encoding.utf8 "log").length = 3 := by decide +kernel
    simp [doubled, Op.Fits, Operand.Fits, FitIds, hlog, shortLimit]

def vector : Signature := ⟨[⟨⟨.f32, 1⟩, .copied⟩], some ⟨.f32, 1⟩⟩

end Sample

/-- Other names make no difference to a function, another device does to a unit. -/
theorem encoding_eq_iff_sample :
    Encoding.func (Sample.doubled "f" "a" "log") = Encoding.func (Sample.doubled "g" "x" "log") ∧
      Encoding.unit .zero Sample.vector .gpu ≠
        Encoding.unit .zero Sample.vector ⟨.gpu, some 1⟩ := by
  have hsignature : Sample.vector.Fits := ⟨by decide, by decide, by decide⟩
  obtain ⟨hfunc, hunit⟩ := encoding_eq_iff (Sample.doubled_fits "f" "a")
    (Sample.doubled_fits "g" "x") (u := .zero) (v := .zero) rfl rfl hsignature hsignature
    (c := .gpu) (d := ⟨.gpu, some 1⟩) nofun
    (by intro handle h; cases h; decide)
  exact ⟨hfunc.mpr rfl, fun h => absurd (hunit.mp h).2.2 (by decide)⟩

end ArrayOffload
