import PatchCompiler.Proofs.Emission.Rules
import PatchCompiler.Proofs.Emission.Step

/-! # Every run that succeeds has a derivation

Each form of expression is compiled by a step that knows its parts only as operands. An operand is
`Traced` when the runs of its code have derivations; a lemma for each step carries that from the
parts to the whole, and `Expr.emits_of_emit` ties them together by recursion over expressions. -/

namespace PatchCompiler

/-- Every run of the operand's code that succeeds has a derivation. -/
def Operand.Traced (o : Operand) : Prop :=
  ∀ name s code s', o.code name s = .ok code s' → Emits s (.expr o.expr name) [code] s'

variable {s s' : State} {code : Code} {codes : List Code}

namespace Operand

/-- The kind of an operand's value is that of its expression. -/
theorem kind_run (s : State) (o : Operand) : o.kind s = .ok (o.expr.kind s.env) s := rfl

/-- The kind of an operand is inferred from the names in scope, and the state stays. -/
@[simp] theorem kind_eq_ok {o : Operand} {kind : Option Kind} :
    o.kind s = .ok kind s' ↔ o.expr.kind s.env = kind ∧ s = s' := by
  rw [kind_run, EStateM.Result.ok.injEq]

/-- The test whether all operands are integers gives the answer of their kinds. -/
theorem allInt_run (s : State) (operands : List Operand) :
    allInt operands s = .ok (operands.all fun o => o.expr.kind s.env = some .int) s := rfl

/-- Operands are found to be integers by their inferred kinds, and the state stays. -/
@[simp] theorem allInt_eq_ok {operands : List Operand} {answer : Bool} :
    allInt operands s = .ok answer s' ↔
      (operands.all fun o => o.expr.kind s.env = some .int) = answer ∧ s = s' := by
  rw [allInt_run, EStateM.Result.ok.injEq]

/-- The kind of a result is that of the arithmetic on the operands' kinds. -/
theorem arithmeticKind_run (s : State) (operands : List Operand) :
    arithmeticKind operands s
      = .ok (.arithmetic (operands.map fun o => o.expr.kind s.env)) s := by
  have hall : (operands.all fun o => o.expr.kind s.env = some .int)
      = (operands.map fun o => o.expr.kind s.env).all (· = some .int) := by
    rw [List.all_map]
    rfl
  unfold arithmeticKind
  rw [Emit.bind_of_ok (allInt_run s operands), hall]
  rfl

/-- The kind of an operator is found from the kinds of its operands, and the state stays. -/
@[simp] theorem arithmeticKind_eq_ok {operands : List Operand} {kind : Kind} :
    arithmeticKind operands s = .ok kind s' ↔
      Kind.arithmetic (operands.map fun o => o.expr.kind s.env) = kind ∧ s = s' := by
  rw [arithmeticKind_run, EStateM.Result.ok.injEq]

/-- A traced operand brought to a machine type. -/
theorem Traced.emitAs {o : Operand} (ho : o.Traced) {type : ValType}
    (h : o.emitAs type s = .ok code s') : Emits s (.operand o.expr type) [code] s' := by
  simp only [Operand.emitAs, Emit.bind_eq_ok, kind_eq_ok] at h
  obtain ⟨_, _, ⟨rfl, rfl⟩, c, s₁, hc, h⟩ := h
  obtain ⟨rfl, rfl⟩ := Emit.pure_eq_ok.1 h
  exact .operand (ho _ _ _ _ hc)

end Operand

namespace Emit

/-- The test of two operands, as a statement about their kinds. -/
theorem all_int_iff {operands : List Operand} {env : Env} :
    (operands.all fun o => o.expr.kind env = some .int) = true ↔
      Kind.allInt (operands.map fun o => o.expr.kind env) := by
  simp [Kind.allInt]

/-- Expressions one after another. -/
theorem emits_of_all {operands : List Operand} (ho : ∀ o ∈ operands, o.Traced)
    (h : all operands s = .ok codes s') : Emits s (.list (operands.map Operand.expr)) codes s' := by
  induction operands generalizing s codes with
  | nil =>
    obtain ⟨rfl, rfl⟩ := pure_eq_ok.1 h
    exact .listNil
  | cons o rest ih =>
    simp only [all, bind_eq_ok] at h
    obtain ⟨c, s₁, hc, cs, s₂, hcs, h⟩ := h
    obtain ⟨rfl, rfl⟩ := pure_eq_ok.1 h
    exact .listCons (ho o (by simp) _ _ _ _ hc) (ih (fun o' h' => ho o' (by simp [h'])) hcs)

/-- Arguments of a call. -/
theorem emits_of_arguments {types : List ValType} {operands : List Operand}
    (ho : ∀ o ∈ operands, o.Traced) (h : arguments types operands s = .ok codes s') :
    Emits s (.args types (operands.map Operand.expr)) codes s' := by
  induction operands generalizing s codes types with
  | nil =>
    cases types with
    | nil => obtain ⟨rfl, rfl⟩ := pure_eq_ok.1 h; exact .argsNil
    | cons type types => obtain ⟨rfl, rfl⟩ := pure_eq_ok.1 h; exact .argsNil
  | cons o rest ih =>
    have hrest : ∀ o' ∈ rest, o'.Traced := fun o' h' => ho o' (by simp [h'])
    cases types with
    | nil =>
      simp only [arguments, bind_eq_ok] at h
      obtain ⟨c, s₁, hc, cs, s₂, hcs, h⟩ := h
      obtain ⟨rfl, rfl⟩ := pure_eq_ok.1 h
      exact .argsFree (ho o (by simp) _ _ _ _ hc) (ih hrest hcs)
    | cons type types =>
      simp only [arguments, bind_eq_ok] at h
      obtain ⟨c, s₁, hc, cs, s₂, hcs, h⟩ := h
      obtain ⟨rfl, rfl⟩ := pure_eq_ok.1 h
      exact .argsCons ((ho o (by simp)).emitAs hc) (ih hrest hcs)

/-- An operator on two numbers. -/
theorem emits_of_pair {ops : Instructions} {left right : Operand} (hl : left.Traced)
    (hr : right.Traced) (h : pair ops left right s = .ok code s') :
    Emits s (.pair ops left.expr right.expr) [code] s' := by
  simp only [pair, bind_eq_ok, Operand.allInt_eq_ok] at h
  obtain ⟨answer, _, ⟨hanswer, rfl⟩, h⟩ := h
  cases answer with
  | true =>
    simp only [if_true, bind_eq_ok] at h
    obtain ⟨l, s₁, hcl, r, s₂, hcr, h⟩ := h
    obtain ⟨rfl, rfl⟩ := pure_eq_ok.1 h
    exact .pairInt (all_int_iff.1 hanswer) (hl _ _ _ _ hcl) (hr _ _ _ _ hcr)
  | false =>
    simp only [Bool.false_eq_true, if_false, bind_eq_ok] at h
    obtain ⟨l, s₁, hcl, r, s₂, hcr, h⟩ := h
    obtain ⟨rfl, rfl⟩ := pure_eq_ok.1 h
    refine .pairFloat (fun hall => ?_) (hl.emitAs hcl) (hr.emitAs hcr)
    rw [(@all_int_iff [left, right] s.env).2 hall] at hanswer
    exact absurd hanswer (by decide)

/-- The negation of anything but a literal. -/
theorem neg_of_not_literal {o : Operand} (hint : ∀ value, o.expr.node ≠ .intLit value)
    (hfloat : ∀ value, o.expr.node ≠ .floatLit value) :
    neg o = do
      if (← o.kind) = some .float then return .one (.float .neg) [← o.emit]
      else return .one (.int .sub) [.int 0, ← o.emit] := by
  obtain ⟨⟨node, ty, span⟩, emitted⟩ := o
  cases node with
  | intLit value => exact absurd rfl (hint value)
  | floatLit value => exact absurd rfl (hfloat value)
  | _ => rfl

/-- A negation. -/
theorem emits_of_neg {o : Operand} {ty : Option Kind} {span : Span} {name : Option String}
    (ho : o.Traced) (h : neg o s = .ok code s') :
    Emits s (.expr (.mk (.neg o.expr) ty span) name) [code] s' := by
  -- a literal is negated by its node alone, whatever its code, so the two literal forms come first
  by_cases hint : ∃ value, o.expr.node = .intLit value
  · obtain ⟨value, hvalue⟩ := hint
    obtain ⟨⟨node, operandTy, operandSpan⟩, emitted⟩ := o
    cases hvalue
    obtain ⟨rfl, rfl⟩ := pure_eq_ok.1 h
    exact .negInt
  by_cases hfloat : ∃ value, o.expr.node = .floatLit value
  · obtain ⟨value, hvalue⟩ := hfloat
    obtain ⟨⟨node, operandTy, operandSpan⟩, emitted⟩ := o
    cases hvalue
    obtain ⟨rfl, rfl⟩ := pure_eq_ok.1 h
    exact .negFloat
  rw [not_exists] at hint hfloat
  rw [neg_of_not_literal hint hfloat] at h
  simp only [bind_eq_ok, Operand.kind_eq_ok] at h
  obtain ⟨_, _, ⟨rfl, rfl⟩, h⟩ := h
  by_cases hk : o.expr.kind s.env = some .float
  · rw [if_pos hk, bind_eq_ok] at h
    obtain ⟨c, s₁, hc, h⟩ := h
    obtain ⟨rfl, rfl⟩ := pure_eq_ok.1 h
    exact .opposite hint hfloat hk (ho _ _ _ _ hc)
  · rw [if_neg hk, bind_eq_ok] at h
    obtain ⟨c, s₁, hc, h⟩ := h
    obtain ⟨rfl, rfl⟩ := pure_eq_ok.1 h
    exact .difference hint hfloat hk (ho _ _ _ _ hc)

/-- A clamp against a range with two ends. -/
theorem emits_of_clamp {value low high : Operand} {rangeTy ty : Option Kind}
    {rangeSpan span : Span} {name : Option String} (hv : value.Traced) (hl : low.Traced)
    (hh : high.Traced) (h : clamp value low high s = .ok code s') :
    Emits s (.expr (.mk (.clamp value.expr
      (.mk (.range (some low.expr) (some high.expr)) rangeTy rangeSpan)) ty span) name)
      [code] s' := by
  simp only [clamp, bind_eq_ok, Operand.allInt_eq_ok] at h
  obtain ⟨answer, _, ⟨hanswer, rfl⟩, h⟩ := h
  cases answer with
  | true =>
    simp only [if_true, bind_eq_ok, modify_eq_ok] at h
    obtain ⟨_, _, rfl, v, s₁, hcv, hi, s₂, hch, l, s₃, hcl, h⟩ := h
    obtain ⟨rfl, rfl⟩ := pure_eq_ok.1 h
    exact .clampInt (all_int_iff.1 hanswer) (hv _ _ _ _ hcv) (hh _ _ _ _ hch) (hl _ _ _ _ hcl)
  | false =>
    simp only [Bool.false_eq_true, if_false, bind_eq_ok] at h
    obtain ⟨v, s₁, hcv, hi, s₂, hch, l, s₃, hcl, h⟩ := h
    obtain ⟨rfl, rfl⟩ := pure_eq_ok.1 h
    refine .clampFloat (fun hall => ?_) (hv.emitAs hcv) (hh.emitAs hch) (hl.emitAs hcl)
    rw [(@all_int_iff [value, low, high] s.env).2 hall] at hanswer
    exact absurd hanswer (by decide)

/-- A loop. -/
theorem emits_of_loop {cond body : Operand} {ty : Option Kind} {span : Span}
    {name : Option String} (hcond : cond.Traced) (hbody : body.Traced)
    (h : loop cond body s = .ok code s') :
    Emits s (.expr (.mk (.loop cond.expr body.expr) ty span) name) [code] s' := by
  simp only [loop, bind_eq_ok, modify_eq_ok, get_eq_ok, Operand.kind_eq_ok] at h
  obtain ⟨_, _, rfl, _, _, ⟨rfl, rfl⟩, test, s₁, htest, _, _, ⟨rfl, rfl⟩, content, s₂, hcontent,
    _, _, rfl, h⟩ := h
  obtain ⟨rfl, rfl⟩ := pure_eq_ok.1 h
  exact .loop (hcond _ _ _ _ htest) (hbody _ _ _ _ hcontent)

/-- A block. -/
theorem emits_of_block {frame : Frame} {body : Operand} {ty : Option Kind} {span : Span}
    {name : Option String} (hbody : body.Traced) (h : block frame body s = .ok code s') :
    Emits s (.expr (.mk (.block body.expr frame) ty span) name) [code] s' := by
  simp only [block, bind_eq_ok, modify_eq_ok] at h
  obtain ⟨_, _, rfl, c, s₁, hc, _, _, rfl, h⟩ := h
  obtain ⟨rfl, rfl⟩ := pure_eq_ok.1 h
  exact .block (hbody _ _ _ _ hc)

/-- A call. -/
theorem emits_of_call {callee : String} {args : List Operand} {ty : Option Kind} {span : Span}
    {name : Option String} (hargs : ∀ o ∈ args, o.Traced) (h : call callee args s = .ok code s') :
    Emits s (.expr (.mk (.call callee (args.map Operand.expr)) ty span) name) [code] s' := by
  simp only [call, bind_eq_ok, get_eq_ok] at h
  obtain ⟨_, _, ⟨rfl, rfl⟩, cs, s₁, hcs, h⟩ := h
  obtain ⟨rfl, rfl⟩ := pure_eq_ok.1 h
  exact .call (emits_of_arguments hargs hcs)

/-! ## Arrays and assignments -/

/-- The members of an array literal are sorted by their kinds, and the state stays as it is. -/
theorem classify_eq_ok {operands : List Operand} {layout : List Member}
    (h : classify operands s = .ok layout s') :
    List.Forall₂ (fun o m => Member.ofOperand (o.expr.kind s.env) o = .ok m) operands layout ∧
      s = s' := by
  induction operands generalizing layout with
  | nil =>
    obtain ⟨rfl, rfl⟩ := pure_eq_ok.1 h
    exact ⟨.nil, rfl⟩
  | cons o rest ih =>
    simp only [classify, bind_eq_ok, Operand.kind_eq_ok] at h
    obtain ⟨_, _, ⟨rfl, rfl⟩, h⟩ := h
    cases hm : Member.ofOperand (o.expr.kind s.env) o with
    | error feature => simp [hm] at h
    | ok m =>
      simp only [hm, bind_eq_ok] at h
      obtain ⟨ms, s₁, hms, h⟩ := h
      obtain ⟨rfl, rfl⟩ := pure_eq_ok.1 h
      obtain ⟨hrest, rfl⟩ := ih hms
      exact ⟨.cons hm hrest, rfl⟩

/-- Only the operand itself can be the value that a member contributes. -/
theorem eq_of_ofOperand_value {kind : Option Kind} {o o' : Operand}
    (h : Member.ofOperand kind o = .ok (.value o')) : o' = o := by
  unfold Member.ofOperand at h
  split at h
  · cases h; rfl
  · cases h; rfl
  · unfold Member.ofRange at h
    repeat' split at h
    all_goals cases h
  · cases h

/-- The values among the members of an array literal are operands of the literal. -/
theorem mem_of_classified {env : Env} {operands : List Operand} {layout : List Member}
    (h : List.Forall₂ (fun o m => Member.ofOperand (o.expr.kind env) o = .ok m) operands layout)
    {o : Operand} (ho : .value o ∈ layout) : o ∈ operands := by
  induction h with
  | nil => cases ho
  | cons hm _ ih =>
    rcases List.mem_cons.1 ho with rfl | ho
    · rw [eq_of_ofOperand_value hm]
      exact List.mem_cons_self
    · exact List.mem_cons_of_mem _ (ih ho)

/-- A number stored in an array: an integer literal is converted at once, anything else is brought
to floating-point. -/
theorem memberValue_of_not_literal {o : Operand} (h : ∀ value, o.expr.node ≠ .intLit value) :
    memberValue o = o.emitAs .f64 := by
  obtain ⟨⟨node, ty, span⟩, emitted⟩ := o
  cases node with
  | intLit value => exact absurd rfl (h value)
  | _ => rfl

/-- The stores of the members of an array. -/
theorem emits_of_placeMembers {base : UInt32} {slot : Nat} {layout : List Member}
    (hlayout : ∀ o, .value o ∈ layout → o.Traced)
    (h : placeMembers base slot layout s = .ok codes s') :
    Emits s (.members base slot layout) codes s' := by
  induction layout generalizing s codes slot with
  | nil =>
    obtain ⟨rfl, rfl⟩ := pure_eq_ok.1 h
    exact .membersNil
  | cons m rest ih =>
    have hrest : ∀ o, .value o ∈ rest → o.Traced := fun o ho => hlayout o (by simp [ho])
    cases m with
    | value o =>
      simp only [placeMembers, bind_eq_ok] at h
      obtain ⟨c, s₁, hc, cs, s₂, hcs, h⟩ := h
      obtain ⟨rfl, rfl⟩ := pure_eq_ok.1 h
      by_cases hint : ∃ value, o.expr.node = .intLit value
      · obtain ⟨value, hvalue⟩ := hint
        have hliteral : memberValue o = pure (.float (.ofInt32 value)) := by
          unfold memberValue
          rw [hvalue]
        rw [hliteral] at hc
        obtain ⟨rfl, rfl⟩ := pure_eq_ok.1 hc
        exact .memberInt hvalue (ih hrest hcs)
      · rw [not_exists] at hint
        rw [memberValue_of_not_literal hint] at hc
        exact .memberValue hint ((hlayout o (by simp)).emitAs hc) (ih hrest hcs)
    | ints low high =>
      simp only [placeMembers, bind_eq_ok] at h
      obtain ⟨cs, s₁, hcs, h⟩ := h
      obtain ⟨rfl, rfl⟩ := pure_eq_ok.1 h
      exact .memberInts (ih hrest hcs)
    | reserve count => exact .memberReserve (ih hrest h)

/-- The length of an array. -/
theorem length_eq_ok {array : Operand} {span : Span} (ha : array.Traced)
    (h : length array span s = .ok code s') :
    array.expr.kind s.env = some .pointer ∧
      ∃ c, Emits s (.expr array.expr none) [c] s' ∧ code = loadLength c := by
  simp only [length, bind_eq_ok, Operand.kind_eq_ok] at h
  obtain ⟨_, _, ⟨rfl, rfl⟩, h⟩ := h
  by_cases hk : array.expr.kind s.env = some .pointer
  · rw [if_pos hk, bind_eq_ok] at h
    obtain ⟨c, s₁, hc, h⟩ := h
    obtain ⟨rfl, rfl⟩ := pure_eq_ok.1 h
    exact ⟨hk, c, ha _ _ _ _ hc, rfl⟩
  · rw [if_neg hk] at h
    exact (throw_eq_ok.1 h).elim

/-- An array literal. -/
theorem emits_of_array {members : List (Expr Frame)} {ty : Option Kind} {span : Span}
    {name : Option String} (hmembers : ∀ e ∈ members, Operand.Traced ⟨e, e.emit⟩)
    (h : array (members.map fun e => ⟨e, e.emit⟩) span s = .ok code s') :
    Emits s (.expr (.mk (.array members) ty span) name) [code] s' := by
  simp only [array_eq, layOut, bind_eq_ok] at h
  obtain ⟨layout, _, hclassify, h⟩ := h
  obtain ⟨hlayout, rfl⟩ := classify_eq_ok hclassify
  by_cases htotal : UInt32.size ≤ Member.total layout
  · rw [if_pos htotal, bind_eq_ok] at h
    obtain ⟨_, _, h, _⟩ := h
    exact (throw_eq_ok.1 h).elim
  rw [if_neg htotal] at h
  simp only [openArray, advance, bind_eq_ok, pure_eq_ok, onArena_eq_ok, modify_eq_ok] at h
  obtain ⟨base, _, ⟨arena₁, hopen, rfl⟩, _, _, ⟨arena₂, hadvance, rfl⟩, _, _, rfl, stores, s₁,
    hstores, rfl, rfl⟩ := h
  -- `advance` is run for the arena alone: take off the unit value it is paired with
  have hadvance : arena₁.advance (.ofNat (Member.total layout)) = .ok arena₂ := by
    obtain ⟨arena, hadvance, hpair⟩ := Except.map_eq_ok_iff.1 hadvance
    cases hpair
    exact hadvance
  have hvalues : ∀ o, .value o ∈ layout → o.Traced := by
    intro o ho
    obtain ⟨e, he, rfl⟩ := List.mem_map.1 (mem_of_classified hlayout ho)
    exact hmembers e he
  exact .array (List.forall₂_map_left_iff.1 hlayout) (Nat.lt_of_not_le htotal) hopen hadvance
    (emits_of_placeMembers hvalues hstores)

/-- The operands of a part on the left of an assignment are traced. -/
def Part.Traced : Part → Prop
  | .element array index => array.Traced ∧ index.Traced
  | .field object _ _ => object.Traced
  | .length => True

/-- A part on the left of an assignment stands for the array and the element of an expression. -/
inductive Part.Denotes : Part → Expr Frame → Prop
  | element {array index : Operand} {ty span} :
    Part.Denotes (.element array index) (.mk (.index array.expr (some index.expr)) ty span)
  | field {object : Operand} {field ty span} :
    Part.Denotes (.field object field span) (.mk (.field object.expr field) ty span)
  | length {array : Expr Frame} {ty span} :
    Part.Denotes .length (.mk (.index array none) ty span)

/-- A write to an array element, after the code of its value. -/
theorem emits_of_storePart {part : Part} {target value : Expr Frame} {v : Code} {s₀ : State}
    {ty : Option Kind} {span : Span} {name : Option String} (hpart : part.Traced)
    (htarget : part.Denotes target) (hvalue : Emits s₀ (.operand value .f64) [v] s)
    (h : storePart part v span s = .ok code s') :
    Emits s₀ (.expr (.mk (.assign target value) ty span) name) [code] s' := by
  -- Both kinds of targets end in the same store; they differ in the code of the index.
  have hstore : ∀ (array : Operand) (index : ElementIndex) (position : Position), array.Traced →
      target.position? = some (array.expr, position) →
      (∀ {t i t'}, index.emit t = .ok i t' → Emits t (.position position) [i] t') →
      storeElement array index v span s = .ok code s' →
      Emits s₀ (.expr (.mk (.assign target value) ty span) name) [code] s' := by
    intro array index position ha hposition hindex h
    simp only [storeElement, bind_eq_ok, modify_eq_ok] at h
    obtain ⟨_, _, rfl, b, s₁, hb, i, s₂, hi, n, s₃, hn, h⟩ := h
    obtain ⟨rfl, rfl⟩ := pure_eq_ok.1 h
    obtain ⟨hk, c, hc, rfl⟩ := length_eq_ok ha hn
    exact .assignPart hposition hvalue (ha _ _ _ _ hb) (hindex hi) hk hc
  cases htarget with
  | @element array index =>
    exact hstore array (.computed index) (.computed index.expr) hpart.1 rfl
      (fun hi => .computed (hpart.2.emitAs hi)) h
  | @field object field ty span =>
    simp only [storePart] at h
    cases hfield : Numeral.int32? field with
    | none => simp [hfield] at h
    | some index =>
      simp only [hfield] at h
      refine hstore object (.fixed index) (.fixed index) hpart ?_ ?_ h
      · simp only [Expr.position?, hfield, Option.map_some]
      · intro t i t' hi
        obtain ⟨rfl, rfl⟩ := pure_eq_ok.1 hi
        exact .fixed
  | length => exact (throw_eq_ok.1 h).elim

/-- What stands on the left of an assignment is that of an expression. -/
inductive Target.Denotes : Target → Expr Frame → Prop
  | name {x ty span} : Target.Denotes (.name x span) (.mk (.ident x) ty span)
  | part {part : Part} {e} : part.Denotes e → part.Traced → Target.Denotes (.part part) e
  | other {label e} : Target.Denotes (.other label) e

/-- An assignment. -/
theorem emits_of_assign {target : Target} {left : Expr Frame} {value : Operand}
    {ty : Option Kind} {span : Span} {name : Option String} (hleft : target.Denotes left)
    (hvalue : value.Traced) (h : assign target value span s = .ok code s') :
    Emits s (.expr (.mk (.assign left value.expr) ty span) name) [code] s' := by
  cases hleft with
  | @name x targetTy targetSpan =>
    by_cases hfunction : value.expr.isFunction = true
    · simp only [assign, hfunction, if_true] at h
      exact .assignFunction hfunction (hvalue _ _ _ _ h)
    · rw [Bool.not_eq_true] at hfunction
      simp only [assign, hfunction, Bool.false_eq_true, if_false, bind_eq_ok, storable_eq_ok,
        Operand.kind_eq_ok] at h
      obtain ⟨v, _, ⟨⟨hv, hvk⟩, rfl⟩, kind, _, ⟨hkind, rfl⟩, h⟩ := h
      cases kind with
      | none => exact (throw_eq_ok.1 h).elim
      | some kind =>
        cases kind with
        | function => exact (throw_eq_ok.1 h).elim
        | float | int | range | pointer =>
          obtain ⟨c, s₁, hc, h⟩ := bind_eq_ok.1 h
          obtain ⟨rfl, rfl⟩ := pure_eq_ok.1 h
          exact .assignName hfunction hv hvk hkind (by decide) (hvalue _ _ _ _ hc)
  | part hpart htraced =>
    simp only [assign, bind_eq_ok] at h
    obtain ⟨c, s₁, hc, h⟩ := h
    exact emits_of_storePart htraced hpart (hvalue.emitAs hc) h
  | other => exact (throw_eq_ok.1 h).elim

/-- An operator on two numbers needs code for the left one. -/
theorem left_of_pair {ops : Instructions} {left right : Expr Frame}
    (h : Emits s (.pair ops left right) codes s') :
    ∃ c s₁, Emits s (.expr left none) [c] s₁ := by
  cases h with
  | pairInt _ hl _ => exact ⟨_, _, hl⟩
  | pairFloat _ hl _ =>
    cases hl with
    | operand hl => exact ⟨_, _, hl⟩

/-- A compound assignment succeeds only for a name: elements and fields cannot be read, and lengths
cannot be written. -/
theorem emits_of_compound {op : CompoundOp} {target : Target} {old value : Operand} {span : Span}
    (htarget : target.Denotes old.expr) (hold : old.Traced) (hvalue : value.Traced)
    (h : compound op target old value span s = .ok code s') :
    ∃ x v targetTy targetSpan c, old.expr = .mk (.ident x) targetTy targetSpan ∧
      s.lookup x = some v ∧ v.kind ≠ .function ∧
      Emits s (.pair (compoundInstructions op) old.expr value.expr) [c] s' ∧
      code = store x v c (some (.arithmetic [v.storedKind, value.expr.kind s.env])) := by
  simp only [compound, bind_eq_ok, Operand.arithmeticKind_eq_ok] at h
  obtain ⟨kind, _, ⟨rfl, rfl⟩, h⟩ := h
  -- the target denotes the expression of `old`: name it, so that the cases can tell its form
  generalize hexpr : old.expr = e at htarget
  cases htarget with
  | @name x targetTy targetSpan =>
    simp only [bind_eq_ok, storable_eq_ok] at h
    obtain ⟨v, _, ⟨⟨hv, hvk⟩, rfl⟩, c, s₁, hc, h⟩ := h
    obtain ⟨rfl, rfl⟩ := pure_eq_ok.1 h
    refine ⟨x, v, targetTy, targetSpan, c, rfl, hv, hvk, ?_, ?_⟩
    · rw [← hexpr]
      exact emits_of_pair hold hvalue hc
    · have hread : old.expr.kind s.env = some v.storedKind := by
        rw [hexpr]
        show (s.lookup x).map _ = _
        rw [hv]
        rfl
      rw [List.map_cons, List.map_cons, List.map_nil, hread]
  | @part part _ hdenotes htraced =>
    simp only [bind_eq_ok] at h
    obtain ⟨c, s₁, hc, h⟩ := h
    -- the element or field would have to be read first, and no rule gives code that reads one
    obtain ⟨_, _, hread⟩ := left_of_pair (emits_of_pair hold hvalue hc)
    rw [hexpr] at hread
    cases hdenotes with
    | element => cases hread
    | field => cases hread
    | length => exact (throw_eq_ok.1 h).elim
  | other => exact (throw_eq_ok.1 h).elim

/-! ## Functions -/

/-- The parameters of a function are looked up and noted as declared. -/
theorem declareParams_eq_ok {frame : Frame} {span : Span} {names : List String}
    {params : List (String × ValType)} (h : declareParams frame span names s = .ok params s') :
    (names.mapM fun param => (frame.find? param).map fun v => (param, v.kind.paramType))
        = some params ∧
      s' = s.markAll (names.map frame.slot) := by
  induction names generalizing s params with
  | nil =>
    obtain ⟨rfl, rfl⟩ := pure_eq_ok.1 h
    exact ⟨rfl, rfl⟩
  | cons param rest ih =>
    simp only [declareParams] at h
    cases hv : frame.find? param with
    | none => simp [hv] at h
    | some v =>
      simp only [hv, bind_eq_ok, modify_eq_ok] at h
      obtain ⟨_, _, rfl, ps, s₁, hps, h⟩ := h
      obtain ⟨rfl, rfl⟩ := pure_eq_ok.1 h
      obtain ⟨htypes, rfl⟩ := ih hps
      rw [List.mapM_cons, htypes, hv]
      exact ⟨rfl, rfl⟩

/-- The code of a function's body is brought to the type of its result. -/
theorem fitResult_eq_ok {header : Header} {body : Operand} {c : Code}
    (h : fitResult header.result body c s = .ok code s') :
    code = header.fit (body.expr.kind s.env) c ∧ s = s' := by
  unfold Header.fit
  cases hr : header.result with
  | none =>
    rw [hr] at h
    obtain ⟨rfl, rfl⟩ := pure_eq_ok.1 h
    exact ⟨rfl, rfl⟩
  | some result =>
    rw [hr] at h
    simp only [fitResult] at h
    by_cases hc : c.isEmpty = true
    · rw [if_pos hc] at h
      obtain ⟨rfl, rfl⟩ := pure_eq_ok.1 h
      exact ⟨by simp only [hc, if_true], rfl⟩
    · simp only [if_neg hc, bind_eq_ok, Operand.kind_eq_ok] at h
      obtain ⟨_, _, ⟨rfl, rfl⟩, h⟩ := h
      obtain ⟨rfl, rfl⟩ := pure_eq_ok.1 h
      exact ⟨by simp only [hc, if_false, Bool.false_eq_true], rfl⟩

/-- A function. -/
theorem emits_of_define {header : Header} {prologue : Option Operand} {body : Operand} {u : Unit}
    (hprologue : ∀ o, prologue = some o → o.Traced) (hbody : body.Traced)
    (h : define header prologue body s = .ok u s') :
    Emits s (.definition header (prologue.map Operand.expr) body.expr) [] s' := by
  cases prologue with
  | none =>
    simp only [define, bind_eq_ok, modify_eq_ok, modifyGet_eq_ok, State.takeLocals,
      State.restoreLocals, Prod.mk.injEq, pure_eq_ok] at h
    -- the updates before the body make up `beginFunction`, those after it `endFunction`
    obtain ⟨_, _, rfl, _, _, ⟨rfl, rfl⟩, _, _, rfl, params, _, hparams, _, _, rfl, _, _, rfl, first,
      s₁, ⟨rfl, rfl⟩, c, s₂, hc, second, _, hsecond, _, _, rfl, _, _, ⟨rfl, rfl⟩, rfl⟩ := h
    obtain ⟨htypes, rfl⟩ := declareParams_eq_ok hparams
    obtain ⟨rfl, rfl⟩ := fitResult_eq_ok hsecond
    have hcode : Emits (s.beginFunction header params) (.expr body.expr none) [c] s₂ :=
      hbody _ _ _ _ hc
    have hdefinition : Emits s (.definition header none body.expr) [] _ :=
      .definition htypes .listNil hcode
    exact hdefinition
  | some o =>
    simp only [define, bind_eq_ok, modify_eq_ok, modifyGet_eq_ok, State.takeLocals,
      State.restoreLocals, Prod.mk.injEq] at h
    obtain ⟨_, _, rfl, _, _, ⟨rfl, rfl⟩, _, _, rfl, params, _, hparams, _, _, rfl, _, _, rfl, first,
      s₁, hfirst, c, s₂, hc, second, _, hsecond, _, _, rfl, _, _, ⟨rfl, rfl⟩, rfl⟩ := h
    obtain ⟨htypes, rfl⟩ := declareParams_eq_ok hparams
    obtain ⟨rfl, rfl⟩ := fitResult_eq_ok hsecond
    have hlist : Emits (s.beginFunction header params) (.list [o.expr]) [first] s₁ :=
      .listCons (hprologue o rfl _ _ _ _ hfirst) .listNil
    have hdefinition : Emits s (.definition header (some o.expr) body.expr) [] _ :=
      .definition htypes hlist (hbody _ _ _ _ hc)
    rwa [List.flatten_singleton] at hdefinition

end Emit

/-! ## Expressions and programs -/

namespace Expr

/-- The operands of a list of expressions. -/
theorem operands_eq_map (es : List (Expr Frame)) :
    operands es = es.map fun e => (⟨e, e.emit⟩ : Operand) := by
  induction es with
  | nil => rfl
  | cons e rest ih => rw [operands, ih, List.map_cons]

/-- The expressions of operands made from a list are that list. -/
@[simp] theorem map_expr_operands (es : List (Expr Frame)) :
    (operands es).map Operand.expr = es := by
  rw [operands_eq_map, List.map_map]
  exact List.map_id es

/-- The expression of an operand that may be missing is that expression. -/
@[simp] theorem map_expr_operand? (e : Option (Expr Frame)) :
    (operand? e).map Operand.expr = e := by
  cases e <;> rfl

/-- The integer one as an operand is the literal with its own code. -/
theorem traced_one : Operand.one.Traced := by
  intro name s code s' h
  obtain ⟨rfl, rfl⟩ := Emit.pure_eq_ok.1 h
  exact .intLit

mutual

/-- Every run of `Expr.emit` that succeeds has a derivation. -/
theorem emits_of_emit : ∀ e : Expr Frame, Operand.Traced ⟨e, e.emit⟩
  | .mk node ty span => by
    intro name s code s' h
    cases node with
    | statements items =>
      simp only [Expr.emit, Emit.sequence, Emit.bind_eq_ok] at h
      obtain ⟨codes, s₁, hcodes, h⟩ := h
      obtain ⟨rfl, rfl⟩ := Emit.pure_eq_ok.1 h
      have hlist := Emit.emits_of_all (traced_operands items) hcodes
      rw [map_expr_operands] at hlist
      exact .statements hlist
    | sequence items =>
      simp only [Expr.emit, Emit.sequence, Emit.bind_eq_ok] at h
      obtain ⟨codes, s₁, hcodes, h⟩ := h
      obtain ⟨rfl, rfl⟩ := Emit.pure_eq_ok.1 h
      have hlist := Emit.emits_of_all (traced_operands items) hcodes
      rw [map_expr_operands] at hlist
      exact .sequence hlist
    | floatLit value =>
      obtain ⟨rfl, rfl⟩ := Emit.pure_eq_ok.1 h
      exact .floatLit
    | intLit value =>
      obtain ⟨rfl, rfl⟩ := Emit.pure_eq_ok.1 h
      exact .intLit
    | ident x =>
      simp only [Expr.emit, Emit.ident, Emit.bind_eq_ok, Emit.resolve_eq_ok] at h
      obtain ⟨v, _, ⟨hv, rfl⟩, h⟩ := h
      obtain ⟨rfl, rfl⟩ := Emit.pure_eq_ok.1 h
      exact .ident hv
    | function params result prologue body frame =>
      cases name with
      | none => exact (Emit.throw_eq_ok.1 h).elim
      | some name =>
        simp only [Expr.emit, Emit.bind_eq_ok] at h
        obtain ⟨_, s₁, hdefine, h⟩ := h
        obtain ⟨rfl, rfl⟩ := Emit.pure_eq_ok.1 h
        have hdefinition := Emit.emits_of_define (traced_operand? prologue) (emits_of_emit body)
          hdefine
        rw [map_expr_operand?] at hdefinition
        exact .function hdefinition
    | block body frame => exact Emit.emits_of_block (emits_of_emit body) h
    | call callee args =>
      have hcall := @Emit.emits_of_call _ _ _ _ _ ty span name (traced_operands args) h
      rw [map_expr_operands] at hcall
      exact hcall
    | neg operand => exact Emit.emits_of_neg (emits_of_emit operand) h
    | binary op left right =>
      simp only [Expr.emit] at h
      cases hops : Emit.binaryInstructions? op with
      | none => simp [hops] at h
      | some ops =>
        simp only [hops] at h
        exact .binary hops (Emit.emits_of_pair (emits_of_emit left) (emits_of_emit right) h)
    | compare op left right =>
      exact .compare (Emit.emits_of_pair (emits_of_emit left) (emits_of_emit right) h)
    | step op target =>
      -- a step is the compound assignment of the literal one
      obtain ⟨x, v, targetTy, targetSpan, c, htarget, hv, hk, hc, rfl⟩ :=
        Emit.emits_of_compound (denotes_target target) (emits_of_emit target) traced_one h
      simp only at htarget
      subst htarget
      exact .step hv hk hc
    | compound op target value =>
      obtain ⟨x, v, targetTy, targetSpan, c, htarget, hv, hk, hc, rfl⟩ :=
        Emit.emits_of_compound (denotes_target target) (emits_of_emit target)
          (emits_of_emit value) h
      simp only at htarget
      subst htarget
      exact .compound hv hk hc
    | clamp value range =>
      -- only a range with both ends is a clamp; all other forms are refused, so they have no run
      match range, h with
      | .mk (.range (some low) (some high)) _ _, h =>
        exact Emit.emits_of_clamp (emits_of_emit value) (emits_of_emit low) (emits_of_emit high) h
      | .mk (.range none _) _ _, h => exact (Emit.throw_eq_ok.1 h).elim
      | .mk (.range (some _) none) _ _, h => exact (Emit.throw_eq_ok.1 h).elim
      | .mk (.statements _) _ _, h | .mk (.sequence _) _ _, h | .mk (.floatLit _) _ _, h
      | .mk (.intLit _) _ _, h | .mk (.ident _) _ _, h | .mk (.function _ _ _ _ _) _ _, h
      | .mk (.block _ _) _ _, h | .mk (.call _ _) _ _, h | .mk (.neg _) _ _, h
      | .mk (.binary _ _ _) _ _, h | .mk (.compare _ _ _) _ _, h | .mk (.step _ _) _ _, h
      | .mk (.compound _ _ _) _ _, h | .mk (.clamp _ _) _ _, h | .mk (.array _) _ _, h
      | .mk (.index _ _) _ _, h | .mk (.field _ _) _ _, h | .mk (.assign _ _) _ _, h
      | .mk (.loop _ _) _ _, h => exact (Emit.throw_eq_ok.1 h).elim
    | range start stop => exact (Emit.throw_eq_ok.1 h).elim
    | array members =>
      simp only [Expr.emit, operands_eq_map] at h
      refine Emit.emits_of_array (fun e he => ?_) h
      exact traced_operands members _ (by rw [operands_eq_map]; exact List.mem_map.2 ⟨e, he, rfl⟩)
    | index array index =>
      cases index with
      | none =>
        obtain ⟨hk, c, hc, rfl⟩ := Emit.length_eq_ok (emits_of_emit array) h
        exact .length hk hc
      | some index => exact (Emit.throw_eq_ok.1 h).elim
    | field object field => exact (Emit.throw_eq_ok.1 h).elim
    | assign target value =>
      exact Emit.emits_of_assign (denotes_target target) (emits_of_emit value) h
    | loop cond body => exact Emit.emits_of_loop (emits_of_emit cond) (emits_of_emit body) h

/-- What an expression on the left of an assignment refers to. -/
theorem denotes_target : ∀ e : Expr Frame, e.target.Denotes e
  | .mk node ty span => by
    cases node with
    | ident x => exact .name
    | index array index =>
      cases index with
      | none => exact .part .length trivial
      | some index => exact .part .element ⟨emits_of_emit array, emits_of_emit index⟩
    | field object field => exact .part .field (emits_of_emit object)
    | _ => exact .other

/-- The operands of a list of expressions are traced. -/
theorem traced_operands : ∀ (es : List (Expr Frame)), ∀ o ∈ operands es, o.Traced
  | [] => by simp [operands]
  | e :: rest => by
    intro o ho
    rcases List.mem_cons.1 ho with rfl | ho
    · exact emits_of_emit e
    · exact traced_operands rest o ho

/-- An expression that may be missing is traced. -/
theorem traced_operand? : ∀ (e : Option (Expr Frame)), ∀ o, operand? e = some o → o.Traced
  | none => by simp [operand?]
  | some e => by
    intro o ho
    cases ho
    exact emits_of_emit e

end

end Expr

/-- A program that compiles: its top-level statements are compiled as a function, the module is made
of what the state has gathered, and the events are those of the run and the last one. -/
theorem Program.run_of_compile {p : Program} {m : Module} {map : SourceMap}
    (h : p.compile.outcome = .ok (m, map)) :
    ∃ s pages, Emits (State.record {} (.started p.scope.bindings.length))
        (.definition ⟨initName, [], none, ⟨[], p.scope⟩, p.body.span, .init⟩ none
          (p.body.locate [0])) [] s ∧
      s.arena.pages = .ok pages ∧ m = ⟨pages, s.includes, s.forms, Export.ofScope p.scope⟩ ∧
      map = s.sourceMap ∧
      p.compile.log
        = s.log ++ [.assembled m.formTexts.length s.includes.length s.arena.cursor] := by
  unfold Program.compile at h ⊢
  generalize hrun : (do p.emit; Emit.assemble p.scope : Emit (Module × SourceMap)).run {} = result
    at h ⊢
  cases result with
  | error failure s => cases h
  | ok r s' =>
    cases h
    obtain ⟨_, s, hemit, hassemble⟩ := Emit.bind_eq_ok.1 hrun
    simp only [Program.emit, Emit.bind_eq_ok, Emit.modify_eq_ok] at hemit
    obtain ⟨_, _, rfl, hdefine⟩ := hemit
    simp only [Emit.assemble, Emit.bind_eq_ok, Emit.get_eq_ok] at hassemble
    obtain ⟨_, _, ⟨rfl, rfl⟩, hassemble⟩ := hassemble
    cases hpages : s.arena.pages with
    | error limit => simp [hpages] at hassemble
    | ok pages =>
      simp only [hpages, Emit.bind_eq_ok, Emit.modify_eq_ok] at hassemble
      obtain ⟨_, _, rfl, hassemble⟩ := hassemble
      obtain ⟨hresult, rfl⟩ := Emit.pure_eq_ok.1 hassemble
      cases hresult
      refine ⟨s, pages, ?_, hpages, rfl, rfl, rfl⟩
      exact Emit.emits_of_define (fun o ho => by cases ho) (Expr.emits_of_emit _) hdefine

/-- A program that compiles: its top-level statements are compiled as a function, and the module is
made of what the state has gathered. -/
theorem Program.emits_of_compile {p : Program} {m : Module} {map : SourceMap}
    (h : p.compile.outcome = .ok (m, map)) :
    ∃ s pages, Emits (State.record {} (.started p.scope.bindings.length))
        (.definition ⟨initName, [], none, ⟨[], p.scope⟩, p.body.span, .init⟩ none
          (p.body.locate [0])) [] s ∧
      s.arena.pages = .ok pages ∧ m = ⟨pages, s.includes, s.forms, Export.ofScope p.scope⟩ ∧
      map = s.sourceMap := by
  obtain ⟨s, pages, hemits, hpages, hm, hmap, _⟩ := run_of_compile h
  exact ⟨s, pages, hemits, hpages, hm, hmap⟩

/-- The function that a module starts with, from its local variables and the code of the top-level
statements. -/
def Func.init (locals : List (String × ValType)) (code : Code) : Func :=
  { name := initName
    params := []
    result := none
    locals := locals
    body := (Code.join .newline [code, .one .ret []]).lead .newline }

namespace Program

variable (p : Program)

/-- What is known of the function that a module starts with. -/
def header : Emit.Header := ⟨initName, [], none, ⟨[], p.scope⟩, p.body.span, .init⟩

/-- The state in which the top-level statements are compiled. -/
def initial : State :=
  (State.record {} (.started p.scope.bindings.length)).beginFunction p.header []

variable {p}

/-- A program that compiles: its module ends with the function that runs the top-level
statements. -/
theorem start_of_compile {m : Module} {map : SourceMap} (h : p.compile.outcome = .ok (m, map)) :
    ∃ s code, Emits p.initial (.expr (p.body.locate [0]) none) [code] s ∧
      s.arena.pages = .ok m.pages ∧ m.snippets = s.includes ∧
      m.forms = s.forms ++ [.func (.init s.locals code)] := by
  obtain ⟨s, pages, hemits, hpages, rfl, _⟩ := emits_of_compile h
  cases hemits with
  | definition hparams hfirst hsecond =>
    cases hparams
    cases hfirst
    exact ⟨_, _, hsecond, hpages, rfl, rfl⟩

end Program

end PatchCompiler
