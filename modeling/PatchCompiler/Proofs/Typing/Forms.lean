import PatchCompiler.Proofs.Typing.Fragment
import PatchCompiler.Proofs.Wasm.Validation

/-! # Types of the code of each form of expression

The code of each form of expression is accepted if the codes of its parts are. `Code.Typed` says what
holds of the code of an expression: it leaves a number of values and on top of them one of the machine
type that belongs to the expression's kind. -/

namespace PatchCompiler

open Validation

/-! ## Kinds and machine types -/

/-- A number or an array is read with the machine type of its stored kind. -/
theorem Variable.valType_storedKind {v : Variable} (hfunction : v.kind ≠ .function)
    (hrange : v.kind ≠ .range) : v.storedKind.valType = v.valType := by
  obtain ⟨kind, storage, exported⟩ := v
  -- an integer parameter is held as a decimal number, and its stored kind says so
  cases kind <;> cases storage <;> first | rfl | contradiction

namespace Code

variable {c : Context} {code first second : Code} {types beneath : List ValType}

/-! ## Instructions -/

/-- An instruction without operands. -/
theorem Pushes.constant {op : Op} {type : ValType} (hop : op.signature? c = some ([], some type)) :
    (Code.one op []).Pushes c [type] :=
  Pushes.one hop .nil

/-- An instruction on one value. -/
theorem Pushes.unary {op : Op} {type : ValType} {given : Option ValType}
    (hop : op.signature? c = some ([type], given)) (h : code.Pushes c (type :: beneath)) :
    (Code.one op [code]).Pushes c (given.toList ++ beneath) :=
  Pushes.one hop (.singleton h)

/-- An instruction on two values: only the first operand may leave others beneath its value. -/
theorem Pushes.binary {op : Op} {left right : ValType} {given : Option ValType}
    (hop : op.signature? c = some ([left, right], given))
    (hfirst : first.Pushes c (left :: beneath)) (hsecond : second.Pushes c [right]) :
    (Code.one op [first, second]).Pushes c (given.toList ++ beneath) := by
  have hoperands : PushAll c [first, second] ([right] ++ (left :: beneath)) :=
    .cons hfirst (.singleton hsecond)
  exact Pushes.one hop hoperands

/-- An integer constant leaves an integer. -/
theorem Pushes.int (value : Int32) : (Code.int value).Pushes c [.i32] := .constant rfl

/-- A floating-point constant leaves a floating-point number. -/
theorem Pushes.float (value : Binary64) : (Code.float value).Pushes c [.f64] := .constant rfl

/-- An address leaves an integer. -/
theorem Pushes.address (a : Nat) : (Emit.address a).Pushes c [.i32] := .int _

/-- A value is brought to a machine type. -/
theorem Pushes.toType {kind : Kind} (type : ValType) (h : code.Pushes c (kind.valType :: beneath)) :
    ((Coercion.toType type (some kind)).apply code).Pushes c (type :: beneath) := by
  cases type with
  | i32 =>
    have htruncate : Op.truncate.signature? c = some ([.f64], some .i32) := rfl
    cases kind with
    | float => exact .unary htruncate h
    | int | range | pointer | function => exact h
  | f64 =>
    have hconvert : Op.convert.signature? c = some ([.i32], some .f64) := rfl
    cases kind with
    | float => exact h
    | int | range | pointer | function => exact .unary hconvert h

/-- A value of known kind is brought to a machine type. -/
theorem Pushes.fit {kind : Kind} (type : ValType) (h : code.Pushes c (kind.valType :: beneath)) :
    ((Coercion.fit type (some kind)).apply code).Pushes c (type :: beneath) := by
  rw [Coercion.fit, if_neg (by simp)]
  exact h.toType type

/-! ## Variables -/

end Code

/-- A variable is declared with its machine type. -/
def Validation.Context.Declares (c : Context) (x : String) (v : Variable) : Prop :=
  (if v.isGlobal then c.interface.globals else c.locals).lookup x = some v.valType

namespace Code

variable {c : Context} {code test array index again value : Code} {types beneath : List ValType}

/-- A variable that is declared can be read. -/
theorem Pushes.read {x : String} {v : Variable} (hdeclared : c.Declares x v) :
    (Emit.read x v).Pushes c [v.valType] := by
  refine .constant ?_
  unfold Context.Declares at hdeclared
  cases hglobal : v.isGlobal with
  | true =>
    rw [hglobal, if_pos rfl] at hdeclared
    exact Op.signature?_getGlobal hdeclared
  | false =>
    rw [hglobal, if_neg Bool.false_ne_true] at hdeclared
    exact Op.signature?_getLocal hdeclared

/-- A variable that is declared can be written with a value of any kind. -/
theorem Pushes.store {x : String} {v : Variable} {kind : Kind} (hdeclared : c.Declares x v)
    (h : code.Pushes c (kind.valType :: beneath)) :
    (Emit.store x v code (some kind)).Pushes c (v.valType :: beneath) := by
  have hread := Pushes.read hdeclared
  have hvalue := h.fit v.valType
  unfold Context.Declares at hdeclared
  unfold Emit.store
  cases hglobal : v.isGlobal with
  | true =>
    rw [hglobal, if_pos rfl] at hdeclared
    have hset := Pushes.unary (Op.signature?_setGlobal hdeclared) hvalue
    -- the value that is written is taken from the stack, and read back
    exact hset.append_code hread
  | false =>
    rw [hglobal, if_neg Bool.false_ne_true] at hdeclared
    exact .unary (Op.signature?_teeLocal hdeclared) hvalue

/-! ## Loops and arrays -/

/-- The test of a loop is brought to an integer. -/
theorem Pushes.testOf {kind : Kind} (h : test.Pushes c [kind.valType]) :
    (Emit.testOf (some kind) test).Pushes c [.i32] := by
  have hop : (Op.float .ne).signature? c = some ([.f64, .f64], some .i32) := rfl
  unfold Emit.testOf
  cases kind with
  | float => exact .binary hop h (.float _)
  | int | range | pointer | function => exact h

/-- The length of an array is loaded from memory. -/
theorem Pushes.loadLength (hmemory : c.interface.memory = true)
    (h : array.Pushes c (.i32 :: beneath)) : (Emit.loadLength array).Pushes c (.i32 :: beneath) := by
  have hload : Op.loadInt.signature? c = some ([.i32], some .i32) := if_pos hmemory
  have hsub : (Op.int .sub).signature? c = some ([.i32, .i32], some .i32) := rfl
  exact .unary hload (.binary hsub h (.address _))

/-- A store takes an address and a floating-point number. -/
theorem Pushes.storeFloat {address : Code} (hmemory : c.interface.memory = true)
    (haddress : address.Pushes c [.i32]) (hvalue : value.Pushes c [.f64]) :
    (Code.one .storeFloat [address, value]).Pushes c [] := by
  have hstore : Op.storeFloat.signature? c = some ([.i32, .f64], none) := if_pos hmemory
  exact .binary hstore haddress hvalue

/-- An array element is written to memory. -/
theorem Pushes.writeElement (hmemory : c.interface.memory = true)
    (hsnippet : (Op.call Snippet.index.name).signature? c = some ([.i32, .i32], some .i32))
    (harray : array.Pushes c [.i32]) (hindex : index.Pushes c [.i32])
    (hagain : again.Pushes c [.i32]) (hvalue : value.Pushes c [.f64]) :
    (Emit.writeElement array index again value).Pushes c [] := by
  have hint : ∀ op, (Op.int op).signature? c = some ([.i32, .i32], some .i32) := fun _ => rfl
  have hwrapped := Pushes.binary hsnippet hindex (hagain.loadLength hmemory)
  have hoffset := Pushes.binary (hint .shl) hwrapped (.int 3)
  exact .storeFloat hmemory (.binary (hint .add) harray hoffset) hvalue

/-- Codes that leave nothing can stand in front of a code. -/
theorem Pushes.join_append_singleton {codes : List Code} (gap : Gap)
    (h : ∀ code ∈ codes, code.Pushes c []) (hlast : code.Pushes c types) :
    (Code.join gap (codes ++ [code])).Pushes c types := by
  induction codes with
  | nil => exact hlast.append Pushes.nil gap
  | cons first rest ih =>
    rw [List.forall_mem_cons] at h
    have happend := h.1.append (ih h.2) gap
    rwa [List.append_nil] at happend

/-- An array literal leaves its address. -/
theorem Pushes.arrayOf (hmemory : c.interface.memory = true) (base : UInt32) (total : Nat)
    {stores : List Code} (h : ∀ code ∈ stores, code.Pushes c []) :
    (Emit.arrayOf base total stores).Pushes c [.i32] := by
  have hstore : Op.storeInt.signature? c = some ([.i32, .i32], none) := if_pos hmemory
  refine Pushes.join_append_singleton .space ?_ (.address _)
  intro code hcode
  rcases List.mem_cons.1 hcode with rfl | hcode
  · exact .binary hstore (.address _) (.address _)
  · exact h code hcode

/-! ## Expressions -/

/-- The code of an expression of a kind leaves values on the stack, and on top of them one of the
kind's machine type if the expression has a value. -/
def Typed (c : Context) (code : Code) (kind : Option Kind) (l : Leaving) : Prop :=
  ∃ (top : Option ValType) (beneath : List ValType),
    top.isSome = l.value ∧ beneath.length = l.beneath ∧
    (l.value = true → top = kind.map Kind.valType) ∧ code.Pushes c (top.toList ++ beneath)

namespace Typed

variable {kind : Option Kind} {l : Leaving}

/-- The code of an expression with a value. -/
theorem of_value {k : Kind} {n : Nat} (hkind : kind = some k) (hlength : beneath.length = n)
    (h : code.Pushes c (k.valType :: beneath)) : Typed c code kind ⟨n, true⟩ :=
  ⟨some k.valType, beneath, rfl, hlength, fun _ => by rw [hkind]; rfl, h⟩

/-- The code of an expression without a value. -/
theorem of_nothing {n : Nat} (hlength : beneath.length = n) (h : code.Pushes c beneath) :
    Typed c code kind ⟨n, false⟩ :=
  ⟨none, beneath, rfl, hlength, fun hvalue => absurd hvalue Bool.false_ne_true, h⟩

/-- An expression with a value has a kind, and its code leaves a value of the kind's machine type on
top. -/
theorem top (h : Typed c code kind l) (hvalue : l.value = true) :
    ∃ k beneath, kind = some k ∧ beneath.length = l.beneath ∧
      code.Pushes c (k.valType :: beneath) := by
  obtain ⟨top, beneath, hsome, hlength, htop, hpushes⟩ := h
  cases kind with
  | none =>
    rw [htop hvalue, hvalue] at hsome
    cases hsome
  | some k =>
    refine ⟨k, beneath, rfl, hlength, ?_⟩
    rw [htop hvalue] at hpushes
    exact hpushes

/-- An expression that leaves a single value. -/
theorem single (h : Typed c code kind l) (hl : l = .single) :
    ∃ k, kind = some k ∧ code.Pushes c [k.valType] := by
  subst hl
  obtain ⟨k, beneath, hkind, hlength, hpushes⟩ := h.top rfl
  rw [List.length_eq_zero_iff.1 hlength] at hpushes
  exact ⟨k, hkind, hpushes⟩

/-- The values that an expression leaves. -/
theorem pushes (h : Typed c code kind l) :
    ∃ types : List ValType, types.length = l.count ∧ code.Pushes c types := by
  obtain ⟨top, beneath, hsome, hlength, _, hpushes⟩ := h
  refine ⟨_, ?_, hpushes⟩
  rw [List.length_append, hlength, Leaving.count, Nat.add_comm, ← hsome]
  cases top <;> rfl

end Typed

section List

variable {w : Setting} {es : List (Expr Frame)} {codes : List Code}

/-- The code of a list leaves what the codes of its members leave; its value is that of the last. -/
theorem typed_join (gap : Gap)
    (h : List.Forall₂ (fun e code => Typed c code (e.kind w.env) (e.leaves w)) es codes) :
    Typed c (join gap codes) (Expr.lastKind w.env es) (Expr.leavesList w es) := by
  induction h with
  | nil => exact .of_nothing rfl .nil
  | @cons e code es codes he hrest ih =>
    cases hrest with
    | nil =>
      obtain ⟨top, beneath, hsome, hlength, htop, hpushes⟩ := he
      exact ⟨top, beneath, hsome, hlength, htop, hpushes.append .nil gap⟩
    | cons hnext hrest =>
      -- every member but the last leaves all its values beneath those of the rest
      obtain ⟨types, hcount, hfirst⟩ := he.pushes
      obtain ⟨top, beneath, hsome, hlength, htop, hpushes⟩ := ih
      refine ⟨top, beneath ++ types, hsome, ?_, htop, ?_⟩
      · rw [List.length_append, hlength, hcount, Nat.add_comm]
        rfl
      · rw [← List.append_assoc]
        exact hfirst.append hpushes gap

/-- Codes of expressions leave some values one after another. -/
theorem pushes_flatten
    (h : List.Forall₂ (fun e code => Typed c code (e.kind w.env) (e.leaves w)) es codes) :
    ∃ types, Pushes c codes.flatten types := by
  induction h with
  | nil => exact ⟨[], .nil⟩
  | cons he _ ih =>
    obtain ⟨types, _, hfirst⟩ := he.pushes
    obtain ⟨types', hrest⟩ := ih
    exact ⟨_, hfirst.append_code hrest⟩

end List

end Code

/-- A function is accepted whose body leaves a value if there is a result. -/
theorem Emit.Header.accepted_func {i : Interface} {header : Header}
    {params locals : List (String × ValType)} {first second : Code} {kind : Option Kind}
    {l : Leaving} {types : List ValType} (hnames : ((params ++ locals).map Prod.fst).Nodup)
    (hfirst : first.Pushes
      ((header.func params locals first (header.fit kind second)).context i) types)
    (hsecond : second.Typed
      ((header.func params locals first (header.fit kind second)).context i) kind l)
    (hresult : header.result.isSome = true → l.value = true) :
    (header.func params locals first (header.fit kind second)).Accepted i := by
  have hbody : ∃ beneath, (header.fit kind second).Pushes
      ((header.func params locals first (header.fit kind second)).context i)
      ((header.result.map Kind.valType).toList ++ beneath) := by
    generalize (header.func params locals first (header.fit kind second)).context i = c at hsecond ⊢
    unfold fit
    cases hheader : header.result with
    | none =>
      obtain ⟨types, _, hpushes⟩ := hsecond.pushes
      exact ⟨types, hpushes⟩
    | some result =>
      obtain ⟨k, beneath, rfl, _, hpushes⟩ := hsecond.top (hresult (by rw [hheader]; rfl))
      refine ⟨beneath, ?_⟩
      dsimp only
      -- a body that leaves a value is not empty, so it is converted
      rw [if_neg (by simpa using hpushes.ne_nil)]
      exact hpushes.fit result.valType
  obtain ⟨beneath, hbody⟩ := hbody
  exact Func.accepted_of_pushes hnames rfl hfirst hbody

end PatchCompiler
