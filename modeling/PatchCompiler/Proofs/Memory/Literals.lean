import PatchCompiler.Proofs.Emission.Visits
import PatchCompiler.Proofs.Memory.Stores

/-! # Array literals and their code

The members of an array literal take slots one behind the other, and fixed ranges tell how many.
`Expr.writtenFrom` lists the slots that are written. In code, an array literal is recognised by its
form: the number of elements is stored in front of the array, then come the stores of the elements,
and the address of the array is left as the value. `Code.arrayCodes` lists the pieces of this form.
Main statement: a code that the compiler writes is closed, that is, no such piece reaches over its
end, so that the pieces of a function are those of its parts. -/

namespace PatchCompiler

/-! ## Literals -/

/-- The members of an array literal. -/
def Expr.members? : Expr Frame → Option (List (Expr Frame))
  | .mk (.array members) _ _ => some members
  | _ => none

/-- The members of an array literal that the compiler comes to. -/
def Visit.members? (v : Visit) : Option (List (Expr Frame)) := v.expr.members?

/-- The array literals of a task, each by its members, in the order in which the compiler comes to
them. -/
def Task.literals (env : Env) (task : Task) : List (List (Expr Frame)) :=
  (task.visits env).filterMap Visit.members?

/-- The array literals of a program, each by its members, in the order in which the compiler comes
to them. -/
def Program.literals (p : Program) : List (List (Expr Frame)) := p.visits.filterMap Visit.members?

/-- The array literals in the members of an array literal can be read off its layout. -/
theorem literals_of_classified {env : Env} {members : List (Expr Frame)} {layout : List Member}
    (h : List.Forall₂ (fun e m => Member.ofOperand (e.kind env) ⟨e, e.emit⟩ = .ok m)
      members layout) :
    (Expr.visitsList env (Member.exprs layout)).filterMap Visit.members?
      = (Expr.visitsList env members).filterMap Visit.members? := by
  rw [Expr.visitsList_eq_flatMap, Expr.visitsList_eq_flatMap, List.filterMap_flatMap,
    List.filterMap_flatMap]
  exact Member.flatMap_exprs _ (fun e he => by cases he <;> rfl) h

/-- The array literals of an assignment: those of the value come first. -/
theorem literals_assign (env : Env) (name : Option String) (target value : Expr Frame)
    (ty : Option Kind) (span : Span) :
    Task.literals env (.expr (.mk (.assign target value) ty span) name)
      = Task.literals env (.expr value (if value.isFunction then target.identifier? else none))
        ++ (target.visits env none ++ target.visitsAgain env).filterMap Visit.members? := by
  rw [Task.literals, Task.visits, Expr.visits, Node.visits]
  exact List.filterMap_append

/-- The array literals in the target of an element store: the array is compiled twice. -/
theorem literals_of_position {env : Env} {target array : Expr Frame} {p : Position}
    (h : target.position? = some (array, p)) :
    (target.visits env none ++ target.visitsAgain env).filterMap Visit.members?
      = Task.literals env (.expr array none) ++ (Task.literals env (.position p)
        ++ Task.literals env (.expr array none)) := by
  cases Expr.locates_of_position h with
  | element =>
    simp [Expr.visits, Node.visits, Expr.visitsOption, Expr.visitsAgain, Visit.with,
      Expr.isFunction, List.filterMap_cons, Visit.members?,
      Expr.members?, Task.literals, Task.visits]
  | field =>
    simp [Expr.visits, Node.visits, Expr.visitsAgain, Visit.with, Expr.isFunction,
      List.filterMap_cons, Visit.members?,
      Expr.members?, Task.literals, Task.visits]

/-! ## Slots of members -/

/-- Whether an expression is a range. -/
def Expr.isRange : Expr Frame → Bool
  | .mk (.range ..) _ _ => true
  | _ => false

/-- Number of slots of a member of an array literal. -/
def Expr.slots : Expr Frame → Nat
  | .mk (.range (some (.mk (.intLit low) _ _)) (some (.mk (.intLit high) _ _))) _ _ =>
    (high.toInt - low.toInt + 1).toNat
  | .mk (.range none (some (.mk (.intLit high) _ _))) _ _ => high.toInt.toNat
  | _ => 1

/-- Number of slots of a member of an array literal that are written. -/
def Expr.written : Expr Frame → Nat
  | .mk (.range none _) _ _ => 0
  | e => e.slots

/-- The slots that the members of an array literal write, if they take the slots from one on. -/
def Expr.writtenFrom : (slot : Nat) → List (Expr Frame) → List Nat
  | _, [] => []
  | slot, e :: rest => List.range' slot e.written ++ writtenFrom (slot + e.slots) rest

/-- A member writes all of its slots or none. -/
theorem Expr.written_le_slots (e : Expr Frame) : e.written ≤ e.slots := by
  unfold Expr.written
  split
  · exact Nat.zero_le _
  · exact Nat.le_refl _

/-- Members write slots that they take. -/
theorem Expr.lt_of_mem_writtenFrom {slot i : Nat} {members : List (Expr Frame)}
    (h : i ∈ writtenFrom slot members) : i < slot + (members.map Expr.slots).sum := by
  induction members generalizing slot with
  | nil => cases h
  | cons e rest ih =>
    rw [List.map_cons, List.sum_cons]
    rcases List.mem_append.1 h with h | h
    · have hle := e.written_le_slots
      have hlt := (List.mem_range'_1.1 h).2
      omega
    · have hlt := ih h
      omega

namespace Member

/-- Number of slots of a member that are written. -/
def written : Member → Nat
  | .value _ => 1
  | .ints low high => (intRange low high).length
  | .reserve _ => 0

/-- How many slots a member has, and how many are written, can be read off its expression. -/
theorem counts_of_ofOperand {kind : Option Kind} {e : Expr Frame}
    {code : Option String → Emit Code} {m : Member} (h : ofOperand kind ⟨e, code⟩ = .ok m)
    (hvalue : ∀ operand, m = .value operand → e.isRange = false) :
    m.written = e.written ∧ (m.slots.toNat < maxSlots → m.slots.toNat = e.slots) := by
  rcases ofOperand_cases h with rfl | ⟨hrange, hne⟩
  · have hnot := hvalue _ rfl
    obtain ⟨node, ty, span⟩ := e
    cases node with
    | range start stop => cases hnot
    | _ => exact ⟨rfl, fun _ => rfl⟩
  -- the other members are ranges, whose two forms have fixed counts of their own
  · unfold ofOperand at h
    split at h
    · cases h; exact absurd rfl (hne _)
    · cases h; exact absurd rfl (hne _)
    · cases hrange with
      | between =>
        cases h
        refine ⟨length_intRange _ _, fun hlt => ?_⟩
        rw [slots_ints_of_lt hlt, length_intRange]
        rfl
      | upTo =>
        cases h
        exact ⟨rfl, fun _ => Word.toNat_max_zero _⟩
    · cases h

variable {env : Env} {members : List (Expr Frame)} {layout : List Member}

/-- What is true of each member that is stored as a number is true of the first one, if it is one,
and of the others. -/
theorem not_range_cons {e : Expr Frame} {m : Member}
    (hm : ofOperand (e.kind env) ⟨e, e.emit⟩ = .ok m)
    (h : ∀ x ∈ Member.exprs (m :: layout), x.isRange = false) :
    (∀ operand, m = .value operand → e.isRange = false) ∧
      ∀ x ∈ Member.exprs layout, x.isRange = false := by
  constructor
  · rintro operand rfl
    rcases ofOperand_cases hm with heq | ⟨_, hne⟩
    · cases heq
      exact h e List.mem_cons_self
    · exact absurd rfl (hne operand)
  · intro x hx
    refine h x ?_
    cases m with
    | value operand => exact List.mem_cons_of_mem _ hx
    | ints low high => exact hx
    | reserve count => exact hx

/-- How many slots an array literal has, and how many are written, can be read off its members. -/
theorem counts_of_classified
    (h : List.Forall₂ (fun e m => ofOperand (e.kind env) ⟨e, e.emit⟩ = .ok m) members layout)
    (hvalues : ∀ e ∈ Member.exprs layout, e.isRange = false) (htotal : total layout < maxSlots) :
    total layout = (members.map Expr.slots).sum ∧
      (layout.map written).sum = (members.map Expr.written).sum := by
  induction h with
  | nil => exact ⟨rfl, rfl⟩
  | @cons e m members layout hm _ ih =>
    rw [total_cons] at htotal ⊢
    obtain ⟨hvalue, hrest⟩ := not_range_cons hm hvalues
    obtain ⟨hwritten, hslots⟩ := counts_of_ofOperand hm hvalue
    -- a bound on the whole layout bounds each member, so every count is exact
    obtain ⟨htotal', hwritten'⟩ := ih hrest (by omega)
    refine ⟨?_, ?_⟩
    · rw [hslots (by omega), htotal', List.map_cons, List.sum_cons]
    · rw [List.map_cons, List.sum_cons, hwritten, hwritten', List.map_cons, List.sum_cons]

end Member

/-- The members of an array that are stored as numbers are no ranges. -/
theorem Emits.not_range {s s' : State} {base : UInt32} {slot : Nat} {layout : List Member}
    {codes : List Code} (h : Emits s (.members base slot layout) codes s') :
    ∀ e ∈ Member.exprs layout, e.isRange = false := by
  induction layout generalizing s slot codes with
  | nil => intro e he; cases he
  | cons m rest ih =>
    cases h with
    | @memberInt _ _ _ _ operand _ _ _ hv hrest =>
      obtain ⟨⟨node, ty, span⟩, emitted⟩ := operand
      cases hv
      exact List.forall_mem_cons.2 ⟨rfl, ih hrest⟩
    | @memberValue _ _ _ _ _ operand _ _ _ _ he hrest =>
      refine List.forall_mem_cons.2 ⟨?_, ih hrest⟩
      obtain ⟨⟨node, ty, span⟩, emitted⟩ := operand
      cases node with
      -- a range on its own has no code, so none can have been brought to a machine type
      | range start stop =>
        cases he with
        | operand he => cases he
      | _ => rfl
    | memberInts hrest => exact ih hrest
    | memberReserve hrest => exact ih hrest

/-! ## Stores of members -/

/-- The store of an element of the array at an address; addresses wrap. -/
def FixedStore.element (base : UInt32) (slot : Nat) : FixedStore :=
  ⟨Emit.slotAddress base slot % UInt32.size, 8⟩

/-- An element within the address space is stored where its slot is. -/
theorem FixedStore.element_eq {base : UInt32} {slot : Nat}
    (h : base.toNat + slotBytes * slot < UInt32.size) :
    FixedStore.element base slot = ⟨base.toNat + slotBytes * slot, 8⟩ := by
  rw [FixedStore.element, Emit.slotAddress, Nat.mod_eq_of_lt h]

/-- The address of a slot is fixed. -/
theorem FixedStore.ofOperands_slot (base : UInt32) (slot : Nat) (rest : List Code) :
    ofOperands 8 (Emit.address (Emit.slotAddress base slot) :: rest) = [.element base slot] := by
  show [(⟨_, _⟩ : FixedStore)] = [⟨_, _⟩]
  rw [toNat_toUInt32_ofInt]

namespace Member

/-- The stores of the members of the array at an address, from a slot on. -/
def stores (base : UInt32) : (slot : Nat) → List Member → List FixedStore
  | _, [] => []
  | slot, .value _ :: rest => .element base slot :: stores base (slot + 1) rest
  | slot, .ints low high :: rest =>
    (List.range (intRange low high).length).map (fun i => .element base (slot + i))
      ++ stores base (slot + (intRange low high).length) rest
  | slot, .reserve count :: rest => stores base (slot + count.toNat) rest

/-- A member stores the slots that it writes, and the others come behind all of its slots. -/
theorem stores_cons (base : UInt32) (slot : Nat) (m : Member) (rest : List Member)
    (h : m.slots.toNat < maxSlots) :
    stores base slot (m :: rest)
      = (List.range' slot m.written).map (.element base)
        ++ stores base (slot + m.slots.toNat) rest := by
  cases m with
  | value operand => rfl
  | ints low high =>
    rw [stores, written, slots_ints_of_lt h, List.range'_eq_map_range, List.map_map]
    rfl
  | reserve count => rfl

/-- Members that end within the address space are stored in the slots that are read off them. -/
theorem stores_of_classified {env : Env} {members : List (Expr Frame)} {layout : List Member}
    {base : UInt32} {slot : Nat}
    (h : List.Forall₂ (fun e m => ofOperand (e.kind env) ⟨e, e.emit⟩ = .ok m) members layout)
    (hvalues : ∀ e ∈ Member.exprs layout, e.isRange = false)
    (hend : base.toNat + slotBytes * (slot + total layout) < UInt32.size) :
    stores base slot layout
      = (Expr.writtenFrom slot members).map fun i => ⟨base.toNat + slotBytes * i, 8⟩ := by
  have hbytes : slotBytes = 8 := rfl
  induction h generalizing slot with
  | nil => rfl
  | @cons e m members layout hm _ ih =>
    obtain ⟨hvalue, hrest⟩ := not_range_cons hm hvalues
    obtain ⟨hwritten, hslots⟩ := counts_of_ofOperand hm hvalue
    rw [total_cons, hbytes] at hend
    -- the number of slots of a member is cut at a bound that does not fit into memory
    have hlt : m.slots.toNat < maxSlots := by
      have hsize : UInt32.size = 4294967296 := rfl
      rw [maxSlots]
      omega
    have hslots := hslots hlt
    rw [hslots] at hend
    have hends : base.toNat + slotBytes * (slot + e.slots + total layout) < UInt32.size := by
      rw [hbytes]
      omega
    rw [stores_cons base slot m layout hlt, Expr.writtenFrom, List.map_append, hwritten, hslots,
      ih hrest hends]
    congr 1
    refine List.map_congr_left fun i hi => FixedStore.element_eq ?_
    have hle := e.written_le_slots
    have hi := (List.mem_range'_1.1 hi).2
    rw [hbytes]
    omega

end Member

/-! ## The code of an array literal -/

/-- What the code of an array literal does. -/
structure ArrayCode where
  /-- The store of the number of elements. -/
  header : FixedStore
  /-- The number that is stored. -/
  count : Nat
  /-- The stores of the elements. -/
  elements : List FixedStore
  /-- The address that is left as the value. -/
  address : Nat
  deriving DecidableEq, Repr

/-- All stores of the code of an array literal. -/
def ArrayCode.stores (c : ArrayCode) : List FixedStore := c.header :: c.elements

namespace Instr

/-- The unsigned number that an instruction is a constant of. -/
def constant? : Instr → Option Nat
  | .node (.constInt value) [] => some value.toUInt32.toNat
  | _ => none

/-- The store of an element at a fixed address. -/
def element? : Instr → Option FixedStore
  | .node .storeFloat operands => (FixedStore.ofOperands 8 operands).head?
  | _ => none

/-- Whether an instruction stores an element at a fixed address. -/
def isElement (i : Instr) : Bool := i.element?.isSome

/-- The store of a fixed number at a fixed address, and the number. -/
def header? : Instr → Option (FixedStore × Nat)
  | .node .storeInt operands => do
    let store ← (FixedStore.ofOperands 4 operands).head?
    let count ← operands[1]?.bind Code.constant?
    return (store, count.toUInt32.toNat)
  | _ => none

end Instr

/-- The code of an array literal that a run of instructions begins with. It reaches from the store
of the number of elements over the stores of elements to the address of the array. -/
def ArrayCode.atHead? : List Instr → Option ArrayCode
  | [] => none
  | first :: rest => do
    let (header, count) ← first.header?
    let last ← (rest.dropWhile Instr.isElement).head?
    let address ← last.constant?
    return ⟨header, count, (rest.takeWhile Instr.isElement).filterMap Instr.element?, address⟩

mutual

/-- The codes of array literals in the operands of an instruction. -/
def Instr.arrayCodes : Instr → List ArrayCode
  | .node _ operands => Instr.arrayCodesOperands operands

/-- The codes of array literals in a list of operands. -/
def Instr.arrayCodesOperands : List (List (Gap × Instr)) → List ArrayCode
  | [] => []
  | operand :: rest => Instr.arrayCodesRun operand ++ Instr.arrayCodesOperands rest

/-- The codes of array literals in a run of instructions. -/
def Instr.arrayCodesRun : List (Gap × Instr) → List ArrayCode
  | [] => []
  | (_, i) :: rest =>
    (ArrayCode.atHead? (i :: rest.map Prod.snd)).toList
      ++ (i.arrayCodes ++ Instr.arrayCodesRun rest)

end

namespace Code

/-- The instructions of a code. -/
def instrs (code : Code) : List Instr := code.map Prod.snd

/-- The codes of array literals in a code, in the order in which they begin. -/
def arrayCodes (code : Code) : List ArrayCode := Instr.arrayCodesRun code

/-- No code of an array literal reaches over the end of a code. -/
def Closed (code : Code) : Prop :=
  ∀ rest : Code, arrayCodes (code ++ rest) = code.arrayCodes ++ rest.arrayCodes

/-- Empty code has no instructions. -/
@[simp] theorem instrs_nil : instrs [] = [] := rfl

/-- A single instruction is the only one of its code. -/
@[simp] theorem instrs_one (op : Op) (operands : List Code) :
    (one op operands).instrs = [.node op operands] := rfl

/-- The instructions of two codes follow each other. -/
@[simp] theorem instrs_append_code (first second : Code) :
    instrs (first ++ second) = first.instrs ++ second.instrs := List.map_append

/-- The gap in front of code does not matter to its instructions. -/
@[simp] theorem instrs_lead (gap : Gap) (code : Code) : (code.lead gap).instrs = code.instrs := by
  cases code <;> rfl

/-- The instructions of two codes with a gap between them follow each other. -/
@[simp] theorem instrs_append (gap : Gap) (first second : Code) :
    (append gap first second).instrs = first.instrs ++ second.instrs := by
  unfold append
  cases first with
  | nil => rfl
  | cons i rest =>
    rw [List.isEmpty_cons, if_neg Bool.false_ne_true, instrs_append_code, instrs_lead]

/-- The instructions of codes that are joined follow each other. -/
@[simp] theorem instrs_join (gap : Gap) (codes : List Code) :
    (join gap codes).instrs = codes.flatMap instrs := by
  induction codes with
  | nil => rfl
  | cons code rest ih => rw [join, instrs_append, ih, List.flatMap_cons]

/-- Empty code holds no array literal. -/
@[simp] theorem arrayCodes_nil : arrayCodes [] = [] := rfl

/-- An array literal begins with the first instruction, or is within it, or in the rest. -/
theorem arrayCodes_cons (gap : Gap) (i : Instr) (rest : Code) :
    arrayCodes ((gap, i) :: rest)
      = (ArrayCode.atHead? (i :: rest.instrs)).toList ++ (i.arrayCodes ++ rest.arrayCodes) := rfl

/-- The gaps of a code do not matter. -/
theorem arrayCodes_lead_append (gap : Gap) (code rest : Code) :
    arrayCodes (code.lead gap ++ rest) = arrayCodes (code ++ rest) := by
  cases code <;> rfl

/-- The gap in front of code does not matter to its array literals. -/
@[simp] theorem arrayCodes_lead (gap : Gap) (code : Code) :
    (code.lead gap).arrayCodes = code.arrayCodes := by
  cases code <;> rfl

/-- The operands of an instruction are read one after another. -/
theorem arrayCodesOperands_eq (operands : List Code) :
    Instr.arrayCodesOperands operands = operands.flatMap arrayCodes := by
  induction operands with
  | nil => rfl
  | cons operand rest ih =>
    show arrayCodes operand ++ Instr.arrayCodesOperands rest = _
    rw [ih, List.flatMap_cons]

/-- The codes of array literals at an instruction that stores no integer are those of its
operands. -/
theorem arrayCodes_one_append {op : Op} (h : op ≠ .storeInt) (operands : List Code) (rest : Code) :
    arrayCodes (one op operands ++ rest) = operands.flatMap arrayCodes ++ rest.arrayCodes := by
  have hhead : (Instr.node op operands).header? = none := by
    cases op with
    | storeInt => exact absurd rfl h
    | _ => rfl
  have hnone : ArrayCode.atHead? (.node op operands :: rest.instrs) = none := by
    rw [ArrayCode.atHead?, hhead]
    rfl
  show arrayCodes ((.tight, .node op operands) :: rest) = _
  rw [arrayCodes_cons, hnone, Instr.arrayCodes, arrayCodesOperands_eq]
  rfl

/-- An instruction that does not store an integer holds the array literals of its operands. -/
@[simp] theorem arrayCodes_one {op : Op} (h : op ≠ .storeInt) (operands : List Code) :
    (one op operands).arrayCodes = operands.flatMap arrayCodes := by
  have hone := arrayCodes_one_append h operands []
  rwa [List.append_nil, arrayCodes_nil, List.append_nil] at hone

/-- Empty code is closed. -/
theorem closed_nil : Closed [] := fun _ => rfl

/-- An instruction that does not store an integer is closed. -/
theorem closed_one {op : Op} (h : op ≠ .storeInt) (operands : List Code) :
    (one op operands).Closed := by
  intro rest
  rw [arrayCodes_one_append h, arrayCodes_one h]

variable {first second code : Code} {codes : List Code}

/-- Two closed codes one after another are closed. -/
theorem Closed.append_code (h : first.Closed) (h' : second.Closed) : Closed (first ++ second) := by
  intro rest
  rw [List.append_assoc, h, h', h, List.append_assoc]

/-- The gap in front of closed code leaves it closed. -/
theorem Closed.lead (h : code.Closed) (gap : Gap) : (code.lead gap).Closed := by
  intro rest
  rw [arrayCodes_lead_append, h, arrayCodes_lead]

/-- Two closed codes with a gap between them are closed. -/
theorem Closed.append (h : first.Closed) (h' : second.Closed) (gap : Gap) :
    (Code.append gap first second).Closed := by
  unfold Code.append
  split
  · exact h'
  · exact h.append_code (h'.lead gap)

/-- Closed codes that are joined are closed. -/
theorem closed_join (h : ∀ code ∈ codes, code.Closed) (gap : Gap) : (join gap codes).Closed := by
  induction codes with
  | nil => exact closed_nil
  | cons code rest ih =>
    obtain ⟨hcode, hrest⟩ := List.forall_mem_cons.1 h
    exact hcode.append (ih hrest) gap

/-- Closed codes one after another are closed. -/
theorem closed_flatten (h : ∀ code ∈ codes, code.Closed) : Closed codes.flatten := by
  induction codes with
  | nil => exact closed_nil
  | cons code rest ih =>
    obtain ⟨hcode, hrest⟩ := List.forall_mem_cons.1 h
    exact hcode.append_code (ih hrest)

/-- The array literals of a closed code and of one behind a gap follow each other. -/
theorem arrayCodes_append (h : first.Closed) (gap : Gap) (second : Code) :
    (Code.append gap first second).arrayCodes = first.arrayCodes ++ second.arrayCodes := by
  unfold Code.append
  cases first with
  | nil => rfl
  | cons i rest =>
    rw [List.isEmpty_cons, if_neg Bool.false_ne_true, h, arrayCodes_lead]

/-- The codes of array literals in closed codes that follow each other are those of each of them. -/
theorem arrayCodes_join (h : ∀ code ∈ codes, code.Closed) (gap : Gap) :
    (join gap codes).arrayCodes = codes.flatMap arrayCodes := by
  induction codes with
  | nil => rfl
  | cons code rest ih =>
    obtain ⟨hcode, hrest⟩ := List.forall_mem_cons.1 h
    rw [join, arrayCodes_append hcode, ih hrest, List.flatMap_cons]

/-- The array literals of closed codes follow each other. -/
theorem arrayCodes_flatten (h : ∀ code ∈ codes, code.Closed) :
    arrayCodes codes.flatten = codes.flatMap arrayCodes := by
  induction codes with
  | nil => rfl
  | cons code rest ih =>
    obtain ⟨hcode, hrest⟩ := List.forall_mem_cons.1 h
    rw [List.flatten_cons, hcode, ih hrest, List.flatMap_cons]

/-- Empty codes that are left out held no array literals. -/
@[simp] theorem flatMap_arrayCodes_filter (codes : List Code) :
    (codes.filter (!·.isEmpty)).flatMap arrayCodes = codes.flatMap arrayCodes :=
  flatMap_filter_nonempty arrayCodes_nil codes

/-- An integer constant holds no array literal. -/
@[simp] theorem arrayCodes_int (value : Int32) : (int value).arrayCodes = [] := rfl

/-- A floating-point constant holds no array literal. -/
@[simp] theorem arrayCodes_float (value : Binary64) : (float value).arrayCodes = [] := rfl

/-- An integer constant is closed. -/
theorem closed_int (value : Int32) : (int value).Closed := closed_one (by simp) []

/-- A floating-point constant is closed. -/
theorem closed_float (value : Binary64) : (float value).Closed := closed_one (by simp) []

end Code

/-! ## Codes of an array literal -/

/-- Stores of elements that are followed by the address of the array are the code of an array
literal with the store of the number of elements in front of them. -/
theorem ArrayCode.atHead?_eq {first last : Instr} {elements rest : List Instr}
    {header : FixedStore} {count address : Nat} {stores : List FixedStore}
    (hfirst : first.header? = some (header, count))
    (helements : elements.map Instr.element? = stores.map some) (hlast : last.element? = none)
    (haddress : last.constant? = some address) :
    atHead? (first :: (elements ++ last :: rest)) = some ⟨header, count, stores, address⟩ := by
  have hall : ∀ i ∈ elements, i.isElement = true := by
    intro i hi
    have hmem : i.element? ∈ stores.map some := helements ▸ List.mem_map_of_mem hi
    obtain ⟨store, _, hstore⟩ := List.mem_map.1 hmem
    rw [Instr.isElement, ← hstore]
    rfl
  have hstop : ¬ last.isElement = true := by
    rw [Instr.isElement, hlast]
    exact Bool.false_ne_true
  have hstores : elements.filterMap Instr.element? = stores :=
    calc elements.filterMap Instr.element?
      _ = (elements.map Instr.element?).filterMap id := by rw [List.filterMap_map]; rfl
      _ = (stores.map some).filterMap id := by rw [helements]
      _ = stores := by simp
  rw [atHead?, hfirst, List.takeWhile_append_of_pos hall, List.dropWhile_append_of_pos hall,
    List.takeWhile_cons_of_neg hstop, List.dropWhile_cons_of_neg hstop, List.append_nil, hstores]
  simp [haddress]

/-- The code of an array literal is recognised, with those in its members. -/
theorem arrayCodes_arrayOf_append {base : UInt32} {count : Nat} {codes : List Code}
    {stores : List FixedStore} (hcount : count < UInt32.size)
    (hstores : (codes.flatMap Code.instrs).map Instr.element? = stores.map some)
    (hclosed : ∀ code ∈ codes, code.Closed) (rest : Code) :
    Code.arrayCodes (Emit.arrayOf base count codes ++ rest)
      = ⟨⟨base.toNat - slotBytes, 4⟩, count, stores, base.toNat⟩
        :: (codes.flatMap Code.arrayCodes ++ rest.arrayCodes) := by
  have haddress (a : Nat) (ha : a < UInt32.size) : (Int32.ofInt (a : Int)).toUInt32.toNat = a := by
    rw [toNat_toUInt32_ofInt, Nat.mod_eq_of_lt ha]
  -- the code is the store of the number of elements in front of closed codes
  obtain ⟨operands, hheader, hoperands⟩ : ∃ operands : List Code,
      (Instr.node .storeInt operands).header? = some (⟨base.toNat - slotBytes, 4⟩, count) ∧
        operands = [Emit.address (base.toNat - slotBytes), Emit.address count] := by
    refine ⟨_, ?_, rfl⟩
    show some ((⟨_, 4⟩ : FixedStore), _) = some (⟨_, 4⟩, _)
    rw [haddress _ (Nat.lt_of_le_of_lt (Nat.sub_le _ _) base.toNat_lt), haddress _ hcount]
  have hsplit : Emit.arrayOf base count codes = (.tight, .node .storeInt operands)
      :: (Code.join .space (codes ++ [Emit.address base.toNat])).lead .space := by
    rw [hoperands]
    rfl
  have htail : ∀ code ∈ codes ++ [Emit.address base.toNat], code.Closed :=
    List.forall_mem_append.2 ⟨hclosed, List.forall_mem_singleton.2 (Code.closed_int _)⟩
  have hrun : Code.instrs ((Code.join .space (codes ++ [Emit.address base.toNat])).lead .space
      ++ rest) = codes.flatMap Code.instrs
        ++ .node (.constInt (Int32.ofInt base.toNat)) [] :: rest.instrs := by
    simp [Emit.address, Code.int]
  have hlast : Instr.constant? (.node (.constInt (Int32.ofInt base.toNat)) []) = some base.toNat :=
    congrArg some (haddress _ base.toNat_lt)
  rw [hsplit, List.cons_append, Code.arrayCodes_cons, hrun,
    ArrayCode.atHead?_eq hheader hstores rfl hlast, Code.arrayCodes_lead_append,
    Code.closed_join htail, Code.arrayCodes_join htail, hoperands]
  simp [Emit.address, Instr.arrayCodes, Code.arrayCodesOperands_eq]

/-- An array literal whose members are stores of elements is recognised as a whole. -/
theorem arrayCodes_arrayOf {base : UInt32} {count : Nat} {codes : List Code}
    {stores : List FixedStore} (hcount : count < UInt32.size)
    (hstores : (codes.flatMap Code.instrs).map Instr.element? = stores.map some)
    (hclosed : ∀ code ∈ codes, code.Closed) :
    (Emit.arrayOf base count codes).arrayCodes
      = ⟨⟨base.toNat - slotBytes, 4⟩, count, stores, base.toNat⟩
        :: codes.flatMap Code.arrayCodes := by
  have happend := @arrayCodes_arrayOf_append base count codes stores hcount hstores hclosed []
  rwa [List.append_nil, Code.arrayCodes_nil, List.append_nil] at happend

/-- An array literal whose members are stores of elements ends with its address. -/
theorem closed_arrayOf {base : UInt32} {count : Nat} {codes : List Code}
    {stores : List FixedStore} (hcount : count < UInt32.size)
    (hstores : (codes.flatMap Code.instrs).map Instr.element? = stores.map some)
    (hclosed : ∀ code ∈ codes, code.Closed) : (Emit.arrayOf base count codes).Closed := by
  intro rest
  rw [arrayCodes_arrayOf_append hcount hstores hclosed, arrayCodes_arrayOf hcount hstores hclosed,
    List.cons_append]

/-- The members of an array are compiled to stores of elements. -/
theorem Emits.map_element? {s s' : State} {base : UInt32} {slot : Nat} {layout : List Member}
    {codes : List Code} (h : Emits s (.members base slot layout) codes s') :
    (codes.flatMap Code.instrs).map Instr.element?
      = (Member.stores base slot layout).map some := by
  have hslot (slot : Nat) (value : Code) :
      (Emit.storeSlot base slot value).instrs.map Instr.element?
        = [some (.element base slot)] := by
    rw [Emit.storeSlot, Code.instrs_one, List.map_singleton, Instr.element?,
      FixedStore.ofOperands_slot]
    rfl
  induction layout generalizing s slot codes with
  | nil =>
    cases h
    rfl
  | cons m rest ih =>
    cases h with
    | memberInt _ hrest | memberValue _ _ hrest =>
      rw [List.flatMap_cons, List.map_append, hslot, ih hrest]
      rfl
    | @memberInts _ _ _ _ low high _ codes hrest =>
      -- each integer of the range takes one slot
      have hints {store : Int32 × Nat → Code}
          (hstore : ∀ value i, (store (value, i)).instrs.map Instr.element?
            = [some (.element base (slot + i))]) (values : List Int32) (k : Nat) :
          ((values.zipIdx k).map store).flatMap (fun code => code.instrs.map Instr.element?)
            = (List.range' k values.length).map fun i => some (.element base (slot + i)) := by
        induction values generalizing k with
        | nil => rfl
        | cons value values ihv =>
          rw [List.zipIdx_cons, List.map_cons, List.flatMap_cons, hstore, ihv, List.length_cons,
            List.range'_succ]
          rfl
      rw [List.flatMap_append, List.map_append, ih hrest, List.map_flatMap,
        hints fun value i => hslot (slot + i) (.float (.ofInt32 value)),
        ← List.range_eq_range', Member.stores, List.map_append, List.map_map]
      rfl
    | memberReserve hrest => exact ih hrest

/-! ## Codes are closed -/

namespace Code

/-- A conversion holds the array literals of its code. -/
@[simp] theorem arrayCodes_apply (coercion : Coercion) (code : Code) :
    (coercion.apply code).arrayCodes = code.arrayCodes := by
  cases coercion <;> simp [Coercion.apply]

/-- A conversion of closed code is closed. -/
theorem Closed.apply {code : Code} (h : code.Closed) (coercion : Coercion) :
    (coercion.apply code).Closed := by
  cases coercion with
  | keep => exact h
  | convert => exact closed_one (by simp) _
  | truncate => exact closed_one (by simp) _

/-- Reading a variable holds no array literal. -/
@[simp] theorem arrayCodes_read (x : String) (v : Variable) :
    (Emit.read x v).arrayCodes = [] := by
  unfold Emit.read
  split <;> simp

/-- Reading a variable is closed. -/
theorem closed_read (x : String) (v : Variable) : (Emit.read x v).Closed := by
  unfold Emit.read
  split
  · exact closed_one (by simp) _
  · exact closed_one (by simp) _

/-- A store to a variable holds the array literals of its number. -/
@[simp] theorem arrayCodes_store (x : String) (v : Variable) (code : Code) (kind : Option Kind) :
    (Emit.store x v code kind).arrayCodes = code.arrayCodes := by
  unfold Emit.store
  split
  · refine (arrayCodes_one_append (by simp) _ _).trans ?_
    simp
  · simp

/-- A store to a variable is closed. -/
theorem closed_store (x : String) (v : Variable) (code : Code) (kind : Option Kind) :
    (Emit.store x v code kind).Closed := by
  unfold Emit.store
  split
  · exact (closed_one (by simp) _).append_code (closed_read x v)
  · exact closed_one (by simp) _

/-- A test holds the array literals of its number. -/
@[simp] theorem arrayCodes_testOf (kind : Option Kind) (code : Code) :
    (Emit.testOf kind code).arrayCodes = code.arrayCodes := by
  unfold Emit.testOf
  split <;> simp

/-- The length of an array holds the array literals of the array. -/
@[simp] theorem arrayCodes_loadLength (code : Code) :
    (Emit.loadLength code).arrayCodes = code.arrayCodes := by
  simp [Emit.loadLength, Emit.address]

/-- The store of an element holds the array literals of its operands. -/
@[simp] theorem arrayCodes_writeElement (array index again value : Code) :
    (Emit.writeElement array index again value).arrayCodes
      = array.arrayCodes ++ (index.arrayCodes ++ (again.arrayCodes ++ value.arrayCodes)) := by
  simp [Emit.writeElement]

/-- The store to a slot holds the array literals of its number. -/
@[simp] theorem arrayCodes_storeSlot (base : UInt32) (slot : Nat) (value : Code) :
    (Emit.storeSlot base slot value).arrayCodes = value.arrayCodes := by
  simp [Emit.storeSlot, Emit.address]

/-- A body that is brought to its result holds its own array literals. -/
@[simp] theorem arrayCodes_fit (header : Emit.Header) (kind : Option Kind) (code : Code) :
    (header.fit kind code).arrayCodes = code.arrayCodes := by
  unfold Emit.Header.fit
  split
  · split <;> simp
  · rfl

/-- A closed body that is brought to its result is closed. -/
theorem Closed.fit {code : Code} (h : code.Closed) (header : Emit.Header) (kind : Option Kind) :
    (header.fit kind code).Closed := by
  unfold Emit.Header.fit
  split
  · split
    · exact h
    · exact h.apply _
  · exact h

end Code

/-- The code that the compiler writes is closed. -/
theorem Emits.closed {s s' : State} {task : Task} {codes : List Code} (h : Emits s task codes s') :
    ∀ code ∈ codes, code.Closed := by
  induction h with
  | listNil | argsNil | membersNil | definition => intro code hcode; cases hcode
  | floatLit | negFloat => exact List.forall_mem_singleton.2 (Code.closed_float _)
  | intLit | negInt | fixed => exact List.forall_mem_singleton.2 (Code.closed_int _)
  | function => exact List.forall_mem_singleton.2 Code.closed_nil
  | ident =>
    refine List.forall_mem_singleton.2 ?_
    split
    · exact Code.closed_nil
    · exact Code.closed_read _ _
  | statements _ ih | sequence _ ih => exact List.forall_mem_singleton.2 (Code.closed_join ih _)
  | call | opposite | difference | clampInt | clampFloat | length | assignPart | loop | pairInt
  | pairFloat => exact List.forall_mem_singleton.2 (Code.closed_one (by simp) _)
  | step | compound | assignName => exact List.forall_mem_singleton.2 (Code.closed_store _ _ _ _)
  | block _ ih | binary _ _ ih | compare _ ih | assignFunction _ _ ih | computed _ ih
  | memberReserve _ ih => exact ih
  | array _ htotal _ _ hmembers ih =>
    exact List.forall_mem_singleton.2 (closed_arrayOf htotal hmembers.map_element? ih)
  | operand _ ih =>
    exact List.forall_mem_singleton.2 ((List.forall_mem_singleton.1 ih).apply _)
  | listCons _ _ ihe ihrest | argsFree _ _ ihe ihrest | argsCons _ _ ihe ihrest =>
    exact List.forall_mem_cons.2 ⟨List.forall_mem_singleton.1 ihe, ihrest⟩
  | memberInt _ _ ih | memberValue _ _ _ _ ih =>
    exact List.forall_mem_cons.2 ⟨Code.closed_one (by simp) _, ih⟩
  | memberInts _ ih =>
    refine List.forall_mem_append.2 ⟨fun code hcode => ?_, ih⟩
    obtain ⟨entry, _, rfl⟩ := List.mem_map.1 hcode
    exact Code.closed_one (by simp) _

end PatchCompiler
