import Mathlib.Data.Int.Range
import PatchCompiler.Proofs.Memory.Arrays
import PatchCompiler.Proofs.Text.Render

/-! # How array literals are laid out

Each member of an array literal stands for a list of slots, whatever their number: a number for one
slot, a range for a slot of each of its integers or for slots that hold nothing. The compiler counts
the slots of all members first, with a bound on what a single one can count, and finds the place of
each store in a second pass. Main statement: both passes agree with the list of slots. A literal is
refused when the slots do not fit behind the memory in use, and otherwise its text stores the number
of slots, then each slot that holds something at its place, and ends in the address of the array. -/

namespace PatchCompiler

/-! ## Slots -/

/-- What a slot of an array literal holds. -/
inductive Cell where
  /-- An integer that is known beforehand. -/
  | int (n : Int)
  /-- The number that an expression computes. -/
  | number (e : Expr Frame)
  /-- Nothing. -/
  | blank

/-- The slots that a member of an array literal stands for. -/
inductive Expr.Expands (env : Env) : Expr Frame → List Cell → Prop
  /-- An integer literal. -/
  | literal {n : Int32} {ty : Option Kind} {span : Span} :
    Expands env (.mk (.intLit n) ty span) [.int n.toInt]
  /-- Any other number. -/
  | number {e : Expr Frame} : (∀ n, e.node ≠ .intLit n) →
    e.kind env = some .int ∨ e.kind env = some .float → Expands env e [.number e]
  /-- A range `min..max`: its integers in order. -/
  | between {e low high : Expr Frame} {least greatest : Int32} : e.kind env = some .range →
    e.node = .range (some low) (some high) → low.node = .intLit least →
    high.node = .intLit greatest →
    -- a range whose ends are the wrong way round has no integers
    Expands env e ((Int.range least.toInt (greatest.toInt + 1)).map .int)
  /-- A range `..n`: slots without a value. -/
  | upTo {e high : Expr Frame} {n : Int32} : e.kind env = some .range →
    e.node = .range none (some high) → high.node = .intLit n →
    -- a negative number reserves nothing
    Expands env e (List.replicate (max n.toInt 0).toNat .blank)

/-- The code of what a slot holds, as a floating-point number. -/
def Cell.code : Cell → Emit (Option Code)
  | .int n => return some (.float (.ofInt32 (.ofInt n)))
  | .number e => return some (← Operand.emitAs ⟨e, e.emit⟩ .f64)
  | .blank => return none

/-- Text of an address. Constants are signed, so the addresses of the upper half of memory are
written as negative numbers. -/
def Wasm.addressText (a : Nat) : String :=
  "(i32.const " ++ toString (Int.bmod a UInt32.size) ++ ")"

/-- Text of an array literal whose slots begin behind the one at an address, given the code of what
each slot holds. -/
def Wasm.arrayText (start count : Nat) (codes : List (Option Code)) : String :=
  let header := "(i32.store " ++ addressText start ++ " (i32.const " ++ toString count ++ "))"
  let stores := codes.zipIdx.filterMap fun (code?, i) => code?.map fun code =>
    "(f64.store " ++ addressText (start + 8 + 8 * i) ++ " " ++ code.render ++ ")"
  " ".intercalate (header :: stores ++ [addressText (start + 8)])

/-- The state in which an array of a number of elements has been laid out. -/
def State.reserve (s : State) (span : Span) (count : Nat) : State :=
  { s with arena := ⟨.ofNat (s.arena.cursor.toNat + 8 + 8 * count)⟩ }.record
    (.array span (.ofNat (s.arena.cursor.toNat + 8)) (.ofNat count))

/-! ## Stores -/

namespace Emit

variable {base : UInt32} {slot : Nat}

/-- The stores of slots, given the code of what they hold. -/
def stores (base : UInt32) (slot : Nat) (codes : List (Option Code)) : List Code :=
  (codes.zipIdx slot).filterMap fun (code?, i) => code?.map (storeSlot base i)

/-- The stores of slots one after another. -/
def storeCells (base : UInt32) : (slot : Nat) → List Cell → Emit (List Code)
  | _, [] => return []
  | slot, cell :: rest => do
    let code? ← cell.code
    return (code?.map (storeSlot base slot)).toList ++ (← storeCells base (slot + 1) rest)

/-- The stores of slots are that of the first one, if it holds something, and those of the rest. -/
theorem stores_cons (code? : Option Code) (codes : List (Option Code)) :
    stores base slot (code? :: codes)
      = (code?.map (storeSlot base slot)).toList ++ stores base (slot + 1) codes := by
  unfold stores
  rw [List.zipIdx_cons, List.filterMap_cons]
  cases code? <;> rfl

/-- The code of what slots hold can be found before any of their stores is written. -/
theorem storeCells_eq (cells : List Cell) :
    storeCells base slot cells = (do return stores base slot (← cells.mapM Cell.code)) := by
  induction cells generalizing slot with
  | nil => rfl
  | cons cell rest ih => simp [storeCells, ih, stores_cons]

/-- The stores of two rows of cells follow each other. -/
theorem storeCells_append (first second : List Cell) :
    storeCells base slot (first ++ second) = (do
      let codes ← storeCells base slot first
      return codes ++ (← storeCells base (slot + first.length) second)) := by
  induction first generalizing slot with
  | nil => simp [storeCells]
  | cons cell rest ih =>
    simp only [List.cons_append, storeCells, ih, bind_assoc, pure_bind, List.append_assoc,
      List.length_cons, Nat.add_assoc, Nat.add_comm 1]

/-- The stores of integers that are known. -/
theorem storeCells_int (ns : List Int) : storeCells base slot (ns.map .int) = pure
    ((ns.zipIdx slot).map fun entry =>
      storeSlot base entry.2 (.float (.ofInt32 (.ofInt entry.1)))) := by
  induction ns generalizing slot with
  | nil => rfl
  | cons n rest ih => simp [storeCells, Cell.code, ih]

/-- Cells that hold nothing are not stored to. -/
theorem storeCells_blank (count : Nat) :
    storeCells base slot (List.replicate count .blank) = pure [] := by
  induction count generalizing slot with
  | zero => rfl
  | succ count ih => simp [storeCells, Cell.code, ih, List.replicate_succ]

end Emit

/-- The integers of a range are those between its ends. -/
theorem Member.intRange_eq (low high : Int32) :
    intRange low high = (Int.range low.toInt (high.toInt + 1)).map Int32.ofInt := by
  have hcount : high.toInt - low.toInt + 1 = high.toInt + 1 - low.toInt := by omega
  rw [intRange, Int.range, List.map_map, hcount]
  rfl

/-- The stores of a range are those of its integers. -/
theorem Emit.placeMembers_ints (base : UInt32) (slot : Nat) (low high : Int32)
    (rest : List Member) : placeMembers base slot (.ints low high :: rest) = (do
      let codes ← storeCells base slot ((Int.range low.toInt (high.toInt + 1)).map .int)
      return codes ++ (← placeMembers base
        (slot + (Int.range low.toInt (high.toInt + 1)).length) rest)) := by
  have hints : placeMembers base slot (.ints low high :: rest) = (do
      return ((Member.intRange low high).zipIdx.map fun entry =>
          storeSlot base (slot + entry.2) (.float (.ofInt32 entry.1)))
        ++ (← placeMembers base (slot + (Member.intRange low high).length) rest)) := by
    rw [placeMembers]
  -- positions within the range, shifted by where it begins
  have hshift (ns : List Int) : (ns.map Int32.ofInt).zipIdx.map (fun entry =>
      storeSlot base (slot + entry.2) (.float (.ofInt32 entry.1)))
      = (ns.zipIdx slot).map fun entry =>
        storeSlot base entry.2 (.float (.ofInt32 (.ofInt entry.1))) := by
    rw [List.zipIdx_map, List.map_map, @List.zipIdx_eq_map_add _ ns slot, List.map_map]
    rfl
  rw [hints, Member.intRange_eq, hshift, List.length_map, storeCells_int, pure_bind]

/-! ## Members -/

/-- A member contributes slots: it is counted with them, up to a bound, and stores what they
hold. -/
structure Member.Holds (m : Member) (cells : List Cell) : Prop where
  /-- It is counted with its slots, up to a bound. -/
  slots : m.slots.toNat = min cells.length maxSlots
  /-- It stores what its slots hold, and what comes after it begins behind them. -/
  stores : ∀ base slot rest, Emit.placeMembers base slot (m :: rest) = (do
    let codes ← Emit.storeCells base slot cells
    return codes ++ (← Emit.placeMembers base (slot + cells.length) rest))

namespace Expr.Expands

variable {env : Env} {e : Expr Frame} {cells : List Cell}

/-- A member contributes the slots it stands for. -/
theorem ofOperand (h : e.Expands env cells) :
    ∃ m, Member.ofOperand (e.kind env) ⟨e, e.emit⟩ = .ok m ∧ m.Holds cells := by
  have hmax : Member.maxSlots = 4294967295 := rfl
  cases h with
  | literal =>
    -- an integer literal is converted when it is compiled
    refine ⟨.value _, rfl, ⟨rfl, fun base slot rest => ?_⟩⟩
    simp [Emit.placeMembers, Emit.memberValue, Emit.storeCells, Cell.code, Expr.node]
  | number hnode hkind =>
    have hvalue : Emit.memberValue ⟨e, e.emit⟩ = Operand.emitAs ⟨e, e.emit⟩ .f64 :=
      Emit.memberValue_of_not_literal hnode
    refine ⟨.value ⟨e, e.emit⟩, ?_, ⟨rfl, fun base slot rest => ?_⟩⟩
    · rcases hkind with hkind | hkind <;> rw [hkind] <;> rfl
    · simp [Emit.placeMembers, hvalue, Emit.storeCells, Cell.code]
  | @between _ low high least greatest hkind hnode hlow hhigh =>
    refine ⟨.ints least greatest, ?_, ⟨?_, fun base slot rest => ?_⟩⟩
    · rw [hkind]
      simp [Member.ofOperand, Member.ofRange, hnode, hlow, hhigh]
    · rw [Member.slots_ints, Member.intRange_eq, List.length_map, List.length_map]
    · rw [Emit.placeMembers_ints, List.length_map]
  | @upTo _ high n hkind hnode hhigh =>
    have hcount : (max n.toInt 0).toNat = (max n 0).toUInt32.toNat := by
      rw [Word.toNat_max_zero]
      omega
    refine ⟨.reserve (max n 0).toUInt32, ?_, ⟨?_, fun base slot rest => ?_⟩⟩
    · rw [hkind]
      simp [Member.ofOperand, Member.ofRange, hnode, hhigh]
    · -- such a member is counted in full, but no integer reaches the bound
      have hn := n.toInt_lt
      rw [Member.slots, List.length_replicate, ← hcount, hmax]
      omega
    · simp [Emit.placeMembers, Emit.storeCells_blank, hcount]

end Expr.Expands

/-- The count of members is that of their slots, unless it is too large for any memory. -/
theorem Member.total_eq {layout : List Member} {cells : List (List Cell)}
    (h : List.Forall₂ Holds layout cells) : total layout ≤ cells.flatten.length ∧
      (total layout < maxSlots → total layout = cells.flatten.length) := by
  induction h with
  | nil => exact ⟨Nat.le_refl _, fun _ => rfl⟩
  | cons hfirst _ ih =>
    obtain ⟨hle, heq⟩ := ih
    have hslots := hfirst.slots
    rw [total_cons, List.flatten_cons, List.length_append]
    refine ⟨by omega, fun hlt => ?_⟩
    -- no member is cut if all of them together stay below the bound
    have hrest := heq (by omega)
    omega

namespace Emit

variable {s : State} {layout : List Member}

/-- The members of an array literal store what their slots hold. -/
theorem placeMembers_eq {cells : List (List Cell)} (h : List.Forall₂ Member.Holds layout cells)
    (base : UInt32) (slot : Nat) : placeMembers base slot layout
      = (do return stores base slot (← cells.flatten.mapM Cell.code)) := by
  rw [← storeCells_eq]
  induction h generalizing slot with
  | nil => rfl
  | cons hfirst _ ih => rw [hfirst.stores, List.flatten_cons, storeCells_append, ih]

/-- The members of an array literal are sorted by the slots they stand for. -/
theorem classify_of_expands {members : List (Expr Frame)} {cells : List (List Cell)}
    (h : List.Forall₂ (Expr.Expands s.env) members cells) :
    ∃ layout, classify (Expr.operands members) s = .ok layout s ∧
      List.Forall₂ Member.Holds layout cells := by
  rw [Expr.operands_eq_map]
  induction h with
  | nil => exact ⟨[], rfl, .nil⟩
  | @cons e _ members _ hfirst _ ih =>
    obtain ⟨m, hm, hholds⟩ := hfirst.ofOperand
    obtain ⟨layout, hlayout, hrest⟩ := ih
    refine ⟨m :: layout, ?_, .cons hholds hrest⟩
    rw [List.map_cons, classify, bind_of_ok (Operand.kind_run s ⟨e, e.emit⟩), hm]
    exact bind_of_ok hlayout _

end Emit

/-! ## Memory -/

namespace Emit

variable {s : State} {operands : List Operand} {layout : List Member}

/-- The way of an array literal whose number of slots can be written. -/
theorem array_of_classify (span : Span) (hlayout : classify operands s = .ok layout s)
    (htotal : Member.total layout < UInt32.size) : array operands span s = (do
      let base ← openArray
      advance (.ofNat (Member.total layout))
      modify fun s => s.record (.array span base (.ofNat (Member.total layout)))
      return arrayOf base (Member.total layout) (← placeMembers base 0 layout) : Emit Code) s := by
  rw [array_eq, bind_of_ok hlayout, layOut, if_neg (Nat.not_le.2 htotal)]

/-- An array literal is refused if its slots do not fit. -/
theorem array_of_full (span : Span) (hlayout : classify operands s = .ok layout s)
    (h : UInt32.size ≤ s.arena.cursor.toNat + 8 + 8 * Member.total layout) :
    ∃ limit s', array operands span s = .error (.limitExceeded limit) s' := by
  -- too many slots to be counted in 32 bits, too many for memory, or no room even for the count
  by_cases htotal : UInt32.size ≤ Member.total layout
  · refine ⟨.elements, s, ?_⟩
    rw [array_eq, bind_of_ok hlayout, layOut, if_pos htotal]
    rfl
  have htotal := Nat.lt_of_not_le htotal
  rw [array_of_classify span hlayout htotal, openArray]
  by_cases hopen : s.arena.cursor.toNat + 8 < UInt32.size
  · -- the slot of the count fits, those of the elements do not
    have hadvance := @Arena.advance_of_full ⟨.ofNat (s.arena.cursor.toNat + 8)⟩
      (.ofNat (Member.total layout)) (by
        dsimp only
        rwa [UInt32.toNat_ofNat_of_lt' hopen, UInt32.toNat_ofNat_of_lt' htotal])
    rw [bind_of_ok (onArena_of_ok (Arena.openArray_of_fits hopen))]
    exact ⟨_, _, bind_of_error (onArena_of_error (by rw [hadvance]; rfl)) _⟩
  · have hfull := Arena.openArray_of_full (Nat.le_of_not_lt hopen)
    exact ⟨_, s, bind_of_error (onArena_of_error hfull) _⟩

/-- An array literal whose slots fit is laid out before its members are compiled. -/
theorem array_of_fits (span : Span) (hlayout : classify operands s = .ok layout s)
    (h : s.arena.cursor.toNat + 8 + 8 * Member.total layout < UInt32.size) :
    array operands span s = (do
      let base := UInt32.ofNat (s.arena.cursor.toNat + 8)
      return arrayOf base (Member.total layout) (← placeMembers base 0 layout))
      (s.reserve span (Member.total layout)) := by
  -- all sums on the way are below the last one
  have htotal : Member.total layout < UInt32.size := by omega
  have hopen : s.arena.cursor.toNat + 8 < UInt32.size := by omega
  have hadvance : (Arena.advance ⟨.ofNat (s.arena.cursor.toNat + 8)⟩
      (.ofNat (Member.total layout))) = .ok
      ⟨.ofNat (s.arena.cursor.toNat + 8 + 8 * Member.total layout)⟩ := by
    rw [Arena.advance_of_fits] <;> dsimp only <;>
      rw [UInt32.toNat_ofNat_of_lt' hopen, UInt32.toNat_ofNat_of_lt' htotal]
    exact h
  rw [array_of_classify span hlayout htotal, openArray,
    bind_of_ok (onArena_of_ok (Arena.openArray_of_fits hopen)), advance,
    bind_of_ok (onArena_of_ok (by rw [hadvance]; rfl))]
  rfl

end Emit

/-! ## Text -/

/-- The texts of two runs of instructions follow each other. -/
theorem Instr.renderRun_append (first second : List (Gap × Instr)) :
    renderRun (first ++ second) = renderRun first ++ renderRun second := by
  induction first with
  | nil => simp [renderRun]
  | cons entry rest ih =>
    obtain ⟨gap, i⟩ := entry
    simp only [List.cons_append, renderRun, ih, String.append_assoc]

namespace Code

/-- Instructions with blanks between them. -/
theorem render_join {codes : List Code} (h : ∀ code ∈ codes, ∃ i, code = [(.tight, i)]) :
    (join .space codes).render = " ".intercalate (codes.map render) := by
  induction codes with
  | nil => rfl
  | cons code rest ih =>
    obtain ⟨⟨i, rfl⟩, hrest⟩ := List.forall_mem_cons.1 h
    have ih := ih hrest
    cases rest with
    | nil => rfl
    | cons next others =>
      obtain ⟨⟨j, rfl⟩, _⟩ := List.forall_mem_cons.1 hrest
      rw [List.map_cons, List.map_cons, String.intercalate_cons_cons, ← List.map_cons, ← ih]
      -- the gap in front of the next instruction is all that changes
      show Instr.renderRun ([(.tight, i)] ++ (.space, j) :: lead .space (join .space others))
        = Instr.renderRun [(.tight, i)] ++ " "
          ++ Instr.renderRun ((.tight, j) :: lead .space (join .space others))
      rw [Instr.renderRun_append, String.append_assoc]
      simp [Instr.renderRun, Gap.text, String.append_assoc]

/-- The text of an instruction is its own and that of its operands, in parentheses. -/
theorem render_one (op : Op) (operands : List Code) : (one op operands).render
    = "(" ++ Wasm.headText op ++ Instr.renderOperands operands ++ ")" := by
  simp [one, render, Instr.renderRun, Instr.render, Gap.text]

/-- An instruction with two operands. -/
theorem render_two (op : Op) (first second : Code) : (one op [first, second]).render
    = "(" ++ Wasm.headText op ++ " " ++ first.render ++ " " ++ second.render ++ ")" := by
  rw [render_one]
  simp [Instr.renderOperands, render, String.append_assoc]

/-- An address is written as a constant. -/
theorem render_address (a : Nat) : (Emit.address a).render = Wasm.addressText a := by
  rw [Emit.address, int, render_one, Wasm.headText, Int32.toInt_ofInt, Instr.renderOperands,
    String.append_empty, ← @String.append_assoc "("]
  rfl

/-- The store to a slot names the address of the slot and the number. -/
theorem render_storeSlot (base : UInt32) (slot : Nat) (value : Code) :
    (Emit.storeSlot base slot value).render = "(f64.store "
      ++ Wasm.addressText (base.toNat + 8 * slot) ++ " " ++ value.render ++ ")" := by
  rw [Emit.storeSlot, render_two, render_address]
  rfl

end Code

/-- A number that is no address of the upper half of memory is written as it is. -/
theorem Wasm.addressText_of_lt {n : Nat} (h : n < 2 ^ 31) :
    addressText n = "(i32.const " ++ toString n ++ ")" := by
  have hsame : Int.bmod n UInt32.size = n :=
    Int.bmod_eq_of_le (by omega) (by simp only [UInt32.size]; omega)
  rw [addressText, hsame]
  rfl

namespace Emit

/-- The store of the number of slots. -/
theorem render_header (start : Nat) {count : Nat} (hcount : count < 2 ^ 31) :
    (Code.one .storeInt [address start, address count]).render
      = "(i32.store " ++ Wasm.addressText start ++ " (i32.const " ++ toString count ++ "))" := by
  have hopen : "(" ++ Wasm.headText .storeInt ++ " " = "(i32.store " := rfl
  have hclose : ")" ++ ")" = "))" := rfl
  rw [Code.render_two, Code.render_address, Code.render_address, Wasm.addressText_of_lt hcount,
    hopen]
  simp only [String.append_assoc, hclose]
  rw [Sexp.append_split " (i32.const " " " "(i32.const " _ rfl]

/-- The stores of what slots hold. -/
theorem render_stores (base : UInt32) (codes : List (Option Code)) :
    (stores base 0 codes).map Code.render
      = codes.zipIdx.filterMap fun (code?, i) => code?.map fun code => "(f64.store "
        ++ Wasm.addressText (base.toNat + 8 * i) ++ " " ++ code.render ++ ")" := by
  rw [stores, List.map_filterMap]
  congr 1
  funext entry
  obtain ⟨code?, i⟩ := entry
  simp only [Option.map_map, Function.comp_def, Code.render_storeSlot]

/-- The code of an array literal is a row of single instructions. -/
theorem single_of_mem {base : UInt32} {start count stop : Nat} {codes : List (Option Code)} :
    ∀ code ∈ Code.one .storeInt [address start, address count] :: stores base 0 codes
      ++ [address stop], ∃ i, code = [(.tight, i)] := by
  intro code hcode
  -- the store of the count, those of the slots, and the address
  simp only [List.cons_append, List.mem_cons, List.mem_append, List.not_mem_nil, or_false,
    stores, List.mem_filterMap, Option.map_eq_some_iff] at hcode
  rcases hcode with rfl | ⟨_, _, _, _, rfl⟩ | rfl
  · exact ⟨_, rfl⟩
  · exact ⟨_, rfl⟩
  · exact ⟨_, rfl⟩

/-- The text of an array literal, given the code of what its slots hold. -/
theorem render_arrayOf {start count : Nat} (codes : List (Option Code))
    (hstart : start + 8 < UInt32.size) (hcount : count < 2 ^ 31) :
    (arrayOf (.ofNat (start + 8)) count (stores (.ofNat (start + 8)) 0 codes)).render
      = Wasm.arrayText start count codes := by
  have hbase : (UInt32.ofNat (start + 8)).toNat = start + 8 := UInt32.toNat_ofNat_of_lt' hstart
  rw [arrayOf, hbase, slotBytes, Nat.add_sub_cancel, Code.render_join single_of_mem,
    Wasm.arrayText]
  simp only [List.map_append, List.map_cons, List.map_nil, render_header start hcount,
    render_stores, hbase, Code.render_address]

end Emit

/-- An array literal stands for the slots of its members. It is refused if they do not fit into the
address space behind the memory in use, and otherwise comes to the code of what the slots hold, of
which each has a store at its place. -/
theorem Expr.emit_array_of_expands {s : State} {members : List (Expr Frame)}
    {cells : List (List Cell)} (h : List.Forall₂ (Expr.Expands s.env) members cells)
    (ty : Option Kind) (span : Span) (name : Option String) :
    let e := Expr.mk (.array members) ty span
    let start := s.arena.cursor.toNat
    let count := cells.flatten.length
    (2 ^ 32 - 1 < start + 8 + 8 * count →
      ∃ limit s', e.emit name s = .error (.limitExceeded limit) s') ∧
    (start + 8 + 8 * count ≤ 2 ^ 32 - 1 →
      (∀ codes s', cells.flatten.mapM Cell.code (s.reserve span count) = .ok codes s' →
        ∃ code, e.emit name s = .ok code s' ∧ code.render = Wasm.arrayText start count codes) ∧
      ∀ failure s', cells.flatten.mapM Cell.code (s.reserve span count) = .error failure s' →
        e.emit name s = .error failure s') := by
  intro e start count
  obtain ⟨layout, hlayout, hholds⟩ := Emit.classify_of_expands h
  obtain ⟨hle, heq⟩ := Member.total_eq hholds
  have hmax : Member.maxSlots = 4294967295 := rfl
  have hsize : UInt32.size = 4294967296 := rfl
  have hemit : e.emit name s = Emit.array (Expr.operands members) span s := rfl
  rw [hemit]
  constructor
  · -- a count that was cut is too large as well
    intro hfull
    refine Emit.array_of_full span hlayout ?_
    rw [hmax] at heq
    rw [hsize]
    omega
  · intro hfits
    -- the count fits into memory, so that it was not cut
    have htotal : Member.total layout = count := heq (by rw [hmax]; omega)
    have hrun := Emit.array_of_fits span hlayout (by rw [htotal, hsize]; omega)
    rw [htotal] at hrun
    dsimp only at hrun
    rw [hrun, Emit.placeMembers_eq hholds]
    refine ⟨fun codes s' hcodes => ?_, fun failure s' hfailure => ?_⟩
    · refine ⟨_, ?_, Emit.render_arrayOf codes (by omega) (by omega)⟩
      rw [bind_assoc, Emit.bind_of_ok hcodes]
      rfl
    · rw [bind_assoc, Emit.bind_of_error hfailure]

namespace Expr

/-- `[7, t, -1..1, 3..2, ..n, ..-5]` -/
def mixed (n : Int32) : List (Expr Frame) :=
  [.int 7, .plain (.ident "t"), .range (some (.int (-1))) (some (.int 1)),
    .range (some (.int 3)) (some (.int 2)), .range none (some (.int n)),
    .range none (some (.int (-5)))]

/-- Inside a scope that binds an integer `t`, with 64 bytes left. -/
def nearEnd : State :=
  { arena := ⟨4294967232⟩
    scopes := [⟨[], ⟨[⟨"t", { kind := .int, storage := .localVar }⟩]⟩⟩] }

/-- What the members of the mixed array hold, whatever the last range asks for. -/
theorem mixed_expands (n : Int32) : List.Forall₂ (Expands nearEnd.env) (mixed n)
    [[.int 7], [.number (.plain (.ident "t"))], [.int (-1), .int 0, .int 1], [],
      List.replicate (max n.toInt 0).toNat .blank, []] := by
  refine .cons .literal <| .cons (.number ?_ (.inl rfl)) <| .cons ?_ <| .cons ?_ <| .cons ?_ <|
    .cons ?_ .nil
  · simp [plain, node]
  · exact @Expands.between _ _ _ _ (-1) 1 rfl rfl rfl rfl
  · exact @Expands.between _ _ _ _ 3 2 rfl rfl rfl rfl
  · exact .upTo rfl rfl rfl
  · exact @Expands.upTo _ _ _ (-5) rfl rfl rfl

/-- One slot without a value still fits, two do not. -/
theorem mixed_near_end :
    (∃ code s', (plain (.array (mixed 1))).emit none nearEnd = .ok code s' ∧ code.render
      = "(i32.store (i32.const -64) (i32.const 6)) (f64.store (i32.const -56) (f64.const 7)) "
        ++ "(f64.store (i32.const -48) (f64.convert_i32_s (local.get $t))) "
        ++ "(f64.store (i32.const -40) (f64.const -1)) (f64.store (i32.const -32) (f64.const 0)) "
        ++ "(f64.store (i32.const -24) (f64.const 1)) (i32.const -56)") ∧
    ∃ limit s', (plain (.array (mixed 2))).emit none nearEnd
      = .error (.limitExceeded limit) s' := by
  obtain ⟨_, hfits⟩ := emit_array_of_expands (mixed_expands 1) none .synthetic none
  obtain ⟨hfull, _⟩ := emit_array_of_expands (mixed_expands 2) none .synthetic none
  obtain ⟨code, hcode, htext⟩ := (hfits (by decide)).1 _ _ rfl
  exact ⟨⟨code, _, hcode, htext.trans (by decide +kernel)⟩, hfull (by decide)⟩

end Expr

end PatchCompiler
