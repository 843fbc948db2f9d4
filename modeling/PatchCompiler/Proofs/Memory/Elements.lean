import PatchCompiler.Proofs.Memory.Layout
import PatchCompiler.Proofs.Semantics.Operands

/-! # Stores to elements stay in their arrays

The index of an element wraps around the array: the library function takes the remainder of the
index by the length, adds the length, and takes the remainder again. The sum in between fits into 32
bits because an array that has been laid out lies in the address space, which bounds its length far
below the largest integer. Main statement: whatever the index is, the store that the compiler writes
for an element of an array with at least one writes the eight bytes of the element that the index
stands for modulo the length, and no byte of the length or of another array. -/

namespace PatchCompiler

open Machine

/-! ## Arrays that are laid out -/

namespace Arena

/-- Arrays are laid out one after another. -/
inductive Allocates : Arena → List Extent → Arena → Prop
  | nil {arena : Arena} : Allocates arena [] arena
  | cons {arena arena₁ arena₂ last : Arena} {base count : UInt32} {rest : List Extent} :
    arena.openArray = .ok (base, arena₁) → arena₁.advance count = .ok arena₂ →
    Allocates arena₂ rest last → Allocates arena (⟨base.toNat, count.toNat⟩ :: rest) last

/-- Arrays are laid out one behind the other. -/
theorem Allocates.tiles {arena last : Arena} {arrays : List Extent}
    (h : arena.Allocates arrays last) : Tiles arena.cursor.toNat arrays last.cursor.toNat := by
  induction h with
  | nil => rfl
  | @cons arena arena₁ arena₂ last base count rest hopen hadvance _ ih =>
    obtain ⟨hfirst, rfl⟩ := advance_of_openArray hopen
    refine ⟨cursor_advance hfirst, ?_⟩
    show Tiles (arena₁.cursor.toNat + slotBytes * count.toNat) rest last.cursor.toNat
    rw [← cursor_advance hadvance]
    exact ih

/-- All arrays that lie one behind the other in the address space can be laid out. -/
theorem allocates_of_tiles {arena last : Arena} {arrays : List Extent}
    (h : Tiles arena.cursor.toNat arrays last.cursor.toNat) : arena.Allocates arrays last := by
  induction arrays generalizing arena with
  | nil =>
    have hcursor : arena.cursor = last.cursor := UInt32.toNat_inj.1 h
    have hsame : arena = last := by rw [show arena = ⟨arena.cursor⟩ from rfl, hcursor]
    exact hsame ▸ .nil
  | cons a rest ih =>
    obtain ⟨base, count⟩ := a
    obtain ⟨rfl, hrest⟩ : base = arena.cursor.toNat + 8 ∧
      Tiles (base + 8 * count) rest last.cursor.toNat := h
    -- the arrays that follow end at an address, so this one does
    have hle := hrest.le
    have hlast : last.cursor.toNat < UInt32.size := last.cursor.toNat_lt
    have hopen : arena.cursor.toNat + 8 < UInt32.size := by omega
    have hend : arena.cursor.toNat + 8 + 8 * count < UInt32.size := by omega
    have hcount : count < UInt32.size := by omega
    have hadvance := @advance_of_fits ⟨.ofNat (arena.cursor.toNat + 8)⟩ (.ofNat count)
    simp only [UInt32.toNat_ofNat_of_lt' hopen, UInt32.toNat_ofNat_of_lt' hcount] at hadvance
    have hcons := Allocates.cons (openArray_of_fits hopen) (hadvance hend)
      (ih (by simpa only [UInt32.toNat_ofNat_of_lt' hend] using hrest))
    simpa only [UInt32.toNat_ofNat_of_lt' hopen, UInt32.toNat_ofNat_of_lt' hcount] using hcons

end Arena

/-! ## Indices -/

section Index

variable {i n : Int32}

/-- The remainder of an index lies between the opposite of the length and the length. -/
theorem toInt_rem_bounds (hn : 0 < n.toInt) :
    -n.toInt < (i % n).toInt ∧ (i % n).toInt < n.toInt := by
  rw [Int32.toInt_mod]
  refine ⟨?_, Int.tmod_lt_of_pos _ hn⟩
  -- the remainder has the sign of the index: from below it is bounded like that of the opposite
  have hopposite := Int.tmod_lt_of_pos (-i.toInt) hn
  rw [Int.neg_tmod] at hopposite
  omega

/-- The sum of the remainder and the length fits into 32 bits, if the length is not too large. -/
theorem toInt_rem_add (hn : 0 < n.toInt) (hbound : n.toInt ≤ 2 ^ 30) :
    (i % n + n).toInt = i.toInt.tmod n.toInt + n.toInt := by
  have hrem := toInt_rem_bounds (i := i) hn
  rw [Int32.toInt_add, Int32.toInt_mod]
  rw [Int32.toInt_mod] at hrem
  exact Int.bmod_eq_of_le (by omega) (by omega)

/-- An index wraps around the length. -/
theorem toInt_wrapped (hn : 0 < n.toInt) (hbound : n.toInt ≤ 2 ^ 30) :
    ((i % n + n) % n).toInt = i.toInt % n.toInt := by
  have hrem := toInt_rem_bounds (i := i) hn
  rw [Int32.toInt_mod] at hrem
  -- the two kinds of remainders agree on the sum, which is positive
  have hsame : i.toInt.tmod n.toInt % n.toInt = i.toInt % n.toInt := by
    rw [← Int.add_mul_emod_self_left _ _ (i.toInt.tdiv n.toInt), Int.tmod_add_mul_tdiv]
  rw [Int32.toInt_mod, toInt_rem_add hn hbound, Int.tmod_eq_emod_of_nonneg (by omega),
    Int.add_emod_right, hsame]

/-- A shift by three is a multiplication by eight. -/
theorem shiftLeft_three (a : Int32) : a <<< 3 = a * 8 := by
  apply Int32.toBitVec_inj.1
  have hthree : BitVec.smod (3 : Int32).toBitVec 32 = 3#32 := by decide
  rw [Int32.toBitVec_shiftLeft, Int32.toBitVec_mul, hthree, BitVec.shiftLeft_eq',
    BitVec.shiftLeft_eq_mul_twoPow]
  rfl

end Index

/-- The library function takes the remainder, adds the length, and takes the remainder again. -/
theorem Func.call_index (c : Context) (store : Store) (stack : List Value) {i n : Int32}
    (hn : n ≠ 0) : Snippet.index.func.call c store (.int n :: .int i :: stack)
      = .next store (.int ((i % n + n) % n) :: stack) := by
  -- inside the function the two arguments are the only local variables
  let inside : Store := { store with locals := Snippet.index.func.start [.int i, .int n] }
  have hi (below : List Value) : (Code.one (.getLocal "i") []).exec c inside below
      = .next inside (.int i :: below) := rfl
  have hlen (below : List Value) : (Code.one (.getLocal "len") []).exec c inside below
      = .next inside (.int n :: below) := rfl
  have hbody : Snippet.index.func.body.exec c inside []
      = .next inside [.int ((i % n + n) % n)] := by
    refine (Code.exec_lead c inside [] .indent Snippet.index.body).trans ?_
    have hfirst := Code.exec_intOp (hi []) (hlen _) (IntOp.apply_rem i hn)
    have hsum := Code.exec_intOp hfirst (hlen _) (IntOp.apply_add _ n)
    exact Code.exec_intOp hsum (hlen _) (IntOp.apply_rem _ hn)
  have hargs : ((Value.int n :: .int i :: stack).take Snippet.index.func.params.length).reverse
      = [.int i, .int n] := rfl
  have hlength : ¬(Value.int n :: .int i :: stack).length < Snippet.index.func.params.length := by
    show ¬stack.length + 2 < 2
    omega
  unfold Func.call
  rw [if_neg hlength]
  dsimp only
  rw [hargs, hbody]
  rfl

/-- A module that includes the library function wraps indices by calling it. -/
theorem Module.call_index {m : Module} (h : .index ∈ m.snippets) (floats : FloatUnit)
    (bound depth : Nat) {i n : Int32} (hn : n ≠ 0) (store : Store) (stack : List Value) :
    (m.context floats bound (depth + 1)).call Snippet.index.name store (.int n :: .int i :: stack)
      = .next store (.int ((i % n + n) % n) :: stack) := by
  simp only [context, function?_name h]
  exact Func.call_index _ store stack hn

/-! ## Memory -/

namespace Machine.Memory

variable {memory memory' : Memory} {address : Nat} {bytes : List UInt8}

/-- Bytes inside can be written. -/
theorem exists_write (h : address + bytes.length ≤ memory.size) :
    ∃ memory', memory.write address bytes = some memory' :=
  ⟨_, if_pos h⟩

/-- The bytes around those that are written stay as they are. -/
theorem byte_of_write (h : memory.write address bytes = some memory') {x : Nat}
    (hx : x ∉ Set.Ico address (address + bytes.length)) : memory'.byte x = memory.byte x := by
  unfold write at h
  split at h
  · cases h
    dsimp only
    split
    · rename_i hle
      -- a position behind the bytes that are written
      have hout : bytes.length ≤ x - address := by
        by_contra hlt
        exact hx ⟨hle, by omega⟩
      rw [List.getElem?_eq_none hout]
      rfl
    · rfl
  · cases h

end Machine.Memory

/-! ## The store of an element -/

namespace Extent

variable (a : Extent) (i : Int32)

/-- The element that an index stands for. -/
def element : Nat := (i.toInt % a.count).toNat

/-- The address of the element that an index stands for. -/
def elementAddress : Nat := a.base + slotBytes * a.element i

/-- An array with elements lies in the address space, behind the slot for its length. -/
structure Fits : Prop where
  /-- There is a slot in front of it. -/
  base : slotBytes ≤ a.base
  /-- It ends in the address space. -/
  stop : a.base + slotBytes * a.count < UInt32.size
  /-- It has elements. -/
  count : 0 < a.count

namespace Fits

variable {a} (h : a.Fits)

include h

/-- Its length is no large integer. -/
theorem toInt_count : (Int32.ofInt a.count).toInt = a.count ∧ (a.count : Int) ≤ 2 ^ 29 := by
  have hstop := h.stop
  -- an array of 2^29 elements would fill the address space
  simp only [slotBytes, UInt32.size] at hstop
  exact ⟨Int32.toInt_ofInt_of_le (by omega) (by omega), by omega⟩

/-- The element of an index is its remainder, which is not negative. -/
theorem cast_element : (a.element i : Int) = i.toInt % a.count := by
  have hcount := h.count
  exact Int.toNat_of_nonneg (Int.emod_nonneg _ (by omega))

/-- The element of an index is one of the array. -/
theorem element_lt : a.element i < a.count := by
  have hcount := h.count
  have hlt := Int.emod_lt_of_pos i.toInt (b := a.count) (by omega)
  rw [← h.cast_element i] at hlt
  omega

/-- The element lies in the array. -/
theorem elementAddress_bounds : a.base ≤ a.elementAddress i ∧
    a.elementAddress i + slotBytes ≤ a.base + slotBytes * a.count := by
  have hlt := h.element_lt i
  simp only [elementAddress, slotBytes]
  omega

/-- The address of the element is not cut. -/
theorem toNat_elementAddress :
    (Int32.ofInt (a.elementAddress i)).toUInt32.toNat = a.elementAddress i := by
  have hbounds := h.elementAddress_bounds i
  have hstop := h.stop
  rw [toNat_toUInt32_ofInt, Nat.mod_eq_of_lt (by omega)]

/-- The index wraps around the array, and the sum in between fits. -/
theorem toInt_index :
    (i % Int32.ofInt a.count + Int32.ofInt a.count).toInt = i.toInt.tmod a.count + a.count ∧
    ((i % Int32.ofInt a.count + Int32.ofInt a.count) % Int32.ofInt a.count).toInt
      = i.toInt % a.count := by
  obtain ⟨hcount, hbound⟩ := h.toInt_count
  have hpositive := h.count
  have hn : 0 < (Int32.ofInt a.count).toInt := by omega
  have hsum := toInt_rem_add (i := i) hn (by omega)
  have hwrapped := toInt_wrapped (i := i) hn (by omega)
  rw [hcount] at hsum hwrapped
  exact ⟨hsum, hwrapped⟩

/-- The address is computed from the wrapped index. -/
theorem address_eq : Int32.ofInt a.base
      + ((i % Int32.ofInt a.count + Int32.ofInt a.count) % Int32.ofInt a.count) <<< 3
    = Int32.ofInt (a.elementAddress i) := by
  -- both are integers of 32 bits with the value of the element
  have hindex : (i % Int32.ofInt a.count + Int32.ofInt a.count) % Int32.ofInt a.count
      = Int32.ofInt (a.element i) := by
    rw [h.cast_element, ← (h.toInt_index i).2, Int32.ofInt_toInt]
  have hsum : (a.elementAddress i : Int) = a.base + a.element i * 8 := by
    simp only [elementAddress, slotBytes]
    omega
  rw [hindex, shiftLeft_three, hsum, Int32.ofInt_add, Int32.ofInt_mul]
  rfl

/-- Its length can be divided by. -/
theorem ofInt_count_ne_zero : Int32.ofInt a.count ≠ 0 := by
  intro hzero
  have hcount := h.toInt_count.1
  have hpositive := h.count
  rw [hzero] at hcount
  change (0 : Int) = a.count at hcount
  omega

/-- The address in front of the array. -/
theorem toNat_header : (Int32.ofInt a.base - Int32.ofInt slotBytes).toUInt32.toNat
    = a.base - slotBytes := by
  have hbase := h.base
  have hstop := h.stop
  rw [← Int32.ofInt_sub, ← Int.ofNat_sub hbase, toNat_toUInt32_ofInt,
    Nat.mod_eq_of_lt (by omega)]

end Fits

end Extent

/-- The parts of a store to an element of an array run one after another: the address of the array,
the index, the address once more in front of which the length is found, and the value. -/
def ElementRun (c : Context) (a : Extent) (i : Int32) (v : Binary64)
    (array index again value : Code) (store : Store) (stack : List Value) (after : Store) : Prop :=
  ∃ store₁ store₂ store₃,
    array.Leaves c store stack store₁ [.int (.ofInt a.base)] ∧
    index.Leaves c store₁ (.int (.ofInt a.base) :: stack) store₂ [.int i] ∧
    again.Leaves c store₂ (.int i :: .int (.ofInt a.base) :: stack) store₃
      [.int (.ofInt a.base)] ∧
    store₃.memory.readInt (a.base - slotBytes) = some (.ofInt a.count) ∧
    value.Leaves c store₃ (.int (.ofInt (a.elementAddress i)) :: stack) after [.float v]

namespace Code

variable {c : Context} {a : Extent} {i : Int32} {v : Binary64} {array index again value : Code}
  {store after : Store} {stack : List Value}

/-- The length of an array is loaded from the slot in front of it. -/
theorem exec_loadLength (h : a.Fits) {n : Int32}
    (hagain : again.Leaves c store stack after [.int (.ofInt a.base)])
    (hlength : after.memory.readInt (a.base - slotBytes) = some n) :
    (Emit.loadLength again).Leaves c store stack after [.int n] := by
  have hheader := exec_intOp hagain (exec_int (Int32.ofInt slotBytes)) (IntOp.apply_sub _ _)
  unfold Leaves Emit.loadLength Emit.address
  rw [exec_one c store stack _ (by simp) (by simp) (by simp), execOperands_cons, hheader,
    Outcome.next_bind, execOperands_nil, Outcome.next_bind, Op.step_loadInt, h.toNat_header,
    hlength]
  rfl

/-- The store of an element writes its bytes. -/
theorem exec_writeElement (h : a.Fits) {n : Int32} (hn : n = .ofInt a.count)
    (hcall : ∀ store stack, c.call Snippet.index.name store (.int n :: .int i :: stack)
      = .next store (.int ((i % n + n) % n) :: stack))
    (hrun : ElementRun c a i v array index again value store stack after) {memory : Memory}
    (hwrite : after.memory.write (a.elementAddress i) (Memory.bytes 8 v.bits.toNat)
      = some memory) :
    (Emit.writeElement array index again value).exec c store stack
      = .next { after with memory := memory } stack := by
  obtain ⟨store₁, store₂, store₃, harray, hindex, hagain, hlength, hvalue⟩ := hrun
  -- the length in memory is the one that the index was wrapped by
  have heq := h.address_eq i
  rw [← hn] at hlength heq
  have hload := exec_loadLength h hagain hlength
  have hwrapped : (one (.call Snippet.index.name) [index, Emit.loadLength again]).exec c store₁
      (.int (.ofInt a.base) :: stack)
      = .next store₃ (.int ((i % n + n) % n) :: .int (.ofInt a.base) :: stack) :=
    (exec_two (by simp) hindex hload).trans (hcall store₃ _)
  -- the address waits on the stack while the value is computed
  have hoffset := exec_intOp hwrapped (exec_int 3) (IntOp.apply_shl _ 3)
  have haddress := exec_intOp harray hoffset (IntOp.apply_add _ _)
  rw [heq] at haddress
  rw [Emit.writeElement, exec_two (by simp) haddress hvalue, List.singleton_append,
    Op.step_storeFloat, h.toNat_elementAddress, hwrite]

end Code

namespace Emit

/-- The code of a store to an element, put together from that of its parts. -/
theorem storeElement_eq_ok {array : Operand} {index : ElementIndex} {value code : Code}
    {span : Span} {s s' : State} (h : storeElement array index value span s = .ok code s') :
    ∃ base i again s₁ s₂, array.emit (s.require .index) = .ok base s₁ ∧
      index.emit s₁ = .ok i s₂ ∧ array.emit s₂ = .ok again s' ∧
      code = writeElement base i again value := by
  simp only [storeElement, length, bind_eq_ok, modify_eq_ok, Operand.kind_eq_ok] at h
  obtain ⟨_, _, rfl, base, s₁, hbase, i, s₂, hi, n, _, ⟨_, _, ⟨rfl, rfl⟩, hn⟩, h⟩ := h
  -- only an array has a length
  split at hn
  · obtain ⟨again, _, hagain, hn⟩ := bind_eq_ok.1 hn
    obtain ⟨rfl, rfl⟩ := pure_eq_ok.1 hn
    obtain ⟨rfl, rfl⟩ := pure_eq_ok.1 h
    exact ⟨base, i, again, s₁, s₂, hbase, hi, hagain, rfl⟩
  · exact (throw_eq_ok.1 hn).elim

end Emit

namespace Arena.Allocates

variable {first last : Arena} {before later : List Extent} {a : Extent}

/-- An array that has been laid out lies in the address space. -/
theorem fits (h : first.Allocates (before ++ a :: later) last) (hcount : 0 < a.count) : a.Fits := by
  obtain ⟨hbase, hstop⟩ := h.tiles.bounds (List.mem_append_right before List.mem_cons_self)
  have hlast : last.cursor.toNat < UInt32.size := last.cursor.toNat_lt
  exact ⟨by omega, by omega, hcount⟩

/-- The other arrays are apart from an array. -/
theorem disjoint_region (h : first.Allocates (before ++ a :: later) last) {other : Extent}
    (hother : other ∈ before ++ later) : Disjoint a.region other.region := by
  obtain ⟨_, hlater, hbefore⟩ := List.pairwise_append.1 h.tiles.pairwise_disjoint
  rcases List.mem_append.1 hother with hmem | hmem
  · exact (hbefore other hmem a List.mem_cons_self).symm
  · exact List.rel_of_pairwise_cons hlater hmem

/-- Writing the element that an index stands for leaves the length and the other arrays alone. -/
theorem byte_of_write_element (h : first.Allocates (before ++ a :: later) last)
    (hcount : 0 < a.count) (i : Int32) {memory memory' : Memory} {bytes : List UInt8}
    (hlength : bytes.length = slotBytes)
    (hwrite : memory.write (a.elementAddress i) bytes = some memory') :
    (∀ x ∈ Set.Ico (a.base - slotBytes) a.base, memory'.byte x = memory.byte x) ∧
    ∀ other ∈ before ++ later, ∀ x ∈ other.region, memory'.byte x = memory.byte x := by
  obtain ⟨hlow, hhigh⟩ := (h.fits hcount).elementAddress_bounds i
  refine ⟨fun x hx => ?_, fun other hother x hx => ?_⟩
  · refine Memory.byte_of_write hwrite fun hwritten => ?_
    have hbelow := hx.2
    have habove := hwritten.1
    omega
  · refine Memory.byte_of_write hwrite fun hwritten => ?_
    -- what is written is in the region of the array, and regions do not meet
    have hinside : x ∈ a.region := by
      rw [hlength] at hwritten
      refine ⟨?_, ?_⟩
      · have habove := hwritten.1
        omega
      · exact hwritten.2.trans_le hhigh
    exact Set.disjoint_left.1 (h.disjoint_region hother) hinside hx

/-- The code of a store to an element writes the element that the index stands for, and neither the
length nor another array. -/
theorem exec_writeElement (h : first.Allocates (before ++ a :: later) last) (hcount : 0 < a.count)
    {c : Context} {i n : Int32} {v : Binary64} {array index again value : Code}
    {store after : Store} {stack : List Value} (hn : n = .ofInt a.count)
    (hcall : ∀ store stack, c.call Snippet.index.name store (.int n :: .int i :: stack)
      = .next store (.int ((i % n + n) % n) :: stack))
    (hrun : ElementRun c a i v array index again value store stack after)
    (hsize : a.base + slotBytes * a.count ≤ after.memory.size) :
    ∃ memory, (Emit.writeElement array index again value).exec c store stack
        = .next { after with memory := memory } stack ∧
      after.memory.write (a.elementAddress i) (Memory.bytes 8 v.bits.toNat) = some memory ∧
      (∀ x ∈ Set.Ico (a.base - slotBytes) a.base, memory.byte x = after.memory.byte x) ∧
      ∀ other ∈ before ++ later, ∀ x ∈ other.region, memory.byte x = after.memory.byte x := by
  have hfits := h.fits hcount
  have hlength : (Memory.bytes 8 v.bits.toNat).length = slotBytes := by
    simp [Memory.bytes, slotBytes]
  have hinside : a.elementAddress i + (Memory.bytes 8 v.bits.toNat).length
      ≤ after.memory.size := by
    rw [hlength]
    exact (hfits.elementAddress_bounds i).2.trans hsize
  obtain ⟨memory, hwrite⟩ := Memory.exists_write hinside
  exact ⟨memory, Code.exec_writeElement hfits hn hcall hrun hwrite, hwrite,
    h.byte_of_write_element hcount i hlength hwrite⟩

/-- The library function wraps an index around the length of an array without a fault or a sum that
does not fit, and the address that is computed from it is that of an element. The code of a store to
an element writes there and nowhere else, so not to the length of the array or to another array. -/
theorem element_store_within (h : first.Allocates (before ++ a :: later) last)
    (hcount : 0 < a.count) (i : Int32) :
    let n := Int32.ofInt a.count
    let wrapped := (i % n + n) % n
    let address := a.base + 8 * (i.toInt % a.count).toNat
    (∀ c store stack, Snippet.index.func.call c store (.int n :: .int i :: stack)
      = .next store (.int wrapped :: stack)) ∧
    n.toInt = a.count ∧ (i % n + n).toInt = i.toInt.tmod a.count + a.count ∧
    wrapped.toInt = i.toInt % a.count ∧
    (Int32.ofInt a.base + wrapped <<< 3).toUInt32.toNat = address ∧
    address ∈ Set.Ico a.base (a.base + 8 * a.count) ∧
    ∀ array index value span s code s', Emit.storeElement array index value span s = .ok code s' →
      ∃ base j again s₁ s₂, array.emit (s.require .index) = .ok base s₁ ∧
        index.emit s₁ = .ok j s₂ ∧ array.emit s₂ = .ok again s' ∧
        ∀ (m : Module) floats bound depth store stack after v, .index ∈ m.snippets →
          ElementRun (m.context floats bound (depth + 1)) a i v base j again value store stack
            after →
          a.base + 8 * a.count ≤ after.memory.size →
          ∃ memory, code.exec (m.context floats bound (depth + 1)) store stack
              = .next { after with memory := memory } stack ∧
            after.memory.write address (Memory.bytes 8 v.bits.toNat) = some memory ∧
            (∀ x ∈ Set.Ico (a.base - 8) a.base, memory.byte x = after.memory.byte x) ∧
            ∀ other ∈ before ++ later, ∀ x ∈ other.region,
              memory.byte x = after.memory.byte x := by
  intro n wrapped address
  have hfits := h.fits hcount
  obtain ⟨hsum, hwrapped⟩ := hfits.toInt_index i
  obtain ⟨hlow, hhigh⟩ := hfits.elementAddress_bounds i
  have hn : n ≠ 0 := hfits.ofInt_count_ne_zero
  refine ⟨fun c store stack => Func.call_index c store stack hn, hfits.toInt_count.1, hsum,
    hwrapped, ?_, ⟨hlow, ?_⟩, ?_⟩
  · rw [hfits.address_eq i, hfits.toNat_elementAddress]
    rfl
  · exact Nat.lt_of_lt_of_le (Nat.lt_add_of_pos_right (by decide)) hhigh
  · intro array index value span s code s' hcode
    obtain ⟨base, j, again, s₁, s₂, hbase, hj, hagain, rfl⟩ := Emit.storeElement_eq_ok hcode
    refine ⟨base, j, again, s₁, s₂, hbase, hj, hagain, ?_⟩
    intro m floats bound depth store stack after v hsnippet hrun hsize
    have hcall := Module.call_index (i := i) hsnippet floats bound depth hn
    exact h.exec_writeElement hcount rfl hcall hrun hsize

end Arena.Allocates

namespace Program

/-- The arrays of a module are laid out by the allocator, from address zero on. -/
theorem allocates_of_compile {p : Program} {m : Module} {map : SourceMap}
    (h : p.compile.outcome = .ok (m, map)) : ∃ last, Arena.Allocates {} p.compile.arrays last := by
  obtain ⟨cursor, blocks, hmemory, harrays, htiles, _⟩ := layout_of_compile h
  -- the last event of the log tells where memory ends
  obtain ⟨event, _, hbytes⟩ := Option.bind_eq_some_iff.1 hmemory
  cases event with
  | assembled _ _ bytes =>
    cases hbytes
    exact ⟨⟨bytes⟩, harrays ▸ Arena.allocates_of_tiles htiles⟩
  | _ => cases hbytes

/-- `a = [1, 2, 3]; b = [4]; a[i] = 9` -/
def twoArrays (i : Int32) : Program where
  body := .plain (.statements
    [.plain (.assign (.plain (.ident "a")) (.array [.int 1, .int 2, .int 3])),
      .plain (.assign (.plain (.ident "b")) (.array [.int 4])),
      .plain (.assign (.plain (.index (.plain (.ident "a")) (some (.int i)))) (.int 9))])
  scope := ⟨[⟨"a", { kind := .pointer, storage := .globalVar }⟩,
    ⟨"b", { kind := .pointer, storage := .globalVar }⟩]⟩

/-- Inside the scope of the two arrays. -/
def betweenArrays : State := State.enter {} ⟨[], (twoArrays 0).scope⟩

/-- The first array is at address 8 and has 3 elements, the second one has 1. -/
def filledArrays : Store where
  globals x := if x = "a" then some (.int 8) else if x = "b" then some (.int 40) else none
  locals _ := none
  memory := ⟨65536, fun x => if x = 0 then 3 else if x = 32 then 1 else 0⟩

/-- The least index of all stands for the element in the middle of three. -/
theorem twoArrays_store_within : ∃ m map, (twoArrays (-2147483648)).compile.outcome = .ok (m, map) ∧
    (twoArrays (-2147483648)).compile.arrays = [⟨8, 3⟩, ⟨40, 1⟩] ∧
    ∃ code s', Emit.storeElement ⟨.plain (.ident "a"), (Expr.plain (.ident "a")).emit⟩
        (.computed ⟨.int (-2147483648), (Expr.int (-2147483648)).emit⟩) (.float (.ofInt32 9))
        .synthetic betweenArrays = .ok code s' ∧
      ∀ floats bound depth, ∃ memory, code.exec (m.context floats bound (depth + 1)) filledArrays []
          = .next { filledArrays with memory := memory } [] ∧
        filledArrays.memory.write 16 (Memory.bytes 8 (Binary64.ofInt32 9).bits.toNat)
          = some memory ∧
        ∀ x ∈ Extent.region ⟨40, 1⟩, memory.byte x = filledArrays.memory.byte x := by
  obtain ⟨m, map, hcompile, hindex⟩ : ∃ m map,
      (twoArrays (-2147483648)).compile.outcome = .ok (m, map) ∧ .index ∈ m.snippets :=
    ⟨_, _, rfl, by decide⟩
  obtain ⟨last, hlast⟩ := allocates_of_compile hcompile
  have harrays : (twoArrays (-2147483648)).compile.arrays = [⟨8, 3⟩, ⟨40, 1⟩] := rfl
  rw [harrays] at hlast
  have hfirst : Arena.Allocates {} ([] ++ ⟨8, 3⟩ :: [⟨40, 1⟩]) last := hlast
  obtain ⟨_, _, _, _, _, _, hstore⟩ := hfirst.element_store_within (by decide) (-2147483648)
  obtain ⟨base, j, again, s₁, s₂, hbase, hj, hagain, hrun⟩ := hstore
    ⟨.plain (.ident "a"), (Expr.plain (.ident "a")).emit⟩
    (.computed ⟨.int (-2147483648), (Expr.int (-2147483648)).emit⟩) (.float (.ofInt32 9))
    .synthetic betweenArrays _ _ rfl
  cases hbase
  cases hj
  cases hagain
  refine ⟨m, map, hcompile, harrays, _, _, rfl, fun floats bound depth => ?_⟩
  obtain ⟨memory, hexec, hwrite, _, hother⟩ := hrun m floats bound depth filledArrays []
    filledArrays (.ofInt32 9) hindex
    ⟨filledArrays, filledArrays, filledArrays, rfl, rfl, rfl, by decide, rfl⟩ (by decide)
  exact ⟨memory, hexec, hwrite, hother _ (by simp)⟩

end Program

end PatchCompiler
