import Mathlib.Algebra.BigOperators.Group.List.Basic
import Mathlib.Algebra.GroupWithZero.Nat
import PatchCompiler.Proofs.Emission.Step

/-! # The memory of an array is reserved before its stores are written

Addresses and counts are 32-bit words, and every operation on them is checked. The lemmas here give
each checked operation its meaning in the natural numbers. Main statement: once the slots of an
array literal have been counted and handed out, the address of each of its elements fits, so that the
check that is made for each store never fails. The stores can then be placed without any check, which
is the form that later proofs use. -/

namespace PatchCompiler

/-! ## Words -/

namespace Word

variable {a b : UInt32}

/-- A sum that fits is the exact one. -/
theorem add?_of_fits (h : a.toNat + b.toNat < UInt32.size) :
    add? a b = some (.ofNat (a.toNat + b.toNat)) := by
  rw [add?, if_pos h, UInt32.ofNat_add, UInt32.ofNat_toNat, UInt32.ofNat_toNat]

/-- A sum that does not fit is none. -/
theorem add?_of_full (h : UInt32.size ≤ a.toNat + b.toNat) : add? a b = none :=
  if_neg (Nat.not_lt.2 h)

/-- A product that fits is the exact one. -/
theorem mul?_of_fits (h : a.toNat * b.toNat < UInt32.size) :
    mul? a b = some (.ofNat (a.toNat * b.toNat)) := by
  rw [mul?, if_pos h, UInt32.ofNat_mul, UInt32.ofNat_toNat, UInt32.ofNat_toNat]

/-- A product that does not fit is none. -/
theorem mul?_of_full (h : UInt32.size ≤ a.toNat * b.toNat) : mul? a b = none :=
  if_neg (Nat.not_lt.2 h)

/-- A saturating sum is the exact one, cut at the greatest word. -/
theorem toNat_addSaturating (a b : UInt32) :
    (addSaturating a b).toNat = min (a.toNat + b.toNat) (UInt32.size - 1) := by
  have hsize : UInt32.size = 4294967296 := rfl
  by_cases hfits : a.toNat + b.toNat < UInt32.size
  · rw [addSaturating, add?_of_fits hfits, Option.getD_some, UInt32.toNat_ofNat_of_lt' hfits]
    omega
  · rw [addSaturating, add?_of_full (Nat.le_of_not_lt hfits), Option.getD_none]
    have hgreatest : greatest.toNat = 4294967295 := rfl
    omega

/-- The word of an integer is the integer up to a multiple of the number of words. -/
theorem toNat_toUInt32 (x : Int32) : (x.toUInt32.toNat : Int) = x.toInt % 4294967296 := by
  have hlt := x.toUInt32.toNat_lt
  have hsigned : x.toInt = if 2 * x.toUInt32.toNat < 2 ^ 32 then (x.toUInt32.toNat : Int)
      else x.toUInt32.toNat - ((2 ^ 32 : Nat) : Int) :=
    BitVec.toInt_eq_toNat_cond x.toBitVec
  split at hsigned <;> omega

/-- The distance from an integer up to a greater one. -/
theorem toNat_absDiff {low high : Int32} (h : low ≤ high) :
    (absDiff high low).toNat = (high.toInt - low.toInt).toNat := by
  have hle := Int32.le_iff_toInt_le.1 h
  have hnot : ¬ high < low := by
    rw [Int32.lt_iff_toInt_lt]
    omega
  have hhigh := high.toInt_lt
  have hlow := low.le_toInt
  -- the difference may leave the signed integers, but not the words
  have hword := toNat_toUInt32 (high - low)
  have hmod := @Int.bmod_emod (high.toInt - low.toInt) (2 ^ 32)
  rw [Int32.toInt_sub] at hword
  rw [absDiff, if_neg hnot]
  omega

/-- The word of an integer that is cut at zero from below. -/
theorem toNat_max_zero (n : Int32) : (max n 0).toUInt32.toNat = n.toInt.toNat := by
  have hword := toNat_toUInt32 (max n 0)
  have hlt := n.toInt_lt
  have hzero : (0 : Int32).toInt = 0 := rfl
  rw [show max n 0 = if n ≤ 0 then 0 else n from rfl] at hword ⊢
  by_cases hle : n ≤ 0
  · have hle' := Int32.le_iff_toInt_le.1 hle
    rw [if_pos hle] at hword ⊢
    omega
  · have hlt' := mt Int32.le_iff_toInt_le.2 hle
    rw [if_neg hle] at hword ⊢
    omega

end Word

/-! ## Addresses -/

section Addresses

variable {start count : UInt32}

/-- An address that fits into 32 bits is the exact one. -/
theorem slotsPast?_of_fits (h : start.toNat + slotBytes * count.toNat < UInt32.size) :
    slotsPast? start count = some (.ofNat (start.toNat + slotBytes * count.toNat)) := by
  have hbytes : count.toNat * (UInt32.ofNat slotBytes).toNat = slotBytes * count.toNat :=
    Nat.mul_comm _ _
  have hmul : count.toNat * (UInt32.ofNat slotBytes).toNat < UInt32.size := by omega
  have hexact := UInt32.toNat_ofNat_of_lt' hmul
  rw [slotsPast?, Word.mul?_of_fits hmul, Option.bind_some, Word.add?_of_fits (by omega), hexact,
    hbytes]

/-- An address that does not fit into 32 bits is none. -/
theorem slotsPast?_of_full (h : UInt32.size ≤ start.toNat + slotBytes * count.toNat) :
    slotsPast? start count = none := by
  have hbytes : count.toNat * (UInt32.ofNat slotBytes).toNat = slotBytes * count.toNat :=
    Nat.mul_comm _ _
  -- already the number of bytes may be too large
  by_cases hmul : count.toNat * (UInt32.ofNat slotBytes).toNat < UInt32.size
  · have hexact := UInt32.toNat_ofNat_of_lt' hmul
    rw [slotsPast?, Word.mul?_of_fits hmul, Option.bind_some, Word.add?_of_full (by omega)]
  · rw [slotsPast?, Word.mul?_of_full (Nat.le_of_not_lt hmul), Option.bind_none]

end Addresses

namespace Arena

variable {arena arena' : Arena} {count : UInt32}

/-- Slots are handed out if the address behind them fits into 32 bits. -/
theorem advance_of_fits (h : arena.cursor.toNat + 8 * count.toNat < UInt32.size) :
    arena.advance count = .ok ⟨.ofNat (arena.cursor.toNat + 8 * count.toNat)⟩ := by
  rw [advance, slotsPast?_of_fits h]
  rfl

/-- Slots are refused if the address behind them does not fit into 32 bits. -/
theorem advance_of_full (h : UInt32.size ≤ arena.cursor.toNat + 8 * count.toNat) :
    arena.advance count = .error (.slots count arena.cursor) := by
  rw [advance, slotsPast?_of_full h]

/-- Handing out slots moves the next free address past them. -/
theorem cursor_advance (h : arena.advance count = .ok arena') :
    arena'.cursor.toNat = arena.cursor.toNat + slotBytes * count.toNat := by
  by_cases hfits : arena.cursor.toNat + 8 * count.toNat < UInt32.size
  · rw [advance_of_fits hfits] at h
    cases h
    exact UInt32.toNat_ofNat_of_lt' hfits
  · rw [advance_of_full (Nat.le_of_not_lt hfits)] at h
    cases h

/-- An array begins behind one slot. -/
theorem advance_of_openArray {base : UInt32} (h : arena.openArray = .ok (base, arena')) :
    arena.advance 1 = .ok arena' ∧ base = arena'.cursor := by
  obtain ⟨next, hnext, hpair⟩ := Except.map_eq_ok_iff.1 h
  cases hpair
  exact ⟨hnext, rfl⟩

/-- An array can begin if the address behind one slot fits into 32 bits. -/
theorem openArray_of_fits (h : arena.cursor.toNat + 8 < UInt32.size) : arena.openArray
    = .ok (.ofNat (arena.cursor.toNat + 8), ⟨.ofNat (arena.cursor.toNat + 8)⟩) := by
  have hone : arena.cursor.toNat + 8 * (1 : UInt32).toNat < UInt32.size := h
  rw [openArray, advance_of_fits hone]
  rfl

/-- An array cannot begin if the address behind one slot does not fit into 32 bits. -/
theorem openArray_of_full (h : UInt32.size ≤ arena.cursor.toNat + 8) :
    arena.openArray = .error (.slots 1 arena.cursor) := by
  have hone : UInt32.size ≤ arena.cursor.toNat + 8 * (1 : UInt32).toNat := h
  rw [openArray, advance_of_full hone]
  rfl

end Arena

/-! ## Members -/

namespace Member

/-- Most slots a single member is counted with. -/
def maxSlots : Nat := UInt32.size - 1

/-- A range has as many integers as its ends are apart, and one more. -/
@[simp] theorem length_intRange (low high : Int32) :
    (intRange low high).length = (high.toInt - low.toInt + 1).toNat := by
  rw [intRange, List.length_map, List.length_range]

/-- A range is counted with its integers, up to a bound. -/
theorem slots_ints (low high : Int32) :
    (ints low high).slots.toNat = min (intRange low high).length maxSlots := by
  rw [length_intRange, slots]
  by_cases hle : low ≤ high
  · have hle' := Int32.le_iff_toInt_le.1 hle
    have hone : (1 : UInt32).toNat = 1 := rfl
    rw [if_pos hle, Word.toNat_addSaturating, Word.toNat_absDiff hle, hone, maxSlots]
    congr 1
    omega
  · have hlt := mt Int32.le_iff_toInt_le.2 hle
    have hzero : (0 : UInt32).toNat = 0 := rfl
    rw [if_neg hle, hzero]
    omega

/-- A range below the bound is counted with all of its integers. -/
theorem slots_ints_of_lt {low high : Int32} (h : (ints low high).slots.toNat < maxSlots) :
    (ints low high).slots.toNat = (intRange low high).length := by
  rw [slots_ints] at h ⊢
  omega

/-- Number of slots of members together. -/
def total (layout : List Member) : Nat := (layout.map fun m => m.slots.toNat).sum

/-- No member has no slots. -/
@[simp] theorem total_nil : total [] = 0 := rfl

/-- The slots of a first member, and of the others. -/
@[simp] theorem total_cons (m : Member) (rest : List Member) :
    total (m :: rest) = m.slots.toNat + total rest := List.sum_cons

/-- Slots that are counted from a start on, when they can be counted. -/
theorem foldlM_slots (layout : List Member) (start : UInt32) :
    layout.foldlM (fun count m => Word.add? count m.slots) start
      = if start.toNat + total layout < UInt32.size then some (.ofNat (start.toNat + total layout))
        else none := by
  induction layout generalizing start with
  | nil =>
    rw [List.foldlM_nil, total_nil, Nat.add_zero, if_pos start.toNat_lt, UInt32.ofNat_toNat]
    rfl
  | cons m rest ih =>
    rw [List.foldlM_cons, total_cons, ← Nat.add_assoc]
    by_cases hfits : start.toNat + m.slots.toNat < UInt32.size
    · rw [Word.add?_of_fits hfits, Option.bind_eq_bind, Option.bind_some, ih,
        UInt32.toNat_ofNat_of_lt' hfits]
    · -- what has been counted only grows
      rw [Word.add?_of_full (Nat.le_of_not_lt hfits), if_neg (by omega)]
      rfl

/-- The slots of members are counted if their number fits into 32 bits. -/
theorem count?_of_fits {layout : List Member} (h : total layout < UInt32.size) :
    count? layout = some (.ofNat (total layout)) := by
  have hzero : (0 : UInt32).toNat = 0 := rfl
  rw [count?, foldlM_slots, hzero, Nat.zero_add, if_pos h]

/-- The slots of members cannot be counted if their number does not fit into 32 bits. -/
theorem count?_of_full {layout : List Member} (h : UInt32.size ≤ total layout) :
    count? layout = none := by
  have hzero : (0 : UInt32).toNat = 0 := rfl
  rw [count?, foldlM_slots, hzero, Nat.zero_add, if_neg (Nat.not_lt.2 h)]

end Member

/-! ## Stores -/

namespace Emit

/-- Address of a slot of the array at an address. -/
def slotAddress (base : UInt32) (slot : Nat) : Nat := base.toNat + slotBytes * slot

/-- A store of a floating-point number to a slot of the array at an address. -/
def storeSlot (base : UInt32) (slot : Nat) (value : Code) : Code :=
  .one .storeFloat [address (slotAddress base slot), value]

/-- Code of an array literal, from its address, its number of elements and the stores of its
members. -/
def arrayOf (base : UInt32) (total : Nat) (stores : List Code) : Code :=
  .join .space
    (.one .storeInt [address (base.toNat - slotBytes), address total] ::
      stores ++ [address base.toNat])

/-- The stores of the members of an array, from a slot on, without any check of an address. -/
def placeMembers (base : UInt32) : (slot : Nat) → List Member → Emit (List Code)
  | _, [] => return []
  | slot, .value operand :: rest => do
    let value ← memberValue operand
    return storeSlot base slot value :: (← placeMembers base (slot + 1) rest)
  | slot, .ints low high :: rest => do
    let values := Member.intRange low high
    let stores := values.zipIdx.map fun (value, i) =>
      storeSlot base (slot + i) (.float (.ofInt32 value))
    return stores ++ (← placeMembers base (slot + values.length) rest)
  | slot, .reserve count :: rest => placeMembers base (slot + count.toNat) rest

/-- An array literal whose members are known: all slots are counted and handed out, and then the
stores are placed without any check. -/
def layOut (layout : List Member) (span : Span) : Emit Code := do
  if UInt32.size ≤ Member.total layout then throw (.limitExceeded .elements)
  let base ← openArray
  advance (.ofNat (Member.total layout))
  modify fun s => s.record (.array span base (.ofNat (Member.total layout)))
  return arrayOf base (Member.total layout) (← placeMembers base 0 layout)

variable {base slot : UInt32}

/-- The address of an element within the address space fits. -/
theorem storeAt_of_fits (h : base.toNat + slotBytes * slot.toNat < UInt32.size) (value : Code) :
    storeAt base slot value = pure (storeSlot base slot.toNat value) := by
  rw [storeAt, slotOffset, slotsPast?_of_fits h]
  simp only [UInt32.toNat_ofNat_of_lt' h]
  rfl

/-- A slot that has an address has a successor among the words. -/
theorem toNat_slot_add {count : UInt32}
    (h : base.toNat + slotBytes * (slot.toNat + count.toNat) < UInt32.size) :
    (slot + count).toNat = slot.toNat + count.toNat := by
  have hbytes : slotBytes = 8 := rfl
  rw [hbytes] at h
  rw [UInt32.toNat_add, Nat.mod_eq_of_lt]
  show _ < UInt32.size
  omega

/-- The addresses of integers that end within the address space fit. -/
theorem storeInts_of_fits (values : List Int32)
    (h : base.toNat + slotBytes * (slot.toNat + values.length) < UInt32.size) :
    storeInts base slot values = pure (values.zipIdx.map fun (value, i) =>
      storeSlot base (slot.toNat + i) (.float (.ofInt32 value))) := by
  have hbytes : slotBytes = 8 := rfl
  have hone : (1 : UInt32).toNat = 1 := rfl
  rw [hbytes] at h
  induction values generalizing slot with
  | nil => rfl
  | cons value rest ih =>
    rw [List.length_cons] at h
    have hnext : (slot + 1).toNat = slot.toNat + 1 :=
      @toNat_slot_add base slot 1 (by rw [hbytes, hone]; omega)
    rw [storeInts, storeAt_of_fits (by rw [hbytes]; omega), ih (by rw [hnext]; omega), hnext]
    simp only [pure_bind, List.zipIdx_cons, List.map_cons, Nat.zero_add, Nat.add_zero]
    rw [List.zipIdx_eq_map_add (i := 1), List.map_map]
    congr 3
    funext entry
    simp only [Function.comp_apply, Nat.add_assoc]

/-- **The checks of single addresses never fail**: members that end within the address space are
stored as if no address were checked. -/
theorem storeMembers_of_fits (layout : List Member)
    (h : base.toNat + slotBytes * (slot.toNat + Member.total layout) < UInt32.size) :
    storeMembers base slot layout = placeMembers base slot.toNat layout := by
  have hbytes : slotBytes = 8 := rfl
  have hsize : UInt32.size = 4294967296 := rfl
  rw [hbytes] at h
  induction layout generalizing slot with
  | nil => rfl
  | cons m rest ih =>
    rw [Member.total_cons] at h
    -- in each case what follows begins at a slot that is again a word
    have hnext (count : UInt32) (hcount : count.toNat ≤ m.slots.toNat) :
        (slot + count).toNat = slot.toNat + count.toNat :=
      @toNat_slot_add base slot count (by rw [hbytes]; omega)
    cases m with
    | value operand =>
      have hone : (Member.value operand).slots.toNat = 1 := rfl
      have hnext : (slot + 1).toNat = slot.toNat + 1 := hnext 1 (Nat.le_refl 1)
      have hstore := @storeAt_of_fits base slot (by rw [hbytes]; omega)
      simp only [storeMembers, placeMembers, hstore, pure_bind]
      rw [ih (by omega), hnext]
    | ints low high =>
      have hlength := @Member.slots_ints_of_lt low high (by rw [Member.maxSlots]; omega)
      have hword : (UInt32.ofNat (Member.intRange low high).length).toNat
          = (Member.intRange low high).length := UInt32.toNat_ofNat_of_lt' (by omega)
      have hnext := hnext (.ofNat (Member.intRange low high).length) (by omega)
      rw [hword] at hnext
      have hstores := @storeInts_of_fits base slot (Member.intRange low high)
        (by rw [hbytes]; omega)
      simp only [storeMembers, placeMembers, hstores, pure_bind]
      rw [ih (by omega), hnext]
    | reserve count =>
      have hcount : (Member.reserve count).slots.toNat = count.toNat := rfl
      have hnext := hnext count (Nat.le_refl _)
      rw [storeMembers, placeMembers, ih (by omega), hnext]

/-- The slots of an array that have been handed out lie within the address space, and so does the
slot in front of them. -/
theorem fits_of_reserved {s s₁ s₂ : State} {count : UInt32} (hopen : openArray s = .ok base s₁)
    (hadvance : advance count s₁ = .ok () s₂) :
    slotBytes ≤ base.toNat ∧ base.toNat + slotBytes * count.toNat < UInt32.size := by
  obtain ⟨arena₁, hfirst, rfl⟩ := onArena_eq_ok.1 hopen
  obtain ⟨next, hnext, _⟩ := onArena_eq_ok.1 hadvance
  obtain ⟨arena₂, hsecond, _⟩ := Except.map_eq_ok_iff.1 hnext
  obtain ⟨hone, rfl⟩ := Arena.advance_of_openArray hfirst
  have hstart : arena₁.cursor.toNat = s.arena.cursor.toNat + slotBytes * 1 :=
    Arena.cursor_advance hone
  have hend : arena₂.cursor.toNat = arena₁.cursor.toNat + slotBytes * count.toNat :=
    Arena.cursor_advance hsecond
  have hlt : arena₂.cursor.toNat < UInt32.size := arena₂.cursor.toNat_lt
  omega

/-- The address of the slot in front of an array. -/
theorem toNat_sub_slotBytes (h : slotBytes ≤ base.toNat) :
    (base - .ofNat slotBytes).toNat = base.toNat - slotBytes :=
  UInt32.toNat_sub_of_le _ _ (UInt32.le_iff_toNat_le.2 h)

/-- An array literal is laid out without any check of a single address. -/
theorem array_eq (members : List Operand) (span : Span) :
    array members span = (do layOut (← classify members) span) := by
  funext s
  unfold array
  cases hlayout : classify members s with
  | error failure s₁ => rw [bind_of_error hlayout, bind_of_error hlayout]
  | ok layout s₁ =>
    rw [bind_of_ok hlayout, bind_of_ok hlayout, layOut]
    by_cases htotal : UInt32.size ≤ Member.total layout
    · rw [Member.count?_of_full htotal, if_pos htotal]
      rfl
    have htotal := Nat.lt_of_not_le htotal
    have hcount := UInt32.toNat_ofNat_of_lt' htotal
    rw [Member.count?_of_fits htotal, if_neg (Nat.not_le.2 htotal)]
    simp only
    cases hopen : openArray s₁ with
    | error failure s₂ => rw [bind_of_error hopen, bind_of_error hopen]
    | ok base s₂ =>
      rw [bind_of_ok hopen, bind_of_ok hopen]
      cases hadvance : advance (.ofNat (Member.total layout)) s₂ with
      | error failure s₃ => rw [bind_of_error hadvance, bind_of_error hadvance]
      | ok _ s₃ =>
        rw [bind_of_ok hadvance, bind_of_ok hadvance]
        -- the slots have been handed out, so each of them has an address
        obtain ⟨hfront, hfits⟩ := fits_of_reserved hopen hadvance
        have hzero : (0 : UInt32).toNat = 0 := rfl
        rw [storeMembers_of_fits layout (by rw [hzero, Nat.zero_add, ← hcount]; exact hfits), hzero]
        simp only [toNat_sub_slotBytes hfront, hcount, arrayOf]

end Emit

end PatchCompiler
