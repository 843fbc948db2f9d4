import Mathlib.Algebra.GroupWithZero.Nat
import Mathlib.Data.List.Chain
import Mathlib.Data.Set.Lattice
import Mathlib.Order.CompletePartialOrder
import Mathlib.Order.Interval.Set.LinearOrder
import PatchCompiler.Proofs.Emission.Derive
import PatchCompiler.Proofs.Emission.Events
import PatchCompiler.Proofs.Memory.Literals

/-! # Arrays do not overlap

The arrays of a module are laid out one behind the other from address zero on, each with a slot for
its number of elements in front of it. An array is laid out before its members are compiled, which
may lay out arrays of their own, and functions that are defined in a member are written before the
code of the array is complete. Main statement: the regions of the arrays tile the memory that is
handed out, the code of each array literal stores into the region of its own array, nothing else is
stored at fixed addresses, and the memory of the module has the least number of pages that holds all
of the arrays. -/

namespace PatchCompiler

/-! ## Regions -/

/-- An array that has been laid out. -/
structure Extent where
  /-- Its address, which is that of the first element. -/
  base : Nat
  /-- Number of its elements. -/
  count : Nat
  deriving DecidableEq, Repr

namespace Extent

/-- The bytes of an array: a slot for the number of elements, and one for each element. -/
def region (a : Extent) : Set Nat := Set.Ico (a.base - slotBytes) (a.base + slotBytes * a.count)

/-- What the code of an array literal does that is laid out as an array: it stores the number of
elements in front of the array and the members in their slots, and leaves the address. -/
def code (a : Extent) (members : List (Expr Frame)) : ArrayCode where
  header := ⟨a.base - slotBytes, 4⟩
  count := a.count
  elements := (Expr.writtenFrom 0 members).map fun i => ⟨a.base + slotBytes * i, 8⟩
  address := a.base

/-- An array has the slots that the members of its literal take. -/
def Holds (a : Extent) (members : List (Expr Frame)) : Prop :=
  a.count = (members.map Expr.slots).sum

end Extent

/-- The bytes that a store writes. -/
def FixedStore.bytes (store : FixedStore) : Set Nat :=
  Set.Ico store.address (store.address + store.width)

/-- The stores of an array literal stay in the region of its array. -/
theorem Extent.Holds.bytes_subset {a : Extent} {members : List (Expr Frame)} (h : a.Holds members)
    (hbase : slotBytes ≤ a.base) : ∀ store ∈ (a.code members).stores, store.bytes ⊆ a.region := by
  intro store hstore
  unfold FixedStore.bytes Extent.region
  have hbytes : slotBytes = 8 := rfl
  -- the first store is that of the count, in the slot in front of the elements
  rcases List.mem_cons.1 hstore with rfl | hstore
  · refine Set.Ico_subset_Ico le_rfl ?_
    simp only [hbytes, code] at hbase ⊢
    omega
  · obtain ⟨slot, hslot, rfl⟩ := List.mem_map.1 hstore
    have hlt := Expr.lt_of_mem_writtenFrom hslot
    rw [Nat.zero_add, ← h] at hlt
    refine Set.Ico_subset_Ico ?_ ?_
    · simp only [hbytes]
      omega
    · simp only [hbytes]
      omega

/-- Arrays are laid out one behind the other between two addresses. -/
def Tiles : (start : Nat) → List Extent → (stop : Nat) → Prop
  | start, [], stop => start = stop
  | start, a :: rest, stop =>
    a.base = start + slotBytes ∧ Tiles (a.base + slotBytes * a.count) rest stop

namespace Tiles

variable {start middle stop : Nat} {first second arrays : List Extent}

/-- Two rows of arrays tile memory when the second one begins where the first one stops. -/
theorem append (h : Tiles start first middle) (h' : Tiles middle second stop) :
    Tiles start (first ++ second) stop := by
  induction first generalizing start with
  | nil =>
    obtain rfl : start = middle := h
    exact h'
  | cons a rest ih => exact ⟨h.1, ih h.2⟩

/-- A row of arrays does not stop before its start. -/
theorem le (h : Tiles start arrays stop) : start ≤ stop := by
  induction arrays generalizing start with
  | nil => exact Nat.le_of_eq h
  | cons a rest ih =>
    have hrest := ih h.2
    have hbase := h.1
    omega

/-- The address of an array leaves room for its number of elements. -/
theorem bounds (h : Tiles start arrays stop) {a : Extent} (ha : a ∈ arrays) :
    start + slotBytes ≤ a.base ∧ a.base + slotBytes * a.count ≤ stop := by
  induction arrays generalizing start with
  | nil => cases ha
  | cons first rest ih =>
    have hbase := h.1
    rcases List.mem_cons.1 ha with rfl | ha
    · exact ⟨hbase.ge, h.2.le⟩
    · obtain ⟨hlow, hhigh⟩ := ih h.2 ha
      exact ⟨by omega, hhigh⟩

/-- The first array begins behind its number of elements. -/
theorem base_head (h : Tiles start arrays stop) :
    ∀ a ∈ arrays.head?, a.base = start + slotBytes := by
  cases arrays with
  | nil => intro a ha; cases ha
  | cons first rest =>
    intro a ha
    cases ha
    exact h.1

/-- Each array begins behind the one before it. -/
theorem isChain (h : Tiles start arrays stop) :
    arrays.IsChain fun a b => b.base = a.base + slotBytes * a.count + slotBytes := by
  induction arrays generalizing start with
  | nil => exact .nil
  | cons first rest ih =>
    refine List.isChain_cons.2 ⟨fun b hb => ?_, ih h.2⟩
    exact h.2.base_head b hb

/-- Arrays that tile memory do not overlap. -/
theorem pairwise_disjoint (h : Tiles start arrays stop) :
    arrays.Pairwise fun a b => Disjoint a.region b.region := by
  induction arrays generalizing start with
  | nil => exact .nil
  | cons first rest ih =>
    refine List.pairwise_cons.2 ⟨fun b hb => ?_, ih h.2⟩
    -- an array behind the first one begins where the first one ends, or later
    obtain ⟨hlow, _⟩ := h.2.bounds hb
    rw [Set.disjoint_left]
    intro address hfirst hsecond
    have hbefore := hfirst.2
    have hbehind := hsecond.1
    omega

/-- The regions of the arrays are all that lies between the two addresses. -/
theorem iUnion_region (h : Tiles start arrays stop) :
    ⋃ a ∈ arrays, a.region = Set.Ico start stop := by
  induction arrays generalizing start with
  | nil =>
    obtain rfl : start = stop := h
    simp
  | cons first rest ih =>
    have hbase := h.1
    have hle := h.2.le
    -- the region of the first array reaches up to where the others begin
    have hsplit : (⋃ a ∈ first :: rest, a.region) = first.region ∪ ⋃ a ∈ rest, a.region := by
      ext address
      simp
    rw [hsplit, ih h.2, Extent.region, hbase, Nat.add_sub_cancel]
    exact Set.Ico_union_Ico_eq_Ico (by omega) (by omega)

/-- Arrays that are laid out from a slot on begin and end at slots. -/
theorem dvd (h : Tiles start arrays stop) (hstart : slotBytes ∣ start) :
    slotBytes ∣ stop ∧ ∀ a ∈ arrays, slotBytes ∣ a.base := by
  induction arrays generalizing start with
  | nil =>
    obtain rfl : start = stop := h
    exact ⟨hstart, by simp⟩
  | cons first rest ih =>
    have hbase : slotBytes ∣ first.base := h.1 ▸ Nat.dvd_add hstart (Nat.dvd_refl slotBytes)
    obtain ⟨hstop, hrest⟩ := ih h.2 (Nat.dvd_add hbase (Nat.dvd_mul_right _ _))
    exact ⟨hstop, List.forall_mem_cons.2 ⟨hbase, hrest⟩⟩

/-- Each array takes a slot for its number of elements, and one for each element. -/
theorem stop_eq (h : Tiles start arrays stop) :
    stop = start + (arrays.map fun a => slotBytes * (1 + a.count)).sum := by
  induction arrays generalizing start with
  | nil => exact Eq.symm h
  | cons first rest ih =>
    rw [ih h.2, h.1, List.map_cons, List.sum_cons, Nat.mul_add, Nat.mul_one]
    omega

/-- Without arrays no memory is handed out, and with arrays some is. -/
theorem eq_nil_iff (h : Tiles start arrays stop) : arrays = [] ↔ start = stop := by
  constructor
  · rintro rfl
    exact h
  · intro heq
    cases arrays with
    | nil => rfl
    | cons first rest =>
      have hle := h.2.le
      have hbase := h.1
      have hbytes : slotBytes = 8 := rfl
      omega

end Tiles

/-! ## Stores to fixed addresses -/

/-- A store to a slot of an array is followed by the stores of its value. -/
@[simp] theorem Code.fixedStores_storeSlot (base : UInt32) (slot : Nat) (value : Code) :
    (Emit.storeSlot base slot value).fixedStores = .element base slot :: value.fixedStores := by
  have hstore : Op.fixedStores .storeFloat [Emit.address (Emit.slotAddress base slot), value]
      = [.element base slot] := FixedStore.ofOperands_slot base slot [value]
  rw [Emit.storeSlot, Code.fixedStores, Code.collect_one, hstore]
  simp [Emit.address]

/-! ## What a run lays out -/

/-- The array that an event lays out. -/
def Event.array? : Event → Option Extent
  | .array _ base count => some ⟨base.toNat, count.toNat⟩
  | _ => none

namespace State

variable (s : State)

/-- The arrays laid out so far, in order. -/
def arrays : List Extent := s.log.filterMap Event.array?

/-- What is read off the bodies of the functions written so far. -/
def gather {α : Type} (f : Code → List α) : List α := s.funcs.flatMap fun g => f g.body

/-- The stores to fixed addresses in the functions written so far. -/
abbrev stores : List FixedStore := s.gather Code.fixedStores

/-- The codes of array literals in the functions written so far. -/
abbrev arrayCodes : List ArrayCode := s.gather Code.arrayCodes

/-- A scope is entered without laying out an array. -/
@[simp] theorem arrays_enter (frame : Frame) : (s.enter frame).arrays = s.arrays := rfl

/-- A library function is asked for without laying out an array. -/
@[simp] theorem arrays_require (snippet : Snippet) : (s.require snippet).arrays = s.arrays :=
  s.events_require (fun _ => rfl) snippet

/-- A scope is declared without laying out an array. -/
@[simp] theorem arrays_declareScope (frame : Frame) :
    (s.declareScope frame).arrays = s.arrays :=
  s.events_declareScope (fun _ => rfl) frame

/-- A function is begun without laying out an array. -/
@[simp] theorem arrays_beginFunction (header : Emit.Header) (params : List (String × ValType)) :
    (s.beginFunction header params).arrays = s.arrays :=
  s.events_beginFunction (fun _ => rfl) (fun _ _ => rfl) header params

/-- A function is ended without laying out an array. -/
@[simp] theorem arrays_endFunction (header : Emit.Header) (saved : Locals) (f : Func) :
    (s.endFunction header saved f).arrays = s.arrays :=
  s.events_endFunction (fun _ => rfl) header saved f

/-- A function that is written adds what is read off its body. -/
@[simp] theorem gather_endFunction {α : Type} (f : Code → List α) (header : Emit.Header)
    (saved : Locals) (g : Func) :
    (s.endFunction header saved g).gather f = s.gather f ++ f g.body := by
  simp [gather]

end State

/-- The stores that a task writes for an array that has been laid out before. -/
def Task.stores : Task → List FixedStore
  | .members base slot layout => Member.stores base slot layout
  | _ => []

/-- Between two states arrays are laid out, each for an array literal. The stores and the codes of
array literals that are written meanwhile, be it in code or in functions, are those of the literals
and stores for an array that has been laid out before. -/
structure Laid (blocks : List (Extent × List (Expr Frame))) (own written : List FixedStore)
    (drawn : List ArrayCode) (s s' : State) : Prop where
  /-- The arrays, in order. -/
  arrays : s'.arrays = s.arrays ++ blocks.map Prod.fst
  /-- They lie one behind the other. -/
  tiles : Tiles s.arena.cursor.toNat (blocks.map Prod.fst) s'.arena.cursor.toNat
  /-- Each of them has the slots of its literal. -/
  holds : ∀ block ∈ blocks, block.1.Holds block.2
  /-- The code of each literal is that of its array. -/
  codes : (drawn ++ s'.arrayCodes).Perm (s.arrayCodes ++ blocks.map fun block => block.1.code block.2)
  /-- There are no other stores. -/
  stores : (written ++ s'.stores).Perm
    (own ++ (s.stores ++ blocks.flatMap fun block => (block.1.code block.2).stores))

/-- Between two states arrays are laid out for array literals while code is written. -/
def Lays (literals : List (List (Expr Frame))) (own written : List FixedStore)
    (drawn : List ArrayCode) (s s' : State) : Prop :=
  ∃ blocks, blocks.map Prod.snd = literals ∧ Laid blocks own written drawn s s'

namespace Lays

variable {literals literals₁ literals₂ : List (List (Expr Frame))}
  {own own₁ own₂ written written₁ written₂ : List FixedStore}
  {drawn drawn₁ drawn₂ : List ArrayCode} {s s₁ s' t t' : State}

/-- Nothing is laid out where nothing happens. -/
theorem refl (s : State) : Lays [] [] [] [] s s :=
  ⟨[], rfl, by simp, rfl, by simp, by simp, by simp⟩

/-- One run after another. -/
theorem append (h : Lays literals₁ own₁ written₁ drawn₁ s s₁)
    (h' : Lays literals₂ own₂ written₂ drawn₂ s₁ s') :
    Lays (literals₁ ++ literals₂) (own₁ ++ own₂) (written₁ ++ written₂) (drawn₁ ++ drawn₂) s s' := by
  obtain ⟨first, hliterals, harrays, htiles, hholds, hcodes, hstores⟩ := h
  obtain ⟨second, hliterals', harrays', htiles', hholds', hcodes', hstores'⟩ := h'
  refine ⟨first ++ second, ?_, ?_, ?_, ?_, ?_, ?_⟩
  · rw [List.map_append, hliterals, hliterals']
  · rw [harrays', harrays, List.map_append, List.append_assoc]
  · rw [List.map_append]
    exact htiles.append htiles'
  · exact fun block hblock => (List.mem_append.1 hblock).elim (hholds block) (hholds' block)
  -- the codes and stores of both runs can be mixed: each one is counted
  · rw [List.perm_iff_count] at hcodes hcodes' ⊢
    intro code
    have hcount := hcodes code
    have hcount' := hcodes' code
    simp only [List.count_append, List.map_append] at hcount hcount' ⊢
    omega
  · rw [List.perm_iff_count] at hstores hstores' ⊢
    intro store
    have hcount := hstores store
    have hcount' := hstores' store
    simp only [List.count_append, List.flatMap_append] at hcount hcount' ⊢
    omega

/-- A run from or to a state with the same arrays, memory and functions. -/
theorem congr (h : Lays literals own written drawn t t') (harrays : t.arrays = s.arrays)
    (harena : t.arena = s.arena) (hfuncs : t.funcs = s.funcs) (harrays' : s'.arrays = t'.arrays)
    (harena' : s'.arena = t'.arena) (hfuncs' : s'.funcs = t'.funcs) :
    Lays literals own written drawn s s' := by
  obtain ⟨blocks, hliterals, hblocks⟩ := h
  have hgather {α : Type} (f : Code → List α) : t.gather f = s.gather f := by
    rw [State.gather, hfuncs, State.gather]
  have hgather' {α : Type} (f : Code → List α) : s'.gather f = t'.gather f := by
    rw [State.gather, hfuncs', State.gather]
  refine ⟨blocks, hliterals, ?_, ?_, hblocks.holds, ?_, ?_⟩
  · rw [harrays', hblocks.arrays, harrays]
  · rw [harena', ← harena]
    exact hblocks.tiles
  · rw [State.arrayCodes, hgather', State.arrayCodes, ← hgather]
    exact hblocks.codes
  · rw [State.stores, hgather', State.stores, ← hgather]
    exact hblocks.stores

/-- A library function that is asked for first. -/
theorem of_require {snippet : Snippet} (h : Lays literals own written drawn (s.require snippet) s') :
    Lays literals own written drawn s s' :=
  h.congr (by simp) (by simp) (by simp [State.funcs]) rfl rfl rfl

/-- The order of what is written in a code does not matter. -/
theorem reorder (h : Lays literals own written drawn s s') (hwritten : written₁.Perm written)
    (hdrawn : drawn₁.Perm drawn) : Lays literals own written₁ drawn₁ s s' := by
  obtain ⟨blocks, hliterals, hblocks⟩ := h
  exact ⟨blocks, hliterals, hblocks.arrays, hblocks.tiles, hblocks.holds,
    (hdrawn.append_right _).trans hblocks.codes, (hwritten.append_right _).trans hblocks.stores⟩

/-- A store for an array that has been laid out before. -/
theorem cons (h : Lays literals own written drawn s s') (store : FixedStore) :
    Lays literals (store :: own) (store :: written) drawn s s' := by
  obtain ⟨blocks, hliterals, hblocks⟩ := h
  exact ⟨blocks, hliterals, hblocks.arrays, hblocks.tiles, hblocks.holds, hblocks.codes,
    hblocks.stores.cons store⟩

/-- Stores for an array that has been laid out before. -/
theorem prepend (h : Lays literals own written drawn s s') (stores : List FixedStore) :
    Lays literals (stores ++ own) (stores ++ written) drawn s s' := by
  induction stores with
  | nil => exact h
  | cons store rest ih => exact ih.cons store

/-- Code that becomes a function. -/
theorem endFunction (h : Lays literals own written drawn s s') (header : Emit.Header)
    (saved : Locals) {f : Func} (hwritten : f.body.fixedStores = written)
    (hdrawn : f.body.arrayCodes = drawn) :
    Lays literals own [] [] s (s'.endFunction header saved f) := by
  obtain ⟨blocks, hliterals, hblocks⟩ := h
  refine ⟨blocks, hliterals, ?_, hblocks.tiles, hblocks.holds, ?_, ?_⟩
  · rw [State.arrays_endFunction, hblocks.arrays]
  · rw [State.arrayCodes, State.gather_endFunction, hdrawn, List.nil_append]
    exact List.perm_append_comm.trans hblocks.codes
  · rw [State.stores, State.gather_endFunction, hwritten, List.nil_append]
    exact List.perm_append_comm.trans hblocks.stores

end Lays

/-- Where an array is laid out: behind a slot for its number of elements. -/
theorem Arena.array_eq {arena arena₁ arena₂ : Arena} {base : UInt32} {total : Nat}
    (htotal : total < UInt32.size) (hopen : arena.openArray = .ok (base, arena₁))
    (hadvance : arena₁.advance (.ofNat total) = .ok arena₂) :
    base.toNat = arena.cursor.toNat + slotBytes ∧
      arena₂.cursor.toNat = base.toNat + slotBytes * total := by
  obtain ⟨hfirst, rfl⟩ := advance_of_openArray hopen
  refine ⟨cursor_advance hfirst, ?_⟩
  rw [cursor_advance hadvance, UInt32.toNat_ofNat_of_lt' htotal]

/-- Ranges of members are counted exactly below a bound, which the memory keeps. -/
theorem Arena.total_lt_maxSlots {arena arena₁ arena₂ : Arena} {base : UInt32} {total : Nat}
    (htotal : total < UInt32.size) (hopen : arena.openArray = .ok (base, arena₁))
    (hadvance : arena₁.advance (.ofNat total) = .ok arena₂) : total < Member.maxSlots := by
  have hlt := arena₂.cursor.toNat_lt
  rw [(array_eq htotal hopen hadvance).2, slotBytes] at hlt
  rw [Member.maxSlots, UInt32.size]
  omega

/-- The code of an array literal stores the number of slots in front of the array, and what its
members store. -/
theorem fixedStores_arrayOf (base : UInt32) (count : Nat) (codes : List Code) :
    (Emit.arrayOf base count codes).fixedStores
      = ⟨base.toNat - slotBytes, 4⟩ :: codes.flatMap Code.fixedStores := by
  have hstore : Op.fixedStores .storeInt
      [Emit.address (base.toNat - slotBytes), Emit.address count]
      = [⟨base.toNat - slotBytes, 4⟩] := by
    show [(⟨_, _⟩ : FixedStore)] = [⟨_, _⟩]
    rw [toNat_toUInt32_ofInt, Nat.mod_eq_of_lt]
    exact Nat.lt_of_le_of_lt (Nat.sub_le _ _) base.toNat_lt
  rw [Emit.arrayOf, Code.fixedStores, Code.collect_join, List.cons_append, List.flatMap_cons,
    Code.collect_one, hstore, List.flatMap_append]
  simp [Emit.address]

/-- An array literal: the array itself comes before those of its members. -/
theorem Lays.array {s s' : State} {members : List (Expr Frame)} {layout : List Member}
    {codes : List Code} {base : UInt32} {arena₁ arena₂ : Arena} {span : Span}
    {literals : List (List (Expr Frame))}
    (hlayout : List.Forall₂ (fun e m => Member.ofOperand (e.kind s.env) ⟨e, e.emit⟩ = .ok m)
      members layout)
    (htotal : Member.total layout < UInt32.size)
    (hopen : s.arena.openArray = .ok (base, arena₁))
    (hadvance : arena₁.advance (.ofNat (Member.total layout)) = .ok arena₂)
    (hmembers : Emits ({ s with arena := arena₂ }.record
      (.array span base (.ofNat (Member.total layout)))) (.members base 0 layout) codes s')
    (h : Lays literals (Member.stores base 0 layout) (codes.flatMap Code.fixedStores)
      (codes.flatMap Code.arrayCodes)
      ({ s with arena := arena₂ }.record (.array span base (.ofNat (Member.total layout)))) s') :
    Lays (members :: literals) [] (Emit.arrayOf base (Member.total layout) codes).fixedStores
      (Emit.arrayOf base (Member.total layout) codes).arrayCodes s s' := by
  obtain ⟨hbase, hcursor⟩ := Arena.array_eq htotal hopen hadvance
  obtain ⟨blocks, hliterals, harrays, htiles, hholds, hcodes, hstores⟩ := h
  have hend : base.toNat + slotBytes * (0 + Member.total layout) < UInt32.size := by
    rw [Nat.zero_add, ← hcursor]
    exact arena₂.cursor.toNat_lt
  obtain ⟨hslots, _⟩ := Member.counts_of_classified hlayout hmembers.not_range
    (Arena.total_lt_maxSlots htotal hopen hadvance)
  have helements := Member.stores_of_classified hlayout hmembers.not_range hend
  have hcount : (UInt32.ofNat (Member.total layout)).toNat = Member.total layout :=
    UInt32.toNat_ofNat_of_lt' htotal
  have hcode : (Extent.mk base.toNat (Member.total layout)).code members
      = ⟨⟨base.toNat - slotBytes, 4⟩, Member.total layout, Member.stores base 0 layout,
        base.toNat⟩ := by
    rw [helements]
    rfl
  refine ⟨(⟨base.toNat, Member.total layout⟩, members) :: blocks, ?_, ?_, ?_, ?_, ?_, ?_⟩
  · rw [List.map_cons, hliterals]
  · rw [harrays]
    simp [State.arrays, State.record, Event.array?, hcount]
  · refine ⟨hbase, ?_⟩
    rw [← hcursor]
    exact htiles
  · exact List.forall_mem_cons.2 ⟨hslots, hholds⟩
  · rw [arrayCodes_arrayOf htotal hmembers.map_element? hmembers.closed, List.map_cons, hcode,
      List.cons_append]
    exact (hcodes.cons _).trans List.perm_middle.symm
  · -- the stores of the members come in the order of the text, those of a block by array: only
    -- how often each one occurs can be compared
    rw [fixedStores_arrayOf, List.perm_iff_count]
    rw [List.perm_iff_count] at hstores
    intro store
    have hcount := hstores store
    simp only [List.count_append, List.flatMap_cons, List.count_cons, List.count_nil, hcode,
      ArrayCode.stores] at hcount ⊢
    have hsame : State.stores (State.record { s with arena := arena₂ }
      (.array span base (.ofNat (Member.total layout)))) = s.stores := rfl
    rw [hsame] at hcount
    omega

section

attribute [local simp] Op.fixedStores Task.stores

/-- A conversion stores nothing. -/
@[simp] theorem Code.fixedStores_apply (coercion : Coercion) (code : Code) :
    (coercion.apply code).fixedStores = code.fixedStores := by
  cases coercion <;> simp [Coercion.apply]

/-- Reading a variable stores nothing at a fixed address. -/
@[simp] theorem Code.fixedStores_read (x : String) (v : Variable) :
    (Emit.read x v).fixedStores = [] := by
  unfold Emit.read
  split <;> simp

/-- A store to a variable stores at the fixed addresses of its number. -/
@[simp] theorem Code.fixedStores_store (x : String) (v : Variable) (code : Code)
    (kind : Option Kind) : (Emit.store x v code kind).fixedStores = code.fixedStores := by
  unfold Emit.store
  split <;> simp

/-- A test stores at the fixed addresses of its number. -/
@[simp] theorem Code.fixedStores_testOf (kind : Option Kind) (code : Code) :
    (Emit.testOf kind code).fixedStores = code.fixedStores := by
  unfold Emit.testOf
  split <;> simp

/-- The length of an array is read with the stores of the array. -/
@[simp] theorem Code.fixedStores_loadLength (code : Code) :
    (Emit.loadLength code).fixedStores = code.fixedStores := by
  simp [Emit.loadLength, Emit.address]

/-- The address of an element store is computed. -/
@[simp] theorem Code.fixedStores_writeElement (array index again value : Code) :
    (Emit.writeElement array index again value).fixedStores
      = array.fixedStores ++ (index.fixedStores ++ (again.fixedStores ++ value.fixedStores)) := by
  have hcomputed (operands rest : List Code) :
      -- the address of an element is a sum, not a constant
      FixedStore.ofOperands 8 (one (.int .add) operands :: rest) = [] := rfl
  simp [Emit.writeElement, hcomputed]

/-- A body that is brought to its result stores at its own fixed addresses. -/
@[simp] theorem Code.fixedStores_fit (header : Emit.Header) (kind : Option Kind) (code : Code) :
    (header.fit kind code).fixedStores = code.fixedStores := by
  unfold Emit.Header.fit
  split
  · split <;> simp
  · rfl

/-- The stores of the integers of a range. -/
theorem fixedStores_intRange (base : UInt32) (slot : Nat) (low high : Int32) :
    ((Member.intRange low high).zipIdx.map fun (value, i) =>
        Emit.storeSlot base (slot + i) (.float (.ofInt32 value))).flatMap Code.fixedStores
      = (List.range (Member.intRange low high).length).map fun i => .element base (slot + i) := by
  have hone : (fun entry : Int32 × Nat => Code.fixedStores
      (Emit.storeSlot base (slot + entry.2) (.float (.ofInt32 entry.1))))
      = fun entry => [FixedStore.element base (slot + entry.2)] := by
    funext entry
    simp
  rw [List.flatMap_map, hone, ← List.map_eq_flatMap, List.range_eq_range',
    ← List.zipIdx_map_snd 0 (Member.intRange low high), List.map_map]
  rfl

/-- The integers of a range hold no array literals. -/
theorem arrayCodes_intRange (base : UInt32) (slot : Nat) (low high : Int32) :
    ((Member.intRange low high).zipIdx.map fun (value, i) =>
        Emit.storeSlot base (slot + i) (.float (.ofInt32 value))).flatMap Code.arrayCodes = [] := by
  simp [List.flatMap_map]

attribute [local simp] Task.literals Task.visits Expr.visits Node.visits Expr.visitsList Visit.with
  Expr.isFunction List.filterMap_cons Visit.members? Expr.members?

/-- A run lays out arrays one behind the other, one for each array literal of its task, and fills
them in. -/
theorem Emits.lays {s s' : State} {task : Task} {codes : List Code} (h : Emits s task codes s') :
    Lays (task.literals s.env) task.stores (codes.flatMap Code.fixedStores)
      (codes.flatMap Code.arrayCodes) s s' := by
  -- all premises of a rule run in the same surroundings (`env_eq`), in which the literals are read
  induction h with
  | floatLit | intLit | negInt | negFloat | listNil | argsNil | fixed | membersNil =>
    exact .refl _
  -- neither the empty code nor the read of a variable stores anything
  | @ident s x v _ _ _ _ =>
    have hread : Code.fixedStores (if v.kind = .function then [] else Emit.read x v) = [] := by
      split <;> simp
    have hnone : Code.arrayCodes (if v.kind = .function then [] else Emit.read x v) = [] := by
      split <;> simp
    simpa [hread, hnone] using Lays.refl s
  | statements hitems ih | sequence hitems ih =>
    simpa [Code.arrayCodes_join hitems.closed] using ih
  | call _ ih | opposite _ _ _ _ ih | difference _ _ _ _ ih | compound _ _ _ ih | operand _ ih =>
    simpa using ih
  | length _ _ ih => simpa [Expr.visitsOption] using ih
  | step _ _ _ ih => simpa [Expr.int, Expr.plain, Expr.withKind] using ih
  | assignFunction hf _ ih =>
    rw [literals_assign, if_pos hf]
    simpa [Expr.identifier?, Expr.visitsAgain] using ih
  | assignName hf _ _ _ _ _ ih =>
    rw [literals_assign, if_neg (Bool.eq_false_iff.1 hf)]
    simpa [Expr.visitsAgain] using ih
  | function _ ih => simpa [Expr.visitsOption_eq] using ih
  | binary _ _ ih | compare _ ih => simpa using ih
  | computed _ ih => exact ih
  | memberReserve _ ih => exact ih
  | @array s s' members layout _ _ _ _ _ _ _ hlayout htotal hopen hadvance hmembers ih =>
    have harray : Lays (members :: Task.literals s.env (.members 0 0 layout)) _ _ _ s s' :=
      Lays.array hlayout htotal hopen hadvance hmembers ih
    simpa [literals_of_classified hlayout] using harray
  | @block s _ _ frame _ _ _ _ _ ih =>
    rw [@State.env_of_scopes_cons s _ frame (by simp)] at ih
    exact ih.congr (by simp) (by simp [State.enter]) (State.funcs_declareScope _ frame) rfl rfl rfl
  | @clampInt s _ _ _ value low high _ _ _ _ _ _ _ _ _ hv hh _ ihv ihh ihl =>
    rw [hh.env_eq] at ihl
    rw [hv.env_eq] at ihh ihl
    simp only [State.env_require] at ihv ihh ihl
    simpa [Expr.visitsOption] using ihv.of_require.of_require.append (ihh.append ihl)
  | clampFloat _ hv hh _ ihv ihh ihl =>
    rw [hh.env_eq] at ihl
    rw [hv.env_eq] at ihh ihl
    simpa [Expr.visitsOption] using ihv.append (ihh.append ihl)
  | @assignPart s s₁ s₂ s₃ s' target array position value v b i n ty span name hp hv hb hi _ _ ihv
      ihb ihi ihn =>
    rw [hi.env_eq] at ihn
    rw [hb.env_eq] at ihi ihn
    rw [State.env_require] at ihb ihi ihn
    rw [hv.env_eq] at ihb ihi ihn
    have hruns := ihv.append (ihb.of_require.append (ihi.append ihn))
    rw [literals_assign, (definitions_of_position hp).1, ite_self, literals_of_position hp]
    -- the value is compiled first and stands last
    refine hruns.reorder ?_ ?_
    · rw [List.perm_iff_count]
      intro store
      simp only [List.flatMap_singleton, Code.fixedStores_writeElement, List.count_append]
      omega
    · rw [List.perm_iff_count]
      intro code
      simp only [List.flatMap_singleton, Code.arrayCodes_writeElement, List.count_append]
      omega
  | @loop s _ s₂ cond body test content _ _ _ hc hb ihc ihb =>
    have hcontent := List.forall_mem_singleton.1 hb.closed
    rw [hc.env_eq] at ihb
    -- entering and leaving the loop changes neither memory nor functions
    have hruns : Lays (Task.literals s.env (.expr cond none) ++ Task.literals s.env (.expr body none))
        _ _ _ s s₂.exitLoop := (ihc.append ihb).congr rfl rfl rfl rfl rfl rfl
    simpa [Emit.loopOf, Code.arrayCodes_append hcontent] using hruns
  | listCons he _ ihe ihrest | argsFree he _ ihe ihrest | argsCons he _ ihe ihrest =>
    rw [he.env_eq] at ihrest
    simpa using ihe.append ihrest
  | pairInt _ hl _ ihl ihr | pairFloat _ hl _ ihl ihr =>
    rw [hl.env_eq] at ihr
    simpa using ihl.append ihr
  | @memberInt _ _ _ _ operand _ _ _ hv _ ih =>
    obtain ⟨⟨node, ty, span⟩, emitted⟩ := operand
    cases hv
    simpa [Member.stores, Member.exprs] using ih.cons _
  | memberValue _ he _ ihe ihrest =>
    rw [he.env_eq] at ihrest
    simpa [Member.stores, Member.exprs] using (ihe.append ihrest).cons _
  | memberInts _ ih =>
    rw [List.flatMap_append, fixedStores_intRange, List.flatMap_append, arrayCodes_intRange]
    exact ih.prepend _
  | @definition s s₁ s₂ header prologue body params first second _ hf hs ihf ihs =>
    rw [hf.env_eq] at ihs
    rw [@State.env_of_scopes_cons s _ header.frame (by simp)] at ihf ihs
    have hsecond := (List.forall_mem_singleton.1 hs.closed).fit header (body.kind s₂.env)
    have hclosed : ∀ code ∈ [first.flatten, header.fit (body.kind s₂.env) second,
        Code.one .ret []], Code.Closed code := by
      have hret : (Code.one .ret []).Closed := Code.closed_one (by simp) []
      simpa using ⟨Code.closed_flatten hf.closed, hsecond, hret⟩
    have hliterals : Task.literals s.env (.definition header prologue body)
        = Task.literals (s.env.enter header.frame) (.list prologue.toList)
          ++ Task.literals (s.env.enter header.frame) (.expr body none) := List.filterMap_append
    have hbody : Lays _ _ _ _ s s₂ :=
      (ihf.append ihs).congr (by simp) (by simp) (by simp [State.funcs_beginFunction]) rfl rfl rfl
    rw [hliterals]
    refine hbody.endFunction header s.table ?_ ?_
    · simp [Emit.Header.func]
    · simp [Emit.Header.func, Code.arrayCodes_join hclosed, Code.arrayCodes_flatten hf.closed]

end

/-! ## Modules -/

/-- The arrays of a compilation, in the order they were laid out. -/
def Compilation.arrays (c : Compilation) : List Extent := c.log.filterMap Event.array?

/-- The bytes of memory that a complete module needs. -/
def Event.bytes? : Event → Option Nat
  | .assembled _ _ bytes => some bytes.toNat
  | _ => none

/-- The bytes of memory that a compilation has handed out when its module is complete. -/
def Compilation.memory? (c : Compilation) : Option Nat := c.log.getLast?.bind Event.bytes?

/-- The stores to fixed addresses in the functions of a module. -/
def Module.fixedStores (m : Module) : List FixedStore :=
  m.functions.flatMap fun f => f.body.fixedStores

/-- The codes of array literals in the functions of a module. -/
def Module.arrayCodes (m : Module) : List ArrayCode :=
  m.functions.flatMap fun f => f.body.arrayCodes

/-- The library functions store nothing. -/
theorem Snippet.fixedStores_func (snippet : Snippet) : snippet.func.body.fixedStores = [] := by
  cases snippet <;> rfl

/-- The library functions hold no array literals. -/
theorem Snippet.arrayCodes_func (snippet : Snippet) : snippet.func.body.arrayCodes = [] := by
  cases snippet <;> rfl

/-- Pages are as few as hold a number of bytes, and no more than there may be. -/
def FewestPages : Option UInt32 → Nat → Prop
  | none, bytes => bytes = 0
  | some pages, bytes =>
    65536 * (pages.toNat - 1) < bytes ∧ bytes ≤ 65536 * pages.toNat ∧ pages.toNat ≤ 65536

/-- The pages of a memory are as few as hold all slots that are handed out. -/
theorem Arena.fewestPages {arena : Arena} {pages : Option UInt32} (h : arena.pages = .ok pages)
    (hdvd : slotBytes ∣ arena.cursor.toNat) : FewestPages pages arena.cursor.toNat := by
  unfold Arena.pages at h
  -- without memory there are no pages at all
  by_cases hzero : arena.cursor = 0
  · rw [if_pos hzero] at h
    cases h
    rw [hzero]
    rfl
  · have hpositive : arena.cursor.toNat ≠ 0 := fun heq => hzero (UInt32.toNat_inj.1 heq)
    have hlt := arena.cursor.toNat_lt
    rw [if_neg hzero] at h
    dsimp only at h
    split at h
    · cases h
    · cases h
      -- the number of slots is rounded up to whole pages
      simp only [slots, slotBytes, slotsPerPage, FewestPages] at hdvd ⊢
      have hcount : (arena.cursor.toNat / 8 + (8192 - 1)) / 8192 < UInt32.size := by
        have hsize : UInt32.size = 4294967296 := rfl
        omega
      rw [UInt32.toNat_ofNat_of_lt' hcount]
      omega

/-- What is not found in library functions is read off the functions that have been written. -/
theorem Module.gather_eq {α : Type} {f : Code → List α}
    (hf : ∀ snippet : Snippet, f snippet.func.body = []) (pages : Option UInt32) (s : State)
    (exports : List Export) :
    (Module.functions ⟨pages, s.includes, s.forms, exports⟩).flatMap (fun g => f g.body)
      = s.gather f := by
  have hsnippets : (s.includes.map Snippet.func).flatMap (fun g => f g.body) = [] := by
    simp [List.flatMap_map, hf]
  unfold Module.functions
  rw [List.flatMap_append, hsnippets]
  rfl

/-- The arrays that a compilation has laid out, one for each array literal. They tile the memory,
whose pages hold them all, the module has the code of each of them, and there are no other stores to
fixed addresses. -/
theorem Program.layout_of_compile {p : Program} {m : Module} {map : SourceMap}
    (h : p.compile.outcome = .ok (m, map)) :
    ∃ (cursor : Nat) (blocks : List (Extent × List (Expr Frame))),
      p.compile.memory? = some cursor ∧ p.compile.arrays = blocks.map Prod.fst ∧
      Tiles 0 (blocks.map Prod.fst) cursor ∧ FewestPages m.pages cursor ∧
      p.literals = blocks.map Prod.snd ∧ (∀ block ∈ blocks, block.1.Holds block.2) ∧
      m.arrayCodes.Perm (blocks.map fun block => block.1.code block.2) ∧
      m.fixedStores.Perm (blocks.flatMap fun block => (block.1.code block.2).stores) := by
  obtain ⟨s, pages, hemits, hpages, rfl, _, hlog⟩ := run_of_compile h
  obtain ⟨blocks, hliterals, harrays, htiles, hholds, hcodes, hstores⟩ := hemits.lays
  have htiles : Tiles 0 (blocks.map Prod.fst) s.arena.cursor.toNat := htiles
  obtain ⟨hdvd, _⟩ := htiles.dvd (Nat.dvd_zero slotBytes)
  refine ⟨s.arena.cursor.toNat, blocks, ?_, ?_, htiles, Arena.fewestPages hpages hdvd,
    hliterals.symm, hholds, ?_, ?_⟩
  · rw [Compilation.memory?, hlog, List.getLast?_concat]
    rfl
  · -- the last event lays out no array
    rw [Compilation.arrays, hlog, List.filterMap_append]
    exact (List.append_nil _).trans harrays
  · rw [Module.arrayCodes, Module.gather_eq Snippet.arrayCodes_func]
    exact hcodes
  · rw [Module.fixedStores, Module.gather_eq Snippet.fixedStores_func]
    exact hstores

/-- A module has a memory if arrays are laid out. -/
theorem Program.pages_eq_none_iff {p : Program} {m : Module} {map : SourceMap}
    (h : p.compile.outcome = .ok (m, map)) : m.pages = none ↔ p.compile.arrays = [] := by
  obtain ⟨cursor, blocks, _, harrays, htiles, hfewest, _⟩ := layout_of_compile h
  rw [harrays, htiles.eq_nil_iff]
  cases hpages : m.pages with
  | none =>
    rw [hpages] at hfewest
    exact ⟨fun _ => hfewest.symm, fun _ => rfl⟩
  | some count =>
    rw [hpages] at hfewest
    have hpositive := hfewest.1
    exact ⟨fun hnone => (nomatch hnone), fun hzero => by omega⟩

/-- The arrays of a module do not overlap. The first one has the address eight, and each one begins
behind the slots of the one before it. Their regions are disjoint, begin and end at slots, and are all
of the memory that is handed out. There is one array for each array literal that the compiler comes
to, in order, with the slots of its members. The module has the code of each literal, which stores
the number of elements in front of its own array and the members in their own slots and leaves the
address of the array; all these stores stay in the region of the array, and there are no others to
fixed addresses. There is a memory if there is an array, and it has as few pages as hold all
arrays. -/
theorem Program.arrays_tile_memory {p : Program} {m : Module} {map : SourceMap}
    (h : p.compile.outcome = .ok (m, map)) :
    ∃ cursor, p.compile.memory? = some cursor ∧
      (∀ a ∈ p.compile.arrays.head?, a.base = 8) ∧
      p.compile.arrays.IsChain (fun a b => b.base = a.base + 8 * a.count + 8) ∧
      p.compile.arrays.Pairwise (fun a b => Disjoint a.region b.region) ∧
      (∀ a ∈ p.compile.arrays, 8 ∣ a.base - 8 ∧ 8 ∣ a.base + 8 * a.count) ∧
      ⋃ a ∈ p.compile.arrays, a.region = Set.Ico 0 cursor ∧
      List.Forall₂ (fun a members => a.count = (members.map Expr.slots).sum ∧
        ∀ store ∈ (a.code members).stores, store.bytes ⊆ a.region) p.compile.arrays p.literals ∧
      m.arrayCodes.Perm (List.zipWith Extent.code p.compile.arrays p.literals) ∧
      m.fixedStores.Perm (m.arrayCodes.flatMap ArrayCode.stores) ∧
      (m.pages = none ↔ p.compile.arrays = []) ∧ FewestPages m.pages cursor := by
  have hmemory := pages_eq_none_iff h
  obtain ⟨cursor, blocks, hcursor, harrays, htiles, hfewest, hliterals, hholds, hcodes, hstores⟩ :=
    layout_of_compile h
  obtain ⟨_, hbases⟩ := htiles.dvd (Nat.dvd_zero slotBytes)
  rw [harrays] at hmemory ⊢
  rw [hliterals]
  refine ⟨cursor, hcursor, htiles.base_head, htiles.isChain, htiles.pairwise_disjoint,
    fun a ha => ?_, htiles.iUnion_region, ?_, ?_, ?_, hmemory, hfewest⟩
  · exact ⟨Nat.dvd_sub (hbases a ha) (Nat.dvd_refl 8),
      Nat.dvd_add (hbases a ha) (Nat.dvd_mul_right _ _)⟩
  · rw [List.forall₂_map_left_iff, List.forall₂_map_right_iff, List.forall₂_same]
    intro block hblock
    obtain ⟨hbase, _⟩ := htiles.bounds (List.mem_map_of_mem hblock)
    rw [Nat.zero_add] at hbase
    exact ⟨hholds block hblock, (hholds block hblock).bytes_subset hbase⟩
  · rw [List.zipWith_map, List.zipWith_self]
    exact hcodes
  · -- each store is one of the code of its array
    refine hstores.trans ?_
    rw [← List.flatMap_map]
    exact (hcodes.flatMap_right _).symm

/-- `a = [1, [2, ..2, 3].length]`: an array that has the length of another one as its second element.
Two slots of the inner array are left free. -/
def Program.nestedArrays : Program where
  body := .plain (.assign (.plain (.ident "a")) (.plain (.array
    [.int 1, .plain (.index (.plain (.array
      [.int 2, .plain (.range none (some (.int 2))), .int 3])) none)])))
  scope := ⟨[⟨"a", { kind := .pointer, storage := .globalVar }⟩]⟩

/-- The inner array lies behind the outer one, whose code is written around that of the inner one.
Each of the two codes stores into its own array only, and the free slots are not written. -/
theorem Program.nestedArrays_tile : ∃ m map, nestedArrays.compile.outcome = .ok (m, map) ∧
    nestedArrays.compile.arrays = [⟨8, 2⟩, ⟨32, 4⟩] ∧ m.pages = some 1 ∧
    ⋃ a ∈ nestedArrays.compile.arrays, a.region = Set.Ico 0 64 ∧
    m.arrayCodes.Perm
      [⟨⟨0, 4⟩, 2, [⟨8, 8⟩, ⟨16, 8⟩], 8⟩, ⟨⟨24, 4⟩, 4, [⟨32, 8⟩, ⟨56, 8⟩], 32⟩] ∧
    m.fixedStores.Perm [⟨0, 4⟩, ⟨8, 8⟩, ⟨16, 8⟩, ⟨24, 4⟩, ⟨32, 8⟩, ⟨56, 8⟩] ∧
    ∀ store ∈ [FixedStore.mk 24 4, ⟨32, 8⟩, ⟨56, 8⟩],
      store.bytes ⊆ Extent.region ⟨32, 4⟩ ∧ Disjoint store.bytes (Extent.region ⟨8, 2⟩) := by
  refine ⟨_, _, rfl, rfl, rfl, ?_⟩
  obtain ⟨cursor, hcursor, _, _, hdisjoint, _, hregion, hliterals, hcodes, hstores, _⟩ :=
    @arrays_tile_memory nestedArrays _ _ rfl
  have hmemory : nestedArrays.compile.memory? = some 64 := rfl
  rw [hmemory, Option.some.injEq] at hcursor
  have hpair : List.zipWith Extent.code nestedArrays.compile.arrays nestedArrays.literals
      = [⟨⟨0, 4⟩, 2, [⟨8, 8⟩, ⟨16, 8⟩], 8⟩, ⟨⟨24, 4⟩, 4, [⟨32, 8⟩, ⟨56, 8⟩], 32⟩] := rfl
  rw [hpair] at hcodes
  obtain ⟨⟨_, hinner⟩, _⟩ := List.forall₂_cons.1 (List.forall₂_cons.1 hliterals).2
  refine ⟨by rw [hregion, hcursor], hcodes, hstores.trans (hcodes.flatMap_right _), ?_⟩
  intro store hstore
  have hwithin := hinner store hstore
  have hapart := (List.pairwise_cons.1 hdisjoint).1 _ List.mem_cons_self
  exact ⟨hwithin, (hapart.mono_right hwithin).symm⟩

end PatchCompiler
