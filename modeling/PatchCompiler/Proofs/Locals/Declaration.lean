import Mathlib.Data.List.Nodup
import PatchCompiler.Proofs.Emission.Fields
import PatchCompiler.Proofs.Wasm.Heads

/-! # Declarations

What declaring a scope does to the state. A scope whose bindings are all new adds its local
variables to those of the running function, each name once; a scope that has been declared before
changes nothing. -/

namespace PatchCompiler

/-! ## Association lists -/

section Lookup

variable {α : Type} {l : List (String × α)}

/-- A name that stands for one thing only is found with it. -/
theorem lookup_eq_some_of_mem {x : String} {a : α} (hmem : (x, a) ∈ l)
    (hall : ∀ b, (x, b) ∈ l → b = a) : l.lookup x = some a := by
  cases hlookup : l.lookup x with
  | none =>
    have hne := List.lookup_eq_none_iff.1 hlookup (x, a) hmem
    simp at hne
  | some b =>
    obtain ⟨_, _, rfl, _⟩ := List.lookup_eq_some_iff.1 hlookup
    rw [hall b (by simp)]

/-- In a list of different names each name is found with what belongs to it. -/
theorem lookup_of_nodup {v : String × α} (hnodup : (l.map Prod.fst).Nodup) (hmem : v ∈ l) :
    l.lookup v.1 = some v.2 := by
  refine lookup_eq_some_of_mem hmem fun b hb => ?_
  have heq := List.inj_on_of_nodup_map hnodup hb hmem rfl
  rw [← heq]

end Lookup

/-! ## Local variables -/

/-- Add a local variable, unless there is one of its name. -/
def addLocal (locals : List (String × ValType)) (v : String × ValType) : List (String × ValType) :=
  if (locals.map Prod.fst).contains v.1 then locals else locals ++ [v]

/-- Add local variables in order, the first one of each name. -/
def addLocals (locals vs : List (String × ValType)) : List (String × ValType) :=
  vs.foldl addLocal locals

/-- Adding no local variable changes nothing. -/
@[simp] theorem addLocals_nil (locals : List (String × ValType)) : addLocals locals [] = locals :=
  rfl

/-- Variables of different names are all added. -/
theorem addLocals_of_nodup {locals vs : List (String × ValType)}
    (h : ((locals ++ vs).map Prod.fst).Nodup) : addLocals locals vs = locals ++ vs := by
  induction vs generalizing locals with
  | nil => exact (List.append_nil locals).symm
  | cons v rest ih =>
    -- the name of `v` is not among the variables before it, so `addLocal` appends
    have hnew : (locals.map Prod.fst).contains v.1 = false := by
      rw [List.map_append, List.map_cons, List.nodup_append'] at h
      have hnotMem : v.1 ∉ locals.map Prod.fst := fun hmem => h.2.2 hmem List.mem_cons_self
      simpa using hnotMem
    rw [show locals ++ v :: rest = locals ++ [v] ++ rest by simp] at h ⊢
    rw [← ih h, addLocals, List.foldl_cons, addLocal, hnew]
    rfl

namespace Locals

variable {table : Locals}

/-- Add a local variable and its name, unless the name is there. -/
def add (table : Locals) (v : String × ValType) : Locals :=
  if table.names.contains v.1 then table
  else ⟨table.declarations ++ [v], v.1 :: table.names⟩

/-- Add local variables in order. -/
def addAll (table : Locals) (vs : List (String × ValType)) : Locals := vs.foldl add table

/-- Adding no local variable changes nothing. -/
@[simp] theorem addAll_nil (table : Locals) : table.addAll [] = table := rfl

/-- A variable whose name is there is not added. -/
theorem add_of_mem {v : String × ValType} (h : v.1 ∈ table.names) : table.add v = table :=
  if_pos (List.contains_iff_mem.2 h)

/-- A variable whose name is not there is added behind the others. -/
theorem add_of_not_mem {v : String × ValType} (h : v.1 ∉ table.names) :
    table.add v = ⟨table.declarations ++ [v], v.1 :: table.names⟩ :=
  if_neg (mt List.contains_iff_mem.1 h)

/-- Adding a local variable keeps those before it and their names. -/
theorem extends_add (table : Locals) (v : String × ValType) :
    table.declarations <+: (table.add v).declarations ∧ table.names ⊆ (table.add v).names := by
  by_cases hmem : v.1 ∈ table.names
  · rw [add_of_mem hmem]
    exact ⟨List.prefix_rfl, List.Subset.refl _⟩
  · rw [add_of_not_mem hmem]
    exact ⟨List.prefix_append _ _, List.subset_cons_self _ _⟩

/-- Local variables can be added in two portions. -/
theorem addAll_append (table : Locals) (first second : List (String × ValType)) :
    table.addAll (first ++ second) = (table.addAll first).addAll second :=
  List.foldl_append

/-- The names are those of the declarations, in the opposite order, and each stands there once. -/
structure Matched (table : Locals) : Prop where
  /-- The names are those of the declarations. -/
  names : table.names = (table.declarations.map Prod.fst).reverse
  /-- No name is declared twice. -/
  nodup : (table.declarations.map Prod.fst).Nodup

/-- With no local variable there is no name. -/
theorem Matched.empty : Matched {} := ⟨rfl, List.nodup_nil⟩

/-- A name is in the table just if a variable of that name is declared. -/
theorem Matched.mem_names_iff (h : table.Matched) {x : String} :
    x ∈ table.names ↔ x ∈ table.declarations.map Prod.fst := by
  rw [h.names, List.mem_reverse]

/-- The look-up among the names decides as one among the declarations would. -/
theorem Matched.declarations_add (h : table.Matched) (v : String × ValType) :
    (table.add v).declarations = addLocal table.declarations v := by
  have hcontains : table.names.contains v.1 = (table.declarations.map Prod.fst).contains v.1 := by
    rw [h.names, List.contains_reverse]
  rw [add, addLocal, hcontains]
  split <;> rfl

/-- Adding a variable adds its name. -/
theorem Matched.add (h : table.Matched) (v : String × ValType) : (table.add v).Matched := by
  by_cases hmem : v.1 ∈ table.names
  · rwa [add_of_mem hmem]
  · rw [add_of_not_mem hmem]
    refine ⟨by simp [h.names], ?_⟩
    rw [List.map_append, List.nodup_append']
    refine ⟨h.nodup, List.nodup_singleton _, fun x hx hv => hmem (h.mem_names_iff.2 ?_)⟩
    rwa [List.mem_singleton.1 hv] at hx

/-- Adding variables adds their names. -/
theorem Matched.addAll (h : table.Matched) (vs : List (String × ValType)) :
    (table.addAll vs).Matched := by
  induction vs generalizing table with
  | nil => exact h
  | cons v rest ih => exact ih (h.add v)

/-- The declarations after adding variables are the first ones of each name. -/
theorem Matched.declarations_addAll (h : table.Matched) (vs : List (String × ValType)) :
    (table.addAll vs).declarations = addLocals table.declarations vs := by
  induction vs generalizing table with
  | nil => rfl
  | cons v rest ih =>
    have hrest := ih (h.add v)
    rwa [h.declarations_add v] at hrest

end Locals

/-! ## Bindings -/

/-- Whether a binding is one the compiler declares: parameters and functions are not. -/
def Binding.isVariable (b : Binding) : Bool :=
  decide (b.info.storage ≠ .parameter) && decide (b.info.kind ≠ .function)

/-- Whether a binding is declared in the running function. -/
def Binding.isLocal (b : Binding) : Bool := b.isVariable && !b.info.isGlobal

/-- The local variables that a scope introduces. -/
def Scope.variables (scope : Scope) : List (String × ValType) :=
  (scope.bindings.filter Binding.isLocal).map fun b => (b.name, b.info.kind.valType)

/-- The global variables that a scope introduces. -/
def Scope.globals (scope : Scope) : List (String × ValType) :=
  (scope.bindings.filter fun b => b.isVariable && b.info.isGlobal).map fun b =>
    (b.name, b.info.kind.valType)

/-- The bindings of a frame that the compiler declares. -/
def Frame.declares (frame : Frame) : List Slot :=
  (frame.slots.filter fun entry => entry.2.isVariable).map Prod.fst

namespace State

variable {s : State}

/-- The functions written so far. -/
def funcs (s : State) : List Func := s.forms.filterMap Form.func?

/-- The global variables written so far. -/
def globals (s : State) : List (String × ValType) := s.forms.filterMap Form.global?

/-- A run that starts with no local variable, and adds some unless it meets them again, ends with
the first ones of each name. -/
theorem locals_eq_addLocals {again : Bool} {t : State} {vs : List (String × ValType)}
    (h : t.table = if again then s.table else s.table.addAll vs) (hstart : s.table = {}) :
    t.locals = if again then [] else addLocals [] vs := by
  have hlocals : t.locals = (if again then s.table else s.table.addAll vs).declarations :=
    congrArg Locals.declarations h
  rw [hlocals, hstart]
  cases again with
  | true => rfl
  | false => exact Locals.Matched.empty.declarations_addAll vs

/-- One step of declaring a scope. -/
def declareEntry (s : State) (entry : Slot × Binding) : State :=
  if entry.2.info.storage = .parameter then s else s.declare entry.1 entry.2

/-- A scope is declared binding by binding, in order. -/
theorem declareScope_eq (frame : Frame) :
    s.declareScope frame = frame.slots.foldl declareEntry s := rfl

/-! ## One binding -/

/-- A binding that is not declared, or has been, changes nothing. -/
theorem declareEntry_eq_self {entry : Slot × Binding}
    (h : entry.2.isVariable = true → entry.1 ∈ s.declared) : s.declareEntry entry = s := by
  unfold declareEntry declare isDeclared
  by_cases hstorage : entry.2.info.storage = .parameter
  · rw [if_pos hstorage]
  rw [if_neg hstorage]
  by_cases hkind : entry.2.info.kind = .function
  · simp [hkind]
  · have hmem : entry.1 ∈ s.declared := h (by simp [Binding.isVariable, hstorage, hkind])
    simp [hmem]

/-- What a new binding adds. -/
theorem declareEntry_eq {entry : Slot × Binding} (hvariable : entry.2.isVariable = true)
    (hnew : entry.1 ∉ s.declared) :
    s.declareEntry entry =
      let s := { s with declared := entry.1 :: s.declared }
      let v := (entry.2.name, entry.2.info.kind.valType)
      if entry.2.info.isGlobal then s.pushForm (.globalVar v.1 v.2)
      else (s.restoreLocals (s.table.add v)).2 := by
  obtain ⟨hstorage, hkind⟩ : entry.2.info.storage ≠ .parameter ∧ entry.2.info.kind ≠ .function := by
    simpa [Binding.isVariable] using hvariable
  have hcontains : s.declared.contains entry.1 = false := by simpa using hnew
  simp only [declareEntry, declare, mark, isDeclared, hstorage, hkind, hcontains, if_false,
    decide_false, Bool.or_false, Bool.false_eq_true]
  by_cases hglobal : entry.2.info.isGlobal = true
  · simp only [hglobal, if_true]
  · by_cases htaken : s.localNames.contains entry.2.name = true
    · simp only [hglobal, htaken, Locals.add, restoreLocals, table, takeLocals, if_true, if_false,
        Bool.false_eq_true]
    · simp only [hglobal, htaken, Locals.add, restoreLocals, table, takeLocals, if_false,
        Bool.false_eq_true]

/-- A binding that the compiler declares is declared afterwards, and nothing else is. -/
theorem mem_declared_declareEntry {entry : Slot × Binding} {slot : Slot} :
    slot ∈ (s.declareEntry entry).declared ↔
      slot ∈ s.declared ∨ entry.2.isVariable = true ∧ slot = entry.1 := by
  by_cases hself : entry.2.isVariable = true → entry.1 ∈ s.declared
  · rw [declareEntry_eq_self hself]
    constructor
    · exact Or.inl
    · rintro (h | ⟨hvariable, rfl⟩)
      exacts [h, hself hvariable]
  · obtain ⟨hvariable, hnew⟩ := Classical.not_imp.1 hself
    rw [declareEntry_eq hvariable hnew]
    simp only
    split <;> simp [pushForm, record, restoreLocals, hvariable, or_comm]

/-- A new binding adds a local variable if it is one. -/
theorem table_declareEntry {entry : Slot × Binding}
    (hnew : entry.2.isVariable = true → entry.1 ∉ s.declared) :
    (s.declareEntry entry).table =
      if entry.2.isLocal then s.table.add (entry.2.name, entry.2.info.kind.valType)
      else s.table := by
  by_cases hvariable : entry.2.isVariable = true
  · rw [declareEntry_eq hvariable (hnew hvariable)]
    simp only [Binding.isLocal, hvariable, Bool.true_and]
    by_cases hglobal : entry.2.info.isGlobal = true
    · rw [if_pos hglobal, if_neg (by simp [hglobal])]
      rfl
    · rw [if_neg hglobal, if_pos (by simp [hglobal])]
      rfl
  · rw [declareEntry_eq_self fun h => absurd h hvariable]
    simp [Binding.isLocal, hvariable]

/-- A new binding writes a global variable if it is one. -/
theorem globals_declareEntry {entry : Slot × Binding}
    (hnew : entry.2.isVariable = true → entry.1 ∉ s.declared) :
    (s.declareEntry entry).globals =
      s.globals ++ if entry.2.isVariable && entry.2.info.isGlobal then
        [(entry.2.name, entry.2.info.kind.valType)] else [] := by
  by_cases hvariable : entry.2.isVariable = true
  · rw [declareEntry_eq hvariable (hnew hvariable)]
    by_cases hglobal : entry.2.info.isGlobal = true
    · simp [hvariable, hglobal, globals, pushForm, record, Form.global?]
    · simp [hglobal, globals, restoreLocals]
  · rw [declareEntry_eq_self fun h => absurd h hvariable]
    simp [hvariable]

/-- Declaring a binding writes no function. -/
@[simp] theorem funcs_declareEntry (entry : Slot × Binding) :
    (s.declareEntry entry).funcs = s.funcs := by
  by_cases hself : entry.2.isVariable = true → entry.1 ∈ s.declared
  · rw [declareEntry_eq_self hself]
  · obtain ⟨hvariable, hnew⟩ := Classical.not_imp.1 hself
    rw [declareEntry_eq hvariable hnew]
    simp only
    split
    · simp [funcs, pushForm, record, Form.func?]
    · rfl

/-! ## All bindings of a scope -/

/-- Declaring bindings adds those that the compiler declares. -/
theorem mem_declared_foldl {entries : List (Slot × Binding)} {slot : Slot} :
    slot ∈ (entries.foldl declareEntry s).declared ↔
      slot ∈ s.declared ∨ slot ∈ (entries.filter fun entry => entry.2.isVariable).map Prod.fst := by
  induction entries generalizing s with
  | nil => simp
  | cons entry rest ih =>
    rw [List.foldl_cons, ih, mem_declared_declareEntry]
    by_cases hvariable : entry.2.isVariable = true
    · simp only [List.filter_cons, hvariable, if_true, List.map_cons, List.mem_cons, true_and,
        or_assoc]
    · simp only [List.filter_cons, hvariable, if_false, false_and, or_false, Bool.false_eq_true]

/-- Declaring a scope makes the bindings declared that the compiler declares. -/
theorem mem_declared_declareScope {frame : Frame} {slot : Slot} :
    slot ∈ (s.declareScope frame).declared ↔ slot ∈ s.declared ∨ slot ∈ frame.declares := by
  rw [declareScope_eq, mem_declared_foldl]
  rfl

/-- Declaring bindings that have all been declared changes nothing. -/
theorem foldl_declareEntry_eq_self {entries : List (Slot × Binding)}
    (h : ∀ entry ∈ entries, entry.2.isVariable = true → entry.1 ∈ s.declared) :
    entries.foldl declareEntry s = s := by
  induction entries with
  | nil => rfl
  | cons entry rest ih =>
    rw [List.foldl_cons, declareEntry_eq_self (h entry (by simp))]
    exact ih fun e he => h e (by simp [he])

/-- Declaring a scope again changes nothing. -/
theorem declareScope_eq_self {frame : Frame} (h : ∀ slot ∈ frame.declares, slot ∈ s.declared) :
    s.declareScope frame = s := by
  rw [declareScope_eq]
  refine foldl_declareEntry_eq_self fun entry hentry hvariable => h entry.1 ?_
  exact List.mem_map.2 ⟨entry, List.mem_filter.2 ⟨hentry, hvariable⟩, rfl⟩

/-- Bindings at other places than one that has been declared are still new. -/
theorem not_mem_declared_of_nodup {entry : Slot × Binding} {rest : List (Slot × Binding)}
    (hentry : entry.1 ∉ rest.map Prod.fst)
    (hnew : ∀ e ∈ entry :: rest, e.2.isVariable = true → e.1 ∉ s.declared) :
    ∀ e ∈ rest, e.2.isVariable = true → e.1 ∉ (s.declareEntry entry).declared := by
  intro e he hvariable hmem
  rcases mem_declared_declareEntry.1 hmem with hmem | ⟨_, heq⟩
  · exact hnew e (by simp [he]) hvariable hmem
  · exact hentry (heq ▸ List.mem_map_of_mem he)

/-- New bindings at different places add their local variables in order. -/
theorem table_foldl_declareEntry {entries : List (Slot × Binding)}
    (hnodup : (entries.map Prod.fst).Nodup)
    (hnew : ∀ entry ∈ entries, entry.2.isVariable = true → entry.1 ∉ s.declared) :
    (entries.foldl declareEntry s).table =
      s.table.addAll ((entries.filter fun entry => entry.2.isLocal).map fun entry =>
        (entry.2.name, entry.2.info.kind.valType)) := by
  induction entries generalizing s with
  | nil => rfl
  | cons entry rest ih =>
    rw [List.map_cons, List.nodup_cons] at hnodup
    rw [List.foldl_cons, ih hnodup.2, table_declareEntry (hnew entry (by simp))]
    · by_cases hlocal : entry.2.isLocal = true
      · simp [hlocal, Locals.addAll]
      · simp [hlocal]
    · exact not_mem_declared_of_nodup hnodup.1 hnew

/-- New bindings at different places write their global variables in order. -/
theorem globals_foldl_declareEntry {entries : List (Slot × Binding)}
    (hnodup : (entries.map Prod.fst).Nodup)
    (hnew : ∀ entry ∈ entries, entry.2.isVariable = true → entry.1 ∉ s.declared) :
    (entries.foldl declareEntry s).globals =
      s.globals ++ (entries.filter fun entry => entry.2.isVariable && entry.2.info.isGlobal).map
        fun entry => (entry.2.name, entry.2.info.kind.valType) := by
  induction entries generalizing s with
  | nil => simp
  | cons entry rest ih =>
    rw [List.map_cons, List.nodup_cons] at hnodup
    rw [List.foldl_cons, ih hnodup.2, globals_declareEntry (hnew entry (by simp))]
    · by_cases hglobal : (entry.2.isVariable && entry.2.info.isGlobal) = true
      · simp [hglobal]
      · simp [hglobal]
    · exact not_mem_declared_of_nodup hnodup.1 hnew

/-- The places of a frame's bindings differ. -/
theorem nodup_slots (frame : Frame) : (frame.slots.map Prod.fst).Nodup := by
  have hindices : (frame.slots.map Prod.fst).map Slot.index
      = List.range' 0 frame.scope.bindings.length := by
    rw [Frame.slots, List.map_map, List.map_map, ← List.zipIdx_map_snd 0 frame.scope.bindings]
    rfl
  exact List.Nodup.of_map Slot.index (hindices ▸ List.nodup_range')

/-- The bindings of a frame, without their places, are those of its scope. -/
theorem map_snd_slots (frame : Frame) : frame.slots.map Prod.snd = frame.scope.bindings := by
  rw [Frame.slots, List.map_map]
  exact List.zipIdx_map_fst 0 frame.scope.bindings

/-- Declaring a new scope adds its local variables. -/
theorem table_declareScope {frame : Frame} (h : ∀ slot ∈ frame.declares, slot ∉ s.declared) :
    (s.declareScope frame).table = s.table.addAll frame.scope.variables := by
  rw [declareScope_eq, table_foldl_declareEntry (nodup_slots frame)]
  · congr 1
    rw [Scope.variables, ← map_snd_slots, List.filter_map, List.map_map]
    rfl
  · intro entry hentry hvariable
    exact h entry.1 (List.mem_map.2 ⟨entry, List.mem_filter.2 ⟨hentry, hvariable⟩, rfl⟩)

/-- Declaring a new scope writes its global variables. -/
theorem globals_declareScope {frame : Frame} (h : ∀ slot ∈ frame.declares, slot ∉ s.declared) :
    (s.declareScope frame).globals = s.globals ++ frame.scope.globals := by
  rw [declareScope_eq, globals_foldl_declareEntry (nodup_slots frame)]
  · congr 1
    rw [Scope.globals, ← map_snd_slots, List.filter_map, List.map_map]
    rfl
  · intro entry hentry hvariable
    exact h entry.1 (List.mem_map.2 ⟨entry, List.mem_filter.2 ⟨hentry, hvariable⟩, rfl⟩)

/-- Declaring a scope writes no function. -/
@[simp] theorem funcs_declareScope (s : State) (frame : Frame) :
    (s.declareScope frame).funcs = s.funcs := by
  rw [declareScope_eq]
  generalize frame.slots = entries
  induction entries generalizing s with
  | nil => rfl
  | cons entry rest ih => rw [List.foldl_cons, ih, funcs_declareEntry]

/-! ## Parameters -/

/-- Noting bindings as declared adds them. -/
theorem mem_declared_markAll {slots : List Slot} {slot : Slot} :
    slot ∈ (s.markAll slots).declared ↔ slot ∈ s.declared ∨ slot ∈ slots := by
  unfold markAll
  induction slots generalizing s with
  | nil => simp
  | cons first rest ih =>
    rw [List.foldl_cons, ih, List.mem_cons]
    unfold mark isDeclared
    by_cases hmem : first ∈ s.declared
    · simp only [List.contains_iff_mem.2 hmem, if_true]
      constructor
      · rintro (h | h)
        exacts [.inl h, .inr (.inr h)]
      · rintro (h | rfl | h)
        exacts [.inl h, .inl hmem, .inr h]
    · simp [hmem, or_assoc, or_left_comm]

/-- Noting bindings as declared adds no local variable. -/
@[simp] theorem table_markAll (s : State) (slots : List Slot) :
    (s.markAll slots).table = s.table := by
  obtain ⟨_, h⟩ := s.markAll_eq slots
  rw [h]
  rfl

/-- Noting bindings as declared writes no form. -/
@[simp] theorem forms_markAll (s : State) (slots : List Slot) :
    (s.markAll slots).forms = s.forms := by
  obtain ⟨_, h⟩ := s.markAll_eq slots
  rw [h]

/-- The binding at the place of a name is the first one of that name. -/
theorem getElem?_findIdx {α : Type} (p : α → Bool) (l : List α) :
    l[l.findIdx p]? = l.find? p := by
  induction l with
  | nil => rfl
  | cons a rest ih =>
    rw [List.findIdx_cons, List.find?_cons]
    cases p a with
    | true => rfl
    | false => simpa using ih

/-- The binding that a parameter refers to is not one the compiler declares. -/
theorem slot_not_mem_declares {frame : Frame} {x : String} {v : Variable}
    (hv : frame.find? x = some v) (hstorage : v.storage = .parameter) :
    frame.slot x ∉ frame.declares := by
  intro hmem
  obtain ⟨entry, hentry, hslot⟩ := List.mem_map.1 hmem
  obtain ⟨hentry, hvariable⟩ := List.mem_filter.1 hentry
  obtain ⟨⟨b, i⟩, hb, rfl⟩ := List.mem_map.1 hentry
  -- the first binding of the name is the one at this place, and that one is a parameter
  have hindex : i = frame.scope.bindings.findIdx (·.name = x) := congrArg Slot.index hslot
  have hget : frame.scope.bindings[i]? = some b := List.mk_mem_zipIdx_iff_getElem?.1 hb
  rw [hindex, getElem?_findIdx] at hget
  have hb : some b.info = some v := by
    rw [← hv, Frame.find?, Scope.find?, hget]
    rfl
  cases hb
  simp [Binding.isVariable, hstorage] at hvariable

end State

end PatchCompiler
