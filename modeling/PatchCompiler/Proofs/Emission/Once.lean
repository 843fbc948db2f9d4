import PatchCompiler.Proofs.Emission.Actions

/-! # How often a node is compiled

The array of an element that is assigned to is compiled twice, once for the address of the element
and once for the length of the array. All other nodes are compiled as often as the node they stand
in. Main statement: the arrays, the memory, the functions and the calls of a module are those of the
nodes of the program exactly if no such node stands in the array of an element store. -/

namespace PatchCompiler

/-! ## Sums over nodes -/

/-- The bytes that an array literal takes: a slot for its number of elements and one for each
element. -/
def Expr.bytes : Expr Frame → Nat
  | .mk (.array members) _ _ => 8 * (1 + (members.map Expr.slots).sum)
  | _ => 0

/-- Whether an expression is a call. -/
def Expr.isCall (e : Expr Frame) : Bool := e.callee?.isSome

/-- Array literals, and no other expressions, take memory. -/
theorem Expr.bytes_eq_zero_iff (e : Expr Frame) : e.bytes = 0 ↔ e.isArray = false := by
  obtain ⟨node, ty, span⟩ := e
  cases node with
  | array members =>
    refine iff_of_false ?_ Bool.noConfusion
    rw [bytes]
    omega
  | _ => exact iff_of_true rfl rfl

/-- A number of entries as a sum. -/
theorem countP_eq_sum {α : Type} (q : α → Bool) (l : List α) :
    l.countP q = (l.map fun x => (q x).toNat).sum := by
  induction l with
  | nil => rfl
  | cons x rest ih =>
    rw [List.countP_cons, ih, List.map_cons, List.sum_cons, Nat.add_comm]
    cases q x <;> rfl

/-- The memory that the array literals among visits take. -/
theorem Visit.sum_bytes (visits : List Visit) :
    ((visits.filterMap fun v => v.expr.count?).map fun count => 8 * (1 + count)).sum
      = (visits.map fun v => v.expr.bytes).sum := by
  induction visits with
  | nil => rfl
  | cons v rest ih =>
    obtain ⟨env, name, ⟨node, ty, span⟩⟩ := v
    rw [List.map_cons, List.sum_cons, ← ih]
    cases node with
    | array members => rfl
    | _ => exact (Nat.zero_add _).symm

namespace Program

variable {p : Program} {m : Module} {map : SourceMap}

/-- No node of a sort stands in the array of an element that is assigned to. -/
def OutsideStores (p : Program) (sort : Expr Frame → Bool) : Prop :=
  ∀ store ∈ p.nodes, ∀ array ∈ store.storedArray?, ∀ x ∈ array.nodes, sort x = false

/-- A sum over the visits is the one over the nodes exactly if nothing that counts stands in the
array of an element store. -/
theorem sum_visits_eq_iff {sort : Expr Frame → Bool} {w : Expr Frame → Nat}
    (hw : ∀ x, w x = 0 ↔ sort x = false) :
    (p.visits.map fun v => w v.expr).sum = (p.nodes.map w).sum ↔ p.OutsideStores sort := by
  rw [visits, nodes, Expr.sum_visits_eq_iff]
  simp only [hw]
  rfl

/-- The same for the number of nodes of a sort. -/
theorem countP_visits_eq_iff (sort : Expr Frame → Bool) :
    (p.visits.countP fun v => sort v.expr) = p.nodes.countP sort ↔ p.OutsideStores sort := by
  rw [countP_eq_sum, countP_eq_sum]
  exact sum_visits_eq_iff fun x => Bool.toNat_eq_zero

/-! ## What a module has -/

/-- One array is laid out each time the compiler comes to an array literal. -/
theorem length_arrays (h : p.compile.outcome = .ok (m, map)) :
    p.compile.arrays.length = p.visits.countP fun v => v.expr.isArray := by
  rw [← List.length_map Extent.count, counts_of_compile h, List.length_filterMap_eq_countP]
  simp only [Expr.isSome_count?]

/-- The memory that is handed out is what array literals take each time the compiler comes to
them. -/
theorem memory_eq (h : p.compile.outcome = .ok (m, map)) :
    p.compile.memory? = some (p.visits.map fun v => v.expr.bytes).sum := by
  obtain ⟨cursor, blocks, hcursor, harrays, htiles, _⟩ := layout_of_compile h
  -- arrays lie one behind the other, so that the last address is a sum
  have hstop := htiles.stop_eq
  rw [← harrays, Nat.zero_add] at hstop
  have hcounts : (p.compile.arrays.map fun a => slotBytes * (1 + a.count))
      = (p.compile.arrays.map Extent.count).map fun count => 8 * (1 + count) := by
    rw [List.map_map]
    rfl
  rw [hcursor, hstop, hcounts, counts_of_compile h, Visit.sum_bytes]

/-- One function is written each time the compiler comes to a function definition, and one for the
top-level statements. -/
theorem length_funcs (h : p.compile.outcome = .ok (m, map)) :
    m.funcs.length = (p.visits.countP fun v => v.expr.isFunction) + 1 := by
  have hsource : ∀ v : Visit, v.source?.isSome = v.expr.isFunction := by
    rintro ⟨env, name, ⟨node, ty, span⟩⟩
    cases node <;> rfl
  rw [← (yields_of_compile h).length_eq, sources, List.length_append,
    List.length_filterMap_eq_countP]
  simp only [hsource]
  rfl

/-- One call is written each time the compiler comes to a call, and one each time it asks for a
library function. -/
theorem length_calls (h : p.compile.outcome = .ok (m, map)) :
    (m.funcs.flatMap Func.calls).length
      = (p.visits.countP fun v => v.expr.isCall) + p.requests.length := by
  rw [(calls_of_compile h).length_eq, List.length_append, List.length_filterMap_eq_countP,
    List.length_map]
  rfl

/-- When nodes are compiled once. The arrays that are laid out, and the memory that they take, are
those of the array literals of a program exactly if no array literal stands in the array of an
element that is assigned to. The functions of a module, apart from the one that runs the top-level
statements, are as many as the function definitions exactly if no function definition stands there.
The calls, apart from those of library functions that were asked for, are as many as the calls of
the program exactly if no call stands there. -/
theorem compiled_once_iff (h : p.compile.outcome = .ok (m, map)) :
    (p.compile.arrays.length = p.nodes.countP Expr.isArray ↔ p.OutsideStores Expr.isArray) ∧
    (p.compile.memory? = some (p.nodes.map Expr.bytes).sum ↔ p.OutsideStores Expr.isArray) ∧
    (m.funcs.length = p.nodes.countP Expr.isFunction + 1 ↔ p.OutsideStores Expr.isFunction) ∧
    ((m.funcs.flatMap Func.calls).length = p.nodes.countP Expr.isCall + p.requests.length ↔
      p.OutsideStores Expr.isCall) := by
  refine ⟨?_, ?_, ?_, ?_⟩
  · rw [length_arrays h]
    exact countP_visits_eq_iff Expr.isArray
  · rw [memory_eq h, Option.some.injEq]
    exact sum_visits_eq_iff Expr.bytes_eq_zero_iff
  · rw [length_funcs h, Nat.add_right_cancel_iff]
    exact countP_visits_eq_iff Expr.isFunction
  · rw [length_calls h, Nat.add_right_cancel_iff]
    exact countP_visits_eq_iff Expr.isCall

/-- The first element of an array literal is assigned to. -/
def literalStore : Program where
  body := .plain (.assign (.plain (.index ((Expr.plain (.array [.int 1])).withKind .pointer)
    (some (.int 0)))) (.int 5))
  scope := ⟨[]⟩

/-- The program has one array literal of sixteen bytes, and two arrays are laid out. -/
theorem literalStore_twice : ∃ m map, literalStore.compile.outcome = .ok (m, map) ∧
    literalStore.compile.arrays = [⟨8, 1⟩, ⟨24, 1⟩] ∧ literalStore.compile.memory? = some 32 ∧
    literalStore.nodes.countP Expr.isArray = 1 ∧ (literalStore.nodes.map Expr.bytes).sum = 16 ∧
    ¬literalStore.OutsideStores Expr.isArray := by
  refine ⟨_, _, rfl, rfl, rfl, rfl, rfl, fun houtside => ?_⟩
  have hlength := (@compiled_once_iff literalStore _ _ rfl).1.2 houtside
  exact absurd hlength (by decide)

end Program

end PatchCompiler
