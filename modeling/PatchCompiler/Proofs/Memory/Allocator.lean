import Mathlib.Order.Bounds.Defs
import PatchCompiler.Proofs.Memory.Layout

/-! # Memory over whole runs

The compiler asks for memory again and again, and in the end for the number of pages. A request may
also be refused, and others may follow. Main statement: whatever has been asked for, the memory that
is handed out is a whole number of slots and only grows, a request is refused exactly when its end has
no 32-bit address, a refusal changes nothing, and the pages that hold the memory never exceed the
limit, so that the check of this limit cannot fail. -/

namespace PatchCompiler

namespace Arena

/-- What may be asked of a memory. -/
inductive Request where
  /-- The slot for the number of elements of an array. -/
  | openArray
  /-- A number of slots. -/
  | advance (count : UInt32)
  /-- The number of pages. -/
  | pages
  deriving DecidableEq, Repr

variable {arena : Arena} {count : UInt32}

/-- Slots are refused when the address behind them does not fit into 32 bits. -/
theorem advance_eq_error_iff :
    (∃ limit, arena.advance count = .error limit) ↔
      2 ^ 32 - 1 < arena.cursor.toNat + slotBytes * count.toNat := by
  have hsize : UInt32.size = 2 ^ 32 := rfl
  simp only [slotBytes]
  by_cases hfits : arena.cursor.toNat + 8 * count.toNat < UInt32.size
  · rw [advance_of_fits hfits]
    refine ⟨fun h => ?_, by omega⟩
    obtain ⟨_, hlimit⟩ := h
    cases hlimit
  · rw [advance_of_full (Nat.le_of_not_lt hfits)]
    exact ⟨fun _ => by omega, fun _ => ⟨_, rfl⟩⟩

/-- To begin an array is to hand out one slot. -/
theorem openArray_eq_error_iff :
    (∃ limit, arena.openArray = .error limit) ↔
      2 ^ 32 - 1 < arena.cursor.toNat + slotBytes := by
  have hone : slotBytes * (1 : UInt32).toNat = slotBytes := rfl
  rw [← hone, ← advance_eq_error_iff, openArray]
  simp only [Except.map_eq_error_iff]

/-- A memory of whole slots has no more pages than allowed, since the last slot that has an address
lies in the last page. -/
theorem pages_of_ne_zero (hdvd : slotBytes ∣ arena.cursor.toNat) (hne : arena.cursor.toNat ≠ 0) :
    ∃ pages : UInt32, arena.pages = .ok (some pages) ∧
      IsLeast {n | arena.cursor.toNat ≤ 65536 * n} pages.toNat ∧
      1 ≤ pages.toNat ∧ pages.toNat ≤ 65536 := by
  have hlt : arena.cursor.toNat < 2 ^ 32 := arena.cursor.toNat_lt
  have hcursor : arena.cursor ≠ 0 := fun hzero => hne (by rw [hzero]; rfl)
  obtain ⟨slots, hslots⟩ : 8 ∣ arena.cursor.toNat := hdvd
  -- whole slots leave no rest in the division by the slot size
  have hcount : (arena.slots + (slotsPerPage - 1)) / slotsPerPage = (slots + 8191) / 8192 := by
    rw [Arena.slots, hslots]
    simp only [slotBytes, slotsPerPage]
    omega
  have hword : (UInt32.ofNat ((slots + 8191) / 8192)).toNat = (slots + 8191) / 8192 := by
    have hsize : UInt32.size = 2 ^ 32 := rfl
    exact UInt32.toNat_ofNat_of_lt' (by omega)
  refine ⟨.ofNat ((slots + 8191) / 8192), ?_, ?_⟩
  · -- the end is below 2^32, and is a multiple of 8: at most 2^29 - 1 slots are in use
    have hlimit : ¬ maxPages < UInt32.ofNat ((slots + 8191) / 8192) := by
      have hmax : maxPages.toNat = 65536 := rfl
      rw [UInt32.lt_iff_toNat_lt, hword]
      omega
    unfold pages
    rw [if_neg hcursor, hcount]
    exact if_neg hlimit
  · rw [hword]
    refine ⟨⟨?_, fun n hn => ?_⟩, by omega, by omega⟩
    · show arena.cursor.toNat ≤ 65536 * ((slots + 8191) / 8192)
      omega
    · have hn : arena.cursor.toNat ≤ 65536 * n := hn
      omega

/-- What a memory gives for a request, and the memory afterwards. -/
def answer (arena : Arena) : Request → Except Limit (Option UInt32 × Arena)
  | .openArray => arena.openArray.map fun r => (some r.1, r.2)
  | .advance count => (arena.advance count).map (none, ·)
  | .pages => arena.pages.map (·, arena)

/-- A request that is granted hands out whole slots behind those that have been handed out. -/
theorem cursor_answer {request : Request} {value : Option UInt32} {next : Arena}
    (h : arena.answer request = .ok (value, next)) :
    ∃ count, next.cursor.toNat = arena.cursor.toNat + slotBytes * count := by
  cases request with
  | openArray =>
    obtain ⟨⟨base, after⟩, hopen, hpair⟩ := Except.map_eq_ok_iff.1 h
    cases hpair
    exact ⟨_, cursor_advance (advance_of_openArray hopen).1⟩
  | advance count =>
    obtain ⟨after, hadvance, hpair⟩ := Except.map_eq_ok_iff.1 h
    cases hpair
    exact ⟨_, cursor_advance hadvance⟩
  | pages =>
    obtain ⟨pages, _, hpair⟩ := Except.map_eq_ok_iff.1 h
    cases hpair
    exact ⟨0, rfl⟩

end Arena

namespace Emit

variable {s s' : State}

/-- A step on memory is refused when the memory refuses it, and then changes nothing. -/
theorem onArena_eq_error {α : Type} {step : Arena → Except Limit (α × Arena)} {failure : Failure} :
    onArena step s = .error failure s' ↔
      ∃ limit, step s.arena = .error limit ∧ failure = .limitExceeded limit ∧ s' = s := by
  cases hstep : step s.arena with
  | ok r =>
    rw [onArena_of_ok hstep]
    simp
  | error limit =>
    rw [onArena_of_error hstep]
    simp [eq_comm]

/-- The step of the compiler for a request. -/
def serve : Arena.Request → Emit (Option UInt32)
  | .openArray => some <$> openArray
  | .advance count => (fun _ => none) <$> advance count
  | .pages => onArena fun arena => arena.pages.map (·, arena)

/-- More can be made of what a step on memory gives before or after it is taken. -/
theorem map_onArena {α β : Type} (f : α → β) (step : Arena → Except Limit (α × Arena)) :
    f <$> onArena step = onArena fun arena => (step arena).map fun r => (f r.1, r.2) := by
  funext s
  show EStateM.map f (onArena step) s = _
  unfold EStateM.map
  cases hstep : step s.arena with
  | ok r =>
    have hmap : (step s.arena).map (fun r => (f r.1, r.2)) = .ok (f r.1, r.2) := by rw [hstep]; rfl
    rw [onArena_of_ok hstep, onArena_of_ok hmap]
  | error limit =>
    have hmap : (step s.arena).map (fun r => (f r.1, r.2)) = .error limit := by rw [hstep]; rfl
    rw [onArena_of_error hstep, onArena_of_error hmap]

/-- A request is a step on memory. -/
theorem serve_eq (request : Arena.Request) : serve request = onArena (·.answer request) := by
  cases request with
  | openArray => exact map_onArena _ _
  | advance count =>
    refine (map_onArena _ _).trans (congrArg onArena (funext fun arena => ?_))
    simp only [Arena.answer]
    cases arena.advance count <;> rfl
  | pages => rfl

end Emit

namespace State

/-- The state after a request, whether it is granted or refused. -/
def after (s : State) (request : Arena.Request) : State :=
  match Emit.serve request s with
  | .ok _ s' => s'
  | .error _ s' => s'

/-- A request moves the end of the memory by whole slots. -/
theorem cursor_after (s : State) (request : Arena.Request) :
    ∃ count, (s.after request).arena.cursor.toNat = s.arena.cursor.toNat + slotBytes * count := by
  unfold after
  rw [Emit.serve_eq]
  -- a refusal leaves the memory as it is, so that no slot is handed out
  cases hserve : Emit.onArena (·.answer request) s with
  | ok value s' =>
    obtain ⟨next, hanswer, rfl⟩ := Emit.onArena_eq_ok.1 hserve
    exact Arena.cursor_answer hanswer
  | error failure s' =>
    obtain ⟨_, _, _, rfl⟩ := Emit.onArena_eq_error.1 hserve
    exact ⟨0, rfl⟩

/-- So does a run of requests. -/
theorem cursor_run (s : State) (requests : List Arena.Request) :
    ∃ count, (requests.foldl after s).arena.cursor.toNat
      = s.arena.cursor.toNat + slotBytes * count := by
  induction requests generalizing s with
  | nil => exact ⟨0, rfl⟩
  | cons request rest ih =>
    obtain ⟨first, hfirst⟩ := s.cursor_after request
    obtain ⟨others, hothers⟩ := ih (s.after request)
    exact ⟨first + others, by rw [List.foldl_cons, hothers, hfirst, Nat.mul_add, Nat.add_assoc]⟩

/-- What holds of a memory that has been asked for whatever it may be. -/
structure Orderly (s : State) : Prop where
  /-- Memory ends at the beginning of a slot. -/
  aligned : slotBytes ∣ s.arena.cursor.toNat
  /-- The slots that have been handed out fill the memory. -/
  filled : s.arena.slots * slotBytes = s.arena.cursor.toNat
  /-- Memory is never taken back. -/
  grows : ∀ more : List Arena.Request,
    s.arena.cursor.toNat ≤ (more.foldl after s).arena.cursor.toNat
  /-- Slots are refused when the address behind them does not fit into 32 bits. -/
  advance_refused : ∀ count, (∃ failure s', Emit.advance count s = .error failure s') ↔
    2 ^ 32 - 1 < s.arena.cursor.toNat + slotBytes * count.toNat
  /-- Slots that are granted begin at the end of the memory. -/
  advance_granted : ∀ count s', Emit.advance count s = .ok () s' →
    s'.arena.cursor.toNat = s.arena.cursor.toNat + slotBytes * count.toNat
  /-- An array is refused when the address of its first element does not fit into 32 bits. -/
  openArray_refused : (∃ failure s', Emit.openArray s = .error failure s') ↔
    2 ^ 32 - 1 < s.arena.cursor.toNat + slotBytes
  /-- The address of an array is the new end of the memory, one slot further. -/
  openArray_granted : ∀ base s', Emit.openArray s = .ok base s' →
    base = s'.arena.cursor ∧ base.toNat = s.arena.cursor.toNat + slotBytes
  /-- A refusal changes nothing. -/
  refused : ∀ request failure s', Emit.serve request s = .error failure s' → s' = s
  /-- There are no pages when there is no memory. -/
  without_pages : s.arena.pages = .ok none ↔ s.arena.cursor = 0
  /-- Otherwise the pages are as few as hold the memory, and within the limit. -/
  with_pages : s.arena.cursor ≠ 0 → ∃ pages : UInt32, s.arena.pages = .ok (some pages) ∧
    IsLeast {n | s.arena.cursor.toNat ≤ 65536 * n} pages.toNat ∧
    1 ≤ pages.toNat ∧ pages.toNat ≤ 65536

/-- **Memory over a whole run.** Whatever has been asked for since the beginning, granted or refused,
the memory is orderly. -/
theorem orderly_of_requests (requests : List Arena.Request) :
    (requests.foldl after {}).Orderly := by
  obtain ⟨count, hcursor⟩ := cursor_run {} requests
  -- from here on only that the memory ends at a slot is used
  generalize requests.foldl after {} = s at hcursor
  have haligned : slotBytes ∣ s.arena.cursor.toNat :=
    ⟨count, hcursor.trans (Nat.zero_add _)⟩
  have hpages := fun hne : s.arena.cursor.toNat ≠ 0 => Arena.pages_of_ne_zero haligned hne
  have hzero : s.arena.cursor = 0 ↔ s.arena.cursor.toNat = 0 := UInt32.toNat_inj.symm
  refine
    { aligned := haligned
      filled := Nat.div_mul_cancel haligned
      grows := fun more => ?_
      advance_refused := fun count => ?_
      advance_granted := fun count s' h => ?_
      openArray_refused := ?_
      openArray_granted := fun base s' h => ?_
      refused := fun request failure s' h => ?_
      without_pages := ⟨fun h => ?_, fun h => if_pos h⟩
      with_pages := fun hne => hpages (mt hzero.2 hne) }
  · obtain ⟨count, hmore⟩ := cursor_run s more
    omega
  · rw [← Arena.advance_eq_error_iff]
    simp [Emit.advance, Emit.onArena_eq_error, Except.map_eq_error_iff]
  · obtain ⟨next, hnext, rfl⟩ := Emit.onArena_eq_ok.1 h
    obtain ⟨after, hadvance, hpair⟩ := Except.map_eq_ok_iff.1 hnext
    cases hpair
    exact Arena.cursor_advance hadvance
  · rw [← Arena.openArray_eq_error_iff]
    simp [Emit.openArray, Emit.onArena_eq_error]
  · obtain ⟨next, hopen, rfl⟩ := Emit.onArena_eq_ok.1 h
    obtain ⟨hadvance, rfl⟩ := Arena.advance_of_openArray hopen
    exact ⟨rfl, Arena.cursor_advance hadvance⟩
  · rw [Emit.serve_eq] at h
    obtain ⟨_, _, _, rfl⟩ := Emit.onArena_eq_error.1 h
    rfl
  · by_contra hne
    obtain ⟨pages, hsome, _⟩ := hpages (mt hzero.2 hne)
    cases hsome.symm.trans h

-- a refusal in between: the address behind the slots would be the first one beyond 32 bits
example : ([.openArray, .advance 0x1fffffff, .advance 0x1ffffffe].foldl after {}).arena.cursor
    = 0xfffffff8 := by decide

end State

end PatchCompiler
