import PatchCompiler.Emit.Program

/-! # Steps of the compiler that succeed

When a step of the compiler gives a value: one equivalence for each primitive step, so that a run
that succeeds can be taken apart without opening the type of steps. -/

/-! ## Values made of results -/

/-- A result with more made of it is a success if the result is one. -/
theorem Except.map_eq_ok_iff {ε α β : Type} {f : α → β} {result : Except ε α} {b : β} :
    result.map f = .ok b ↔ ∃ a, result = .ok a ∧ f a = b := by
  cases result <;> simp [Except.map]

/-- A result with more made of it is a failure if the result is one. -/
theorem Except.map_eq_error_iff {ε α β : Type} {f : α → β} {result : Except ε α} {e : ε} :
    result.map f = .error e ↔ result = .error e := by
  cases result <;> simp [Except.map]

namespace PatchCompiler

/-! ## Steps -/

namespace Emit

variable {α β : Type} {s s' : State}

/-- A sequence of two steps succeeds when both of them do. -/
theorem bind_eq_ok {x : Emit α} {f : α → Emit β} {b : β} :
    (x >>= f) s = .ok b s' ↔ ∃ a s₁, x s = .ok a s₁ ∧ f a s₁ = .ok b s' := by
  show EStateM.bind x f s = _ ↔ _
  unfold EStateM.bind
  cases hx : x s with
  | error e s₁ => simp
  | ok a s₁ =>
    constructor
    · intro h
      exact ⟨a, s₁, rfl, h⟩
    · rintro ⟨_, _, h, hf⟩
      cases h
      exact hf

/-- A step after one that succeeds. -/
theorem bind_of_ok {x : Emit α} {a : α} (h : x s = .ok a s') (f : α → Emit β) :
    (x >>= f) s = f a s' := by
  show EStateM.bind x f s = _
  unfold EStateM.bind
  rw [h]

/-- What would come after a failure does not matter. -/
theorem bind_of_error {x : Emit α} {failure : Failure} (h : x s = .error failure s')
    (f : α → Emit β) : (x >>= f) s = .error failure s' := by
  show EStateM.bind x f s = _
  unfold EStateM.bind
  rw [h]

/-- A step that only gives a value leaves the state as it is. -/
@[simp] theorem pure_eq_ok {a b : α} : (pure a : Emit α) s = .ok b s' ↔ a = b ∧ s = s' := by
  show EStateM.Result.ok a s = _ ↔ _
  simp

/-- Reading the state gives the state. -/
@[simp] theorem get_eq_ok {t : State} : (get : Emit State) s = .ok t s' ↔ s = t ∧ s = s' := by
  show EStateM.Result.ok s s = _ ↔ _
  simp

/-- A change of the state always succeeds. -/
@[simp] theorem modify_eq_ok {f : State → State} {u : PUnit} :
    (modify f : Emit PUnit) s = .ok u s' ↔ f s = s' := by
  show EStateM.Result.ok PUnit.unit (f s) = _ ↔ _
  simp

/-- A change of the state that gives a value always succeeds. -/
@[simp] theorem modifyGet_eq_ok {f : State → α × State} {a : α} :
    (modifyGet f : Emit α) s = .ok a s' ↔ f s = (a, s') := by
  show EStateM.Result.ok (f s).1 (f s).2 = _ ↔ _
  simp [Prod.ext_iff]

/-- A failure is no success. -/
@[simp] theorem throw_eq_ok {failure : Failure} {a : α} :
    (throw failure : Emit α) s = .ok a s' ↔ False := by
  show EStateM.Result.error failure s = _ ↔ _
  simp

/-- A name resolves to the variable the scopes bind it to. -/
@[simp] theorem resolve_eq_ok {name : String} {span : Span} {v : Variable} :
    resolve name span s = .ok v s' ↔ s.lookup name = some v ∧ s = s' := by
  simp only [resolve, bind_eq_ok, get_eq_ok]
  constructor
  · rintro ⟨_, _, ⟨rfl, rfl⟩, h⟩
    cases hv : s.lookup name with
    | none => simp [hv] at h
    | some w => simpa [hv] using h
  · rintro ⟨hv, rfl⟩
    exact ⟨s, s, ⟨rfl, rfl⟩, by simp [hv]⟩

/-- A step on memory succeeds when the arena allows it. -/
@[simp] theorem onArena_eq_ok {step : Arena → Except Limit (α × Arena)} {a : α} :
    onArena step s = .ok a s' ↔
      ∃ arena, step s.arena = .ok (a, arena) ∧ { s with arena := arena } = s' := by
  simp only [onArena, bind_eq_ok, get_eq_ok]
  constructor
  · rintro ⟨_, _, ⟨rfl, rfl⟩, h⟩
    cases hstep : step s.arena with
    | error limit => simp [hstep] at h
    | ok r =>
      obtain ⟨value, arena⟩ := r
      simp only [hstep, bind_eq_ok, modify_eq_ok, pure_eq_ok] at h
      obtain ⟨_, _, rfl, rfl, rfl⟩ := h
      exact ⟨arena, rfl, rfl⟩
  · rintro ⟨arena, hstep, rfl⟩
    refine ⟨s, s, ⟨rfl, rfl⟩, ?_⟩
    rw [hstep]
    exact bind_eq_ok.2 ⟨⟨⟩, _, modify_eq_ok.2 rfl, pure_eq_ok.2 ⟨rfl, rfl⟩⟩

/-- A step of the arena that succeeds replaces the arena. -/
theorem onArena_of_ok {step : Arena → Except Limit (α × Arena)} {a : α} {arena : Arena}
    (h : step s.arena = .ok (a, arena)) : onArena step s = .ok a { s with arena := arena } :=
  onArena_eq_ok.2 ⟨arena, h, rfl⟩

/-- A step on memory that the arena does not allow leaves it as it is. -/
theorem onArena_of_error {step : Arena → Except Limit (α × Arena)} {limit : Limit}
    (h : step s.arena = .error limit) : onArena step s = .error (.limitExceeded limit) s := by
  unfold onArena
  rw [bind_of_ok (get_eq_ok.2 ⟨rfl, rfl⟩), h]
  rfl

/-- The variable of a name that is assigned to is no function. -/
@[simp] theorem storable_eq_ok {name : String} {nameSpan span : Span} {v : Variable} :
    storable name nameSpan span s = .ok v s' ↔
      (s.lookup name = some v ∧ v.kind ≠ .function) ∧ s = s' := by
  simp only [storable, bind_eq_ok, resolve_eq_ok]
  constructor
  · rintro ⟨w, _, ⟨hw, rfl⟩, h⟩
    by_cases hk : w.kind = .function
    · rw [if_pos hk, bind_eq_ok] at h
      obtain ⟨_, _, h, _⟩ := h
      exact (throw_eq_ok.1 h).elim
    · simp only [hk, if_false] at h
      obtain ⟨rfl, rfl⟩ := pure_eq_ok.1 h
      exact ⟨⟨hw, hk⟩, rfl⟩
  · rintro ⟨⟨hv, hk⟩, rfl⟩
    refine ⟨v, s, ⟨hv, rfl⟩, ?_⟩
    simp only [hk, if_false]
    exact pure_eq_ok.2 ⟨rfl, rfl⟩

end Emit

end PatchCompiler
