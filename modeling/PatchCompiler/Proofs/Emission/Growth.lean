import PatchCompiler.Proofs.Emission.Derive
import PatchCompiler.Proofs.Locals.Written

/-! # What only grows during a run

A run never takes back a library function, a function, a signature or memory. The signatures it adds
are those of the functions it writes. -/

namespace PatchCompiler

/-! ## Growth -/

/-- Everything that has been gathered in a state is there in another one. -/
structure State.Grows (s s' : State) : Prop where
  /-- Library functions. -/
  includes : s.includes ⊆ s'.includes
  /-- Each of them is there once. -/
  nodup : s.includes.Nodup → s'.includes.Nodup
  /-- Functions that have been written. -/
  funcs : s.funcs ⊆ s'.funcs
  /-- Signatures of the functions that have been begun. -/
  signatures : s.signatures ⊆ s'.signatures
  /-- Memory that has been handed out. -/
  memory : s.arena.cursor ≠ 0 → s'.arena.cursor ≠ 0

namespace State

/-- A scope is declared without a new signature. -/
@[simp] theorem signatures_declareScope (s : State) (frame : Frame) :
    (s.declareScope frame).signatures = s.signatures := by
  obtain ⟨_, _, _, _, h⟩ := s.declareScope_frame frame
  rw [h]

/-- A scope is declared without reserving memory. -/
@[simp] theorem arena_declareScope (s : State) (frame : Frame) :
    (s.declareScope frame).arena = s.arena := by
  obtain ⟨_, _, _, _, h⟩ := s.declareScope_frame frame
  rw [h]

/-- A library function is asked for without a new signature. -/
@[simp] theorem signatures_require (s : State) (snippet : Snippet) :
    (s.require snippet).signatures = s.signatures := by
  unfold require
  split <;> rfl

/-- A library function is asked for without reserving memory. -/
@[simp] theorem arena_require (s : State) (snippet : Snippet) :
    (s.require snippet).arena = s.arena := by
  unfold require
  split <;> rfl

/-- The signature of a function is known from its beginning on. -/
@[simp] theorem signatures_beginFunction (s : State) (header : Emit.Header)
    (params : List (String × ValType)) :
    (s.beginFunction header params).signatures
      = (header.name, params.map Prod.snd) :: s.signatures := by
  obtain ⟨_, _, _, _, h⟩ := s.beginFunction_frame header params
  rw [h]

/-- A function is begun without reserving memory. -/
@[simp] theorem arena_beginFunction (s : State) (header : Emit.Header)
    (params : List (String × ValType)) : (s.beginFunction header params).arena = s.arena := by
  obtain ⟨_, _, _, _, h⟩ := s.beginFunction_frame header params
  rw [h]

/-- A function is begun without writing one. -/
theorem funcs_beginFunction (s : State) (header : Emit.Header) (params : List (String × ValType)) :
    (s.beginFunction header params).funcs = s.funcs := by
  rw [beginFunction, funcs_declareScope]
  unfold funcs
  rw [show State.forms (recordSignature _ _ _) = _ from forms_markAll _ _]
  rfl

namespace Grows

variable {s s₁ s' : State}

/-- A state grows to itself. -/
theorem refl (s : State) : s.Grows s :=
  ⟨List.Subset.refl _, id, List.Subset.refl _, List.Subset.refl _, id⟩

/-- A state grows in steps. -/
theorem trans (h : s.Grows s₁) (h' : s₁.Grows s') : s.Grows s' :=
  ⟨List.Subset.trans h.includes h'.includes, h'.nodup ∘ h.nodup,
    List.Subset.trans h.funcs h'.funcs, List.Subset.trans h.signatures h'.signatures,
    h'.memory ∘ h.memory⟩

/-- Asking for a library function. -/
theorem require (s : State) (snippet : Snippet) : s.Grows (s.require snippet) where
  includes _ h := (mem_includes_require _).2 (.inl h)
  nodup h := by
    unfold State.require
    by_cases hmem : snippet ∈ s.includes
    · rwa [if_pos (List.contains_iff_mem.2 hmem)]
    · simp only [List.contains_iff_mem, hmem, if_false]
      exact List.nodup_append.2 ⟨h, List.nodup_singleton _, fun a ha b hb hab =>
        hmem (List.mem_singleton.1 hb ▸ hab ▸ ha)⟩
  funcs := by simp [State.funcs]
  signatures := by simp
  memory := by simp

/-- Opening a block. -/
theorem enter (s : State) (frame : Frame) : s.Grows ((s.enter frame).declareScope frame) where
  includes := by simp [State.enter]
  nodup := by simp [State.enter]
  funcs := by
    rw [funcs_declareScope]
    exact List.Subset.refl _
  signatures := by simp [State.enter]
  memory := by simp [State.enter]

/-- Opening a function. -/
theorem beginFunction (s : State) (header : Emit.Header) (params : List (String × ValType)) :
    s.Grows (s.beginFunction header params) where
  includes := by simp
  nodup := by simp
  funcs := by simp [funcs_beginFunction]
  signatures := by simp
  memory := by simp

/-- Writing a function. -/
theorem endFunction (s : State) (header : Emit.Header) (saved : Locals) (f : Func) :
    s.Grows (s.endFunction header saved f) where
  includes := List.Subset.refl _
  nodup := id
  funcs := by simp
  signatures := List.Subset.refl _
  memory := id

end Grows

end State

/-- An array takes memory, also one without elements. -/
theorem Arena.cursor_ne_zero {arena arena₁ arena₂ : Arena} {base count : UInt32}
    (hopen : arena.openArray = .ok (base, arena₁)) (hadvance : arena₁.advance count = .ok arena₂) :
    arena₂.cursor ≠ 0 := by
  have hnext := cursor_advance (advance_of_openArray hopen).1
  have hlast := cursor_advance hadvance
  -- the slot of the element count alone moves the cursor away from zero
  intro hzero
  rw [hzero, hnext] at hlast
  simp [slotBytes] at hlast
  omega

/-- A run takes nothing back. -/
theorem Emits.grows {s s' : State} {task : Task} {codes : List Code}
    (h : Emits s task codes s') : s.Grows s' := by
  induction h with
  | floatLit | intLit | ident | negInt | negFloat | listNil | argsNil | fixed | membersNil =>
    exact .refl _
  | statements _ ih | sequence _ ih | function _ ih | call _ ih | opposite _ _ _ _ ih
  | difference _ _ _ _ ih | binary _ _ ih | compare _ ih | step _ _ _ ih | compound _ _ _ ih
  | length _ _ ih | assignFunction _ _ ih | assignName _ _ _ _ _ _ ih | operand _ ih
  | computed _ ih | memberInt _ _ ih | memberInts _ ih | memberReserve _ ih => exact ih
  | array _ _ hopen hadvance _ ih =>
    exact ⟨ih.includes, ih.nodup, ih.funcs, ih.signatures,
      fun _ => ih.memory (Arena.cursor_ne_zero hopen hadvance)⟩
  | @block s _ _ frame _ _ _ _ _ ih =>
    have hgrows := (State.Grows.enter s frame).trans ih
    exact ⟨hgrows.includes, hgrows.nodup, hgrows.funcs, hgrows.signatures, hgrows.memory⟩
  | @definition s _ s₂ header _ _ params _ _ _ _ _ ihfirst ihsecond =>
    exact ((State.Grows.beginFunction s header params).trans (ihfirst.trans ihsecond)).trans
      (.endFunction s₂ header s.table _)
  | clampInt _ _ _ _ ihv ihh ihl =>
    exact ((State.Grows.require _ _).trans (.require _ _)).trans (ihv.trans (ihh.trans ihl))
  | assignPart _ _ _ _ _ _ ihv ihb ihi ihn =>
    exact ihv.trans ((State.Grows.require _ _).trans (ihb.trans (ihi.trans ihn)))
  | clampFloat _ _ _ _ ihv ihh ihl => exact ihv.trans (ihh.trans ihl)
  | loop _ _ ihc ihb =>
    have hgrows := ihc.trans ihb
    exact ⟨hgrows.includes, hgrows.nodup, hgrows.funcs, hgrows.signatures, hgrows.memory⟩
  | listCons _ _ ihe ihrest => exact ihe.trans ihrest
  | argsFree _ _ ihe ihrest => exact ihe.trans ihrest
  | argsCons _ _ ihe ihrest => exact ihe.trans ihrest
  | pairInt _ _ _ ihl ihr => exact ihl.trans ihr
  | pairFloat _ _ _ ihl ihr => exact ihl.trans ihr
  | memberValue _ _ _ ihe ihrest => exact ihe.trans ihrest

/-- A module has each library function once. -/
theorem Program.nodup_snippets {p : Program} {m : Module} {map : SourceMap}
    (h : p.compile.outcome = .ok (m, map)) : m.snippets.Nodup := by
  obtain ⟨s, pages, hemits, _, rfl, _⟩ := emits_of_compile h
  exact hemits.grows.nodup List.nodup_nil

/-! ## Signatures -/

/-- What is recorded when a function is begun: its name and the types of its parameters. -/
def Outline.entry (o : Outline) : String × List ValType := (o.name, o.params.map Prod.snd)

/-- The signatures that a run adds are those of the functions it writes. -/
theorem Emits.mem_signatures {s s' : State} {task : Task} {codes : List Code}
    (h : Emits s task codes s') (again : Bool) (entry : String × List ValType) :
    entry ∈ s'.signatures ↔
      entry ∈ s.signatures ∨ ∃ o ∈ task.outlines s.env again, o.entry = entry := by
  induction h generalizing again with
  | floatLit | intLit | ident | negInt | negFloat | listNil | argsNil | fixed | membersNil =>
    simp [Task.outlines, Expr.outlines, Expr.outlinesList, Member.exprs]
  | statements _ ih | sequence _ ih | call _ ih | opposite _ _ _ _ ih | difference _ _ _ _ ih
  | binary _ _ ih | compare _ ih | compound _ _ _ ih | operand _ ih | computed _ ih
  | memberInts _ ih | memberReserve _ ih | length _ _ ih => exact ih again
  | step _ _ _ ih => exact ih again
  | function _ ih =>
    rw [ih again]
    simp only [Task.outlines, Expr.outlines, Expr.outlinesOption_eq]
  | @block s s' body frame code ty span name _ ih =>
    rw [@State.env_of_scopes_cons s _ frame (by simp), State.signatures_declareScope] at ih
    exact ih again
  | clampInt _ hv hh _ ihv ihh ihl =>
    rw [hh.env_eq] at ihl
    rw [hv.env_eq] at ihh ihl
    simp only [State.env_require, State.signatures_require] at ihv ihh ihl
    rw [ihl again, ihh again, ihv again]
    simp only [Task.outlines, Expr.outlines, List.mem_append, or_and_right, exists_or, or_assoc]
  | clampFloat _ hv hh _ ihv ihh ihl =>
    rw [hh.env_eq] at ihl
    rw [hv.env_eq] at ihh ihl
    rw [ihl again, ihh again, ihv again]
    simp only [Task.outlines, Expr.outlines, List.mem_append, or_and_right, exists_or, or_assoc]
  | array hlayout _ _ _ _ ih =>
    rw [ih again]
    simp only [Task.outlines, Expr.outlines, ← outlines_of_classified _ _ hlayout]
    rfl
  | assignFunction hf _ ih =>
    rw [ih again]
    simp only [Task.outlines, Expr.outlines, hf, if_true]
  | assignName hf _ _ _ _ _ ih =>
    rw [ih again]
    simp only [Task.outlines, Expr.outlines, hf, if_false, Bool.false_eq_true]
  | assignPart hp hv hb hi _ _ ihv ihb ihi ihn =>
    rw [hi.env_eq] at ihn
    rw [hb.env_eq] at ihi ihn
    rw [State.env_require] at ihb ihi ihn
    rw [hv.env_eq] at ihb ihi ihn
    rw [State.signatures_require] at ihb
    -- the second run of the array opens its scopes again, and `again` is there for that
    rw [ihn true, ihi again, ihb again, ihv again]
    simp only [Task.outlines, outlines_of_position hp, List.mem_append, or_and_right, exists_or,
      or_assoc]
  | loop hc _ ihc ihb =>
    rw [hc.env_eq] at ihb
    refine (ihb again).trans ?_
    rw [ihc again]
    simp only [Task.outlines, Expr.outlines, List.mem_append, or_and_right, exists_or, or_assoc]
    rfl
  | listCons he _ ihe ihrest | argsFree he _ ihe ihrest | argsCons he _ ihe ihrest =>
    rw [he.env_eq] at ihrest
    rw [ihrest again, ihe again]
    simp only [Task.outlines, Expr.outlinesList, List.mem_append, or_and_right, exists_or, or_assoc]
  | pairInt _ hl _ ihl ihr | pairFloat _ hl _ ihl ihr =>
    rw [hl.env_eq] at ihr
    rw [ihr again, ihl again]
    simp only [Task.outlines, List.mem_append, or_and_right, exists_or, or_assoc]
  | @memberInt _ _ _ _ operand _ _ _ hv _ ih =>
    obtain ⟨⟨node, ty, span⟩, emitted⟩ := operand
    cases hv
    exact ih again
  | memberValue _ he _ ihe ihrest =>
    rw [he.env_eq] at ihrest
    rw [ihrest again, ihe again]
    simp only [Task.outlines, Member.exprs, List.filterMap_cons, Expr.outlinesList,
      List.mem_append, or_and_right, exists_or, or_assoc]
  | @definition s s₁ s₂ header prologue body params first second hparams hf hs ihf ihs =>
    rw [hf.env_eq] at ihs
    rw [@State.env_of_scopes_cons s _ header.frame (by simp)] at ihf ihs
    refine (ihs again).trans ?_
    rw [ihf again, State.signatures_beginFunction]
    have hentry : (Outline.ofFunction s.env again header.name header.params header.result
        header.frame prologue body).entry = (header.name, params.map Prod.snd) := by
      rw [Outline.entry, Outline.ofFunction, Emit.Header.paramTypes_eq hparams]
    simp only [Task.outlines, List.mem_append, or_and_right, exists_or, List.mem_cons,
      List.not_mem_nil, or_false, exists_eq_left, hentry, @eq_comm _ entry, or_assoc]
    -- the function itself is recorded first and written last
    rw [or_comm]
    simp only [or_assoc]

end PatchCompiler
