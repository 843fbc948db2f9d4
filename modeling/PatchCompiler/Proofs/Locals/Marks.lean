import PatchCompiler.Proofs.Locals.Outline

/-! # Which bindings a run declares

A run declares the bindings of the scopes it opens, and no others. So a scope that has not been
opened is still new when the compiler comes to it, and one that has been opened is not. -/

namespace PatchCompiler

/-- The bindings noted as declared before and after scopes have been opened. -/
structure Marks (entries : List (List String × Frame)) (before after : List Slot) : Prop where
  /-- What has been declared stays declared. -/
  mono : ∀ slot ∈ before, slot ∈ after
  /-- Only bindings of the scopes are added. -/
  added : ∀ slot ∈ after, slot ∈ before ∨ ∃ entry ∈ entries, slot.site = entry.2.site
  /-- The bindings of the scopes that the compiler declares are declared. -/
  complete : ∀ entry ∈ entries, ∀ slot ∈ entry.2.declares, slot ∈ after

namespace Marks

variable {first second : List (List String × Frame)} {d d₁ d₂ : List Slot}

/-- No scopes mark nothing. -/
theorem nil : Marks [] d d := ⟨fun _ h => h, fun _ h => .inl h, by simp⟩

/-- Scopes opened one after another. -/
theorem append (h : Marks first d d₁) (h' : Marks second d₁ d₂) : Marks (first ++ second) d d₂ := by
  refine ⟨fun slot hslot => h'.mono slot (h.mono slot hslot), fun slot hslot => ?_, ?_⟩
  · rcases h'.added slot hslot with hslot | ⟨entry, hentry, hsite⟩
    · rcases h.added slot hslot with hslot | ⟨entry, hentry, hsite⟩
      · exact .inl hslot
      · exact .inr ⟨entry, List.mem_append_left _ hentry, hsite⟩
    · exact .inr ⟨entry, List.mem_append_right _ hentry, hsite⟩
  · intro entry hentry slot hslot
    rcases List.mem_append.1 hentry with hentry | hentry
    · exact h'.mono slot (h.complete entry hentry slot hslot)
    · exact h'.complete entry hentry slot hslot

/-- Scopes opened a second time add nothing new to the list of scopes. -/
theorem again (h : Marks first d d₁) (h' : Marks second d₁ d₂)
    (hsub : ∀ entry ∈ second, entry ∈ first) : Marks first d d₂ := by
  refine ⟨fun slot hslot => h'.mono slot (h.mono slot hslot), fun slot hslot => ?_,
    fun entry hentry slot hslot => h'.mono slot (h.complete entry hentry slot hslot)⟩
  rcases h'.added slot hslot with hslot | ⟨entry, hentry, hsite⟩
  · exact h.added slot hslot
  · exact .inr ⟨entry, hsub entry hentry, hsite⟩

/-- A scope and the parameters it binds. -/
theorem scope {s t : State} {params : List String} {frame : Frame}
    (hmem : ∀ slot, slot ∈ t.declared ↔ slot ∈ s.declared ∨ slot ∈ params.map frame.slot) :
    Marks [(params, frame)] s.declared (t.declareScope frame).declared := by
  refine ⟨fun slot hslot => ?_, fun slot hslot => ?_, fun entry hentry slot hslot => ?_⟩
  · exact State.mem_declared_declareScope.2 (.inl ((hmem slot).2 (.inl hslot)))
  · rcases State.mem_declared_declareScope.1 hslot with hslot | hslot
    · -- what was noted beforehand are the parameters, whose places are in the frame too
      rcases (hmem slot).1 hslot with hslot | hslot
      · exact .inl hslot
      · obtain ⟨x, _, rfl⟩ := List.mem_map.1 hslot
        exact .inr ⟨_, List.mem_singleton_self _, rfl⟩
    · obtain ⟨pair, hpair, rfl⟩ := List.mem_map.1 hslot
      obtain ⟨⟨binding, i⟩, _, rfl⟩ := List.mem_map.1 (List.mem_filter.1 hpair).1
      exact .inr ⟨_, List.mem_singleton_self _, rfl⟩
  · cases List.mem_singleton.1 hentry
    exact State.mem_declared_declareScope.2 (.inr hslot)

end Marks

namespace State

variable (s : State)

/-- A library function is asked for without marking a binding. -/
@[simp] theorem declared_require (snippet : Snippet) :
    (s.require snippet).declared = s.declared := by
  unfold require
  split <;> rfl

/-- Opening a function opens its scope. -/
theorem marks_beginFunction (header : Emit.Header) (params : List (String × ValType)) :
    Marks [(header.params, header.frame)] s.declared (s.beginFunction header params).declared :=
  Marks.scope fun _ => mem_declared_markAll

end State

/-- The scopes of a list are those of its expressions, one after another. -/
theorem Expr.scopesList_eq_flatMap {σ : Type} (es : List (Expr σ)) :
    Expr.scopesList es = es.flatMap Expr.scopes := by
  induction es with
  | nil => rfl
  | cons e rest ih => rw [Expr.scopesList, ih, List.flatMap_cons]

/-- The scopes of an optional expression are those of the list of it. -/
theorem Expr.scopesOption_eq {σ : Type} (e : Option (Expr σ)) :
    Expr.scopesOption e = Expr.scopesList e.toList := by
  cases e with
  | none => rfl
  | some e => exact (List.append_nil _).symm

/-- The scopes of an array literal are those of its layout. -/
theorem scopes_of_classified {env : Env} {members : List (Expr Frame)} {layout : List Member}
    (h : List.Forall₂ (fun e m => Member.ofOperand (e.kind env) ⟨e, e.emit⟩ = .ok m)
      members layout) :
    Expr.scopesList (Member.exprs layout) = Expr.scopesList members := by
  rw [Expr.scopesList_eq_flatMap, Expr.scopesList_eq_flatMap]
  exact Member.flatMap_exprs _ (fun e he => by cases he <;> rfl) h

/-- The scopes of the target of an element store are those of the array and of the index. -/
theorem scopes_of_position {target array : Expr Frame} {p : Position}
    (h : target.position? = some (array, p)) :
    target.scopes = array.scopes ++ Task.scopes (.position p) := by
  cases Expr.locates_of_position h with
  | element => rfl
  | field => exact (List.append_nil _).symm

/-- A run declares the bindings of the scopes of its task. -/
theorem Emits.marks {s s' : State} {task : Task} {codes : List Code} (h : Emits s task codes s') :
    Marks task.scopes s.declared s'.declared := by
  induction h with
  | floatLit | intLit | ident | negInt | negFloat | listNil | argsNil | fixed | membersNil =>
    exact .nil
  | statements _ ih | sequence _ ih | call _ ih | opposite _ _ _ _ ih | difference _ _ _ _ ih
  | binary _ _ ih | compare _ ih | compound _ _ _ ih | operand _ ih | computed _ ih
  | memberInts _ ih | memberReserve _ ih => exact ih
  | step _ _ _ ih => exact ih
  | function _ ih =>
    simp only [Task.scopes, Expr.scopes, Node.scopes, Expr.scopesOption_eq]
    exact ih
  | @block s s' body frame code ty span name _ ih =>
    exact (@Marks.scope s _ [] frame fun slot => by simp [State.enter]).append ih
  | clampInt _ _ _ _ ihv ihh ihl =>
    rw [State.declared_require, State.declared_require] at ihv
    exact ihv.append (ihh.append ihl)
  | clampFloat _ _ _ _ ihv ihh ihl => exact ihv.append (ihh.append ihl)
  | array hlayout _ _ _ _ ih =>
    simp only [Task.scopes, Expr.scopes, Node.scopes, ← scopes_of_classified hlayout]
    exact ih
  | length _ _ ih => simpa [Task.scopes, Expr.scopes, Node.scopes, Expr.scopesOption] using ih
  | assignFunction _ _ ih => simpa [Task.scopes, Expr.scopes, Node.scopes] using ih
  | assignName _ _ _ _ _ _ ih => simpa [Task.scopes, Expr.scopes, Node.scopes] using ih
  | assignPart hp _ _ _ _ _ ihv ihb ihi ihn =>
    -- the array's scopes are opened a second time, for the length
    rw [State.declared_require] at ihb
    simp only [Task.scopes, Expr.scopes, Node.scopes, scopes_of_position hp]
    refine (ihv.append (ihb.append ihi)).again ihn fun entry hentry => ?_
    exact List.mem_append_right _ (List.mem_append_left _ hentry)
  | loop _ _ ihc ihb => exact ihc.append ihb
  | listCons _ _ ihe ihrest => exact ihe.append ihrest
  | argsFree _ _ ihe ihrest => exact ihe.append ihrest
  | argsCons _ _ ihe ihrest => exact ihe.append ihrest
  | pairInt _ _ _ ihl ihr => exact ihl.append ihr
  | pairFloat _ _ _ ihl ihr => exact ihl.append ihr
  | @memberInt _ _ _ _ operand _ _ _ hv _ ih =>
    obtain ⟨⟨node, ty, span⟩, emitted⟩ := operand
    cases hv
    exact ih
  | memberValue _ _ _ ihe ihrest => exact ihe.append ihrest
  | @definition s s₁ s₂ header prologue body params _ _ _ _ _ ihfirst ihsecond =>
    exact (s.marks_beginFunction header params).append (ihfirst.append ihsecond)

end PatchCompiler
