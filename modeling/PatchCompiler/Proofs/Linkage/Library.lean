import PatchCompiler.Proofs.Emission.Actions
import PatchCompiler.Proofs.Text.Sections

/-! # The functions of the library in a module

The compiler asks for functions of the library where it keeps an integer in a range and where it
assigns to an element of an array. It does so before it compiles the operands, and anywhere in a
program: the call may end up in a function that is written before or after others that call the same
function. Main statement: a module has those functions of the library that it calls and no others,
each once, in the order they were first asked for. -/

namespace PatchCompiler

/-- Functions of the library are linked once, in the order they are first asked for. -/
theorem Snippet.foldl_link (requests : List Snippet) :
    requests.foldl link [] = requests.eraseDups := by
  induction requests using List.reverseRecOn with
  | nil => rfl
  | append_singleton first snippet ih =>
    rw [List.foldl_append, ih, List.eraseDups_append, List.foldl_cons, List.foldl_nil]
    -- a function that has been asked for before is linked already
    by_cases hmem : snippet ∈ first
    · simp [link, List.removeAll, hmem]
    · simp [link, List.removeAll, hmem, List.eraseDups_cons]

/-- The functions of one name among those of the library. -/
theorem Snippet.filter_name {linked : List Snippet} (h : linked.Nodup) (snippet : Snippet) :
    (linked.map func).filter (fun f => f.name = snippet.name)
      = if snippet ∈ linked then [snippet.func] else [] := by
  -- library functions have names of their own
  have hname : ∀ other : Snippet, decide (other.func.name = snippet.name) = (other == snippet) := by
    intro other
    rw [beq_eq_decide, decide_eq_decide]
    exact name_injective.eq_iff
  rw [List.filter_map, Function.comp_def, funext hname, List.filter_beq]
  by_cases hmem : snippet ∈ linked
  · rw [if_pos hmem, List.count_eq_one_of_mem h hmem]
    rfl
  · rw [if_neg hmem, List.count_eq_zero_of_not_mem hmem]
    rfl

namespace Program

variable {p : Program} {m : Module} {map : SourceMap}

/-- The library functions of a module are those that were asked for, in order. -/
theorem snippets_of_compile (h : p.compile.outcome = .ok (m, map)) :
    m.snippets = p.requests.eraseDups := by
  obtain ⟨s, _, hledger, hacts⟩ := acts_of_compile h
  have hincludes := hacts.includes
  rw [hledger, List.filterMap_append] at hincludes
  rw [← Snippet.foldl_link]
  exact hincludes.trans (congrArg (List.foldl _ _) (List.append_nil _))

/-- A function is called if the program calls it, or if it is one of the library that was asked
for. -/
theorem mem_calls (h : p.compile.outcome = .ok (m, map)) {callee : String} :
    (∃ f ∈ m.funcs, callee ∈ f.calls) ↔
      callee ∈ p.callees ∨ ∃ snippet ∈ p.requests, snippet.name = callee := by
  -- every call of the program is visited once or more
  have hcallee : callee ∈ p.visits.filterMap (fun v => v.expr.callee?) ↔ callee ∈ p.callees := by
    rw [List.mem_filterMap, callees, List.mem_filterMap]
    exact exists_visit (q := fun e => e.callee? = some callee)
  rw [← List.mem_flatMap, (calls_of_compile h).mem_iff, List.mem_append, hcallee, List.mem_map]

/-- The functions of a module that are not of the library have names that the program gives, or the
name of the function that runs the top-level statements. -/
theorem name_mem (h : p.compile.outcome = .ok (m, map)) {f : Func} (hf : f ∈ m.funcs) :
    f.name ∈ p.functionNames ∨ f.name = initName := by
  obtain ⟨written, locals, code, hfuncs, hnames⟩ := funcs_of_compile h
  rw [hfuncs] at hf
  rcases List.mem_append.1 hf with hf | hf
  · exact .inl (hnames f hf)
  · cases List.mem_singleton.1 hf
    exact .inr rfl

/-- The library in the module of a program that neither calls nor defines a function with the name
of one of the library. The functions in the text of the module are those of the library that are
called, each once, and those of the program. The former stand in the order they were first asked
for. Every function that is called is one that the program calls by its name, or one of the library
that is there. -/
theorem library_linked (h : p.compile.outcome = .ok (m, map))
    (hcalls : ∀ snippet : Snippet, snippet.name ∉ p.callees)
    (hfunctions : ∀ snippet : Snippet, snippet.name ∉ p.functionNames) :
    m.sections "func" = (m.snippets.map Snippet.func ++ m.funcs).map Wasm.funcText ∧
    (∀ snippet : Snippet, m.functions.filter (fun f => f.name = snippet.name)
      = if ∃ f ∈ m.funcs, snippet.name ∈ f.calls then [snippet.func] else []) ∧
    m.snippets = p.requests.eraseDups ∧ m.snippets.Nodup ∧
    (∀ f ∈ m.functions, ∀ callee ∈ f.calls, callee ∈ p.callees ∨
      ∃ snippet ∈ m.snippets, snippet.name = callee) := by
  have hsnippets := snippets_of_compile h
  have hlinked : ∀ snippet : Snippet, snippet ∈ m.snippets ↔ snippet ∈ p.requests := by
    intro snippet
    rw [hsnippets, List.mem_eraseDups]
  refine ⟨Module.sections_func (not_verbatim h), fun snippet => ?_, hsnippets, nodup_snippets h,
    fun f hf callee hcallee => ?_⟩
  · -- the name is free: neither the program nor the compiler gives it to a function of its own
    have hown : m.funcs.filter (fun f => f.name = snippet.name) = [] := by
      rw [List.filter_eq_nil_iff]
      intro f hf hname
      have hname := of_decide_eq_true hname
      rcases name_mem h hf with hmem | hinit
      · exact hfunctions snippet (hname ▸ hmem)
      · cases snippet <;> exact absurd (hinit.symm.trans hname) (by decide)
    have hcalled : (∃ f ∈ m.funcs, snippet.name ∈ f.calls) ↔ snippet ∈ m.snippets := by
      rw [mem_calls h, hlinked]
      constructor
      · rintro (hmem | ⟨other, hother, hname⟩)
        · exact absurd hmem (hcalls snippet)
        · exact Snippet.name_injective hname ▸ hother
      · exact fun hmem => .inr ⟨snippet, hmem, rfl⟩
    rw [Module.functions, List.filter_append, hown, List.append_nil,
      Snippet.filter_name (nodup_snippets h)]
    simp only [hcalled]
  · -- library functions call nothing
    have hfuncs : ∃ f ∈ m.funcs, callee ∈ f.calls := by
      rcases List.mem_append.1 hf with hf | hf
      · obtain ⟨snippet, _, rfl⟩ := List.mem_map.1 hf
        cases snippet <;> cases hcallee
      · exact ⟨f, hf, hcallee⟩
    rcases (mem_calls h).1 hfuncs with hmem | ⟨snippet, hmem, hname⟩
    · exact .inl hmem
    · exact .inr ⟨snippet, (hlinked snippet).2 hmem, hname⟩

/-- An element of an array is assigned to, at a position that is kept in a range. -/
def clampedStore : Program where
  body := .plain (.assign (.plain (.index (.plain (.ident "a"))
    (some (.plain (.clamp (.int 7) (.plain (.range (some (.int 0)) (some (.int 3)))))))))
    (.int 5))
  scope := ⟨[⟨"a", { kind := .pointer, storage := .globalVar }⟩]⟩

/-- The function for positions is asked for before those that keep the position in its range. -/
theorem clampedStore_linked : ∃ m map, clampedStore.compile.outcome = .ok (m, map) ∧
    m.snippets = [.index, .max, .min] ∧
    m.functions.filter (fun f => f.name = Snippet.max.name) = [Snippet.max.func] := by
  have hcalls : ∀ snippet : Snippet, snippet.name ∉ clampedStore.callees := by
    intro snippet
    cases snippet <;> decide
  have hfunctions : ∀ snippet : Snippet, snippet.name ∉ clampedStore.functionNames := by
    intro snippet
    cases snippet <;> decide
  refine ⟨_, _, rfl, (library_linked rfl hcalls hfunctions).2.2.1, ?_⟩
  exact ((library_linked rfl hcalls hfunctions).2.1 .max).trans (if_pos (by decide))

end Program

end PatchCompiler
