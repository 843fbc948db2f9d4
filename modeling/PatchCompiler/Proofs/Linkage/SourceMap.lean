import PatchCompiler.Proofs.Emission.Actions
import PatchCompiler.Proofs.Text.Sections

/-! # The source map of a module

The functions of the library are known when the whole program has been compiled, but they stand
first in a module, and a function that is defined in another one is written before it. The source
map is put together from names and places that are recorded apart from the functions. Main
statement: it has an entry for each function of the text, in order, which tells what the function
comes from. -/

namespace PatchCompiler

/-! ## Numbered entries -/

/-- The entry of the function with an index. -/
def FuncOrigin.entry (index : Nat) (o : FuncOrigin) : SourceMapEntry :=
  ⟨.ofNat index, o.name, o.role, o.span⟩

/-- What an entry tells of its function, apart from the index. -/
def SourceMapEntry.origin (entry : SourceMapEntry) : FuncOrigin :=
  ⟨entry.funcName, entry.role, entry.span⟩

/-- What is recorded of a library function. -/
def Snippet.origin (snippet : Snippet) : FuncOrigin := ⟨snippet.name, .stdlib, .synthetic⟩

namespace SourceMap

/-- The source map of functions in order. -/
def ofOrigins (origins : List FuncOrigin) : SourceMap := ⟨origins.mapIdx FuncOrigin.entry⟩

variable {origins : List FuncOrigin}

/-- The entry at a position is that of the function at this position. -/
theorem getElem?_entries (origins : List FuncOrigin) (i : Nat) :
    (ofOrigins origins).entries[i]? = origins[i]?.map (FuncOrigin.entry i) :=
  List.getElem?_mapIdx

/-- The entries tell the origins of the functions in order. -/
theorem map_origin_entries (origins : List FuncOrigin) :
    (ofOrigins origins).entries.map SourceMapEntry.origin = origins := by
  apply List.ext_getElem?
  intro i
  rw [List.getElem?_map, getElem?_entries]
  cases origins[i]? <;> rfl

/-- Adding functions one by one numbers them in order. -/
theorem foldl_push (origins : List FuncOrigin) :
    origins.foldl (fun map o => map.push o.name o.role o.span) {} = ofOrigins origins := by
  -- the last function that is added gets the number of those before it
  induction origins using List.reverseRecOn with
  | nil => rfl
  | append_singleton first o ih =>
    have hlength : (ofOrigins first).entries.length = first.length := List.length_mapIdx
    rw [List.foldl_append, ih, List.foldl_cons, List.foldl_nil, push, hlength]
    exact congrArg SourceMap.mk List.mapIdx_concat.symm

/-- The index of an entry is its place. -/
theorem toNat_funcIndex (h : origins.length < UInt32.size) {i : Nat} {entry : SourceMapEntry}
    (hentry : (ofOrigins origins).entries[i]? = some entry) : entry.funcIndex.toNat = i := by
  rw [getElem?_entries] at hentry
  obtain ⟨o, ho, rfl⟩ := Option.map_eq_some_iff.1 hentry
  obtain ⟨hi, _⟩ := List.getElem?_eq_some_iff.1 ho
  exact UInt32.toNat_ofNat_of_lt' (hi.trans h)

/-- An index leads to the entry at its place. -/
theorem findIndex?_eq (h : origins.length < UInt32.size) (index : UInt32) :
    (ofOrigins origins).findIndex? index = (ofOrigins origins).entries[index.toNat]? := by
  cases hentry : (ofOrigins origins).entries[index.toNat]? with
  -- an entry with this index would stand at this place
  | none =>
    rw [findIndex?, List.find?_eq_none]
    intro entry hmem hsame
    obtain ⟨i, hi⟩ := List.mem_iff_getElem?.1 hmem
    have hplace := toNat_funcIndex h hi
    rw [of_decide_eq_true hsame] at hplace
    rw [hplace, hi] at hentry
    cases hentry
  | some entry =>
    -- no entry in front has the index, as each has its own place
    obtain ⟨hlt, hget⟩ := List.getElem?_eq_some_iff.1 hentry
    rw [findIndex?, List.find?_eq_some_iff_getElem]
    refine ⟨decide_eq_true (UInt32.toNat_inj.1 (toNat_funcIndex h hentry)), index.toNat, hlt, hget,
      fun j hj => ?_⟩
    -- the entry at place `j` has the index `j`
    have hplace := toNat_funcIndex h (List.getElem?_eq_getElem (hj.trans hlt))
    rw [Bool.not_eq_true', decide_eq_false_iff_not]
    intro hsame
    rw [hsame] at hplace
    omega

end SourceMap

/-- The source map of a state lists the library functions and then the functions that have been
written. -/
theorem State.sourceMap_eq (s : State) :
    s.sourceMap = .ofOrigins (s.includes.map Snippet.origin ++ s.functions) := by
  rw [← SourceMap.foldl_push, List.foldl_append, List.foldl_map]
  rfl

/-! ## Where functions come from -/

/-- A function has the name that its definition gets. -/
theorem FuncSource.Yields.name {d : FuncSource} {f : Func} (h : d.Yields f) :
    f.name = d.header.name := by
  obtain ⟨s, s', hemits, hlast⟩ := h
  cases hemits with
  | definition hparams hfirst hsecond =>
    rw [State.funcs_endFunction, List.getLast?_concat] at hlast
    cases hlast
    rfl

/-- A definition that a function is written for is a function node with its place. -/
theorem Visit.expr_of_source? {v : Visit} {d : FuncSource} (h : v.source? = some d) :
    d.header.role = .function ∧ ∃ ty, v.expr
      = .mk (.function d.header.params d.header.result d.prologue d.body d.header.frame) ty
        d.header.span := by
  obtain ⟨env, name, ⟨node, ty, span⟩⟩ := v
  cases node with
  | function params result prologue body frame =>
    cases h
    exact ⟨rfl, ty, rfl⟩
  | _ => cases h

namespace Program

variable {p : Program} {m : Module} {map : SourceMap}

/-- What is recorded of a function tells its name and, if it is one that the program defines, the
place of the node that it was written for. -/
structure Describes (p : Program) (o : FuncOrigin) (f : Func) : Prop where
  /-- The name. -/
  name : o.name = f.name
  /-- The node that the function was written for. -/
  source : o.role = .function → ∃ params result prologue body frame ty,
    Expr.mk (.function params result prologue body frame) ty o.span ∈ p.nodes ∧
      FuncSource.Yields ⟨⟨o.name, params, result, frame, o.span, .function⟩, prologue, body⟩ f

/-- The source map of a module follows its library functions and the definitions of the program. -/
theorem map_of_compile (h : p.compile.outcome = .ok (m, map)) :
    map = .ofOrigins (m.snippets.map Snippet.origin ++ p.sources.map FuncSource.origin) := by
  obtain ⟨s, rfl, hledger, hacts⟩ := acts_of_compile h
  have hincludes : s.includes = m.snippets := congrArg Ledger.includes hledger
  have horigins : s.functions = p.sources.map FuncSource.origin := by
    rw [← filterMap_source?]
    exact hacts.origins
  rw [State.sourceMap_eq, hincludes, horigins]

/-- A definition that the compiler comes to is a node of the program. -/
theorem describes_source {d : FuncSource} (hd : d ∈ p.sources) {f : Func} (hf : d.Yields f) :
    p.Describes d.origin f := by
  refine ⟨hf.name.symm, fun hrole => ?_⟩
  -- the definitions in the order they are dealt with, and the start as the last one
  rcases List.mem_append.1 hd with hd | hd
  · obtain ⟨v, hv, hsource⟩ := List.mem_filterMap.1 hd
    obtain ⟨e, he, rfl⟩ := exists_visit (q := fun e => e = v.expr).1 ⟨v, hv, rfl⟩
    obtain ⟨_, ty, hexpr⟩ := Visit.expr_of_source? hsource
    obtain ⟨⟨name, params, result, frame, span, role⟩, prologue, body⟩ := d
    obtain rfl : role = .function := hrole
    exact ⟨params, result, prologue, body, frame, ty, hexpr ▸ he, hf⟩
  · cases List.mem_singleton.1 hd
    cases hrole

/-- What is recorded describes the functions of a module, one by one. -/
theorem describes_functions (h : p.compile.outcome = .ok (m, map)) : List.Forall₂ p.Describes
    (m.snippets.map Snippet.origin ++ p.sources.map FuncSource.origin) m.functions := by
  refine List.rel_append ?_ ?_
  · rw [List.forall₂_map_left_iff, List.forall₂_map_right_iff, List.forall₂_same]
    intro snippet _
    exact ⟨rfl, fun hrole => by cases hrole⟩
  · rw [List.forall₂_map_left_iff]
    -- the order of the functions is that of the definitions, which are all in the program
    have hsources := (List.forall₂_and_left _ _).2
      ⟨fun d (hd : d ∈ p.sources) => hd, yields_of_compile h⟩
    exact hsources.imp fun d f hdf => describes_source hdf.1 hdf.2

/-- The functions that a program defines have a role of their own. -/
theorem role_source {o : FuncOrigin}
    (ho : o ∈ (p.visits.filterMap Visit.source?).map FuncSource.origin) : o.role = .function := by
  obtain ⟨d, hd, rfl⟩ := List.mem_map.1 ho
  obtain ⟨v, _, hsource⟩ := List.mem_filterMap.1 hd
  exact (Visit.expr_of_source? hsource).1

/-- So do the functions of the library. -/
theorem role_snippet {linked : List Snippet} {o : FuncOrigin} (ho : o ∈ linked.map Snippet.origin) :
    o.role = .stdlib := by
  obtain ⟨snippet, _, rfl⟩ := List.mem_map.1 ho
  rfl

/-- What is recorded of the functions of the library, picked by their role. -/
theorem filter_stdlib (p : Program) (linked : List Snippet) :
    (linked.map Snippet.origin ++ p.sources.map FuncSource.origin).filter
      (fun o => o.role = .stdlib) = linked.map Snippet.origin := by
  have hlinked : (linked.map Snippet.origin).filter (fun o => o.role = .stdlib)
      = linked.map Snippet.origin := by
    rw [List.filter_eq_self]
    exact fun o ho => decide_eq_true (role_snippet ho)
  have hsources : (p.sources.map FuncSource.origin).filter (fun o => o.role = .stdlib) = [] := by
    rw [List.filter_eq_nil_iff]
    intro o ho hrole
    rw [sources, List.map_append] at ho
    have hrole := of_decide_eq_true hrole
    -- a function that the program defines, or the one that runs its statements
    rcases List.mem_append.1 ho with ho | ho
    · rw [role_source ho] at hrole
      cases hrole
    · cases List.mem_singleton.1 ho
      cases hrole
  rw [List.filter_append, hlinked, hsources, List.append_nil]

/-- What is recorded last is the function that runs the top-level statements. -/
theorem last_entry (p : Program) (linked : List Snippet) : ∃ front last,
    (SourceMap.ofOrigins (linked.map Snippet.origin ++ p.sources.map FuncSource.origin)).entries
      = front ++ [last] ∧
    (∀ entry ∈ front, entry.role ≠ .init) ∧ last.origin = ⟨initName, .init, p.body.span⟩ := by
  rw [sources, List.map_append, ← List.append_assoc]
  refine ⟨_, _, List.mapIdx_concat, fun entry hentry => ?_, rfl⟩
  obtain ⟨i, hi, rfl⟩ := List.mem_mapIdx.1 hentry
  show FuncOrigin.role _ ≠ _
  -- neither the library nor the program has the role of the start
  rcases List.mem_append.1 (List.getElem_mem hi) with ho | ho
  · rw [role_snippet ho]
    decide
  · rw [role_source ho]
    decide

/-- The source map of a module with fewer functions than there are indices. There is an entry for
each function in the text of the module, in order, with its index, its name and, if the program
defines the function, the place of the node that it was written for. The entries follow the library
functions and then the definitions in the order in which the compiler deals with them, as the
functions do. The entries of the library are those of the library functions of the module and have
no place. The last entry, and no other, is that of the function that runs the top-level statements,
and has their place. An index leads to the entry of the function that it numbers. -/
theorem source_map_describes (h : p.compile.outcome = .ok (m, map))
    (hsize : m.functions.length < UInt32.size) :
    m.sections "func" = m.functions.map Wasm.funcText ∧
    map.entries.length = m.functions.length ∧
    (∀ (i : Nat) (entry : SourceMapEntry) (f : Func), map.entries[i]? = some entry →
      m.functions[i]? = some f → entry.funcIndex.toNat = i ∧ p.Describes entry.origin f) ∧
    map.entries.map SourceMapEntry.origin
      = m.snippets.map Snippet.origin ++ p.sources.map FuncSource.origin ∧
    List.Forall₂ FuncSource.Yields p.sources m.funcs ∧
    (map.entries.filter (fun entry => entry.role = .stdlib)).map SourceMapEntry.origin
      = m.snippets.map (fun snippet => ⟨snippet.name, .stdlib, .synthetic⟩) ∧
    (∃ front last, map.entries = front ++ [last] ∧ (∀ entry ∈ front, entry.role ≠ .init) ∧
      last.origin = ⟨initName, .init, p.body.span⟩) ∧
    ∀ index, map.findIndex? index = map.entries[index.toNat]? := by
  obtain rfl := map_of_compile h
  have hdescribes := describes_functions h
  have hlength := hdescribes.length_eq
  rw [← hlength] at hsize ⊢
  refine ⟨Module.sections_func (not_verbatim h), List.length_mapIdx, fun i entry f hentry hf => ?_,
    SourceMap.map_origin_entries _, yields_of_compile h, ?_, last_entry p m.snippets,
    SourceMap.findIndex?_eq hsize⟩
  · refine ⟨SourceMap.toNat_funcIndex hsize hentry, ?_⟩
    rw [SourceMap.getElem?_entries] at hentry
    obtain ⟨o, ho, rfl⟩ := Option.map_eq_some_iff.1 hentry
    obtain ⟨hi, rfl⟩ := List.getElem?_eq_some_iff.1 ho
    obtain ⟨hi', rfl⟩ := List.getElem?_eq_some_iff.1 hf
    exact hdescribes.get hi hi'
  · -- roles are kept by what is recorded, so that entries can be picked there
    have hfilter := congrArg (List.filter fun o => o.role = .stdlib)
      (SourceMap.map_origin_entries
        (m.snippets.map Snippet.origin ++ p.sources.map FuncSource.origin))
    rw [List.filter_map, filter_stdlib] at hfilter
    exact hfilter

/-- A function that keeps an integer in a range, defined in another function. -/
def nestedFunctions : Program where
  body := .mk (.statements [
    .plain (.assign (.plain (.ident "outer")) (.mk (.function [] none none
      (.plain (.assign (.plain (.ident "inner")) (.mk (.function [] (some .int) none
        (.plain (.clamp (.int 7) (.plain (.range (some (.int 0)) (some (.int 3)))))) ⟨[]⟩)
        none ⟨2, 11, 2, 22⟩))) ⟨[]⟩) none ⟨1, 9, 3, 1⟩))]) none ⟨1, 1, 3, 1⟩
  scope := ⟨[⟨"outer", { kind := .function, storage := .globalVar }⟩]⟩

/-- The library functions come first, and the inner function before the outer one. -/
theorem nestedFunctions_map : ∃ m map, nestedFunctions.compile.outcome = .ok (m, map) ∧
    m.functions.map Func.name = ["util/i32.smax", "util/i32.smin", "inner", "outer", initName] ∧
    m.functions.length < UInt32.size ∧
    map.findIndex? 2 = some ⟨2, "inner", .function, ⟨2, 11, 2, 22⟩⟩ ∧
    map.findIndex? 4 = some ⟨4, initName, .init, ⟨1, 1, 3, 1⟩⟩ := by
  refine ⟨_, _, rfl, rfl, ?_⟩
  have hsize : nestedFunctions.compile.outcome.toOption.all
      (fun result => result.1.functions.length < UInt32.size) = true := by decide
  have hmap := @source_map_describes nestedFunctions _ _ rfl (of_decide_eq_true hsize)
  exact ⟨of_decide_eq_true hsize, hmap.2.2.2.2.2.2.2 2, hmap.2.2.2.2.2.2.2 4⟩

end Program

end PatchCompiler
