import PatchCompiler.Format.Result
import PatchCompiler.Proofs.Format.Encoding

/-! # Reading back what a run gives

Source maps and reports are read back from the texts that they are written as, whatever they hold:
all their numbers are integers that fit into 64 bits, and their containers nest only a few levels. -/

namespace PatchCompiler

open Json (Value Takes)

/-! ## Names of alternatives -/

/-- Every role of a function is found by its name. -/
theorem FuncRole.lookup_names (role : FuncRole) : FuncRole.names.lookup role.name = some role := by
  cases role <;> rfl

/-- Every severity is found by its name. -/
theorem Severity.lookup_names (severity : Severity) :
    Severity.names.lookup severity.name = some severity := by
  cases severity <;> rfl

/-- Every category is found by its name. -/
theorem Category.lookup_names (category : Category) :
    Category.names.lookup category.name = some category := by
  cases category <;> rfl

/-! ## Source maps -/

/-- An entry of a source map is read back from its text. -/
theorem SourceMapEntry.takes (e : SourceMapEntry) {levels : Nat}
    (hdepth : e.toJson.depth ≤ levels) : Takes (readSourceMapEntry levels) e.toJson e := by
  refine Takes.record hdepth (fun _ _ => (by decide : ["func_index", "func_name", "kind",
    "span"].Nodup)) fun inner _ fits => ?_
  simp only [List.forall_mem_cons] at fits
  exact .take ((Takes.uint32 e.funcIndex).map _) (.take ((Takes.string e.funcName).map _)
    (.take ((Takes.enumeration inner e.role.lookup_names).map _)
      (.take ((e.span.takes fits.2.2.2.1).map _) (.done _))))

/-- A source map is read back from its text, and its entries in order. -/
theorem SourceMap.takes (m : SourceMap) {levels : Nat} (hdepth : m.toJson.depth ≤ levels) :
    Takes (readSourceMap levels) m.toJson m := by
  refine Takes.record hdepth (fun _ _ => (by decide : ["entries"].Nodup)) fun inner _ fits => ?_
  have hentries := fits _ List.mem_cons_self
  refine .take (Takes.map _ (Takes.list hentries fun inner _ e _ he => ⟨e.takes he, ?_⟩)) (.done _)
  exact Value.marked_object _

/-- A source map holds a list of objects with a span in each. -/
theorem SourceMap.depth_le (m : SourceMap) : m.toJson.depth ≤ 4 := by
  have hentries : ∀ value ∈ m.entries.map SourceMapEntry.toJson, value.depth ≤ 2 := by
    intro value hvalue
    obtain ⟨e, _, rfl⟩ := List.mem_map.mp hvalue
    exact Nat.le_refl 2
  refine Value.depth_object_le.mpr ⟨3, rfl, List.forall_mem_singleton.mpr ?_⟩
  exact Value.depth_list_le.mpr ⟨2, rfl, hentries⟩

/-! ## Reports -/

/-- A word that is written as a number is that word. -/
theorem Json.Value.toUInt32_nat (n : UInt32) : (Value.nat n.toNat).toUInt32 = .ok n := by
  rw [Value.nat, Value.toUInt32, if_pos ⟨Int.natCast_nonneg _, n.toNat_lt_size⟩, Int.toNat_natCast,
    UInt32.ofNat_toNat]

/-- A word is read back as a value of any shape. -/
theorem Json.Takes.plain_uint32 (levels : Nat) (n : UInt32) :
    Takes (Json.plain levels) (.nat n.toNat) (.nat n.toNat) := by
  have hn := n.toNat_lt_size
  refine .plain_int levels ?_ ?_
  · have : Int64.minValue.toInt = -2 ^ 63 := rfl
    omega
  · have : Json.maxSignificand = 2 ^ 64 - 1 := rfl
    have : UInt32.size = 2 ^ 32 := rfl
    omega

/-- A suggestion that is left out is missing from the diagnostic that is read. -/
theorem Diagnostic.mixes_suggestion {other : Json.Reader Value} (d : Diagnostic) :
    Json.Mixes other
      [Json.field "suggestion" .optional (fun suggestion d => { d with suggestion := suggestion })
        (Json.optional Json.string)]
      { d with suggestion := none }
      (match d.suggestion with
        | some suggestion => [("suggestion", .string suggestion)]
        | none => [])
      [] d := by
  obtain ⟨file, code, severity, category, message, span, sourceLine, suggestion⟩ := d
  cases suggestion with
  | none => exact .skip (by simp [Json.field]) (.done _)
  | some suggestion =>
    exact .take (((Takes.string suggestion).optional_some (Value.marked_string _)).map _) (.done _)

/-- A diagnostic is read back from its text. -/
theorem Diagnostic.takes (d : Diagnostic) {levels : Nat} (hdepth : d.toJson.depth ≤ levels) :
    Takes (readDiagnostic levels) d.toJson d := by
  refine Takes.flatRecord hdepth (fun _ _ => (by decide : ["file", "code", "severity", "category",
    "message", "source_line", "suggestion"].Nodup)) ?_ (fun inner _ =>
      .take ((Takes.string d.file).map _) (.take ((Takes.uint16 d.code.number).map _)
        (.take ((Takes.enumeration inner d.severity.lookup_names).map _)
          (.take ((Takes.enumeration inner d.category.lookup_names).map _)
            (.take ((Takes.string d.message).map _) (.keep (.plain_uint32 inner d.span.line)
              (.keep (.plain_uint32 inner d.span.column)
                (.keep (.plain_uint32 inner d.span.endLine)
                  (.keep (.plain_uint32 inner d.span.endColumn)
                    (.take ((Takes.string d.sourceLine).map _)
                      (Diagnostic.mixes_suggestion { d with span := .synthetic }))))))))))) ?_
  · simp [Json.field]
  · simp [Json.takeFields, Json.flatField, Json.Value.toUInt32_nat, Except.map, bind, Except.bind]

/-- A diagnostic is an object of texts and numbers. -/
theorem Diagnostic.depth_le (d : Diagnostic) : d.toJson.depth ≤ 1 := by
  refine Value.depth_object_le.mpr ⟨0, rfl, List.forall_mem_append.mpr ⟨?_, ?_⟩⟩
  · simp [Value.depth, Value.nat]
  · cases d.suggestion <;> simp [Value.depth]

/-- Diagnostics are read back in order. -/
theorem Diagnostic.takes_list {ds : List Diagnostic} {levels : Nat}
    (hdepth : (Value.list (ds.map Diagnostic.toJson)).depth ≤ levels) :
    Takes (Json.list levels fun inner _ => readDiagnostic inner)
      (.list (ds.map Diagnostic.toJson)) ds :=
  Takes.list hdepth fun _ _ d _ hd => ⟨d.takes hd, Value.marked_object _⟩

/-- A report is read back from its text. -/
theorem Report.takes (report : Report) {levels : Nat} (hdepth : report.toJson.depth ≤ levels) :
    Takes (readReport levels) report.toJson report := by
  refine Takes.record hdepth (fun _ _ => (by decide : ["errors", "warnings", "total_errors",
    "total_warnings"].Nodup)) fun inner _ fits => ?_
  simp only [List.forall_mem_cons] at fits
  exact .take ((Diagnostic.takes_list fits.1).map _) (.take ((Diagnostic.takes_list fits.2.1).map _)
    (.take ((Takes.count report.totalErrors).map _)
      (.take ((Takes.count report.totalWarnings).map _) (.done _))))

/-- A report holds two lists of diagnostics. -/
theorem Report.depth_le (report : Report) : report.toJson.depth ≤ 3 := by
  have hlist (ds : List Diagnostic) : (Value.list (ds.map Diagnostic.toJson)).depth ≤ 2 := by
    refine Value.depth_list_le.mpr ⟨1, rfl, fun value hvalue => ?_⟩
    obtain ⟨d, _, rfl⟩ := List.mem_map.mp hvalue
    exact d.depth_le
  refine Value.depth_object_le.mpr ⟨2, rfl, ?_⟩
  simp only [List.forall_mem_cons]
  exact ⟨hlist _, hlist _, Nat.zero_le _, Nat.zero_le _, List.forall_mem_nil _⟩

/-- **Round trip of results.** Every source map and every report is read back from the text it is
written as. -/
theorem results_decode_encode (m : SourceMap) (report : Report) :
    SourceMap.decode m.encode = .ok m ∧ Report.decode report.encode = .ok report := by
  have hmap : m.toJson.depth ≤ Json.maxLevels := Nat.le_trans m.depth_le (by decide)
  have hreport : report.toJson.depth ≤ Json.maxLevels := Nat.le_trans report.depth_le (by decide)
  exact ⟨(m.takes hmap).decode, (report.takes hreport).decode⟩

end PatchCompiler
