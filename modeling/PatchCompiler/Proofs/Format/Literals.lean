import PatchCompiler.Proofs.Format.Roundtrip
import PatchCompiler.Proofs.Json.Floats

/-! # Decimal literals that were written and read

The text of a decimal literal names a number that rounds to it, but a reader that scales the digits
by a power of ten does not round that number itself. The literal that is read has the same sign, and
its word is at most two away (`parseProgram_constant`). It is the same literal if the digits and the
power of ten are doubles themselves; `1e-23` is one that comes back as its neighbour. -/

namespace PatchCompiler

/-- The program of a single decimal literal. -/
def Program.constant (x : Binary64) (ty : Option Kind) (span : Span) (scope : Scope) : Program :=
  ⟨.mk (.floatLit x) ty span, scope⟩

/-- The text of a scope nests three containers at most. -/
theorem Scope.depth_toJson_le (scope : Scope) : scope.toJson.depth ≤ 3 := by
  refine Json.Value.depth_object_le.mpr ⟨2, rfl, ?_⟩
  rw [List.forall_mem_singleton]
  refine Json.Value.depth_list_le.mpr ⟨1, rfl, fun value hvalue => ?_⟩
  obtain ⟨b, _, rfl⟩ := List.mem_map.1 hvalue
  exact le_rfl

/-- The program of a single literal fits into the levels that are read. -/
theorem Program.depth_constant (x : Binary64) (ty : Option Kind) (span : Span) (scope : Scope) :
    (Program.constant x ty span scope).toJson.depth ≤ Json.maxLevels := by
  refine Json.Value.depth_object_le.mpr ⟨126, rfl, ?_⟩
  rw [List.forall_mem_cons, List.forall_mem_singleton]
  refine ⟨?_, scope.depth_toJson_le.trans (by decide)⟩
  rw [Expr.depth_toJson]
  exact (by decide : 2 ≤ 126)

/-- **Decimal literals come back nearly as they were.** Reading the text of a finite literal gives a
literal of the same sign, kind and place that is finite and at most two words away, and the same
literal if digits and power of ten are doubles. -/
theorem parseProgram_constant (x : Binary64) (hx : x.isFinite = true) (ty : Option Kind)
    (span : Span) (scope : Scope) (file : String) :
    ∃ y, parseProgram (Program.constant x ty span scope).encode file =
        .ok (.constant y ty span scope) ∧ Json.Reread x y := by
  obtain ⟨y, htakes, hreread⟩ := Json.Takes.exists_reread hx
  refine ⟨y, parseProgram_eq_ok_iff.mpr ?_, hreread⟩
  refine Program.decode_of_takes (fun _ hdepth => ?_) (Program.depth_constant x ty span scope)
  exact Expr.takes_mk (fun _ => Node.takes_floatLit htakes) ty span hdepth

/-- The double nearest to `1e-23`. -/
def Binary64.smallPower : Binary64 := ⟨0x3b282db34012b251⟩

/-- The double after it. -/
def Binary64.afterSmallPower : Binary64 := ⟨0x3b282db34012b252⟩

/-- The double nearest to `0.1`. -/
def Binary64.tenth : Binary64 := ⟨0x3fb999999999999a⟩

/-- The literal `1e-23` comes back as the double after it, the literal `0.1` as itself. -/
theorem parseProgram_smallPower :
    (Binary64.smallPower.isFinite = true ∧ (Json.Value.float .smallPower).render = "1e-23" ∧
      parseProgram (Program.constant .smallPower none .synthetic {}).encode "patch" =
        .ok (.constant .afterSmallPower none .synthetic {})) ∧
      Binary64.tenth.isFinite = true ∧ (Json.Value.float .tenth).render = "0.1" ∧
        parseProgram (Program.constant .tenth none .synthetic {}).encode "patch" =
          .ok (.constant .tenth none .synthetic {}) := by
  have hpower : Binary64.smallPower.isFinite = true := by decide +kernel
  have htenth : Binary64.tenth.isFinite = true := by decide +kernel
  refine ⟨⟨hpower, by decide +kernel, ?_⟩, htenth, by decide +kernel, ?_⟩
  · obtain ⟨y, hparse, hreread⟩ :=
      parseProgram_constant .smallPower hpower none .synthetic {} "patch"
    have hscaled : Binary64.ofScaled (Json.parts .smallPower).digits
        (Json.parts .smallPower).exponent =
          some (.ofMagnitude false Binary64.afterSmallPower.magnitudeBits) := by decide +kernel
    have hword : y.magnitudeBits = Binary64.afterSmallPower.magnitudeBits :=
      Json.ofMagnitude_inj (Binary64.isFinite_iff.1 hreread.finite) (by decide +kernel)
        (Option.some.inj (hreread.scaled.symm.trans hscaled))
    have hsign : y.isNegative = Binary64.afterSmallPower.isNegative :=
      hreread.sign.trans (by decide +kernel)
    obtain rfl := Binary64.ext_magnitude hsign hword
    exact hparse
  · obtain ⟨y, hparse, hreread⟩ := parseProgram_constant .tenth htenth none .synthetic {} "patch"
    obtain rfl := hreread.exact (by decide +kernel) (by decide +kernel)
    exact hparse

end PatchCompiler
