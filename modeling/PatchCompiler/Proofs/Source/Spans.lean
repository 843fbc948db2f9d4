import Mathlib.Data.List.Perm.Basic
import Mathlib.Data.Prod.Lex
import Mathlib.Order.MinMax
import Mathlib.Order.Nat
import PatchCompiler.Source.Span

/-! # Spans as a semilattice

A span reaches from its first place to its last one, and places are ordered by line and then by
column. One span lies within another if it reaches no further in either direction; a synthetic span
covers nothing and lies within all spans. This is a partial order on all spans, those included whose
last place comes before their first one. Main statement: `Span.merge` is the join of that order, so
that spans may be merged in any order and in any grouping. -/

namespace PatchCompiler

namespace Span

/-! ## Places -/

/-- A line and a column, ordered by line and then by column. -/
abbrev Place := ℕ ×ₗ ℕ

/-- First place of a span. -/
def first (span : Span) : Place := toLex (span.line.toNat, span.column.toNat)

/-- Last place of a span. -/
def last (span : Span) : Place := toLex (span.endLine.toNat, span.endColumn.toNat)

/-- Spans are equal if they begin and end at the same places. -/
theorem eq_of_places {a b : Span} (hfirst : a.first = b.first) (hlast : a.last = b.last) :
    a = b := by
  obtain ⟨line, column, endLine, endColumn⟩ := a
  obtain ⟨line', column', endLine', endColumn'⟩ := b
  simp only [first, last, EmbeddingLike.apply_eq_iff_eq, Prod.mk.injEq, UInt32.toNat_inj]
    at hfirst hlast
  obtain ⟨rfl, rfl⟩ := hfirst
  obtain ⟨rfl, rfl⟩ := hlast
  rfl

/-- The lesser of two words as a number. -/
theorem toNat_min (a b : UInt32) : (min a b).toNat = min a.toNat b.toNat := by
  show (if a ≤ b then a else b).toNat = _
  split
  · rename_i hle
    exact (min_eq_left (UInt32.le_iff_toNat_le.1 hle)).symm
  · rename_i hle
    exact (min_eq_right (Nat.le_of_not_le (mt UInt32.le_iff_toNat_le.2 hle))).symm

/-- The greater of two words as a number. -/
theorem toNat_max (a b : UInt32) : (max a b).toNat = max a.toNat b.toNat := by
  show (if a ≤ b then b else a).toNat = _
  split
  · rename_i hle
    exact (max_eq_right (UInt32.le_iff_toNat_le.1 hle)).symm
  · rename_i hle
    exact (max_eq_left (Nat.le_of_not_le (mt UInt32.le_iff_toNat_le.2 hle))).symm

/-- The earlier of two places, found from lines and columns. -/
theorem earlier_place (line column line' column' : UInt32) :
    (toLex ((min line line').toNat, (if line < line' then column
      else if line' < line then column' else min column column').toNat) : Place)
      = min (toLex (line.toNat, column.toNat)) (toLex (line'.toNat, column'.toNat)) := by
  simp only [UInt32.lt_iff_toNat_lt, toNat_min]
  rcases lt_trichotomy line.toNat line'.toNat with h | h | h
  · rw [if_pos h, min_eq_left h.le, min_eq_left]
    exact Prod.Lex.toLex_le_toLex.2 (.inl h)
  · -- on one line the columns decide
    rw [h, if_neg (Nat.lt_irrefl _), if_neg (Nat.lt_irrefl _), toNat_min, min_self]
    rcases le_total column.toNat column'.toNat with hcolumn | hcolumn
    · rw [min_eq_left hcolumn, min_eq_left]
      exact Prod.Lex.toLex_le_toLex.2 (.inr ⟨rfl, hcolumn⟩)
    · rw [min_eq_right hcolumn, min_eq_right]
      exact Prod.Lex.toLex_le_toLex.2 (.inr ⟨rfl, hcolumn⟩)
  · rw [if_neg h.not_gt, if_pos h, min_eq_right h.le, min_eq_right]
    exact Prod.Lex.toLex_le_toLex.2 (.inl h)

/-- The later of two places, found from lines and columns. -/
theorem later_place (line column line' column' : UInt32) :
    (toLex ((max line line').toNat, (if line' < line then column
      else if line < line' then column' else max column column').toNat) : Place)
      = max (toLex (line.toNat, column.toNat)) (toLex (line'.toNat, column'.toNat)) := by
  simp only [UInt32.lt_iff_toNat_lt, toNat_max]
  rcases lt_trichotomy line.toNat line'.toNat with h | h | h
  · rw [if_neg h.not_gt, if_pos h, max_eq_right h.le, max_eq_right]
    exact Prod.Lex.toLex_le_toLex.2 (.inl h)
  · -- on one line the columns decide
    rw [h, if_neg (Nat.lt_irrefl _), if_neg (Nat.lt_irrefl _), toNat_max, max_self]
    rcases le_total column.toNat column'.toNat with hcolumn | hcolumn
    · rw [max_eq_right hcolumn, max_eq_right]
      exact Prod.Lex.toLex_le_toLex.2 (.inr ⟨rfl, hcolumn⟩)
    · rw [max_eq_left hcolumn, max_eq_left]
      exact Prod.Lex.toLex_le_toLex.2 (.inr ⟨rfl, hcolumn⟩)
  · rw [if_pos h, max_eq_left h.le, max_eq_left]
    exact Prod.Lex.toLex_le_toLex.2 (.inl h)

/-- A span is found to be synthetic exactly if it is the synthetic one. -/
@[simp] theorem isSynthetic_iff {span : Span} : span.isSynthetic = true ↔ span = synthetic :=
  decide_eq_true_iff

/-- A span is synthetic if both its ends are at the least place. -/
theorem eq_synthetic_iff {span : Span} :
    span = synthetic ↔ span.first = synthetic.first ∧ span.last = synthetic.last :=
  ⟨fun h => h ▸ ⟨rfl, rfl⟩, fun h => eq_of_places h.1 h.2⟩

/-- The synthetic span ends before every place. -/
theorem last_synthetic_le (place : Place) : synthetic.last ≤ place :=
  (bot_le : (⊥ : Place) ≤ place)

/-! ## The ends of a merged span -/

/-- The synthetic span adds nothing in front. -/
@[simp] theorem synthetic_merge (span : Span) : synthetic.merge span = span := rfl

/-- The synthetic span adds nothing behind. -/
@[simp] theorem merge_synthetic (span : Span) : span.merge synthetic = span := by
  by_cases h : span = synthetic
  · rw [h, synthetic_merge]
  · have hspan : span.isSynthetic = false := decide_eq_false h
    rw [merge, hspan]
    rfl

section Proper

variable {a b : Span} (ha : a ≠ synthetic) (hb : b ≠ synthetic)

include ha hb

/-- Of two spans that cover something the earlier first place counts. -/
theorem first_merge : (a.merge b).first = min a.first b.first := by
  rw [merge, if_neg (mt isSynthetic_iff.1 ha), if_neg (mt isSynthetic_iff.1 hb)]
  exact earlier_place ..

/-- Of two spans that cover something the later last place counts. -/
theorem last_merge : (a.merge b).last = max a.last b.last := by
  rw [merge, if_neg (mt isSynthetic_iff.1 ha), if_neg (mt isSynthetic_iff.1 hb)]
  exact later_place ..

/-- Spans that cover something do not merge to the synthetic one. -/
theorem merge_ne_synthetic : a.merge b ≠ synthetic := by
  rw [Ne, eq_synthetic_iff, first_merge ha hb, last_merge ha hb]
  rintro ⟨hfirst, hlast⟩
  -- Both last places would be the least one, and so would the earlier of the first places: the span
  -- that has it is synthetic.
  have hla : a.last = synthetic.last :=
    le_antisymm (hlast ▸ le_max_left _ _) (last_synthetic_le _)
  have hlb : b.last = synthetic.last :=
    le_antisymm (hlast ▸ le_max_right _ _) (last_synthetic_le _)
  rcases min_choice a.first b.first with h | h
  · exact ha (eq_synthetic_iff.2 ⟨h.symm.trans hfirst, hla⟩)
  · exact hb (eq_synthetic_iff.2 ⟨h.symm.trans hfirst, hlb⟩)

end Proper

/-- A merged span covers nothing exactly if neither span covers something. -/
theorem isSynthetic_merge (a b : Span) :
    (a.merge b).isSynthetic = (a.isSynthetic && b.isSynthetic) := by
  by_cases ha : a = synthetic
  · subst ha
    rfl
  by_cases hb : b = synthetic
  · subst hb
    rw [merge_synthetic]
    exact (Bool.and_true _).symm
  · have hmerge : (a.merge b).isSynthetic = false := decide_eq_false (merge_ne_synthetic ha hb)
    have hleft : a.isSynthetic = false := decide_eq_false ha
    rw [hmerge, hleft, Bool.false_and]

/-! ## The order of spans -/

/-- One span lies within another: it covers nothing, or the other one covers something and reaches
at least as far in both directions. -/
def Within (inner outer : Span) : Prop :=
  inner = synthetic ∨ outer ≠ synthetic ∧ outer.first ≤ inner.first ∧ inner.last ≤ outer.last

/-- Spans are ordered by what they cover, with the synthetic one below all others. -/
instance : PartialOrder Span where
  le := Within
  le_refl a := by
    by_cases h : a = synthetic
    · exact .inl h
    · exact .inr ⟨h, le_rfl, le_rfl⟩
  le_trans a b c := by
    rintro (ha | ⟨hb, hfirst, hlast⟩) hbc
    · exact .inl ha
    -- The span in the middle covers something, so the outer one reaches as far as it does.
    · obtain ⟨hc, hfirst', hlast'⟩ := hbc.resolve_left hb
      exact .inr ⟨hc, hfirst'.trans hfirst, hlast.trans hlast'⟩
  le_antisymm a b := by
    rintro (ha | ⟨hb, hfirst, hlast⟩) hba
    · rcases hba with hb | ⟨ha', _⟩
      · exact ha.trans hb.symm
      · exact absurd ha ha'
    · obtain ⟨_, hfirst', hlast'⟩ := hba.resolve_left hb
      exact eq_of_places (le_antisymm hfirst' hfirst) (le_antisymm hlast hlast')

/-- A span that is not synthetic is covered by those that begin before it and end after it. -/
theorem le_iff_of_ne_synthetic {a b : Span} (ha : a ≠ synthetic) :
    a ≤ b ↔ b ≠ synthetic ∧ b.first ≤ a.first ∧ a.last ≤ b.last :=
  or_iff_right ha

/-- The synthetic span is covered by every span. -/
theorem synthetic_le (span : Span) : synthetic ≤ span := .inl rfl

/-- A merged span lies within those spans within which both spans lie. -/
theorem merge_le_iff {a b c : Span} : a.merge b ≤ c ↔ a ≤ c ∧ b ≤ c := by
  by_cases ha : a = synthetic
  · subst ha
    rw [synthetic_merge, and_iff_right (synthetic_le c)]
  by_cases hb : b = synthetic
  · subst hb
    rw [merge_synthetic, and_iff_left (synthetic_le c)]
  rw [le_iff_of_ne_synthetic (merge_ne_synthetic ha hb), le_iff_of_ne_synthetic ha,
    le_iff_of_ne_synthetic hb, first_merge ha hb, last_merge ha hb, le_min_iff, max_le_iff]
  tauto

/-- The merged span is the least that covers both. -/
instance : SemilatticeSup Span where
  sup := merge
  le_sup_left _ _ := (merge_le_iff.1 le_rfl).1
  le_sup_right _ _ := (merge_le_iff.1 le_rfl).2
  sup_le _ _ _ ha hb := merge_le_iff.2 ⟨ha, hb⟩

/-- Merging does not depend on the order of two spans. -/
theorem merge_comm (a b : Span) : a.merge b = b.merge a := sup_comm a b

/-- Merging does not depend on the order of steps. -/
theorem merge_assoc (a b c : Span) : (a.merge b).merge c = a.merge (b.merge c) := sup_assoc a b c

/-- A span that is merged with itself stays. -/
theorem merge_self (span : Span) : span.merge span = span := sup_idem span

/-! ## Merging many spans -/

/-- A way to merge spans two at a time. -/
inductive Grouping where
  /-- No span at all. -/
  | none
  /-- One span. -/
  | one (span : Span)
  /-- Two groups, each merged before they are merged with each other. -/
  | pair (left right : Grouping)

namespace Grouping

/-- The spans of a grouping, from left to right. -/
def spans : Grouping → List Span
  | none => []
  | one span => [span]
  | pair left right => left.spans ++ right.spans

/-- The span that a grouping is merged to. -/
def merged : Grouping → Span
  | none => synthetic
  | one span => span
  | pair left right => left.merged.merge right.merged

/-- Merging spans one after another, from a span on. -/
theorem foldl_spans (grouping : Grouping) (start : Span) :
    grouping.spans.foldl merge start = start.merge grouping.merged := by
  induction grouping generalizing start with
  | none => exact (merge_synthetic start).symm
  | one span => rfl
  | pair left right ihl ihr => rw [spans, List.foldl_append, ihl, ihr, merge_assoc, merged]

end Grouping

/-- Spans merged one after another may change places. -/
theorem foldl_merge_eq_of_perm {spans spans' : List Span} (h : spans.Perm spans') (start : Span) :
    spans.foldl merge start = spans'.foldl merge start := by
  have : RightCommutative merge :=
    ⟨fun a b c => by rw [merge_assoc, merge_comm b c, ← merge_assoc]⟩
  exact h.foldl_eq start

/-- Merging is the join of spans: it is commutative, associative and idempotent, and the synthetic
span changes nothing. Two spans that cover something merge to one that does, from the earlier of
their first places to the later of their last ones; and a merged span is the least one that both
spans lie within. Hence the spans of a list are merged to the same one in any order and any
grouping. -/
theorem merge_joins :
    (∀ a b : Span, a.merge b = b.merge a) ∧
      (∀ a b c : Span, (a.merge b).merge c = a.merge (b.merge c)) ∧
      (∀ a : Span, a.merge a = a) ∧
      (∀ a : Span, synthetic.merge a = a ∧ a.merge synthetic = a) ∧
      (∀ a b : Span, a.isSynthetic = false → b.isSynthetic = false →
        (a.merge b).isSynthetic = false ∧ (a.merge b).first = min a.first b.first ∧
          (a.merge b).last = max a.last b.last) ∧
      (∀ a b c : Span, (a.merge b).Within c ↔ a.Within c ∧ b.Within c) ∧
      ∀ (grouping : Grouping) (spans : List Span), spans.Perm grouping.spans →
        spans.foldl merge synthetic = grouping.merged := by
  refine ⟨merge_comm, merge_assoc, merge_self, fun a => ⟨synthetic_merge a, merge_synthetic a⟩, ?_,
    fun _ _ _ => merge_le_iff, ?_⟩
  · intro a b ha hb
    refine ⟨by rw [isSynthetic_merge, ha, hb, Bool.and_false], ?_, ?_⟩
    · exact first_merge (of_decide_eq_false ha) (of_decide_eq_false hb)
    · exact last_merge (of_decide_eq_false ha) (of_decide_eq_false hb)
  · intro grouping spans hperm
    rw [foldl_merge_eq_of_perm hperm, grouping.foldl_spans, synthetic_merge]

/-- The ends are merged one by one, also where the last place comes before the first one. -/
example : Span.merge ⟨3, 1, 0, 5⟩ ⟨2, 9, 0, 4⟩ = ⟨2, 9, 0, 5⟩ := by decide

end Span

end PatchCompiler
