/-! # Checked arithmetic on 32-bit words

Addresses and counts are 32-bit words. A checked operation gives nothing if its exact result does
not fit into a word, a saturating one the greatest word instead. -/

namespace PatchCompiler

namespace Word

/-- The greatest word. -/
def greatest : UInt32 := 0xffffffff

/-- The sum of two words, if it fits. -/
def add? (a b : UInt32) : Option UInt32 :=
  if a.toNat + b.toNat < UInt32.size then some (a + b) else none

/-- The product of two words, if it fits. -/
def mul? (a b : UInt32) : Option UInt32 :=
  if a.toNat * b.toNat < UInt32.size then some (a * b) else none

/-- The sum of two words, or the greatest word if it does not fit. -/
def addSaturating (a b : UInt32) : UInt32 := (add? a b).getD greatest

/-- The distance between two integers. -/
def absDiff (a b : Int32) : UInt32 := if a < b then (b - a).toUInt32 else (a - b).toUInt32

end Word

end PatchCompiler
