import PatchCompiler.Emit.Failure
import PatchCompiler.Number.Word

/-! # Linear memory

Memory is handed out in slots of eight bytes, from address zero upwards, and never taken back. An
array takes one slot for its element count and one for each element; its address is that of the
first element. -/

namespace PatchCompiler

/-- Bytes of a slot. -/
def slotBytes : Nat := 8

/-- Slots of a memory page. -/
def slotsPerPage : Nat := 8192

/-- The address so many slots behind another one, if it fits into 32 bits. -/
def slotsPast? (start count : UInt32) : Option UInt32 :=
  (Word.mul? count (.ofNat slotBytes)).bind fun bytes => Word.add? start bytes

/-- Memory handed out so far. -/
structure Arena where
  /-- The next free address. -/
  cursor : UInt32 := 0
  deriving DecidableEq, Repr

namespace Arena

/-- Number of slots handed out. -/
def slots (arena : Arena) : Nat := arena.cursor.toNat / slotBytes

/-- Hand out slots; fails if an address past the end would no longer fit into 32 bits. -/
def advance (arena : Arena) (count : UInt32) : Except Limit Arena :=
  match slotsPast? arena.cursor count with
  | some next => .ok ⟨next⟩
  | none => .error (.slots count arena.cursor)

/-- Begin an array by handing out the slot of its element count; gives the address of the array. -/
def openArray (arena : Arena) : Except Limit (UInt32 × Arena) :=
  (arena.advance 1).map fun next => (next.cursor, next)

/-- Pages that hold all slots handed out; nothing if there are no slots. -/
def pages (arena : Arena) : Except Limit (Option UInt32) :=
  if arena.cursor = 0 then .ok none
  else
    let count := UInt32.ofNat ((arena.slots + (slotsPerPage - 1)) / slotsPerPage)
    if maxPages < count then .error (.pages count) else .ok (some count)

end Arena

end PatchCompiler
