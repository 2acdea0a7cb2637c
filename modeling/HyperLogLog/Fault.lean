import HyperLogLog.Config
import HyperLogLog.Family
import HyperLogLog.Report

/-!
# Faults

`Fault` lists every way an operation on a sketch can fail, by cause; `Fault.report` words them.
-/

namespace HyperLogLog

/-- Why an operation failed. -/
inductive Fault where
  /-- The number of registers asked for is not on offer. -/
  | sizeOutOfRange (lgK : Nat)
  /-- There is no register of that many bits. -/
  | unknownWidth (bits : Nat)
  /-- A dense source has fewer registers than the target it is merged into. -/
  | narrowSource (source target : Nat)
  /-- The bytes end before the part of the preamble that all images share. -/
  | headerTruncated (available : Nat)
  /-- The bytes end before the preamble size they declare. -/
  | preambleTruncated (ints available : Nat)
  /-- The image belongs to another family. -/
  | wrongFamily (expected : Family) (found : Nat)
  /-- The image was written in another version of the format. -/
  | wrongVersion (found : Nat)
  /-- The image declares a number of registers that does not exist. -/
  | declaredSize (lgK : Nat)
  /-- The image was written with the most significant byte first. -/
  | byteOrder
  /-- The image declares a mode that does not exist. -/
  | declaredMode
  /-- The image declares a register width that does not exist. -/
  | declaredWidth
  /-- The preamble size does not go with the mode. -/
  | preambleSize (mode : Mode) (expected found : Nat)
  /-- The number of coupon slots does not go with the mode. -/
  | slotCount (mode : Mode) (lgArr lgK : Nat)
  /-- More coupons are counted than there are slots. -/
  | couponCount (count capacity : Nat)
  /-- More registers or exceptions are counted than there are registers. -/
  | registerCount
  /-- The common minimum is no register value. -/
  | declaredMinimum
  /-- Exceptions are counted at a width that has none. -/
  | strayExceptions
  /-- The bytes end before the image they declare. -/
  | imageTruncated (required available : Nat)
  /-- A compact image has no room to be written to. -/
  | compactForWriting
  /-- The region was lent for reading only. -/
  | noWriteAccess
  /-- A lent region is too small for the image. -/
  | outOfRoom (required available : Nat)
  /-- The image about to become registers declares no mode. -/
  | unknownMode
  /-- A coupon list has neither an empty slot nor the coupon. -/
  | listFull (count capacity : Nat)
  /-- A coupon table has neither an empty slot nor the coupon. -/
  | tableFull (lgArr : Nat)
  /-- A coupon table that is rebuilt held a coupon twice. -/
  | duplicateInGrowth
  /-- A register sits at the minimum, yet none is counted there. -/
  | minimumUncounted
  /-- A register is marked as an exception, yet the table has no entry for it. -/
  | exceptionMissing (slot : Nat)
  /-- A register marked as an exception would be raised to a value that is none. -/
  | exceptionShrinks (slot : Nat)
  /-- A register that becomes an exception has an entry already. -/
  | exceptionRepeated (slot : Nat)
  /-- There is no exception to replace. -/
  | exceptionUnknown (slot : Nat)
  /-- The common minimum is as high as a register can be. -/
  | minimumStuck (minimum : Nat)
  /-- A register would fall below the minimum. -/
  | registerBelowMinimum (slot : Nat)
  /-- An exception is smaller than the minimum. -/
  | exceptionBelowMinimum (slot : Nat)
deriving DecidableEq

namespace Fault

private def config (message : String) : Report := ⟨.configInvalid, message, [], none⟩

private def malformed (message : String) : Report := ⟨.malformed, message, [], none⟩

private def violation (message : String) : Report := ⟨.invariantViolation, message, [], none⟩

private def atSlot (slot : Nat) (message : String) : Report :=
  (violation message).withContext "slot" (toString slot)

private def sized (required available : Nat) (r : Report) : Report :=
  (r.withContext "required" (toString required)).withContext "available" (toString available)

/-- The bounds on `lgK`, worded for a number that is outside them. -/
def sizeMessage (lgK : Nat) : String := s!"lg_config_k must be in [4, 21], got {lgK}"

/-- The wording of a fault. -/
def report : Fault → Report
  | sizeOutOfRange lgK => config (sizeMessage lgK)
  | unknownWidth bits => config s!"register width must be 4, 6 or 8 bits, got {bits}"
  | narrowSource source target =>
    config s!"cannot merge a dense sketch with lg_config_k {source} into lg_config_k {target}"
  | headerTruncated available => sized 8 available (malformed "insufficient data for preamble")
  | preambleTruncated ints available =>
    ((malformed "buffer is shorter than its declared preamble").withContext "pre_ints"
      (toString ints)).withContext "available" (toString available)
  | wrongFamily expected found =>
    malformed s!"invalid family: expected {expected.id} ({expected.name}), got {found}"
  | wrongVersion found => malformed s!"unsupported serialization version: expected 1, got {found}"
  | declaredSize lgK => malformed s!"invalid lg_config_k: {lgK}, must be in [4, 21]"
  | byteOrder => malformed "sketch image was written with a different byte order"
  | declaredMode => malformed "invalid current mode in mode byte"
  | declaredWidth => malformed "invalid target HLL type in mode byte"
  | preambleSize mode expected found =>
    malformed s!"invalid preamble ints for {mode.name} mode: expected {expected}, got {found}"
  | slotCount mode lgArr lgK =>
    (malformed s!"invalid lg_arr for {mode.name} mode: {lgArr}").withContext "lg_config_k"
      (toString lgK)
  | couponCount count capacity => malformed s!"coupon count {count} exceeds capacity {capacity}"
  | registerCount => malformed "register counts exceed the register array"
  | declaredMinimum => malformed "invalid cur_min"
  | strayExceptions => malformed "exception table on a non-HLL4 image"
  | imageTruncated required available =>
    sized required available (malformed "insufficient data for sketch data")
  | compactForWriting => malformed "a compact image cannot be wrapped for writing"
  | noWriteAccess =>
    ⟨.noWriteAccess, "cannot modify a sketch wrapped over read-only memory", [], none⟩
  | outOfRoom required available =>
    sized required available
      ⟨.insufficientCapacity, "memory region is too small for the sketch image", [], none⟩
  | unknownMode => violation "invalid current mode in mode byte"
  | listFull count capacity =>
    ((violation "coupon list has neither an empty slot nor a duplicate").withContext "count"
      (toString count)).withContext "capacity" (toString capacity)
  | tableFull lgArr =>
    (violation "coupon hash set has no empty slot").withContext "lg_arr" (toString lgArr)
  | duplicateInGrowth => violation "duplicate coupon found while growing the hash set"
  | minimumUncounted => violation "num_at_cur_min is zero but a register sits at cur_min"
  | exceptionMissing slot => atSlot slot "register marked as exception has no table entry"
  | exceptionShrinks slot => atSlot slot "exception register would drop back into the 4-bit range"
  | exceptionRepeated slot => atSlot slot "slot already has an exception entry"
  | exceptionUnknown slot => atSlot slot "no exception entry for slot"
  | minimumStuck minimum =>
    (violation "cur_min cannot rise further").withContext "cur_min" (toString minimum)
  | registerBelowMinimum slot => atSlot slot "register below cur_min"
  | exceptionBelowMinimum slot => atSlot slot "exception below cur_min"

end Fault

/-- A configuration with the given number of registers, if it is on offer. -/
def Config.ofSize (lgK : Nat) (width : Width) : Except Fault Config :=
  if h : 4 ≤ lgK ∧ lgK ≤ 21 then .ok ⟨lgK, width, h.1, h.2⟩ else .error (.sizeOutOfRange lgK)

/-- The width of the given number of bits. -/
def Width.ofBits : Nat → Except Fault Width
  | 4 => .ok .four
  | 6 => .ok .six
  | 8 => .ok .eight
  | bits => .error (.unknownWidth bits)

/-- Accepts the id of this family only. -/
def Family.check (f : Family) (id : Nat) : Except Fault Unit :=
  if id = f.id then .ok () else .error (.wrongFamily f id)

end HyperLogLog
