/-!
# Configuration of a sketch

* `Width`: bits per register in the dense representation;
* `Mode`: the three representations;
* `Config`: log2 of the number of registers, in range by construction, and the register width.
-/

namespace HyperLogLog

-- a power of numbers is the one of the core library, also where algebra brings its own
attribute [instance (2000)] instPowNat

/-- Bits per register of a dense image. -/
inductive Width where
  /-- Four bits relative to a common minimum, with a table for what does not fit. -/
  | four
  /-- Six bits, enough for every value a coupon can carry. -/
  | six
  /-- One byte. -/
  | eight
deriving DecidableEq

namespace Width

/-- The name shown to a user. -/
def name : Width → String
  | four => "Hll4"
  | six => "Hll6"
  | eight => "Hll8"

/-- The number of bits. -/
def bits : Width → Nat
  | four => 4
  | six => 6
  | eight => 8

/-- The code stored in an image. -/
def code : Width → Nat
  | four => 0
  | six => 1
  | eight => 2

/-- The width with a given code. -/
def ofCode? : Nat → Option Width
  | 0 => some four
  | 1 => some six
  | 2 => some eight
  | _ => none

theorem ofCode?_code (w : Width) : ofCode? w.code = some w := by
  cases w <;> rfl

end Width

/-- How an image holds what it has seen. -/
inductive Mode where
  /-- Distinct coupons in order of arrival. -/
  | list
  /-- Distinct coupons in an open-addressing hash table. -/
  | set
  /-- One register per slot. -/
  | dense
deriving DecidableEq

namespace Mode

/-- The name shown to a user. -/
def name : Mode → String
  | list => "List"
  | set => "Set"
  | dense => "Hll"

/-- The code stored in an image. -/
def code : Mode → Nat
  | list => 0
  | set => 1
  | dense => 2

/-- The mode with a given code. -/
def ofCode? : Nat → Option Mode
  | 0 => some list
  | 1 => some set
  | 2 => some dense
  | _ => none

theorem ofCode?_code (m : Mode) : ofCode? m.code = some m := by
  cases m <;> rfl

end Mode

/-- What a sketch is set up with: `2 ^ lgK` registers of the given width. -/
structure Config where
  lgK : Nat
  width : Width
  four_le : 4 ≤ lgK
  le_twentyOne : lgK ≤ 21
deriving DecidableEq

namespace Config

/-- The number of registers. -/
def k (c : Config) : Nat := 2 ^ c.lgK

/-- The same number of registers at another width. -/
def withWidth (c : Config) (w : Width) : Config := { c with width := w }

/-- `lgK` when none is asked for. -/
def defaultLgK : Nat := 12

/-- The width when none is asked for. -/
def defaultWidth : Width := .four

end Config

end HyperLogLog
