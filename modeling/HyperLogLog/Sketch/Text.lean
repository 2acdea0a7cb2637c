import HyperLogLog.Sketch.Merge
import HyperLogLog.Text.Decimal

/-!
# Sketches in words

* `Region.summary`: the header of an image, line by line;
* `Sketch.preambleSummary`: the same for bytes from outside;
* `Sketch.describe`: what a sketch knows, followed by its header;
* `Sketch.outline`: its main properties as named fields.
-/

namespace HyperLogLog

namespace Summary

/-- The eight binary digits of a byte. -/
def binary (b : UInt8) : String :=
  String.ofList ((List.range 8).map fun i => if b.toNat.testBit (7 - i) then '1' else '0')

/-- A value that may be missing. -/
def maybe (x : Option String) : String :=
  match x with
  | none => "None"
  | some s => "Some(" ++ s ++ ")"

/-- A truth value. -/
def truth (b : Bool) : String := if b then "true" else "false"

/-- Rows of a label and a value, each on a line of its own. -/
def rows (entries : List (String × String)) : String :=
  String.join (entries.map fun p => p.1 ++ ": " ++ p.2 ++ "\n")

end Summary

open Summary (binary maybe truth rows)
open Text.Decimal (positional)

namespace Region

/-- The rows that are the same in every mode. -/
def commonRows (r : Region) : List (String × String) :=
  let family := match Family.ofId? r.familyId with
    | some f => f.name
    | none => "UNKNOWN"
  [("Byte  0: Preamble Ints         ", toString r.preambleInts),
   ("Byte  1: Serialization Version ", toString r.version),
   ("Byte  2: Family                ", family),
   ("Byte  3: lg_config_k           ", toString r.lgK),
   ("Byte  4: lg_arr                ", toString r.lgArr),
   ("Byte  5: Flags                 ", binary r.flags ++ ", " ++ toString r.flags.toNat),
   ("  BIG_ENDIAN_STORAGE           ", truth (r.hasFlag .bigEndian)),
   ("  (Native Byte Order)          ", "little-endian"),
   ("  READ_ONLY                    ", truth (r.hasFlag .readOnly)),
   ("  EMPTY                        ", truth (r.hasFlag .empty)),
   ("  COMPACT                      ", truth (r.hasFlag .compact)),
   ("  OUT_OF_ORDER                 ", truth (r.hasFlag .outOfOrder))]

/-- The row of the byte that lists use for their count. -/
def countRow (r : Region) : String × String :=
  if r.mode? = some .list then ("Byte  6: List Count            ", toString r.listCount)
  else ("Byte  6: cur_min               ", toString r.minimum)

/-- The rows of the fields past the first eight bytes. -/
def modeRows (r : Region) : List (String × String) :=
  match r.mode? with
  | some .set => [("Bytes 8-11: Set Count          ", toString r.setCount)]
  | some .dense =>
    [("Bytes 8-15: HIP Accum          ", positional r.estimator.total),
     ("Bytes 16-23: KxQ0              ", positional r.estimator.lowSum),
     ("Bytes 24-31: KxQ1              ", positional r.estimator.highSum),
     ("Bytes 32-35: num_at_cur_min    ", toString r.atMinimum),
     ("Bytes 36-39: Exception Count   ", toString r.exceptionCount)]
  | _ => []

/-- The header, line by line. -/
def summary (r : Region) : String :=
  let modes := maybe (r.mode?.map (·.name)) ++ ", " ++ maybe (r.width?.map (·.name))
  "### HLL SKETCH PREAMBLE SUMMARY:\n"
    ++ rows (r.commonRows ++ r.countRow :: ("Byte  7: Mode                  ", modes) :: r.modeRows)
    ++ "### END PREAMBLE SUMMARY\n"

end Region

namespace Sketch

/-- The header of bytes from outside, line by line. -/
def preambleSummary (bytes : ByteArray) : Except Fault String := do
  let _ ← Declaration.ofBytes bytes
  return (Region.mk bytes .frozen).summary

/-- What the sketch knows, line by line, then its header. -/
def describe (s : Sketch) : String :=
  "### HLL SKETCH SUMMARY:\n"
    ++ rows
      [("  lg_config_k     ", toString s.config.lgK),
       ("  hll_type        ", s.config.width.name),
       ("  cur_mode        ", s.mode.name),
       ("  direct          ", truth s.isDirect),
       ("  read_only       ", truth s.isReadOnly),
       ("  empty           ", truth s.isEmpty),
       ("  estimate        ", positional s.estimate),
       ("  lower_bound (1) ", positional (s.lower .one)),
       ("  upper_bound (1) ", positional (s.upper .one))]
    ++ s.region.summary

/-- The main properties of the sketch as named fields. -/
def outline (s : Sketch) : Text.Outline :=
  .record "HllSketch"
    [("lg_config_k", .atom (toString s.config.lgK)),
     ("hll_type", .atom s.config.width.name),
     ("cur_mode", .atom s.mode.name),
     ("direct", .atom (truth s.isDirect)),
     ("read_only", .atom (truth s.isReadOnly))]

end Sketch

end HyperLogLog
