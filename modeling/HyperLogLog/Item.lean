import HyperLogLog.Coupon
import HyperLogLog.Hash

/-!
# Items

An item is a value to be counted. What is hashed is its encoding: numbers least significant byte
first, texts closed by the byte `ff`, sequences after their length.

* `Item`, `Item.encode`: the values and their encodings;
* `Item.coupon`: the coupon of an item.
-/

namespace HyperLogLog

/-- A value to be counted. -/
inductive Item where
  /-- Bytes that stand for themselves. -/
  | raw (bytes : List UInt8)
  /-- A number in the given number of bytes, in two's complement. -/
  | number (size : Nat) (value : Int)
  /-- A text. -/
  | text (s : String)
  /-- Parts one after the other. -/
  | tuple (parts : List Item)
  /-- Parts one after the other, after their number. -/
  | sequence (parts : List Item)
  /-- One of several cases, after its number. -/
  | variant (index : Nat) (parts : List Item)

namespace Item

/-- The low `n` bytes of a number, least significant first. -/
def digits : (n : Nat) → (value : Int) → List UInt8
  | 0, _ => []
  | n + 1, v => UInt8.ofNat (v % 256).toNat :: digits n (v / 256)

mutual

/-- The bytes that are hashed. -/
def encode : Item → List UInt8
  | raw bytes => bytes
  | number size value => digits size value
  | text s => s.toUTF8.toList ++ [0xff]
  | tuple parts => encodeAll parts
  | sequence parts => digits 8 parts.length ++ encodeAll parts
  | variant index parts => digits 8 index ++ encodeAll parts

/-- The encodings of several items one after the other. -/
def encodeAll : List Item → List UInt8
  | [] => []
  | p :: rest => encode p ++ encodeAll rest

end

/-- A truth value is the number one or zero, in one byte. -/
def bool (b : Bool) : Item := number 1 (if b then 1 else 0)

/-- A character is its code point, in four bytes. -/
def char (c : Char) : Item := number 4 c.toNat

/-- Bytes as a sequence. -/
def byteSequence (bytes : List UInt8) : Item := sequence (bytes.map fun b => number 1 b.toNat)

/-- A value that may be missing. -/
def optional : Option Item → Item
  | none => variant 0 []
  | some i => variant 1 [i]

/-- The coupon of an item. -/
def coupon (i : Item) : Coupon :=
  let h := Hash.ofBytes i.encode.toByteArray
  Coupon.ofHash h.first h.second

end Item

end HyperLogLog
