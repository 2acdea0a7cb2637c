import HyperLogLog.Estimate.Registers
import HyperLogLog.Proofs.Region

/-!
# Reading that traps

The reads of a region are total: past the end they give zero. Here the same reads are made over
bytes that trap a read past their end, and so are the differences and sums that must stay in range.
What traps has no outcome at all; what does not has the outcome of a total reading.

* `Guarded`: computations over bytes that may trap, and may fail with a fault;
* `Guarded.byte`, `Guarded.provided`: all that can trap, hence `Guarded.minus` and `Guarded.plus`;
* `Gives`: the outcome over some bytes, with one rule for each way to build a computation;
* **`gives_coupons`**, **`gives_front`**: what lies within the bytes is read without a trap.
-/

namespace HyperLogLog

/-- A computation over bytes. It may trap, and if it does not, it may fail with a fault. -/
abbrev Guarded := ExceptT Fault (ReaderT ByteArray Option)

/-- The region of bytes lent for reading only. -/
abbrev Region.over (b : ByteArray) : Region := ⟨b, .frozen⟩

namespace Guarded

variable {α β : Type}

/-- The outcome over some bytes, or nothing if the computation traps. -/
def outcome (x : Guarded α) (b : ByteArray) : Option (Except Fault α) :=
  ReaderT.run (ExceptT.run x) b

/-- Traps. -/
def trap : Guarded α := ExceptT.mk fun _ => none

/-- The number of bytes. -/
def size : Guarded Nat := ExceptT.mk fun b => some (.ok b.size)

/-- The byte at an offset, which must be there. -/
def byte (i : Nat) : Guarded UInt8 :=
  ExceptT.mk fun b => if h : i < b.size then some (.ok b[i]) else none

/-- A value, provided that a condition holds. -/
def provided (c : Prop) [Decidable c] (a : α) : Guarded α := if c then pure a else trap

/-- A difference of counts, which must not be negative. -/
def minus (m n : Nat) : Guarded Nat := provided (n ≤ m) (m - n)

/-- A sum of bytes, which must be a byte again. -/
def plus (m n : Nat) : Guarded Nat := provided (m + n < 256) (m + n)

/-- Runs a computation over other bytes. -/
def inside (c : ByteArray) (x : Guarded α) : Guarded α := ExceptT.mk fun _ => x.outcome c

/-! ## Several bytes -/

/-- The four bytes at an offset, as a number. -/
def word (i : Nat) : Guarded UInt32 := do
  let b₀ ← byte i
  let b₁ ← byte (i + 1)
  let b₂ ← byte (i + 2)
  let b₃ ← byte (i + 3)
  return UInt32.ofNat (b₀.toNat + 256 * b₁.toNat + 65536 * b₂.toNat + 16777216 * b₃.toNat)

/-- The eight bytes at an offset, as a double. -/
def real (i : Nat) : Guarded Double := do
  let low ← word i
  let high ← word (i + 4)
  return ⟨low.toUInt64 + 4294967296 * high.toUInt64⟩

/-- The coupon at an offset. -/
def coupon (i : Nat) : Guarded Coupon := Coupon.mk <$> word i

/-- The `n` coupons from an offset on. -/
def couponsAt (i n : Nat) : Guarded (List Coupon) :=
  (List.range n).mapM fun j => coupon (i + 4 * j)

/-- The first `n` bytes. -/
def front (n : Nat) : Guarded ByteArray :=
  (fun bs => ⟨bs.toArray⟩) <$> (List.range n).mapM byte

end Guarded

/-! ## Outcomes -/

/-- A computation does not trap over some bytes, and has the given outcome. -/
def Gives {α : Type} (x : Guarded α) (b : ByteArray) (m : Except Fault α) : Prop :=
  x.outcome b = some m

open Guarded

variable {α β : Type} {b : ByteArray} {x : Guarded α} {f : α → Guarded β} {m : Except Fault α}
  {n : Except Fault β} {a : α}

theorem gives_pure (a : α) : Gives (pure a) b (.ok a) := rfl

theorem gives_throw (e : Fault) : Gives (throw e : Guarded α) b (.error e) := rfl

theorem gives_ofExcept (m : Except Fault α) : Gives (ofExcept m) b m := by cases m <;> rfl

theorem gives_inside {c : ByteArray} (hx : Gives x c m) : Gives (inside c x) b m := hx

theorem gives_size : Gives size b (.ok (Region.over b).size) := rfl

theorem gives_provided {c : Prop} [Decidable c] (h : c) : Gives (provided c a) b (.ok a) := by
  rw [provided, if_pos h]
  exact gives_pure a

namespace Gives

theorem andThen (hx : Gives x b (.ok a)) (hf : Gives (f a) b n) : Gives (x >>= f) b n := by
  change (x.outcome b).bind (fun r => (ExceptT.bindCont f r : ReaderT ByteArray Option _) b) = _
  rw [show x.outcome b = _ from hx]
  exact hf

/-- A step that may fail is followed by what follows it in the total reading. -/
theorem bind {g : α → Except Fault β} (hx : Gives x b m)
    (hf : ∀ a, m = .ok a → Gives (f a) b (g a)) : Gives (x >>= f) b (m >>= g) := by
  cases m with
  | ok a => exact hx.andThen (hf a rfl)
  | error e =>
    change (x.outcome b).bind (fun r => (ExceptT.bindCont f r : ReaderT ByteArray Option _) b) = _
    rw [show x.outcome b = _ from hx]
    rfl

theorem map (hx : Gives x b m) (g : α → β) : Gives (g <$> x) b (g <$> m) := by
  rw [map_eq_pure_bind, map_eq_pure_bind]
  exact hx.bind fun a _ => gives_pure (g a)

end Gives

theorem gives_mapM {g : α → Except Fault β} {l : List α} (h : ∀ a ∈ l, Gives (f a) b (g a)) :
    Gives (l.mapM f) b (l.mapM g) := by
  induction l with
  | nil => exact gives_pure _
  | cons a l ih =>
    rw [List.mapM_cons, List.mapM_cons]
    refine (h a List.mem_cons_self).bind fun c _ => ?_
    exact (ih fun a ha => h a (List.mem_cons_of_mem _ ha)).bind fun cs _ => gives_pure _

theorem gives_mapM_ok {g : α → β} {l : List α} (h : ∀ a ∈ l, Gives (f a) b (.ok (g a))) :
    Gives (l.mapM f) b (.ok (l.map g)) := by
  have hwalk := gives_mapM h
  rwa [show l.mapM (fun a => Except.ok (g a)) = (.ok (l.map g) : Except Fault (List β)) from
    List.mapM_pure] at hwalk

/-! ## Reads within the bytes -/

variable {i k : Nat}

theorem gives_byte (h : i < b.size) : Gives (byte i) b (.ok ((Region.over b).byte i)) := by
  have hread : (Region.over b).byte i = b[i] := dif_pos h
  rw [hread]
  exact dif_pos h

theorem gives_word (h : i + 4 ≤ b.size) : Gives (word i) b (.ok ((Region.over b).word i)) := by
  refine (gives_byte (by omega)).andThen ?_
  refine (gives_byte (by omega)).andThen ?_
  refine (gives_byte (by omega)).andThen ?_
  refine (gives_byte (by omega)).andThen ?_
  exact gives_pure _

theorem gives_real (h : i + 8 ≤ b.size) : Gives (real i) b (.ok ((Region.over b).real i)) := by
  refine (gives_word (by omega)).andThen ?_
  refine (gives_word (by omega)).andThen ?_
  exact gives_pure _

theorem gives_coupon (h : i + 4 ≤ b.size) :
    Gives (coupon i) b (.ok ((Region.over b).coupon i)) :=
  (gives_word h).map _

/-- **Coupons within the bytes are read without a trap.** -/
theorem gives_coupons (h : i + 4 * k ≤ b.size) :
    Gives (couponsAt i k) b (.ok ((Region.over b).coupons i k)) := by
  refine gives_mapM_ok fun j hj => gives_coupon ?_
  have := List.mem_range.1 hj
  omega

theorem ofRange_eq_extract (h : k ≤ b.size) :
    (⟨((List.range k).map (Bytes.byte b)).toArray⟩ : ByteArray) = b.extract 0 k := by
  have hsize : (b.extract 0 k).size = min k b.size - 0 := ByteArray.size_extract
  refine Bytes.ext ?_ fun j => ?_
  · rw [hsize, ← ByteArray.size_data, List.size_toArray, List.length_map, List.length_range]
    omega
  · rw [Bytes.byte_extract, Bytes.byte]
    simp only [← ByteArray.size_data, ByteArray.getElem_eq_getElem_data, List.size_toArray,
      List.length_map, List.length_range, List.getElem_toArray, List.getElem_map,
      List.getElem_range]
    rfl

/-- **What starts the bytes is read without a trap.** -/
theorem gives_front (h : k ≤ b.size) : Gives (front k) b (.ok (b.extract 0 k)) := by
  have hbytes : Gives ((List.range k).mapM byte) b (.ok ((List.range k).map (Bytes.byte b))) :=
    gives_mapM_ok fun i hi => gives_byte (Nat.lt_of_lt_of_le (List.mem_range.1 hi) h)
  rw [← ofRange_eq_extract h]
  exact hbytes.map _

end HyperLogLog
