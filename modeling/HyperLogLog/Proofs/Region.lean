import HyperLogLog.Header
import Mathlib.Tactic.SplitIfs

/-!
# Reads after writes in a region

A read depends on the bytes it covers, and a write changes the bytes it covers.

* `Region.word_congr`, `Region.real_congr`: a read of several bytes depends on these alone;
* `Region.Within`: two regions that differ inside one range at most, and what that says of reads;
* `Region.within_setByte`, `Region.within_setWord`, …: the range each write stays in;
* **`word_setWord_self`**, **`real_setReal_self`**: a read gives what was written.
-/

namespace HyperLogLog

theorem Bytes.byte_append_left {a b : ByteArray} {j : Nat} (h : j < a.size) :
    byte (a ++ b) j = byte a j := by
  have hsize : j < (a ++ b).size := by
    rw [ByteArray.size_append]
    omega
  rw [byte, byte, dif_pos hsize, dif_pos h, ByteArray.getElem_append_left h]

theorem Bytes.byte_extract (b : ByteArray) (n j : Nat) :
    byte (b.extract 0 n) j = if j < n then byte b j else 0 := by
  have hsize : (b.extract 0 n).size = min n b.size - 0 := ByteArray.size_extract
  unfold byte
  by_cases hj : j < b.size
  · by_cases hn : j < n
    · rw [if_pos hn, dif_pos hj, dif_pos (by omega), ByteArray.getElem_extract]
      simp only [Nat.zero_add]
    · rw [if_neg hn, dif_neg (by omega)]
  · rw [dif_neg hj, dif_neg (by omega), ite_self]

theorem Bytes.ext {b b' : ByteArray} (hs : b.size = b'.size) (h : ∀ j, byte b j = byte b' j) :
    b = b' := by
  refine ByteArray.ext (Array.ext hs fun j h₁ h₂ => ?_)
  have hj : j < b.size := h₁
  have hj' : j < b'.size := h₂
  have := h j
  unfold byte at this
  rwa [dif_pos hj, dif_pos hj'] at this

namespace Region

variable {r r' r'' : Region}

theorem ext_byte (hs : r'.size = r.size) (hb : r'.backing = r.backing)
    (h : ∀ j, r'.byte j = r.byte j) : r' = r := by
  obtain ⟨bytes, backing⟩ := r
  obtain ⟨bytes', backing'⟩ := r'
  obtain rfl : backing' = backing := hb
  exact congrArg (Region.mk · _) (Bytes.ext hs h)

/-! ## Sizes and owners -/

@[simp] theorem bytes_edit (f : ByteArray → ByteArray) : (r.edit f).bytes = f r.bytes := rfl

@[simp] theorem backing_edit (f : ByteArray → ByteArray) : (r.edit f).backing = r.backing := rfl

@[simp] theorem size_setByte (i : Nat) (v : UInt8) : (r.setByte i v).size = r.size := by
  rw [size, setByte, bytes_edit, Bytes.size_setByte, size]

@[simp] theorem size_setWord (i : Nat) (v : UInt32) : (r.setWord i v).size = r.size := by
  rw [size, setWord, bytes_edit, Bytes.size_setWord, size]

@[simp] theorem size_setReal (i : Nat) (x : Double) : (r.setReal i x).size = r.size := by
  rw [size, setReal, bytes_edit, Bytes.size_setLong, size]

@[simp] theorem size_setCoupon (i : Nat) (c : Coupon) : (r.setCoupon i c).size = r.size :=
  size_setWord i c.word

@[simp] theorem size_zero (i n : Nat) : (r.zero i n).size = r.size := by
  rw [size, zero, bytes_edit, Bytes.size_zero, size]

theorem size_extend (n : Nat) : (r.extend n).size = max r.size n := by
  rw [size, extend, bytes_edit, Bytes.size_extend, size]
  omega

@[simp] theorem backing_setByte (i : Nat) (v : UInt8) : (r.setByte i v).backing = r.backing :=
  backing_edit _

@[simp] theorem backing_setWord (i : Nat) (v : UInt32) : (r.setWord i v).backing = r.backing :=
  backing_edit _

@[simp] theorem backing_setReal (i : Nat) (x : Double) : (r.setReal i x).backing = r.backing :=
  backing_edit _

@[simp] theorem backing_setCoupon (i : Nat) (c : Coupon) :
    (r.setCoupon i c).backing = r.backing :=
  backing_edit _

@[simp] theorem backing_zero (i n : Nat) : (r.zero i n).backing = r.backing := backing_edit _

@[simp] theorem backing_extend (n : Nat) : (r.extend n).backing = r.backing := backing_edit _

/-! ## A read depends on the bytes it covers -/

theorem byte_setByte (i j : Nat) (v : UInt8) :
    (r.setByte i v).byte j = if i = j ∧ j < r.size then v else r.byte j := by
  rw [byte, setByte, bytes_edit, Bytes.byte_setByte, byte, size]

theorem byte_setByte_self {i : Nat} (v : UInt8) (h : i < r.size) : (r.setByte i v).byte i = v := by
  rw [byte_setByte, if_pos ⟨rfl, h⟩]

theorem byte_setByte_of_ne {i j : Nat} (v : UInt8) (h : i ≠ j) :
    (r.setByte i v).byte j = r.byte j := by
  rw [byte_setByte, if_neg fun hij => h hij.1]

@[simp] theorem byte_extend (n j : Nat) : (r.extend n).byte j = r.byte j := by
  rw [byte, extend, bytes_edit, Bytes.byte_extend, byte]

theorem byte_zero (i n j : Nat) :
    (r.zero i n).byte j = if i ≤ j ∧ j < i + n then 0 else r.byte j := by
  rw [byte, zero, bytes_edit, Bytes.byte_zero, byte]

theorem byte_zero_inside {i n j : Nat} (h : i ≤ j) (h' : j < i + n) : (r.zero i n).byte j = 0 := by
  rw [byte_zero, if_pos ⟨h, h'⟩]

theorem byte_shrink {n j : Nat} (h : j < n) : (r.shrink n).byte j = r.byte j := by
  obtain ⟨bytes, backing⟩ := r
  cases backing with
  | lent => rfl
  | frozen => rfl
  | owned =>
    change Bytes.byte (bytes.extract 0 n) j = Bytes.byte bytes j
    rw [Bytes.byte_extract, if_pos h]

theorem le_size_shrink {n : Nat} (h : n ≤ r.size) : n ≤ (r.shrink n).size := by
  obtain ⟨bytes, backing⟩ := r
  cases backing with
  | lent => exact h
  | frozen => exact h
  | owned =>
    change n ≤ (bytes.extract 0 n).size
    change n ≤ bytes.size at h
    rw [ByteArray.size_extract]
    omega

@[simp] theorem backing_shrink (n : Nat) : (r.shrink n).backing = r.backing := by
  obtain ⟨bytes, backing⟩ := r
  cases backing <;> rfl

theorem toNat_word (i : Nat) : (r.word i).toNat = (r.byte i).toNat + 256 * (r.byte (i + 1)).toNat
    + 65536 * (r.byte (i + 2)).toNat + 16777216 * (r.byte (i + 3)).toNat :=
  Bytes.toNat_word ..

theorem word_congr {i : Nat} (h : ∀ j, i ≤ j → j < i + 4 → r'.byte j = r.byte j) :
    r'.word i = r.word i := by
  apply UInt32.toNat_inj.1
  rw [toNat_word, toNat_word, h i (by omega) (by omega), h (i + 1) (by omega) (by omega),
    h (i + 2) (by omega) (by omega), h (i + 3) (by omega) (by omega)]

theorem coupon_congr {i : Nat} (h : ∀ j, i ≤ j → j < i + 4 → r'.byte j = r.byte j) :
    r'.coupon i = r.coupon i :=
  congrArg Coupon.mk (word_congr h)

theorem real_congr {i : Nat} (h : ∀ j, i ≤ j → j < i + 8 → r'.byte j = r.byte j) :
    r'.real i = r.real i := by
  have low : Bytes.word r'.bytes i = Bytes.word r.bytes i :=
    word_congr fun j h₁ h₂ => h j h₁ (by omega)
  have high : Bytes.word r'.bytes (i + 4) = Bytes.word r.bytes (i + 4) :=
    word_congr fun j h₁ h₂ => h j (by omega) (by omega)
  change Double.mk (Bytes.long r'.bytes i) = ⟨Bytes.long r.bytes i⟩
  rw [Bytes.long, Bytes.long, low, high]

theorem byte_eq_of_word_eq {i : Nat} (h : r'.word i = r.word i) {j : Nat} (h₁ : i ≤ j)
    (h₂ : j < i + 4) : r'.byte j = r.byte j := by
  have hw : (r'.word i).toNat = (r.word i).toNat := congrArg UInt32.toNat h
  rw [toNat_word, toNat_word] at hw
  have a₀ := (r.byte i).toNat_lt
  have a₁ := (r.byte (i + 1)).toNat_lt
  have a₂ := (r.byte (i + 2)).toNat_lt
  have a₃ := (r.byte (i + 3)).toNat_lt
  have b₀ := (r'.byte i).toNat_lt
  have b₁ := (r'.byte (i + 1)).toNat_lt
  have b₂ := (r'.byte (i + 2)).toNat_lt
  have b₃ := (r'.byte (i + 3)).toNat_lt
  apply UInt8.toNat_inj.1
  obtain rfl | rfl | rfl | rfl : j = i ∨ j = i + 1 ∨ j = i + 2 ∨ j = i + 3 := by omega
  all_goals omega

theorem coupon_eq_empty {i : Nat} (h : ∀ j, i ≤ j → j < i + 4 → r.byte j = 0) :
    r.coupon i = .empty := by
  refine congrArg Coupon.mk (UInt32.toNat_inj.1 ?_)
  rw [toNat_word, h i (by omega) (by omega), h (i + 1) (by omega) (by omega),
    h (i + 2) (by omega) (by omega), h (i + 3) (by omega) (by omega)]
  rfl

/-! ## Bytes beyond an image -/

/-- An image of `n` bytes in the first region gives way to one of `n'` bytes in the second, which
leaves nothing behind: whatever lies beyond the new image is zero, or lay beyond the old one already
and is what it was. -/
def Tidies (n n' : Nat) (r r' : Region) : Prop :=
  ∀ j, n' ≤ j → r'.byte j = 0 ∨ n ≤ j ∧ r'.byte j = r.byte j

section Tidies

variable {n n' n'' : Nat}

theorem Tidies.refl (n : Nat) (r : Region) : Tidies n n r r := fun _ hj => .inr ⟨hj, rfl⟩

theorem Tidies.trans (h : Tidies n n' r r') (h' : Tidies n' n'' r' r'') :
    Tidies n n'' r r'' := by
  intro j hj
  rcases h' j hj with hz | ⟨hj', hs'⟩
  · exact .inl hz
  · rw [hs']
    exact h j hj'

theorem tidies_of_byte_eq (hn : n ≤ n') (h : ∀ j, n' ≤ j → r'.byte j = r.byte j) :
    Tidies n n' r r' :=
  fun j hj => .inr ⟨Nat.le_trans hn hj, h j hj⟩

end Tidies

/-! ## A write changes the bytes it covers -/

/-- The second region is the first but for the `n` bytes from `i` on. -/
structure Within (i n : Nat) (r r' : Region) : Prop where
  size : r'.size = r.size
  backing : r'.backing = r.backing
  byte : ∀ j, j < i ∨ i + n ≤ j → r'.byte j = r.byte j

namespace Within

variable {i n i' n' : Nat}

theorem refl (i n : Nat) (r : Region) : Within i n r r := ⟨rfl, rfl, fun _ _ => rfl⟩

theorem mono (h : Within i n r r') (hi : i' ≤ i) (hn : i + n ≤ i' + n') : Within i' n' r r' :=
  ⟨h.size, h.backing, fun j hj => h.byte j (by omega)⟩

theorem trans (h : Within i n r r') (h' : Within i n r' r'') : Within i n r r'' :=
  ⟨h'.size.trans h.size, h'.backing.trans h.backing,
    fun j hj => (h'.byte j hj).trans (h.byte j hj)⟩

theorem word (h : Within i n r r') {j : Nat} (hj : j + 4 ≤ i ∨ i + n ≤ j) :
    r'.word j = r.word j :=
  word_congr fun l _ _ => h.byte l (by omega)

theorem coupon (h : Within i n r r') {j : Nat} (hj : j + 4 ≤ i ∨ i + n ≤ j) :
    r'.coupon j = r.coupon j :=
  congrArg Coupon.mk (h.word hj)

theorem real (h : Within i n r r') {j : Nat} (hj : j + 8 ≤ i ∨ i + n ≤ j) :
    r'.real j = r.real j :=
  real_congr fun l _ _ => h.byte l (by omega)

theorem tidies {m m' : Nat} (h : Within i n r r') (hm : m ≤ m') (hn : i + n ≤ m') :
    Tidies m m' r r' :=
  tidies_of_byte_eq hm fun j hj => h.byte j (.inr (Nat.le_trans hn hj))

end Within

theorem within_setByte (r : Region) (i : Nat) (v : UInt8) : Within i 1 r (r.setByte i v) :=
  ⟨size_setByte .., backing_setByte .., fun j hj => byte_setByte_of_ne v (by omega)⟩

theorem within_setWord (r : Region) (i : Nat) (v : UInt32) : Within i 4 r (r.setWord i v) where
  size := size_setWord ..
  backing := backing_setWord ..
  byte j hj := by rw [byte, setWord, bytes_edit, Bytes.byte_setWord_of_outside v hj, byte]

theorem within_setCoupon (r : Region) (i : Nat) (c : Coupon) : Within i 4 r (r.setCoupon i c) :=
  within_setWord ..

theorem within_setReal (r : Region) (i : Nat) (x : Double) : Within i 8 r (r.setReal i x) where
  size := size_setReal ..
  backing := backing_setReal ..
  byte j hj := by
    rw [byte, setReal, bytes_edit, Bytes.setLong, Bytes.byte_setWord_of_outside _ (by omega),
      Bytes.byte_setWord_of_outside _ (by omega), byte]

theorem within_zero (r : Region) (i n : Nat) : Within i n r (r.zero i n) :=
  ⟨size_zero .., backing_zero .., fun j hj => by rw [byte_zero, if_neg (by omega)]⟩

theorem word_setWord_self {i : Nat} (v : UInt32) (h : i + 4 ≤ r.size) :
    (r.setWord i v).word i = v := by
  rw [word, setWord, bytes_edit, Bytes.word_setWord v h]

theorem coupon_setCoupon_self {i : Nat} (c : Coupon) (h : i + 4 ≤ r.size) :
    (r.setCoupon i c).coupon i = c :=
  congrArg Coupon.mk (word_setWord_self c.word h)

theorem real_setReal_self {i : Nat} (x : Double) (h : i + 8 ≤ r.size) :
    (r.setReal i x).real i = x := by
  rw [real, setReal, bytes_edit, Bytes.long_setLong x.bits h]

theorem coupon_setCoupon {i base j : Nat} (c : Coupon) (h : base + 4 * i + 4 ≤ r.size) :
    (r.setCoupon (base + 4 * i) c).coupon (base + 4 * j) =
      if j = i then c else r.coupon (base + 4 * j) := by
  split_ifs with hij
  · rw [hij]
    exact coupon_setCoupon_self c h
  · exact (within_setCoupon ..).coupon (by omega)

end Region

end HyperLogLog
