/-!
# Numbers in byte arrays

Bytes are read and written at offsets, least significant first. A read past the end gives zero
bytes and a write past the end is dropped, so every function is total.

* `Bytes.byte`, `Bytes.word`, `Bytes.long`: one, four and eight bytes;
* `Bytes.setByte`, `Bytes.setWord`, `Bytes.setLong`: the writes;
* `Bytes.zero`, `Bytes.extend`: clearing a range, appending zero bytes;
* **`byte_setByte`**, **`word_setWord`**, **`long_setLong`**: a read gives what was written.
-/

namespace HyperLogLog.Bytes

/-- The byte at an offset. -/
def byte (b : ByteArray) (i : Nat) : UInt8 :=
  if h : i < b.size then b[i] else 0

/-- Writes one byte. -/
def setByte (b : ByteArray) (i : Nat) (v : UInt8) : ByteArray :=
  if h : i < b.size then b.set i v h else b

/-- Four bytes as a number. -/
def word (b : ByteArray) (i : Nat) : UInt32 :=
  UInt32.ofNat ((byte b i).toNat + 256 * (byte b (i + 1)).toNat
    + 65536 * (byte b (i + 2)).toNat + 16777216 * (byte b (i + 3)).toNat)

/-- Writes a number as four bytes. -/
def setWord (b : ByteArray) (i : Nat) (v : UInt32) : ByteArray :=
  setByte (setByte (setByte (setByte b i (UInt8.ofNat v.toNat))
    (i + 1) (UInt8.ofNat (v.toNat / 256)))
    (i + 2) (UInt8.ofNat (v.toNat / 65536)))
    (i + 3) (UInt8.ofNat (v.toNat / 16777216))

/-- Eight bytes as a number. -/
def long (b : ByteArray) (i : Nat) : UInt64 :=
  (word b i).toUInt64 + 4294967296 * (word b (i + 4)).toUInt64

/-- Writes a number as eight bytes. -/
def setLong (b : ByteArray) (i : Nat) (v : UInt64) : ByteArray :=
  setWord (setWord b i v.toUInt32) (i + 4) (v / 4294967296).toUInt32

/-- Clears `n` bytes from an offset on. -/
def zero (b : ByteArray) (i : Nat) : (n : Nat) → ByteArray
  | 0 => b
  | n + 1 => zero (setByte b i 0) (i + 1) n

/-- Appends `n` zero bytes. -/
def extend (b : ByteArray) : (n : Nat) → ByteArray
  | 0 => b
  | n + 1 => extend (b.push 0) n

/-! ## Sizes -/

private theorem size_set (b : ByteArray) (i : Nat) (v : UInt8) (h : i < b.size) :
    (b.set i v h).size = b.size := by
  rw [← ByteArray.size_data, ByteArray.data_set, Array.size_set, ByteArray.size_data]

@[simp] theorem size_setByte (b : ByteArray) (i : Nat) (v : UInt8) :
    (setByte b i v).size = b.size := by
  unfold setByte
  split
  · exact size_set ..
  · rfl

@[simp] theorem size_setWord (b : ByteArray) (i : Nat) (v : UInt32) :
    (setWord b i v).size = b.size := by
  simp [setWord]

@[simp] theorem size_setLong (b : ByteArray) (i : Nat) (v : UInt64) :
    (setLong b i v).size = b.size := by
  simp [setLong]

@[simp] theorem size_zero (b : ByteArray) (i n : Nat) : (zero b i n).size = b.size := by
  induction n generalizing b i with
  | zero => rfl
  | succ n ih => rw [zero, ih, size_setByte]

@[simp] theorem size_extend (b : ByteArray) (n : Nat) : (extend b n).size = b.size + n := by
  induction n generalizing b with
  | zero => rfl
  | succ n ih => rw [extend, ih, ByteArray.size_push]; omega

/-! ## Reads after writes -/

theorem byte_setByte (b : ByteArray) (i j : Nat) (v : UInt8) :
    byte (setByte b i v) j = if i = j ∧ j < b.size then v else byte b j := by
  unfold byte setByte
  by_cases hi : i < b.size
  · by_cases hj : j < b.size
    · by_cases hij : i = j
      · subst hij
        simp [hi, size_set, ByteArray.getElem_eq_getElem_data]
      · simp [hi, hj, hij, size_set, ByteArray.getElem_eq_getElem_data]
    · simp [hi, hj, size_set]
  · have : ¬ (i = j ∧ j < b.size) := by omega
    simp [hi, this]

theorem byte_of_size_le {b : ByteArray} {i : Nat} (h : b.size ≤ i) : byte b i = 0 := by
  simp [byte, Nat.not_lt.2 h]

theorem byte_zero (b : ByteArray) (i n j : Nat) :
    byte (zero b i n) j = if i ≤ j ∧ j < i + n then 0 else byte b j := by
  induction n generalizing b i with
  | zero => rw [zero, if_neg (by omega)]
  | succ n ih =>
    rw [zero, ih, byte_setByte]
    by_cases h : i = j
    · subst h
      by_cases hs : i < b.size
      · simp [hs]
      · simp [hs, byte_of_size_le (Nat.le_of_not_lt hs)]
    · by_cases hr : i + 1 ≤ j ∧ j < i + 1 + n
      · rw [if_pos hr, if_pos (by omega)]
      · rw [if_neg hr, if_neg (by omega), if_neg (by omega)]

/-- Appended bytes are zero, and so is what lies past the end. -/
@[simp] theorem byte_extend (b : ByteArray) (n j : Nat) : byte (extend b n) j = byte b j := by
  induction n generalizing b with
  | zero => rfl
  | succ n ih =>
    rw [extend, ih]
    unfold byte
    rcases Nat.lt_trichotomy j b.size with h | h | h
    · have h' : j < b.size + 1 := by omega
      simp [h, h', ByteArray.size_push, ByteArray.getElem_eq_getElem_data, Array.getElem_push]
    · subst h
      simp [ByteArray.size_push, ByteArray.getElem_eq_getElem_data, Array.getElem_push]
    · have h₁ : ¬ j < b.size + 1 := by omega
      have h₂ : ¬ j < b.size := by omega
      simp [h₁, h₂, ByteArray.size_push]

theorem toNat_word (b : ByteArray) (i : Nat) :
    (word b i).toNat = (byte b i).toNat + 256 * (byte b (i + 1)).toNat
      + 65536 * (byte b (i + 2)).toNat + 16777216 * (byte b (i + 3)).toNat := by
  have h₀ := (byte b i).toNat_lt
  have h₁ := (byte b (i + 1)).toNat_lt
  have h₂ := (byte b (i + 2)).toNat_lt
  have h₃ := (byte b (i + 3)).toNat_lt
  rw [word, UInt32.toNat_ofNat']
  omega

theorem toNat_long (b : ByteArray) (i : Nat) :
    (long b i).toNat = (word b i).toNat + 4294967296 * (word b (i + 4)).toNat := by
  have h₀ := (word b i).toNat_lt
  have h₁ := (word b (i + 4)).toNat_lt
  simp only [long, UInt64.toNat_add, UInt64.toNat_mul, UInt32.toNat_toUInt64]
  simp only [UInt64.reduceToNat]
  omega

theorem byte_setWord_of_outside {b : ByteArray} {i j : Nat} (v : UInt32) (h : j < i ∨ i + 4 ≤ j) :
    byte (setWord b i v) j = byte b j := by
  have h₀ : ¬ (i = j ∧ j < b.size) := by omega
  have h₁ : ¬ (i + 1 = j ∧ j < b.size) := by omega
  have h₂ : ¬ (i + 2 = j ∧ j < b.size) := by omega
  have h₃ : ¬ (i + 3 = j ∧ j < b.size) := by omega
  simp only [setWord, byte_setByte, size_setByte, h₀, h₁, h₂, h₃, if_false]

theorem word_setWord {b : ByteArray} {i : Nat} (v : UInt32) (h : i + 4 ≤ b.size) :
    word (setWord b i v) i = v := by
  have hv := v.toNat_lt
  have h₀ : i < b.size := by omega
  have h₁ : i + 1 < b.size := by omega
  have h₂ : i + 2 < b.size := by omega
  have h₃ : i + 3 < b.size := by omega
  apply UInt32.toNat_inj.1
  rw [toNat_word]
  simp only [setWord, byte_setByte, size_setByte, h₀, h₁, h₂, h₃, and_true, if_true,
    Nat.add_eq_left, Nat.add_right_cancel_iff, Nat.add_left_cancel_iff, Nat.succ_ne_self,
    Nat.reduceEqDiff, if_false, UInt8.toNat_ofNat']
  simp
  omega

theorem word_setWord_of_disjoint {b : ByteArray} {i j : Nat} (v : UInt32)
    (h : j + 4 ≤ i ∨ i + 4 ≤ j) : word (setWord b i v) j = word b j := by
  apply UInt32.toNat_inj.1
  simp only [toNat_word]
  rw [byte_setWord_of_outside v (by omega), byte_setWord_of_outside v (by omega),
    byte_setWord_of_outside v (by omega), byte_setWord_of_outside v (by omega)]

theorem long_setLong {b : ByteArray} {i : Nat} (v : UInt64) (h : i + 8 ≤ b.size) :
    long (setLong b i v) i = v := by
  have hv := v.toNat_lt
  apply UInt64.toNat_inj.1
  rw [toNat_long, setLong, word_setWord _ (by simp; omega),
    word_setWord_of_disjoint _ (by omega), word_setWord _ (by omega)]
  simp only [UInt64.toNat_toUInt32, UInt64.toNat_div, UInt64.reduceToNat]
  omega

end HyperLogLog.Bytes
