import Mathlib.Data.List.GetD
import Mathlib.Tactic

/-!
# Bounds-checked byte buffers

A C object of fixed size is a size together with its bytes. Block operations check their whole
range against that size before they touch a byte, so an access outside the object is a visible
fault and never a silent read. Lengths arrive as C computes them: an `int` obtained by wrapping a
64-bit difference, converted back to `size_t` at the call.

Sixteen-bit fields are loaded and stored in little-endian host order; `htons` and `ntohs` swap the
two bytes, so a stored `htons value` has network order in memory.
-/

namespace Wispr.Foundation.ByteBuffer

/-- A block operation whose range leaves its object, or an array index outside its array. -/
inductive Fault where
  | read
  | write
  | index
  deriving DecidableEq, Repr

/-- A sequence of fallible operations succeeds exactly when each of them does. -/
theorem bind_eq_ok {α β ε : Type} {first : Except ε α} {next : α → Except ε β} {result : β} :
    first >>= next = .ok result ↔ ∃ value, first = .ok value ∧ next value = .ok result := by
  cases first with
  | error fault => simp [bind, Except.bind]
  | ok value => simp [bind, Except.bind]

/-- A sequence of operations that never raise a fault does not raise it. -/
theorem bind_ne_error {α β ε : Type} {first : Except ε α} {next : α → Except ε β} {fault : ε}
    (hfirst : first ≠ .error fault) (hnext : ∀ value, next value ≠ .error fault) :
    first >>= next ≠ .error fault := by
  cases first with
  | error raised => simpa [bind, Except.bind] using hfirst
  | ok value => exact hnext value

/-- A C object: its size and its bytes. Bytes at or beyond `size` are never observable. -/
structure Buf where
  size : ℕ
  byte : ℕ → UInt8

/-- Conversion to a 32-bit `int`. -/
def toInt (value : ℤ) : ℤ := Int.bmod value (2 ^ 32)

/-- Conversion to a 64-bit `size_t`. -/
def toSize (value : ℤ) : ℕ := (value % (2 ^ 64)).toNat

theorem toInt_of_bounds {value : ℤ} (hlow : -(2 ^ 31) ≤ value) (hhigh : value < 2 ^ 31) :
    toInt value = value := by
  unfold toInt
  rw [Int.bmod_def]
  norm_num at *
  split <;> omega

/-- A negative length becomes a size larger than any object. -/
theorem toSize_of_neg {value : ℤ} (hlow : -(2 ^ 63) ≤ value) (hhigh : value < 0) :
    2 ^ 63 ≤ toSize value := by
  unfold toSize
  omega

theorem toSize_of_bounds {value : ℤ} (hlow : 0 ≤ value) (hhigh : value < 2 ^ 64) :
    toSize value = value.toNat := by
  unfold toSize
  rw [Int.emod_eq_of_lt hlow hhigh]

/-- Swap the two bytes of a 16-bit value. -/
def htons (value : UInt16) : UInt16 :=
  UInt16.ofNat (value.toNat % 256 * 256 + value.toNat / 256)

/-- On a little-endian host both directions are the same swap. -/
def ntohs (value : UInt16) : UInt16 := htons value

theorem toNat_htons (value : UInt16) :
    (htons value).toNat = value.toNat % 256 * 256 + value.toNat / 256 := by
  have hbound := value.toNat_lt
  rw [htons, UInt16.toNat_ofNat']
  exact Nat.mod_eq_of_lt (by omega)

/-- The swap exchanges the two bytes. -/
theorem htons_high (value : UInt16) : (htons value).toNat / 256 = value.toNat % 256 := by
  have hbound := value.toNat_lt
  rw [toNat_htons]
  omega

theorem htons_low (value : UInt16) : (htons value).toNat % 256 = value.toNat / 256 := by
  have hbound := value.toNat_lt
  rw [toNat_htons]
  omega

theorem ntohs_high (value : UInt16) : (ntohs value).toNat / 256 = value.toNat % 256 :=
  htons_high value

theorem ntohs_low (value : UInt16) : (ntohs value).toNat % 256 = value.toNat / 256 :=
  htons_low value

@[simp] theorem ntohs_htons (value : UInt16) : ntohs (htons value) = value := by
  apply UInt16.toNat_inj.mp
  rw [ntohs, toNat_htons, htons_high, htons_low, Nat.div_add_mod']

/-! ## Buffers -/

namespace Buf

/-- A zeroed object of `size` bytes that received `bytes` at its start. -/
def received (size : ℕ) (bytes : List UInt8) : Buf where
  size := size
  byte index := bytes.getD index 0

/-- The bytes of `[offset, offset + length)`. -/
def slice (buf : Buf) (offset length : ℕ) : List UInt8 :=
  (List.range length).map fun index ↦ buf.byte (offset + index)

/-- Copy a range out of the object, as `memcpy` into a fresh block or `sendto` does. -/
def load (buf : Buf) (offset length : ℕ) : Except Fault (List UInt8) :=
  if offset + length ≤ buf.size then .ok (buf.slice offset length) else .error .read

/-- Overwrite the bytes from `offset` on. -/
def overwrite (buf : Buf) (offset : ℕ) (bytes : List UInt8) : Buf where
  size := buf.size
  byte index :=
    if offset ≤ index ∧ index < offset + bytes.length then bytes.getD (index - offset) 0
    else buf.byte index

/-- `memcpy` of a block into the object. -/
def store (buf : Buf) (offset : ℕ) (bytes : List UInt8) : Except Fault Buf :=
  if offset + bytes.length ≤ buf.size then .ok (buf.overwrite offset bytes) else .error .write

/-- `memset` of a range to one value. -/
def fill (buf : Buf) (offset length : ℕ) (value : UInt8) : Except Fault Buf :=
  if offset + length ≤ buf.size then
    .ok { size := buf.size
          byte := fun index ↦
            if offset ≤ index ∧ index < offset + length then value else buf.byte index }
  else .error .write

/-- One byte of a header field. -/
def setByte (buf : Buf) (offset : ℕ) (value : UInt8) : Buf where
  size := buf.size
  byte index := if index = offset then value else buf.byte index

/-- Load a 16-bit field in host order. -/
def load16 (buf : Buf) (offset : ℕ) : UInt16 :=
  UInt16.ofNat ((buf.byte offset).toNat + 256 * (buf.byte (offset + 1)).toNat)

/-- Store a 16-bit field in host order. -/
def store16 (buf : Buf) (offset : ℕ) (value : UInt16) : Buf :=
  (buf.setByte offset (UInt8.ofNat (value.toNat % 256))).setByte (offset + 1)
    (UInt8.ofNat (value.toNat / 256))

/-- Load a 32-bit field in host order. -/
def load32 (buf : Buf) (offset : ℕ) : UInt32 :=
  UInt32.ofNat ((buf.byte offset).toNat + 256 * (buf.byte (offset + 1)).toNat +
    65536 * (buf.byte (offset + 2)).toNat + 16777216 * (buf.byte (offset + 3)).toNat)

@[simp] theorem received_size (size : ℕ) (bytes : List UInt8) : (received size bytes).size = size :=
  rfl

@[simp] theorem received_byte (size : ℕ) (bytes : List UInt8) (index : ℕ) :
    (received size bytes).byte index = bytes.getD index 0 := rfl

@[simp] theorem slice_length (buf : Buf) (offset length : ℕ) :
    (buf.slice offset length).length = length := by
  simp [slice]

theorem slice_getD (buf : Buf) (offset length index : ℕ) :
    (buf.slice offset length).getD index 0 =
      if index < length then buf.byte (offset + index) else 0 := by
  by_cases hindex : index < length
  · simp [slice, hindex]
  · simp [slice, hindex]

@[simp] theorem overwrite_size (buf : Buf) (offset : ℕ) (bytes : List UInt8) :
    (buf.overwrite offset bytes).size = buf.size := rfl

theorem overwrite_byte (buf : Buf) (offset : ℕ) (bytes : List UInt8) (index : ℕ) :
    (buf.overwrite offset bytes).byte index =
      if offset ≤ index ∧ index < offset + bytes.length then bytes.getD (index - offset) 0
      else buf.byte index := rfl

@[simp] theorem setByte_size (buf : Buf) (offset : ℕ) (value : UInt8) :
    (buf.setByte offset value).size = buf.size := rfl

theorem setByte_byte (buf : Buf) (offset : ℕ) (value : UInt8) (index : ℕ) :
    (buf.setByte offset value).byte index = if index = offset then value else buf.byte index := rfl

@[simp] theorem store16_size (buf : Buf) (offset : ℕ) (value : UInt16) :
    (buf.store16 offset value).size = buf.size := rfl

theorem store16_byte (buf : Buf) (offset : ℕ) (value : UInt16) (index : ℕ) :
    (buf.store16 offset value).byte index =
      if index = offset + 1 then UInt8.ofNat (value.toNat / 256)
      else if index = offset then UInt8.ofNat (value.toNat % 256) else buf.byte index := rfl

/-- Stored through `htons`, a field is in network order in memory. -/
theorem store16_htons_byte (buf : Buf) (offset : ℕ) (value : UInt16) (index : ℕ) :
    (buf.store16 offset (htons value)).byte index =
      if index = offset + 1 then UInt8.ofNat (value.toNat % 256)
      else if index = offset then UInt8.ofNat (value.toNat / 256) else buf.byte index := by
  rw [store16_byte, htons_high, htons_low]

theorem load_eq_ok {buf : Buf} {offset length : ℕ} (hrange : offset + length ≤ buf.size) :
    buf.load offset length = .ok (buf.slice offset length) := by
  simp [load, hrange]

theorem store_eq_ok {buf : Buf} {offset : ℕ} {bytes : List UInt8}
    (hrange : offset + bytes.length ≤ buf.size) :
    buf.store offset bytes = .ok (buf.overwrite offset bytes) := by
  simp [store, hrange]

/-- A successful block operation had its whole range inside the object. -/
theorem load_ok_iff {buf : Buf} {offset length : ℕ} {bytes : List UInt8} :
    buf.load offset length = .ok bytes ↔
      offset + length ≤ buf.size ∧ bytes = buf.slice offset length := by
  unfold load
  split
  · simp_all [eq_comm]
  · simp_all

theorem fill_byte {buf next : Buf} {offset length : ℕ} {value : UInt8}
    (h : buf.fill offset length value = .ok next) (index : ℕ) :
    next.byte index =
      if offset ≤ index ∧ index < offset + length then value else buf.byte index := by
  unfold fill at h
  split at h
  · cases h
    rfl
  · cases h

theorem fill_size {buf next : Buf} {offset length : ℕ} {value : UInt8}
    (h : buf.fill offset length value = .ok next) : next.size = buf.size := by
  unfold fill at h
  split at h
  · cases h
    rfl
  · cases h

theorem fill_ok (buf : Buf) (offset length : ℕ) (value : UInt8)
    (hrange : offset + length ≤ buf.size) : ∃ next, buf.fill offset length value = .ok next := by
  simp [fill, hrange]

theorem store_ok_iff {buf next : Buf} {offset : ℕ} {bytes : List UInt8} :
    buf.store offset bytes = .ok next ↔
      offset + bytes.length ≤ buf.size ∧ next = buf.overwrite offset bytes := by
  unfold store
  split
  · simp_all [eq_comm]
  · simp_all

/-- Block operations fault on their range only. -/
theorem load_ne_index (buf : Buf) (offset length : ℕ) :
    buf.load offset length ≠ .error .index := by
  unfold load
  split <;> simp

theorem store_ne_index (buf : Buf) (offset : ℕ) (bytes : List UInt8) :
    buf.store offset bytes ≠ .error .index := by
  unfold store
  split <;> simp

theorem fill_ne_index (buf : Buf) (offset length : ℕ) (value : UInt8) :
    buf.fill offset length value ≠ .error .index := by
  unfold fill
  split <;> simp

/-- Two fields with the same bytes load the same value. -/
theorem load16_congr {left right : Buf} {offset offset' : ℕ}
    (h0 : left.byte offset = right.byte offset')
    (h1 : left.byte (offset + 1) = right.byte (offset' + 1)) :
    left.load16 offset = right.load16 offset' := by
  simp only [load16, h0, h1]

theorem load32_congr {left right : Buf} {offset offset' : ℕ}
    (hbytes : ∀ index < 4, left.byte (offset + index) = right.byte (offset' + index)) :
    left.load32 offset = right.load32 offset' := by
  have h0 := hbytes 0 (by omega)
  have h1 := hbytes 1 (by omega)
  have h2 := hbytes 2 (by omega)
  have h3 := hbytes 3 (by omega)
  simp only [Nat.add_zero] at h0
  simp only [load32, h0, h1, h2, h3]

/-- Loading and storing a field at one offset are inverse. -/
@[simp] theorem load16_store16 (buf : Buf) (offset : ℕ) (value : UInt16) :
    (buf.store16 offset value).load16 offset = value := by
  have hbound := value.toNat_lt
  apply UInt16.toNat_inj.mp
  simp only [load16, store16_byte, Nat.left_eq_add, Nat.succ_ne_self, ↓reduceIte,
    UInt8.toNat_ofNat', UInt16.toNat_ofNat']
  omega

/-- Two bytes in network order read back through `ntohs`. -/
theorem ntohs_load16 {buf : Buf} {offset : ℕ} {value : UInt16}
    (hhigh : buf.byte offset = UInt8.ofNat (value.toNat / 256))
    (hlow : buf.byte (offset + 1) = UInt8.ofNat (value.toNat % 256)) :
    ntohs (buf.load16 offset) = value := by
  have hfield : buf.load16 offset = (buf.store16 offset (htons value)).load16 offset := by
    apply load16_congr
    · simp [store16_htons_byte, hhigh]
    · simp [store16_htons_byte, hlow]
  rw [hfield, load16_store16, ntohs_htons]

/-- A field is determined by its two bytes. -/
theorem ofNat_load16_low (buf : Buf) (offset : ℕ) :
    UInt8.ofNat ((buf.load16 offset).toNat % 256) = buf.byte offset := by
  have hlow := (buf.byte offset).toNat_lt
  have hhigh := (buf.byte (offset + 1)).toNat_lt
  apply UInt8.toNat_inj.mp
  simp only [load16, UInt16.toNat_ofNat', UInt8.toNat_ofNat']
  omega

theorem ofNat_load16_high (buf : Buf) (offset : ℕ) :
    UInt8.ofNat ((buf.load16 offset).toNat / 256) = buf.byte (offset + 1) := by
  have hlow := (buf.byte offset).toNat_lt
  have hhigh := (buf.byte (offset + 1)).toNat_lt
  apply UInt8.toNat_inj.mp
  simp only [load16, UInt16.toNat_ofNat', UInt8.toNat_ofNat']
  omega

end Buf

end Wispr.Foundation.ByteBuffer
