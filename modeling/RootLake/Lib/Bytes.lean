import Mathlib.Algebra.Order.Ring.Nat
import Mathlib.Algebra.Order.Ring.Int
import Mathlib.Data.List.Basic
import Mathlib.Tactic.Ring
import Mathlib.Data.UInt

/-!
# Byte strings

Three uses of byte strings: as numbers in either byte order, as what a reader takes values
from, and as arrays of bits. Setting bits never clears one, so every bit that was set on the
way is found at the end.
-/

namespace RootLake.Bytes

/-! ### Little-endian numbers -/

/-- The `width` low bytes of a number, least significant first. -/
def toLittleEndian : Nat → Nat → List UInt8
  | 0, _ => []
  | width + 1, n => UInt8.ofNat n :: toLittleEndian width (n / 256)

def ofLittleEndian : List UInt8 → Nat
  | [] => 0
  | byte :: rest => byte.toNat + 256 * ofLittleEndian rest

theorem length_toLittleEndian (width n : Nat) : (toLittleEndian width n).length = width := by
  induction width generalizing n with
  | zero => rfl
  | succ width ih => rw [toLittleEndian, List.length_cons, ih]

/-- Reading back what was written. -/
theorem ofLittleEndian_toLittleEndian {width n : Nat} (h : n < 256 ^ width) :
    ofLittleEndian (toLittleEndian width n) = n := by
  induction width generalizing n with
  | zero =>
    rw [Nat.pow_zero, Nat.lt_one_iff] at h
    rw [h]
    rfl
  | succ width ih =>
    have hquot : n / 256 < 256 ^ width := by
      rw [Nat.pow_succ] at h
      exact Nat.div_lt_of_lt_mul (by rw [Nat.mul_comm]; exact h)
    rw [toLittleEndian, ofLittleEndian, ih hquot, UInt8.toNat_ofNat']
    exact Nat.mod_add_div n 256

theorem ofLittleEndian_lt (bytes : List UInt8) : ofLittleEndian bytes < 256 ^ bytes.length := by
  induction bytes with
  | nil => exact Nat.one_pos
  | cons byte rest ih =>
    have hbyte := byte.toNat_lt
    rw [ofLittleEndian, List.length_cons, Nat.pow_succ]
    omega

/-- Writing again what was read. -/
theorem toLittleEndian_ofLittleEndian (bytes : List UInt8) :
    toLittleEndian bytes.length (ofLittleEndian bytes) = bytes := by
  induction bytes with
  | nil => rfl
  | cons byte rest ih =>
    have hbyte := byte.toNat_lt
    have hquot : (byte.toNat + 256 * ofLittleEndian rest) / 256 = ofLittleEndian rest := by omega
    have hlow : UInt8.ofNat (byte.toNat + 256 * ofLittleEndian rest) = byte := by
      refine UInt8.toNat_inj.mp ?_
      rw [UInt8.toNat_ofNat']
      omega
    rw [List.length_cons, ofLittleEndian, toLittleEndian, hlow, hquot, ih]

/-! ### Big-endian numbers -/

def toBigEndian (width n : Nat) : List UInt8 := (toLittleEndian width n).reverse

def ofBigEndian (bytes : List UInt8) : Nat := ofLittleEndian bytes.reverse

@[simp] theorem length_toBigEndian (width n : Nat) : (toBigEndian width n).length = width := by
  rw [toBigEndian, List.length_reverse, length_toLittleEndian]

theorem ofBigEndian_toBigEndian {width n : Nat} (h : n < 256 ^ width) :
    ofBigEndian (toBigEndian width n) = n := by
  rw [ofBigEndian, toBigEndian, List.reverse_reverse, ofLittleEndian_toLittleEndian h]

theorem ofBigEndian_lt (bytes : List UInt8) : ofBigEndian bytes < 256 ^ bytes.length := by
  have h := ofLittleEndian_lt bytes.reverse
  rwa [List.length_reverse] at h

theorem toBigEndian_ofBigEndian (bytes : List UInt8) :
    toBigEndian bytes.length (ofBigEndian bytes) = bytes := by
  have h := toLittleEndian_ofLittleEndian bytes.reverse
  rw [List.length_reverse] at h
  rw [toBigEndian, ofBigEndian, h, List.reverse_reverse]

theorem ofLittleEndian_append (low high : List UInt8) :
    ofLittleEndian (low ++ high) = ofLittleEndian low + 256 ^ low.length * ofLittleEndian high := by
  induction low with
  | nil => rw [List.nil_append, ofLittleEndian, List.length_nil, Nat.pow_zero, Nat.one_mul,
      Nat.zero_add]
  | cons byte low ih =>
    rw [List.cons_append, ofLittleEndian, ofLittleEndian, ih, List.length_cons, Nat.pow_succ,
      Nat.mul_add, Nat.mul_comm _ 256, Nat.mul_assoc, Nat.add_assoc]

theorem ofBigEndian_append (high low : List UInt8) :
    ofBigEndian (high ++ low) = ofBigEndian high * 256 ^ low.length + ofBigEndian low := by
  rw [ofBigEndian, List.reverse_append, ofLittleEndian_append, List.length_reverse, Nat.mul_comm,
    Nat.add_comm]
  rfl

/-- A big-endian number at the head of some bytes. -/
theorem ofBigEndian_take_append {width n : Nat} (h : n < 256 ^ width) (rest : List UInt8) :
    ofBigEndian ((toBigEndian width n ++ rest).take width) = n := by
  rw [List.take_left' (length_toBigEndian width n), ofBigEndian_toBigEndian h]

/-! ### Bits -/

/-- The bit of a byte at a position below eight. -/
def bitMask (bit : Nat) : UInt8 := 1 <<< UInt8.ofNat (bit % 8)

def testBit (payload : List UInt8) (bit : Nat) : Bool :=
  payload.getD (bit / 8) 0 &&& bitMask bit != 0

def setBit (payload : List UInt8) (bit : Nat) : List UInt8 :=
  payload.modify (bit / 8) fun byte => byte ||| bitMask bit

theorem bitMask_ne_zero (bit : Nat) : bitMask bit ≠ 0 := by
  have hall : ∀ k < 8, (1 : UInt8) <<< UInt8.ofNat k ≠ 0 := by decide
  exact hall (bit % 8) (Nat.mod_lt bit (by decide))

theorem length_setBit (payload : List UInt8) (bit : Nat) :
    (setBit payload bit).length = payload.length := List.length_modify _ _ _

theorem or_and_distrib_right (a b mask : UInt8) :
    (a ||| b) &&& mask = (a &&& mask) ||| (b &&& mask) := by
  refine UInt8.toBitVec_inj.mp (BitVec.eq_of_getLsbD_eq ?_)
  intro i _
  simp [Bool.and_or_distrib_right]

theorem or_and_ne_zero_of_left {byte mask added : UInt8} (h : byte &&& mask ≠ 0) :
    (byte ||| added) &&& mask ≠ 0 := by
  rw [or_and_distrib_right]
  exact fun hzero => h (UInt8.or_eq_zero_iff.mp hzero).1

theorem testBit_setBit_self {payload : List UInt8} {bit : Nat} (h : bit < 8 * payload.length) :
    testBit (setBit payload bit) bit = true := by
  have hbyte : bit / 8 < payload.length := by omega
  simp only [testBit, setBit, List.getD_eq_getElem?_getD, List.getElem?_modify,
    List.getElem?_eq_getElem hbyte, if_true, Option.map_eq_map, Option.map_some, Option.getD_some,
    bne_iff_ne]
  intro hzero
  rw [or_and_distrib_right, UInt8.and_self] at hzero
  exact bitMask_ne_zero bit (UInt8.or_eq_zero_iff.mp hzero).2

theorem testBit_setBit_of_testBit {payload : List UInt8} {bit other : Nat}
    (h : testBit payload other = true) : testBit (setBit payload bit) other = true := by
  simp only [testBit, setBit, List.getD_eq_getElem?_getD, List.getElem?_modify, bne_iff_ne] at h ⊢
  cases hbyte : payload[other / 8]? with
  | none =>
    rw [hbyte] at h
    exact absurd UInt8.zero_and h
  | some byte =>
    rw [hbyte, Option.getD_some] at h
    by_cases hsame : bit / 8 = other / 8
    · simpa [hsame] using @or_and_ne_zero_of_left _ _ (bitMask bit) h
    · simpa [hsame] using h

/-- Set several bits. -/
def setBits (payload : List UInt8) (bits : List Nat) : List UInt8 := bits.foldl setBit payload

def testBits (payload : List UInt8) (bits : List Nat) : Bool := bits.all (testBit payload)

theorem length_setBits (payload : List UInt8) (bits : List Nat) :
    (setBits payload bits).length = payload.length := by
  induction bits generalizing payload with
  | nil => rfl
  | cons bit bits ih => exact (ih (setBit payload bit)).trans (length_setBit payload bit)

theorem testBit_setBits_of_testBit {payload : List UInt8} {other : Nat} (bits : List Nat)
    (h : testBit payload other = true) : testBit (setBits payload bits) other = true := by
  induction bits generalizing payload with
  | nil => exact h
  | cons bit bits ih => exact ih (testBit_setBit_of_testBit h)

/-- **Set bits are found.** -/
theorem testBits_setBits_self {payload : List UInt8} {bits : List Nat}
    (h : ∀ bit ∈ bits, bit < 8 * payload.length) :
    testBits (setBits payload bits) bits = true := by
  induction bits generalizing payload with
  | nil => rfl
  | cons bit bits ih =>
    obtain ⟨hbit, hbits⟩ := List.forall_mem_cons.mp h
    have hrest := @ih (setBit payload bit) (by rwa [length_setBit])
    have hself := testBit_setBits_of_testBit bits (testBit_setBit_self hbit)
    unfold testBits
    rw [List.all_cons, Bool.and_eq_true]
    exact ⟨hself, hrest⟩

theorem testBits_setBits_of_testBits {payload : List UInt8} {found : List Nat} (bits : List Nat)
    (h : testBits payload found = true) : testBits (setBits payload bits) found = true := by
  unfold testBits at h ⊢
  rw [List.all_eq_true] at h ⊢
  exact fun bit hbit => testBit_setBits_of_testBit bits (h bit hbit)

/-! ### Readers -/

/-- A reader takes a value from the front of some bytes. -/
abbrev Reader (α : Type) := List UInt8 → Option (α × List UInt8)

def readBigEndian (width : Nat) : Reader Nat := fun bytes =>
  if bytes.length < width then none
  else some (ofBigEndian (bytes.take width), bytes.drop width)

def readMany {α : Type} (read : Reader α) : Nat → Reader (List α)
  | 0, bytes => some ([], bytes)
  | count + 1, bytes =>
      match read bytes with
      | none => none
      | some (a, bytes) =>
          match readMany read count bytes with
          | none => none
          | some (as, bytes) => some (a :: as, bytes)

theorem readBigEndian_encoded {width n : Nat} (h : n < 256 ^ width) (rest : List UInt8) :
    readBigEndian width (toBigEndian width n ++ rest) = some (n, rest) := by
  have hlength : ¬ (toBigEndian width n ++ rest).length < width := by
    rw [List.length_append, length_toBigEndian]
    omega
  rw [readBigEndian, if_neg hlength, ofBigEndian_take_append h,
    List.drop_left' (length_toBigEndian _ _)]

/-- When every element reads back, so does the list. -/
theorem readMany_encoded {α : Type} {read : Reader α} {encode : α → List UInt8} (as : List α)
    (h : ∀ a ∈ as, ∀ rest, read (encode a ++ rest) = some (a, rest)) (rest : List UInt8) :
    readMany read as.length (as.flatMap encode ++ rest) = some (as, rest) := by
  induction as with
  | nil => rfl
  | cons a as ih =>
    rw [List.length_cons, readMany, List.flatMap_cons, List.append_assoc,
      h a List.mem_cons_self]
    dsimp only
    rw [ih fun b hb => h b (List.mem_cons_of_mem a hb)]

end RootLake.Bytes
