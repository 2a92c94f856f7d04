/-
  RootLake/Index/Bloom.lean
  =========================
  **The Bloom payload of a basket.**

  A builder buffers hashes and sizes the payload when it is serialized; once the buffer
  would be larger than the payload may become, it switches to a payload of the maximal
  size and sets bits as values arrive.  A reader that does not recognise a payload says
  that every value may be contained.

  The two logarithms that size a payload come from the C library; the sizes they give
  are parameters, and nothing depends on them beyond the clamps of the source.
-/
import RootLake.Lib.Bytes
import RootLake.Lib.Ieee

namespace RootLake.Index

open Ieee Bytes

/-! ### Hashes -/

/-- Both zeros hash like the positive one. -/
def canonicalDoubleHash (value : Double) : UInt64 :=
  let bits := if value.eq Double.zero then 0 else value.bits
  let bits := (bits ^^^ (bits >>> 33)) * 0xFF51AFD7ED558CCD
  let bits := (bits ^^^ (bits >>> 33)) * 0xC4CEB9FE1A85EC53
  bits ^^^ (bits >>> 33)

def mix64 (value : UInt64) : UInt64 :=
  let value := (value ^^^ (value >>> 30)) * 0xBF58476D1CE4E5B9
  let value := (value ^^^ (value >>> 27)) * 0x94D049BB133111EB
  value ^^^ (value >>> 31)

/-- The bits a hash stands for, in a payload of `bitCount` bits. -/
def bloomPositions (bitCount hash : UInt64) (hashCount : UInt8) : List Nat :=
  (List.range hashCount.toNat).map fun i =>
    ((hash + UInt64.ofNat i * (mix64 (hash ^^^ 0x9E3779B97F4A7C15) ||| 1)) % bitCount).toNat

def setBloomBits (payload : List UInt8) (hash : UInt64) (hashCount : UInt8) : List UInt8 :=
  setBits payload (bloomPositions (UInt64.ofNat payload.length * 8) hash hashCount)

/-! ### Building -/

/-- The results of the two logarithms. -/
structure BloomSizing where
  idealBits : UInt64 → UInt64
  idealHashes : Nat → UInt64 → UInt32
  streamingHashes : Int

structure RootBloomBuilder where
  maxPayloadBytes : UInt32
  sizing : BloomSizing
  hashes : List UInt64 := []
  streamingBits : List UInt8 := []
  valueCount : UInt64 := 0
  streamingHashCount : UInt8 := 0

/-- `std::clamp` to the number of hashes. -/
def clampHashes (ideal : Int) : UInt8 := UInt8.ofNat (max 1 (min ideal 16)).toNat

namespace RootBloomBuilder

def hashLimit (b : RootBloomBuilder) : Nat := max 1 (b.maxPayloadBytes.toNat / 8)

/-- The switch to a payload of the maximal size, with the buffered hashes. -/
def startStreaming (b : RootBloomBuilder) : RootBloomBuilder :=
  let hashCount := clampHashes b.sizing.streamingHashes
  { b with
    hashes := []
    streamingHashCount := hashCount
    streamingBits := b.hashes.foldl (fun payload hash => setBloomBits payload hash hashCount)
      (List.replicate b.maxPayloadBytes.toNat 0) }

def stream (b : RootBloomBuilder) (hash : UInt64) : RootBloomBuilder :=
  { b with
    streamingBits := setBloomBits b.streamingBits hash b.streamingHashCount
    valueCount := b.valueCount + 1 }

def add (b : RootBloomBuilder) (value : Double) : RootBloomBuilder :=
  if b.maxPayloadBytes = 0 || !value.isFinite then b
  else
    let hash := canonicalDoubleHash value
    if b.streamingBits.isEmpty then
      if b.hashes.length < b.hashLimit then
        { b with hashes := b.hashes ++ [hash], valueCount := b.valueCount + 1 }
      else b.startStreaming.stream hash
    else b.stream hash

/-- The payload and its number of hashes. -/
def payload (b : RootBloomBuilder) : List UInt8 × UInt8 :=
  if !b.streamingBits.isEmpty then (b.streamingBits, b.streamingHashCount)
  else
    let maximumBits := b.maxPayloadBytes.toNat * 8
    let bitCount := max 8 (min (b.sizing.idealBits b.valueCount).toNat maximumBits)
    let payloadBytes := (bitCount + 7) / 8
    let hashCount := clampHashes (b.sizing.idealHashes payloadBytes b.valueCount).toNat
    (b.hashes.foldl (fun payload hash => setBloomBits payload hash hashCount)
      (List.replicate payloadBytes 0), hashCount)

end RootBloomBuilder

/-- `R4BF`. -/
def bloomMagic : List UInt8 := [0x52, 0x34, 0x42, 0x46]

def bloomVersion : UInt8 := 1

def bloomHeaderSize : Nat := 24

def RootBloomBuilder.serialize (b : RootBloomBuilder) : List UInt8 :=
  if b.valueCount = 0 then []
  else
    let (payload, hashCount) := b.payload
    bloomMagic ++ [bloomVersion, hashCount] ++ toLittleEndian 2 bloomHeaderSize ++
      toLittleEndian 8 (payload.length * 8) ++ toLittleEndian 8 b.valueCount.toNat ++ payload

/-! ### Reading -/

def readUInt16 (bytes : List UInt8) (offset : Nat) : Nat :=
  ofLittleEndian ((bytes.drop offset).take 2)

def readUInt64 (bytes : List UInt8) (offset : Nat) : Nat :=
  ofLittleEndian ((bytes.drop offset).take 8)

/-- `RootBloomFilter::MayContain`. -/
def mayContain (bytes : List UInt8) (value : Double) : Bool :=
  if bytes.isEmpty || !value.isFinite then true
  else if decide (bytes.length < bloomHeaderSize) || bytes.take 4 != bloomMagic ||
      bytes.getD 4 0 != bloomVersion then true
  else
    let hashCount := bytes.getD 5 0
    let headerSize := readUInt16 bytes 6
    let bitCount := readUInt64 bytes 8
    if hashCount = 0 || decide (16 < hashCount) || decide (headerSize < bloomHeaderSize) ||
        decide (bytes.length < headerSize) || bitCount = 0 ||
        decide ((bytes.length - headerSize) * 8 < bitCount) then true
    else
      testBits (bytes.drop headerSize)
        (bloomPositions (UInt64.ofNat bitCount) (canonicalDoubleHash value) hashCount)

/-! ### No false rejection -/

/-- Doubles that compare equal hash alike. -/
theorem canonicalDoubleHash_congr {a b : Double} (ha : a.isNaN = false) (hb : b.isNaN = false)
    (h : a.key = b.key) : canonicalDoubleHash a = canonicalDoubleHash b := by
  have hzero : Double.zero.isNaN = false := by decide
  by_cases hsign : a.key = 0
  · have hzeroKey : Double.zero.key = 0 := by decide
    have haz : a.eq Double.zero = true := by rw [Double.eq_iff ha hzero, hsign, hzeroKey]
    have hbz : b.eq Double.zero = true := by rw [Double.eq_iff hb hzero, ← h, hsign, hzeroKey]
    unfold canonicalDoubleHash
    rw [if_pos haz, if_pos hbz]
  · rw [Double.eq_of_key_eq h hsign]

/-- The bits of a hash lie in the payload. -/
theorem bloomPositions_lt {length : Nat} (hlength : 0 < length) (hsize : length < 2 ^ 61)
    (hash : UInt64) (hashCount : UInt8) :
    ∀ bit ∈ bloomPositions (UInt64.ofNat length * 8) hash hashCount, bit < 8 * length := by
  have hbits : (UInt64.ofNat length * 8).toNat = 8 * length := by
    rw [UInt64.toNat_mul, UInt64.toNat_ofNat', Nat.mod_eq_of_lt (a := length) (by omega)]
    change length * 8 % 2 ^ 64 = 8 * length
    rw [Nat.mod_eq_of_lt (by omega)]
    omega
  intro bit hmem
  obtain ⟨i, -, rfl⟩ := List.mem_map.mp hmem
  rw [UInt64.toNat_mod, hbits]
  exact Nat.mod_lt _ (by omega)

/-- The payload has the bits of a hash. -/
def HasHash (payload : List UInt8) (hash : UInt64) (hashCount : UInt8) : Prop :=
  testBits payload (bloomPositions (UInt64.ofNat payload.length * 8) hash hashCount) = true

theorem length_setBloomBits (payload : List UInt8) (hash : UInt64) (hashCount : UInt8) :
    (setBloomBits payload hash hashCount).length = payload.length := length_setBits _ _

theorem hasHash_setBloomBits {payload : List UInt8} (hlength : 0 < payload.length)
    (hsize : payload.length < 2 ^ 61) (hash : UInt64) (hashCount : UInt8) :
    HasHash (setBloomBits payload hash hashCount) hash hashCount := by
  unfold HasHash
  rw [length_setBloomBits]
  exact testBits_setBits_self (bloomPositions_lt hlength hsize hash hashCount)

theorem HasHash.setBloomBits {payload : List UInt8} {hash : UInt64} {hashCount : UInt8}
    (h : HasHash payload hash hashCount) (other : UInt64) :
    HasHash (setBloomBits payload other hashCount) hash hashCount := by
  unfold HasHash at h ⊢
  rw [length_setBloomBits]
  exact testBits_setBits_of_testBits _ h

/-- Setting the bits of a list of hashes gives a payload that has them all, and those it
    had before. -/
theorem foldl_setBloomBits {hashCount : UInt8} (hashes : List UInt64) :
    ∀ {payload : List UInt8}, 0 < payload.length → payload.length < 2 ^ 61 →
      let result := hashes.foldl (fun payload hash => setBloomBits payload hash hashCount) payload
      result.length = payload.length ∧ (∀ hash ∈ hashes, HasHash result hash hashCount) ∧
        ∀ hash, HasHash payload hash hashCount → HasHash result hash hashCount := by
  induction hashes with
  | nil =>
    intro payload _ _
    refine ⟨rfl, ?_, fun _ h => h⟩
    intro hash hmem
    cases hmem
  | cons head rest ih =>
    intro payload hlength hsize
    obtain ⟨hlen, hrest, hkeep⟩ := @ih (setBloomBits payload head hashCount)
      (by rwa [length_setBloomBits]) (by rwa [length_setBloomBits])
    refine ⟨hlen.trans (length_setBloomBits _ _ _), ?_, fun hash h => hkeep hash (h.setBloomBits head)⟩
    intro hash hmem
    rcases List.mem_cons.mp hmem with rfl | hmem
    · exact hkeep hash (hasHash_setBloomBits hlength hsize hash hashCount)
    · exact hrest hash hmem

/-- What a builder has kept of the hashes it was given. -/
structure RootBloomBuilder.Keeps (b : RootBloomBuilder) (given : List UInt64) : Prop where
  enabled : b.maxPayloadBytes ≠ 0
  buffered : b.streamingBits = [] → ∀ hash ∈ given, hash ∈ b.hashes
  streaming : b.streamingBits ≠ [] →
    b.streamingBits.length = b.maxPayloadBytes.toNat ∧
      ∀ hash ∈ given, HasHash b.streamingBits hash b.streamingHashCount

namespace RootBloomBuilder

theorem maxPayload_pos {b : RootBloomBuilder} (h : b.maxPayloadBytes ≠ 0) :
    0 < b.maxPayloadBytes.toNat := by
  refine Nat.pos_of_ne_zero ?_
  exact fun hzero => h (UInt32.toNat_inj.mp hzero)

theorem Keeps.stream {b : RootBloomBuilder} {given : List UInt64} (h : b.Keeps given)
    (hbits : b.streamingBits ≠ []) (hash : UInt64) : (b.stream hash).Keeps (hash :: given) where
  enabled := h.enabled
  buffered hempty := by
    have hlength := congrArg List.length hempty
    rw [RootBloomBuilder.stream, length_setBloomBits] at hlength
    exact absurd (List.eq_nil_of_length_eq_zero hlength) hbits
  streaming _ := by
    obtain ⟨hlength, hall⟩ := h.streaming hbits
    refine ⟨(length_setBloomBits _ _ _).trans hlength, ?_⟩
    intro other hmem
    rcases List.mem_cons.mp hmem with rfl | hmem
    · have hmax := b.maxPayloadBytes.toNat_lt
      exact hasHash_setBloomBits (hlength ▸ maxPayload_pos h.enabled) (by omega) _ _
    · exact (hall other hmem).setBloomBits hash

theorem Keeps.startStreaming {b : RootBloomBuilder} {given : List UInt64} (h : b.Keeps given)
    (hempty : b.streamingBits = []) :
    b.startStreaming.Keeps given ∧ b.startStreaming.streamingBits ≠ [] := by
  have hmax := b.maxPayloadBytes.toNat_lt
  have hpos := maxPayload_pos h.enabled
  obtain ⟨hlength, hall, -⟩ := @foldl_setBloomBits (clampHashes b.sizing.streamingHashes) b.hashes
    (List.replicate b.maxPayloadBytes.toNat 0) (by rwa [List.length_replicate])
    (by rw [List.length_replicate]; omega)
  rw [List.length_replicate] at hlength
  have hbits : b.startStreaming.streamingBits ≠ [] := by
    intro hnil
    have hzero := congrArg List.length hnil
    rw [List.length_nil] at hzero
    exact absurd (hlength.symm.trans hzero) (Nat.ne_of_gt hpos)
  refine ⟨⟨h.enabled, fun hnil => absurd hnil hbits, fun _ => ⟨hlength, ?_⟩⟩, hbits⟩
  exact fun hash hmem => hall hash (h.buffered hempty hash hmem)

/-- **Step lemma**: a finite value added is kept. -/
theorem Keeps.add {b : RootBloomBuilder} {given : List UInt64} (h : b.Keeps given)
    {value : Double} (hfinite : value.isFinite = true) :
    (b.add value).Keeps (canonicalDoubleHash value :: given) := by
  unfold RootBloomBuilder.add
  rw [if_neg (by simp [h.enabled, hfinite])]
  dsimp only
  by_cases hempty : b.streamingBits = []
  · rw [if_pos (by simp [hempty])]
    split
    next =>
      refine ⟨h.enabled, ?_, fun hbits => absurd hempty hbits⟩
      intro _ hash hmem
      rcases List.mem_cons.mp hmem with rfl | hmem
      · exact List.mem_append_right _ (List.mem_singleton.mpr rfl)
      · exact List.mem_append_left _ (h.buffered hempty hash hmem)
    next =>
      obtain ⟨hkeeps, hbits⟩ := h.startStreaming hempty
      exact hkeeps.stream hbits _
  · rw [if_neg (by simpa using hempty)]
    exact h.stream hempty _

theorem add_of_not_finite (b : RootBloomBuilder) {value : Double} (h : value.isFinite = false) :
    b.add value = b := by
  unfold RootBloomBuilder.add
  rw [if_pos (by simp [h])]

/-- The serialized payload has the hashes that were kept. -/
theorem Keeps.payload {b : RootBloomBuilder} {given : List UInt64} (h : b.Keeps given) :
    0 < b.payload.1.length ∧ b.payload.1.length ≤ b.maxPayloadBytes.toNat ∧
      ∀ hash ∈ given, HasHash b.payload.1 hash b.payload.2 := by
  have hmax := b.maxPayloadBytes.toNat_lt
  have hpos := maxPayload_pos h.enabled
  unfold RootBloomBuilder.payload
  by_cases hempty : b.streamingBits = []
  · rw [if_neg (by simp [hempty])]
    dsimp only
    generalize hbytes : (max 8 (min (b.sizing.idealBits b.valueCount).toNat
      (b.maxPayloadBytes.toNat * 8)) + 7) / 8 = payloadBytes
    have hlow : 0 < payloadBytes := by omega
    have hhigh : payloadBytes ≤ b.maxPayloadBytes.toNat := by omega
    obtain ⟨hlength, hall, -⟩ := @foldl_setBloomBits
      (clampHashes (b.sizing.idealHashes payloadBytes b.valueCount).toNat) b.hashes
      (List.replicate payloadBytes 0) (by rwa [List.length_replicate])
      (by rw [List.length_replicate]; omega)
    rw [List.length_replicate] at hlength
    refine ⟨Nat.lt_of_lt_of_eq hlow hlength.symm, Nat.le_trans (Nat.le_of_eq hlength) hhigh, ?_⟩
    exact fun hash hmem => hall hash (h.buffered hempty hash hmem)
  · rw [if_pos (by simpa using hempty)]
    obtain ⟨hlength, hall⟩ := h.streaming hempty
    exact ⟨hlength ▸ hpos, Nat.le_of_eq hlength, hall⟩

end RootBloomBuilder

/-- The fixed part of the header. -/
def bloomPrefix (hashCount : UInt8) : List UInt8 :=
  bloomMagic ++ [bloomVersion, hashCount] ++ toLittleEndian 2 bloomHeaderSize

/-- A payload behind its header is read back. -/
theorem mayContain_serialized {payload : List UInt8} {hashCount : UInt8} {count : UInt64}
    {value : Double} (hlength : 0 < payload.length) (hsize : payload.length < 2 ^ 61)
    (hhash : HasHash payload (canonicalDoubleHash value) hashCount) :
    mayContain (bloomPrefix hashCount ++ toLittleEndian 8 (payload.length * 8) ++
      toLittleEndian 8 count.toNat ++ payload) value = true := by
  have hbits : ofLittleEndian (toLittleEndian 8 (payload.length * 8)) = payload.length * 8 :=
    ofLittleEndian_toLittleEndian (by omega)
  have hlengthBits := length_toLittleEndian 8 (payload.length * 8)
  have hlengthCount := length_toLittleEndian 8 count.toNat
  generalize toLittleEndian 8 (payload.length * 8) = bits at hbits hlengthBits ⊢
  generalize toLittleEndian 8 count.toNat = values at hlengthCount ⊢
  rw [List.append_assoc, List.append_assoc]
  have hreadBits : readUInt64 (bloomPrefix hashCount ++ (bits ++ (values ++ payload))) 8 =
      payload.length * 8 := by
    have hheader : (bloomPrefix hashCount).length = 8 := rfl
    unfold readUInt64
    rw [List.drop_left' hheader, List.take_left' hlengthBits, hbits]
  have hdrop : (bloomPrefix hashCount ++ (bits ++ (values ++ payload))).drop 24 = payload := by
    rw [← List.append_assoc, ← List.append_assoc]
    refine List.drop_left' ?_
    simp only [List.length_append, hlengthBits, hlengthCount]
    rfl
  have hpositions : UInt64.ofNat (payload.length * 8) = UInt64.ofNat payload.length * 8 := by
    rw [UInt64.ofNat_mul]
    rfl
  -- A header the reader does not accept excludes nothing.
  unfold mayContain
  split
  next => rfl
  next =>
    split
    next => rfl
    next =>
      dsimp only
      split
      next => rfl
      next =>
        rw [hreadBits, show readUInt16 (bloomPrefix hashCount ++ (bits ++ (values ++ payload))) 6 = 24
          from rfl, hdrop, hpositions]
        exact hhash

/-- **No false rejection**: what was added may be contained. -/
theorem RootBloomBuilder.Keeps.mayContain {b : RootBloomBuilder} {given : List UInt64}
    (h : b.Keeps given) {value : Double} (hmem : canonicalDoubleHash value ∈ given) :
    mayContain b.serialize value = true := by
  obtain ⟨hpos, hle, hall⟩ := h.payload
  have hmax := b.maxPayloadBytes.toNat_lt
  unfold RootBloomBuilder.serialize
  split
  next => rfl
  next =>
    have hsize : b.payload.1.length < 2 ^ 61 := by omega
    exact mayContain_serialized hpos hsize (hall _ hmem)

end RootLake.Index
