import Mathlib.Data.List.Basic

/-!
# Texts and their bytes

A text without control characters has no control byte in its encoding, so a byte below a
blank marks a place that such a text does not reach.
-/

namespace RootLake.Text

/-- The encoding of a text. -/
def bytes (text : String) : List UInt8 := text.toUTF8.toList

/-- No character is a control character. -/
def Printable (text : List Char) : Prop := ∀ c ∈ text, ' ' ≤ c

instance instDecidablePrintable (text : List Char) : Decidable (Printable text) :=
  @List.decidableBAll _ _ (fun c => inferInstanceAs (Decidable (' '.val ≤ c.val))) text

theorem loop_eq (array : ByteArray) (i : Nat) (read : List UInt8) :
    ByteArray.toList.loop array i read = read.reverse ++ array.data.toList.drop i := by
  fun_induction ByteArray.toList.loop array i read with
  | case1 i read hlt ih =>
    have hdata : i < array.data.toList.length := hlt
    have hget : array.get! i = array.data.toList[i] := by
      rw [Array.getElem_toList]
      exact getElem!_pos array.data i hlt
    rw [ih, List.drop_eq_getElem_cons hdata, List.reverse_cons, List.append_assoc,
      List.singleton_append, hget]
  | case2 i read hge =>
    have hdata : array.data.toList.length ≤ i := Nat.le_of_not_lt hge
    rw [List.drop_eq_nil_of_le hdata, List.append_nil]

theorem toList_eq (array : ByteArray) : array.toList = array.data.toList := by
  rw [ByteArray.toList, loop_eq, List.reverse_nil, List.nil_append, List.drop_zero]

theorem bytes_eq (text : String) : bytes text = text.toList.flatMap String.utf8EncodeChar := by
  rw [bytes, toList_eq, String.toUTF8_eq_toByteArray, ← String.utf8Encode_toList,
    List.utf8Encode, List.toList_data_toByteArray]

theorem bytes_inj {text other : String} : bytes text = bytes other ↔ text = other := by
  refine ⟨fun h => ?_, congrArg bytes⟩
  rw [bytes_eq, bytes_eq] at h
  refine String.toByteArray_inj.mp ?_
  rw [← String.utf8Encode_toList, ← String.utf8Encode_toList, List.utf8Encode, List.utf8Encode, h]

@[simp] theorem bytes_append (text other : String) :
    bytes (text ++ other) = bytes text ++ bytes other := by
  rw [bytes_eq, bytes_eq, bytes_eq, String.toList_append, List.flatMap_append]

theorem bytes_ne_nil {text : String} (h : text ≠ "") : bytes text ≠ [] :=
  fun hnil => h (bytes_inj.mp (hnil.trans (bytes_eq "").symm))

/-- The bytes of a character that is no control character. -/
theorem printable_utf8EncodeChar {c : Char} (h : ' ' ≤ c) :
    ∀ byte ∈ String.utf8EncodeChar c, 32 ≤ byte.toNat := by
  have hcode : 32 ≤ c.val.toNat := h
  have hbyte {n k : Nat} (hk : 32 ≤ k ∧ k < 256) (hn : n = k) : 32 ≤ (UInt8.ofNat n).toNat := by
    rw [UInt8.toNat_ofNat', hn, Nat.mod_eq_of_lt hk.2]
    exact hk.1
  intro byte hmem
  unfold String.utf8EncodeChar at hmem
  dsimp only at hmem
  split_ifs at hmem <;> simp only [List.mem_cons, List.not_mem_nil, or_false] at hmem
  · rw [hmem]
    exact hbyte (by omega) rfl
  · rcases hmem with rfl | rfl <;> exact hbyte (by omega) rfl
  · rcases hmem with rfl | rfl | rfl <;> exact hbyte (by omega) rfl
  · rcases hmem with rfl | rfl | rfl | rfl <;> exact hbyte (by omega) rfl

theorem printable_bytes {text : String} (h : Printable text.toList) :
    ∀ byte ∈ bytes text, 32 ≤ byte.toNat := by
  intro byte hbyte
  rw [bytes_eq, List.mem_flatMap] at hbyte
  obtain ⟨c, hc, hmem⟩ := hbyte
  exact printable_utf8EncodeChar (h c hc) byte hmem

theorem Printable.of_subset {text other : List Char} (h : Printable other) (hsub : text ⊆ other) :
    Printable text :=
  fun c hc => h c (hsub hc)

end RootLake.Text
