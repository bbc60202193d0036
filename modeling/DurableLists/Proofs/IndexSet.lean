import DurableLists.IndexSet
import DurableLists.Bytes.Lemmas

/-!
# Reading a set of positions back

A number is read back from its narrowest form up to multiples of `2 ^ 64` and leaves what follows it
(`Varint.read_write_append`). So a list of positions is read back from its payload if there are fewer than
`2 ^ 64` of them, and only then (`decode_encode_iff`). However many there are, no other list has the same
payload (`eq_of_encode`), as the code of a position tells where it ends.
-/

set_option autoImplicit false

namespace DurableLists

namespace Varint

theorem readFixed_toLE_append (w n : Nat) (rest : Bytes) :
    readFixed w (Bytes.toLE w n ++ rest) = .ok (n % 256 ^ w, rest) := by
  have htake : (Bytes.toLE w n ++ rest).take w = Bytes.toLE w n :=
    List.take_left' (Bytes.length_toLE w n)
  have hdrop : (Bytes.toLE w n ++ rest).drop w = rest := List.drop_left' (Bytes.length_toLE w n)
  simp only [readFixed, htake, hdrop, Bytes.length_toLE, if_true, Bytes.ofLE_toLE]

theorem read_write_append (signed : Bool) (n : Nat) (rest : Bytes) :
    read signed (write n ++ rest) = .ok (n % 2 ^ 64, rest) := by
  have h16 : UInt16.size = 256 ^ 2 := rfl
  have h32 : UInt32.size = 256 ^ 4 := rfl
  rw [write]
  split
  · rename_i hsmall
    have hn : (UInt8.ofNat n).toNat = n := by
      rw [UInt8.toNat_ofNat']
      omega
    have hle : UInt8.ofNat n ≤ 250 := by
      rw [UInt8.le_iff_toNat_le, hn]
      exact hsmall
    rw [List.singleton_append, read, if_pos hle, hn, Nat.mod_eq_of_lt (by omega)]
  · split
    · have hfits : n % 2 ^ 64 = n % 256 ^ 2 := by omega
      rw [hfits]
      exact readFixed_toLE_append 2 n rest
    · split
      · have hfits : n % 2 ^ 64 = n % 256 ^ 4 := by omega
        rw [hfits]
        exact readFixed_toLE_append 4 n rest
      · exact readFixed_toLE_append 8 n rest

theorem zigzag_lt (i : Int64) : zigzag i.toInt < 2 ^ 64 := by
  have hmax := Int64.toInt_lt i
  have hmin := Int64.le_toInt i
  cases hi : i.toInt with
  | ofNat n =>
    rw [hi] at hmax
    have hn : (n : Int) < 2 ^ 63 := hmax
    simp only [zigzag]
    omega
  | negSucc n =>
    rw [hi] at hmin
    have hn : -(2 ^ 63 : Int) ≤ Int.negSucc n := hmin
    simp only [zigzag]
    omega

theorem readInt64_writeInt64_append (i : Int64) (rest : Bytes) :
    readInt64 (writeInt64 i ++ rest) = .ok (i, rest) := by
  rw [readInt64, writeInt64, read_write_append, Nat.mod_eq_of_lt (zigzag_lt i)]
  simp only [Except.map, unzigzag_zigzag, Int64.ofInt_toInt]

theorem writeInt64_append_inj {i j : Int64} {rest rest' : Bytes}
    (h : writeInt64 i ++ rest = writeInt64 j ++ rest') : i = j ∧ rest = rest' := by
  have hread := congrArg readInt64 h
  rw [readInt64_writeInt64_append, readInt64_writeInt64_append] at hread
  cases hread
  exact ⟨rfl, rfl⟩

theorem write_ne_nil (n : Nat) : write n ≠ [] := by
  rw [write]
  split
  · simp
  · split
    · simp
    · split <;> simp

end Varint

namespace IndexSet

theorem readItems_flatMap_append (indexes : List Int64) (rest : Bytes) :
    readItems indexes.length (indexes.flatMap Varint.writeInt64 ++ rest) = .ok (indexes, rest) := by
  induction indexes with
  | nil => rfl
  | cons index indexes ih =>
    rw [List.length_cons, List.flatMap_cons, List.append_assoc, readItems,
      Varint.readInt64_writeInt64_append]
    simp only [bind, Except.bind, ih, pure, Except.pure]

theorem length_of_readItems {count : Nat} {bs rest : Bytes} {indexes : List Int64}
    (h : readItems count bs = .ok (indexes, rest)) : indexes.length = count := by
  induction count generalizing bs indexes with
  | zero =>
    cases h
    rfl
  | succ count ih =>
    simp only [readItems, bind, Except.bind] at h
    split at h
    · cases h
    · split at h
      · cases h
      · rename_i hrest
        cases h
        rw [List.length_cons, ih hrest]

theorem read_encode (indexes : List Int64) :
    read (encode indexes) = readItems (indexes.length % 2 ^ 64) (indexes.flatMap Varint.writeInt64) := by
  rw [read, encode, Varint.read_write_append]
  rfl

/-- What has been read has as many positions as the payload says, and that is a number of 64 bits. -/
theorem decode_encode_iff (indexes : List Int64) :
    decode (encode indexes) = .ok indexes ↔ indexes.length < 2 ^ 64 := by
  rw [decode, read_encode]
  constructor
  · intro h
    split at h
    · cases h
    · rename_i hitems
      cases h
      rw [length_of_readItems hitems]
      exact Nat.mod_lt _ (by decide)
    · cases h
  · intro h
    have hitems := readItems_flatMap_append indexes []
    rw [List.append_nil] at hitems
    rw [Nat.mod_eq_of_lt h, hitems]

theorem eq_of_flatMap_writeInt64 {indexes others : List Int64}
    (h : indexes.flatMap Varint.writeInt64 = others.flatMap Varint.writeInt64) : indexes = others := by
  induction indexes generalizing others with
  | nil =>
    cases others with
    | nil => rfl
    | cons other others => exact absurd (List.append_eq_nil_iff.mp h.symm).1 (Varint.write_ne_nil _)
  | cons index indexes ih =>
    cases others with
    | nil => exact absurd (List.append_eq_nil_iff.mp h).1 (Varint.write_ne_nil _)
    | cons other others =>
      obtain ⟨rfl, hrest⟩ := Varint.writeInt64_append_inj h
      rw [ih hrest]

theorem eq_of_encode {indexes others : List Int64} (h : encode indexes = encode others) : indexes = others := by
  have hread := congrArg (Varint.read false) h
  rw [encode, encode, Varint.read_write_append, Varint.read_write_append] at hread
  exact eq_of_flatMap_writeInt64 (Prod.mk.inj (Except.ok.inj hread)).2

theorem length_lt_length_encode (indexes : List Int64) : indexes.length < (encode indexes).length := by
  have hcount : 0 < (Varint.write indexes.length).length :=
    List.length_pos_iff.mpr (Varint.write_ne_nil indexes.length)
  have hitems : indexes.length ≤ (indexes.flatMap Varint.writeInt64).length := by
    induction indexes with
    | nil => exact Nat.zero_le _
    | cons index indexes ih =>
      have hitem : 0 < (Varint.writeInt64 index).length :=
        List.length_pos_iff.mpr (Varint.write_ne_nil _)
      have hrest := ih (List.length_pos_iff.mpr (Varint.write_ne_nil indexes.length))
      rw [List.flatMap_cons, List.length_append, List.length_cons]
      omega
  rw [encode, List.length_append]
  omega

end IndexSet

end DurableLists
