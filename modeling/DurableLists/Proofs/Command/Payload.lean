import DurableLists.Record
import DurableLists.Proofs.Text.Decimal
import DurableLists.Proofs.Text.Utf8
import DurableLists.Proofs.IndexSet

/-!
# Reading commands back

A command is read back from its two fields (`decode_encode`): numbers hold no separator, so a value field
is split where its number ends and a key field where its number begins, whatever the key and the value
hold. The one bound is on the number of positions in an index set, which 64 bits have to hold, as they do
the length of every list in memory; a longer set is not read back, though no other has its payload
(`payload_determines`).
-/

set_option autoImplicit false

namespace DurableLists

namespace Payload

theorem separator_notMem_render (i : Int) : separator ∉ Decimal.render i := by
  intro h
  have hb := Decimal.mem_render h
  have hseparator : separator.toNat = 124 := rfl
  omega

theorem splitFirst_append {front : Bytes} (after : Bytes) (h : separator ∉ front) :
    splitFirst (front ++ separator :: after) = some (front, after) := by
  have hfront : ∀ b ∈ front, (b != separator) = true := by
    intro b hb
    exact bne_iff_ne.mpr fun e => h (e ▸ hb)
  have hstop : (separator != separator) = false := bne_self_eq_false separator
  have hdrop : (front ++ separator :: after).dropWhile (· != separator) = separator :: after := by
    rw [List.dropWhile_append_of_pos hfront, List.dropWhile_cons, hstop]
    rfl
  have htake : (front ++ separator :: after).takeWhile (· != separator) = front := by
    rw [List.takeWhile_append_of_pos hfront, List.takeWhile_cons, hstop]
    exact List.append_nil front
  rw [splitFirst, hdrop, htake]

theorem splitLast_append (front : Bytes) {after : Bytes} (h : separator ∉ after) :
    splitLast (front ++ separator :: after) = some (front, after) := by
  have hreverse : (front ++ separator :: after).reverse =
      after.reverse ++ separator :: front.reverse := by
    simp
  rw [splitLast, hreverse, splitFirst_append _ (by simpa using h)]
  simp

theorem decode_render (i : Int) : ∃ text, Utf8.decode (Decimal.render i) = .ok text := by
  refine Utf8.decode_ascii _ fun b hb => ?_
  have hn := Decimal.mem_render hb
  rw [UInt8.lt_iff_toNat_lt]
  have hlimit : (128 : UInt8).toNat = 128 := rfl
  omega

theorem readInt64_render (i : Int64) : readInt64 (Decimal.render i.toInt) = .ok i := by
  obtain ⟨text, htext⟩ := decode_render i.toInt
  rw [readInt64, readNumber, htext, Decimal.readInt64_render]

theorem readUInt32_render (n : UInt32) : readUInt32 (Decimal.render n.toNat) = .ok n := by
  obtain ⟨text, htext⟩ := decode_render n.toNat
  rw [readUInt32, readNumber, htext, Decimal.readUInt32_render]

theorem readKeyed_joinInt (key : Bytes) (i : Int64) :
    readKeyed (joinInt key separator i) = .ok (key, i) := by
  rw [readKeyed, joinInt, splitLast_append key (separator_notMem_render i.toInt)]
  simp only [readInt64_render, Except.map]

theorem readIndexSet_encode_iff (indexes : List Int64) :
    readIndexSet (IndexSet.encode indexes) = .ok indexes ↔ indexes.length < 2 ^ 64 := by
  rw [← IndexSet.decode_encode_iff, readIndexSet]
  cases IndexSet.decode (IndexSet.encode indexes) with
  | error fault => exact ⟨nofun, nofun⟩
  | ok found => simp only [Except.ok.injEq]

end Payload

namespace Command

/-- The positions that a command names. -/
def indexes : Command → List Int64
  | .removeAt _ indexes => indexes
  | .push .. | .pop .. | .remove .. | .replace .. | .trim .. | .expire .. | .delete _ => []

theorem length_indexes_le (command : Command) : command.indexes.length ≤ command.encode.2.length := by
  cases command with
  | removeAt key indexes => exact Nat.le_of_lt (IndexSet.length_lt_length_encode indexes)
  | _ => exact Nat.zero_le _

theorem decode_encode {command : Command} (h : command.indexes.length < 2 ^ 64) :
    decode command.kind command.encode.1 command.encode.2 = .ok command := by
  cases command with
  | push side key value => rfl
  | pop side key value => rfl
  | remove key count value =>
    simp only [decode, encode, kind,
      Payload.splitFirst_append value (Payload.separator_notMem_render count.toInt),
      Payload.readInt64_render, Except.map]
  | replace key index value =>
    simp only [decode, encode, kind, Payload.readKeyed_joinInt, Except.map]
  | trim key start stop =>
    simp only [decode, encode, kind, Payload.readKeyed_joinInt, Payload.readInt64_render, bind,
      Except.bind, pure, Except.pure]
  | removeAt key indexes =>
    have hread := (Payload.readIndexSet_encode_iff indexes).mpr h
    simp only [decode, encode, kind, hread, Except.map]
  | expire key ttl =>
    simp only [decode, encode, kind, Payload.readUInt32_render, Except.map]
  | delete key => rfl

theorem length_indexes_of_decode {command : Command}
    (h : decode command.kind command.encode.1 command.encode.2 = .ok command) :
    command.indexes.length < 2 ^ 64 := by
  cases command with
  | removeAt key indexes =>
    simp only [decode, encode, kind] at h
    cases hread : Payload.readIndexSet (IndexSet.encode indexes) with
    | error e =>
      rw [hread] at h
      cases h
    | ok found =>
      rw [hread] at h
      cases h
      exact (Payload.readIndexSet_encode_iff indexes).mp hread
  | _ => exact Nat.two_pow_pos 64

theorem eq_of_encode {command other : Command} (hkind : other.kind = command.kind)
    (hencode : other.encode = command.encode) : other = command := by
  by_cases hpositions : command.kind = .removeAt
  · -- An index set that is too long to be read back still is the only one with its payload.
    rw [hpositions] at hkind
    cases command <;> cases hpositions
    cases other <;> cases hkind
    obtain ⟨rfl, hindexes⟩ := Prod.mk.inj hencode
    rw [IndexSet.eq_of_encode hindexes]
  · have hread {c : Command} (hc : c.kind ≠ .removeAt) : decode c.kind c.encode.1 c.encode.2 = .ok c := by
      refine decode_encode ?_
      cases c with
      | removeAt => exact absurd rfl hc
      | _ => exact Nat.two_pow_pos 64
    have hother := hread (hkind ▸ hpositions : other.kind ≠ .removeAt)
    rw [hkind, hencode, hread hpositions] at hother
    exact (Except.ok.inj hother).symm

/-- A command is read back from its fields, and from its record in any bucket and at any second, exactly if 64 bits
hold the number of its positions. Whatever that number is, no other command of the kind has the same fields. -/
theorem payload_determines (command : Command) (bucket : String) (timestamp : UInt64) :
    (decode command.kind command.encode.1 command.encode.2 = .ok command ↔
        command.indexes.length < 2 ^ 64) ∧
      ((Record.ofCommand bucket command timestamp).command = .ok command ↔
        command.indexes.length < 2 ^ 64) ∧
      ∀ other : Command, other.kind = command.kind ∧ other.encode = command.encode ↔ other = command := by
  have hread : decode command.kind command.encode.1 command.encode.2 = .ok command ↔
      command.indexes.length < 2 ^ 64 := ⟨length_indexes_of_decode, decode_encode⟩
  refine ⟨hread, hread, fun other => ?_⟩
  constructor
  · rintro ⟨hkind, hencode⟩
    exact eq_of_encode hkind hencode
  · rintro rfl
    exact ⟨rfl, rfl⟩

-- The key `k|7` ends like a number behind a separator.
example : decode .trim [107, 124, 55, 124, 45, 57] [51] = .ok (.trim [107, 124, 55] (-9) 3) := by
  cbv

end Command

end DurableLists
