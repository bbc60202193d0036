import Mathlib
import DurableLists.Proofs.Command.Payload
import DurableLists.Proofs.Text.Literal

/-!
# The grammar of payloads

`Command.Written` says of each kind which key fields and value fields stand for which command. Reading accepts these
and nothing else, every failure is one of a malformed record, and a command that has been read is read back from the
fields that it is written as (`Command.decode_accepts`).

The grammar is wider than what is ever written: literals may have a plus sign and leading zeros, numbers of a set of
positions may be coded wider than they need, and a deletion may have a value.
-/

set_option autoImplicit false

namespace DurableLists

/-! ## Numbers of variable width -/

namespace Varint

/-- A code of a number: one octet up to 250, or a marker octet and the number in two, four or eight octets. -/
inductive Code : Bytes → Nat → Prop where
  | octet {b : UInt8} (small : b ≤ 250) : Code [b] b.toNat
  | two {field : Bytes} (width : field.length = 2) : Code (0xFB :: field) (Bytes.ofLE field)
  | four {field : Bytes} (width : field.length = 4) : Code (0xFC :: field) (Bytes.ofLE field)
  | eight {field : Bytes} (width : field.length = 8) : Code (0xFD :: field) (Bytes.ofLE field)

variable {bs rest code : Bytes} {n width : Nat} {signed : Bool} {i : Int64}

theorem readFixed_eq_ok_iff : readFixed width bs = .ok (n, rest) ↔
    ∃ field, field.length = width ∧ bs = field ++ rest ∧ Bytes.ofLE field = n := by
  rw [readFixed]
  constructor
  · intro h
    split at h
    · rename_i hwidth
      cases h
      exact ⟨bs.take width, hwidth, (List.take_append_drop width bs).symm, rfl⟩
    · cases h
  · rintro ⟨field, rfl, rfl, rfl⟩
    simp

theorem Code.lt (h : Code code n) : n < 2 ^ 64 := by
  have hfield {field : Bytes} {width : Nat} (hwidth : field.length = width) (hle : width ≤ 8) :
      Bytes.ofLE field < 2 ^ 64 := by
    have hlt := Bytes.ofLE_lt field
    have hpow : 256 ^ field.length ≤ 256 ^ 8 := Nat.pow_le_pow_right (by decide) (by omega)
    have hsize : 256 ^ 8 = 2 ^ 64 := by decide
    omega
  cases h with
  | @octet b small =>
    have hb := b.toNat_lt
    omega
  | two width => exact hfield width (by decide)
  | four width => exact hfield width (by decide)
  | eight width => exact hfield width (by decide)

theorem read_eq_ok_iff : read signed bs = .ok (n, rest) ↔ ∃ code, Code code n ∧ bs = code ++ rest := by
  constructor
  · intro h
    have hwide {marker : UInt8} {width : Nat} {bs : Bytes} (h : readFixed width bs = .ok (n, rest))
        (hcode : ∀ field : Bytes, field.length = width → Code (marker :: field) (Bytes.ofLE field)) :
        ∃ code, Code code n ∧ marker :: bs = code ++ rest := by
      obtain ⟨field, hwidth, rfl, rfl⟩ := readFixed_eq_ok_iff.mp h
      exact ⟨marker :: field, hcode field hwidth, rfl⟩
    rw [read.eq_def] at h
    split at h
    · cases h
    · split at h
      · rename_i hsmall
        cases h
        exact ⟨_, .octet hsmall, rfl⟩
      · split at h
        · rename_i hmarker
          subst hmarker
          exact hwide h fun _ => .two
        · split at h
          · rename_i hmarker
            subst hmarker
            exact hwide h fun _ => .four
          · split at h
            · rename_i hmarker
              subst hmarker
              exact hwide h fun _ => .eight
            · cases h
  · rintro ⟨code, hcode, rfl⟩
    cases hcode with
    | octet small =>
      rw [List.singleton_append, read, if_pos small]
    | two width => exact readFixed_eq_ok_iff.mpr ⟨_, width, rfl, rfl⟩
    | four width => exact readFixed_eq_ok_iff.mpr ⟨_, width, rfl, rfl⟩
    | eight width => exact readFixed_eq_ok_iff.mpr ⟨_, width, rfl, rfl⟩

theorem le_unzigzag (h : n < 2 ^ 64) : -2 ^ 63 ≤ unzigzag n := by
  rw [unzigzag]
  split
  · rw [Int.ofNat_eq_natCast]
    omega
  · rw [Int.negSucc_eq]
    omega

theorem unzigzag_lt (h : n < 2 ^ 64) : unzigzag n < 2 ^ 63 := by
  rw [unzigzag]
  split
  · rw [Int.ofNat_eq_natCast]
    omega
  · rw [Int.negSucc_eq]
    omega

/-- A signed number is coded as its zigzag number is. -/
theorem readInt64_eq_ok_iff : readInt64 bs = .ok (i, rest) ↔
    ∃ code, Code code (zigzag i.toInt) ∧ bs = code ++ rest := by
  rw [readInt64, map_eq_ok_iff]
  constructor
  · rintro ⟨⟨n, after⟩, hread, hi⟩
    obtain ⟨code, hcode, rfl⟩ := read_eq_ok_iff.mp hread
    cases hi
    refine ⟨code, ?_, rfl⟩
    have hlt := hcode.lt
    rw [Int64.toInt_ofInt_of_le (le_unzigzag hlt) (unzigzag_lt hlt), zigzag_unzigzag]
    exact hcode
  · rintro ⟨code, hcode, rfl⟩
    refine ⟨(zigzag i.toInt, rest), read_eq_ok_iff.mpr ⟨code, hcode, rfl⟩, ?_⟩
    rw [unzigzag_zigzag, Int64.ofInt_toInt]

end Varint

/-! ## Sets of positions -/

namespace IndexSet

/-- Codes that stand for positions, one after another. -/
def Codes (codes : List Bytes) (indexes : List Int64) : Prop :=
  List.Forall₂ (fun code (index : Int64) => Varint.Code code (Varint.zigzag index.toInt)) codes indexes

/-- Octets that stand for a list of positions: a code of how many there are, then a code of each, then nothing. -/
def Payload (bs : Bytes) (indexes : List Int64) : Prop :=
  ∃ count codes, Varint.Code count indexes.length ∧ Codes codes indexes ∧ bs = count ++ codes.flatten

variable {bs rest : Bytes} {indexes : List Int64} {n : Nat}

theorem readItems_eq_ok_iff : readItems n bs = .ok (indexes, rest) ↔
    indexes.length = n ∧ ∃ codes, Codes codes indexes ∧ bs = codes.flatten ++ rest := by
  induction n generalizing bs indexes with
  | zero =>
    rw [readItems, Except.ok.injEq, Prod.mk.injEq]
    constructor
    · rintro ⟨rfl, rfl⟩
      exact ⟨rfl, [], .nil, rfl⟩
    · rintro ⟨hlength, codes, hcodes, rfl⟩
      obtain rfl := List.eq_nil_of_length_eq_zero hlength
      cases hcodes
      exact ⟨rfl, rfl⟩
  | succ n ih =>
    rw [readItems, bind_eq_ok_iff]
    constructor
    · rintro ⟨⟨index, middle⟩, hread, h⟩
      obtain ⟨⟨others, last⟩, hothers, h⟩ := bind_eq_ok_iff.mp h
      cases h
      obtain ⟨code, hcode, rfl⟩ := Varint.readInt64_eq_ok_iff.mp hread
      obtain ⟨rfl, codes, hcodes, rfl⟩ := ih.mp hothers
      exact ⟨rfl, code :: codes, .cons hcode hcodes, (List.append_assoc ..).symm⟩
    · rintro ⟨hlength, codes, hcodes, rfl⟩
      cases hcodes with
      | nil => cases hlength
      | @cons code index codes others hcode hcodes =>
        refine ⟨(index, codes.flatten ++ rest), Varint.readInt64_eq_ok_iff.mpr ⟨code, hcode, ?_⟩, ?_⟩
        · rw [List.flatten_cons, List.append_assoc]
        · have hothers := ih.mpr ⟨Nat.succ.inj hlength, codes, hcodes, rfl⟩
          exact bind_eq_ok_iff.mpr ⟨(others, rest), hothers, rfl⟩

theorem decode_eq_ok_iff : decode bs = .ok indexes ↔ Payload bs indexes := by
  have hread : decode bs = .ok indexes ↔ read bs = .ok (indexes, []) := by
    rw [decode]
    split
    · rename_i hread
      rw [hread]
      simp
    · rename_i hread
      rw [hread]
      simp
    · rename_i hrest hread
      rw [hread]
      constructor
      · intro h
        cases h
      · intro h
        cases h
        exact absurd rfl hrest
  rw [hread, read, bind_eq_ok_iff]
  constructor
  · rintro ⟨⟨n, after⟩, hcount, hitems⟩
    obtain ⟨count, hcode, rfl⟩ := Varint.read_eq_ok_iff.mp hcount
    obtain ⟨rfl, codes, hcodes, rfl⟩ := readItems_eq_ok_iff.mp hitems
    exact ⟨count, codes, hcode, hcodes, by rw [List.append_nil]⟩
  · rintro ⟨count, codes, hcode, hcodes, rfl⟩
    refine ⟨(indexes.length, codes.flatten), Varint.read_eq_ok_iff.mpr ⟨count, hcode, rfl⟩, ?_⟩
    exact readItems_eq_ok_iff.mpr ⟨rfl, codes, hcodes, (List.append_nil _).symm⟩

end IndexSet

/-! ## Fields -/

namespace Payload

variable {field front after : Bytes}

theorem splitFirst_eq_some_iff : splitFirst field = some (front, after) ↔
    separator ∉ front ∧ field = front ++ separator :: after := by
  constructor
  · intro h
    rw [splitFirst] at h
    split at h
    · cases h
    · rename_i b rest hrest
      cases h
      have hsplit := List.takeWhile_append_dropWhile (p := (· != separator)) (l := field)
      have hstop : (b != separator) = false := by
        have hhead := List.head_dropWhile_not (· != separator) (ne_of_eq_of_ne hrest (List.cons_ne_nil b _))
        simpa only [hrest, List.head_cons, Bool.not_eq_true] using hhead
      have hb : b = separator := by simpa using hstop
      refine ⟨fun hmem => ?_, ?_⟩
      · simpa using List.mem_takeWhile_imp hmem
      · rw [hrest, hb] at hsplit
        exact hsplit.symm
  · rintro ⟨hfront, rfl⟩
    exact splitFirst_append after hfront

theorem splitLast_eq_some_iff : splitLast field = some (front, after) ↔
    separator ∉ after ∧ field = front ++ separator :: after := by
  constructor
  · intro h
    obtain ⟨⟨before, behind⟩, hsplit, hfields⟩ := Option.map_eq_some_iff.mp h
    obtain ⟨hbefore, hfield⟩ := splitFirst_eq_some_iff.mp hsplit
    cases hfields
    refine ⟨by simpa using hbefore, ?_⟩
    rw [← List.reverse_inj, hfield]
    simp
  · rintro ⟨hafter, rfl⟩
    exact splitLast_append front hafter

/-- A literal is text, so reading it as a number needs no more than that it is one. -/
theorem readNumber_eq_ok_iff {α : Type} {reader : Bytes → Except Decimal.Fault α} {v : α} {signed : Bool} {i : Int}
    (hreader : reader field = .ok v ↔ Decimal.Literal signed field i) :
    readNumber reader field = .ok v ↔ Decimal.Literal signed field i := by
  rw [readNumber]
  cases htext : Utf8.decode field with
  | error fault =>
    constructor
    · intro h
      cases h
    · intro h
      obtain ⟨text, hdecode⟩ := Utf8.decode_ascii field fun b hb => by
        rw [UInt8.lt_iff_toNat_lt]
        have hlimit : (128 : UInt8).toNat = 128 := rfl
        rcases h.mem hb with rfl | rfl | hdigit
        · decide
        · decide
        · have hhigh := hdigit.2
          omega
      rw [hdecode] at htext
      cases htext
  | ok text =>
    rw [← hreader]
    cases reader field <;> simp

theorem readInt64_eq_ok_iff {v : Int64} : readInt64 field = .ok v ↔ Decimal.Literal true field v.toInt :=
  readNumber_eq_ok_iff Decimal.readInt64_eq_ok_iff

theorem readUInt32_eq_ok_iff {v : UInt32} : readUInt32 field = .ok v ↔ Decimal.Literal false field v.toNat :=
  readNumber_eq_ok_iff Decimal.readUInt32_eq_ok_iff

/-- A key field that is a key, the separator and a literal, which stands behind the last separator. -/
def Keyed (field key : Bytes) (v : Int64) : Prop :=
  ∃ number, separator ∉ number ∧ Decimal.Literal true number v.toInt ∧ field = key ++ separator :: number

theorem readKeyed_eq_ok_iff {key : Bytes} {v : Int64} : readKeyed field = .ok (key, v) ↔ Keyed field key v := by
  rw [readKeyed]
  constructor
  · intro h
    split at h
    · cases h
    · rename_i front number hsplit
      obtain ⟨v, hnumber, hfields⟩ := map_eq_ok_iff.mp h
      cases hfields
      obtain ⟨hnone, hfield⟩ := splitLast_eq_some_iff.mp hsplit
      exact ⟨number, hnone, readInt64_eq_ok_iff.mp hnumber, hfield⟩
  · rintro ⟨number, hnone, hliteral, hfield⟩
    rw [splitLast_eq_some_iff.mpr ⟨hnone, hfield⟩]
    exact map_eq_ok_iff.mpr ⟨v, readInt64_eq_ok_iff.mpr hliteral, rfl⟩

theorem readIndexSet_eq_ok_iff {indexes : List Int64} :
    readIndexSet field = .ok indexes ↔ IndexSet.Payload field indexes := by
  rw [readIndexSet, ← IndexSet.decode_eq_ok_iff]
  cases IndexSet.decode field <;> simp

/-! ## Failures -/

variable {α : Type} {e : Error}

theorem kind_of_readNumber_error {reader : Bytes → Except Decimal.Fault α} (h : readNumber reader field = .error e) :
    e.kind = .malformedRecord := by
  rw [readNumber] at h
  split at h
  · cases h
    rfl
  · split at h <;> cases h
    rfl

theorem kind_of_readKeyed_error (h : readKeyed field = .error e) : e.kind = .malformedRecord := by
  rw [readKeyed] at h
  split at h
  · cases h
    rfl
  · exact kind_of_readNumber_error (map_eq_error_iff.mp h)

theorem kind_of_readIndexSet_error (h : readIndexSet field = .error e) : e.kind = .malformedRecord := by
  rw [readIndexSet] at h
  split at h
  · rename_i fault _
    cases h
    cases fault <;> rfl
  · cases h

end Payload

/-! ## Commands -/

namespace Command

/-- Which fields stand for a command of a kind. -/
inductive Written : Kind → Bytes → Bytes → Command → Prop where
  | push (side : Side) (key value : Bytes) : Written (.push side) key value (.push side key value)
  | pop (side : Side) (key value : Bytes) : Written (.pop side) key value (.pop side key value)
  /-- The count stands before the first separator, and may be followed by more of them. -/
  | remove {key number value : Bytes} {count : Int64} (first : separator ∉ number)
      (literal : Decimal.Literal true number count.toInt) :
      Written .remove key (number ++ separator :: value) (.remove key count value)
  | replace {field key value : Bytes} {index : Int64} (keyed : Payload.Keyed field key index) :
      Written .replace field value (.replace key index value)
  | trim {field key value : Bytes} {start stop : Int64} (keyed : Payload.Keyed field key start)
      (literal : Decimal.Literal true value stop.toInt) : Written .trim field value (.trim key start stop)
  | removeAt {key value : Bytes} {indexes : List Int64} (payload : IndexSet.Payload value indexes) :
      Written .removeAt key value (.removeAt key indexes)
  | expire {key value : Bytes} {ttl : UInt32} (literal : Decimal.Literal false value ttl.toNat) :
      Written .expire key value (.expire key ttl)
  | delete (key value : Bytes) : Written .delete key value (.delete key)

variable {kind : Kind} {key value : Bytes} {command : Command} {e : Error}

theorem written_of_decode (h : decode kind key value = .ok command) : Written kind key value command := by
  cases kind with
  | push side =>
    cases h
    exact .push side key value
  | pop side =>
    cases h
    exact .pop side key value
  | remove =>
    rw [decode] at h
    split at h
    · cases h
    · rename_i number rest hsplit
      obtain ⟨count, hcount, hcommand⟩ := map_eq_ok_iff.mp h
      obtain ⟨hfirst, hvalue⟩ := Payload.splitFirst_eq_some_iff.mp hsplit
      rw [← hcommand, hvalue]
      exact .remove hfirst (Payload.readInt64_eq_ok_iff.mp hcount)
  | replace =>
    obtain ⟨⟨front, index⟩, hkeyed, hcommand⟩ := map_eq_ok_iff.mp h
    rw [← hcommand]
    exact .replace (Payload.readKeyed_eq_ok_iff.mp hkeyed)
  | trim =>
    obtain ⟨⟨front, start⟩, hkeyed, hrest⟩ := bind_eq_ok_iff.mp h
    obtain ⟨stop, hstop, hcommand⟩ := bind_eq_ok_iff.mp hrest
    cases hcommand
    exact .trim (Payload.readKeyed_eq_ok_iff.mp hkeyed) (Payload.readInt64_eq_ok_iff.mp hstop)
  | removeAt =>
    obtain ⟨indexes, hindexes, hcommand⟩ := map_eq_ok_iff.mp h
    rw [← hcommand]
    exact .removeAt (Payload.readIndexSet_eq_ok_iff.mp hindexes)
  | expire =>
    obtain ⟨ttl, httl, hcommand⟩ := map_eq_ok_iff.mp h
    rw [← hcommand]
    exact .expire (Payload.readUInt32_eq_ok_iff.mp httl)
  | delete =>
    cases h
    exact .delete key value

theorem Written.decode (h : Written kind key value command) : decode kind key value = .ok command := by
  cases h with
  | push side key value => rfl
  | pop side key value => rfl
  | remove first literal =>
    rw [Command.decode, Payload.splitFirst_append _ first]
    exact map_eq_ok_iff.mpr ⟨_, Payload.readInt64_eq_ok_iff.mpr literal, rfl⟩
  | replace keyed => exact map_eq_ok_iff.mpr ⟨(_, _), Payload.readKeyed_eq_ok_iff.mpr keyed, rfl⟩
  | trim keyed literal =>
    refine bind_eq_ok_iff.mpr ⟨(_, _), Payload.readKeyed_eq_ok_iff.mpr keyed, ?_⟩
    exact bind_eq_ok_iff.mpr ⟨_, Payload.readInt64_eq_ok_iff.mpr literal, rfl⟩
  | removeAt payload => exact map_eq_ok_iff.mpr ⟨_, Payload.readIndexSet_eq_ok_iff.mpr payload, rfl⟩
  | expire literal => exact map_eq_ok_iff.mpr ⟨_, Payload.readUInt32_eq_ok_iff.mpr literal, rfl⟩
  | delete key value => rfl

theorem Written.kind_eq (h : Written kind key value command) : command.kind = kind := by
  cases h <;> rfl

/-- Positions that have been read are no more than the code of their number can say. -/
theorem Written.length_indexes_lt (h : Written kind key value command) : command.indexes.length < 2 ^ 64 := by
  cases h with
  | removeAt payload =>
    obtain ⟨count, codes, hcount, -, -⟩ := payload
    exact hcount.lt
  | _ => exact Nat.two_pow_pos 64

theorem kind_of_decode_error (h : decode kind key value = .error e) : e.kind = .malformedRecord := by
  cases kind with
  | push side => cases h
  | pop side => cases h
  | remove =>
    rw [decode] at h
    split at h
    · cases h
      rfl
    · exact Payload.kind_of_readNumber_error (map_eq_error_iff.mp h)
  | replace => exact Payload.kind_of_readKeyed_error (map_eq_error_iff.mp h)
  | trim =>
    rcases bind_eq_error_iff.mp h with hkeyed | ⟨p, -, hrest⟩
    · exact Payload.kind_of_readKeyed_error hkeyed
    · rcases bind_eq_error_iff.mp hrest with hstop | ⟨stop, -, hdone⟩
      · exact Payload.kind_of_readNumber_error hstop
      · cases hdone
  | removeAt => exact Payload.kind_of_readIndexSet_error (map_eq_error_iff.mp h)
  | expire => exact Payload.kind_of_readNumber_error (map_eq_error_iff.mp h)
  | delete => cases h

/-- Of any octets, reading accepts the fields of the grammar and gives the command that they stand for; all others are
refused as a malformed record. What has been read is of the kind that was asked for, and is read back from the fields
that it is written as. -/
theorem decode_accepts (kind : Kind) (key value : Bytes) :
    (∀ command, decode kind key value = .ok command ↔ Written kind key value command) ∧
      (∀ e, decode kind key value = .error e → e.kind = .malformedRecord) ∧
      ∀ command, decode kind key value = .ok command →
        command.kind = kind ∧ decode command.kind command.encode.1 command.encode.2 = .ok command := by
  refine ⟨fun command => ⟨written_of_decode, Written.decode⟩, fun e => kind_of_decode_error, fun command h => ?_⟩
  have hwritten := written_of_decode h
  exact ⟨hwritten.kind_eq, decode_encode hwritten.length_indexes_lt⟩

-- A plus sign, leading zeros, and a value with separators of its own.
example : decode .remove [107] [43, 48, 55, 124, 97, 124] = .ok (.remove [107] 7 [97, 124]) := by
  cbv

end Command

end DurableLists
