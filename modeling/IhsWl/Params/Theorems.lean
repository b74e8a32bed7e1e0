import IhsWl.Params
import IhsWl.Lib.Runs
import Mathlib.Data.List.Induction

/-!
# Creation params decode what the codec encodes

Each reader reads back what its writer appended and fails where that is cut short, so a message cut anywhere decodes to
the entries it has whole.
-/

namespace IhsWl

open Decode

namespace Reader

theorem take_reads (b s : List UInt8) : Reads (take s.length) b (b ++ s) s where
  grows := List.prefix_append b s
  whole := by
    rintro bytes ⟨rest, rfl⟩
    simp [take]
  cut bytes h h' hlt := by
    have hle := h.length_le
    simp only [List.length_append] at hlt
    apply if_neg
    dsimp only
    omega

theorem u8_reads (b : List UInt8) (d : UInt8) : Reads u8 b (b ++ [d]) d := (take_reads b [d]).returns rfl

/-- The low bytes of a number are read back as it. -/
theorem take_leBytes (b : List UInt8) (k v : Nat) : Reads (take k) b (b ++ leBytes k v) (leBytes k v) := by
  have h := take_reads b (leBytes k v)
  rwa [length_leBytes] at h

theorem ofLe_leBytes_of_lt {k v : Nat} (hv : v < 256 ^ k) : ofLe (leBytes k v) = v := by
  rw [ofLe_leBytes, Nat.mod_eq_of_lt hv]

theorem size_reads (b : List UInt8) {n : Nat} (hn : n < 4_294_967_296) : Reads size b (writeSize b n) n := by
  unfold writeSize size
  split
  · rename_i hsmall
    refine (u8_reads b _).returns ?_
    have htoNat : (UInt8.ofNat n).toNat = n := by simp; omega
    simp [htoNat, hsmall]
  · split
    · rw [← List.singleton_append, ← List.append_assoc]
      refine (u8_reads b 254).bind ((take_leBytes _ 2 n).returns ?_)
      rw [ofLe_leBytes_of_lt (by omega)]
    · rw [← List.singleton_append, ← List.append_assoc]
      refine (u8_reads b 255).bind ((take_leBytes _ 4 n).returns ?_)
      rw [ofLe_leBytes_of_lt (by omega)]

theorem align_reads (b : List UInt8) (alignment : Nat) : Reads (align alignment) b (writeAlignment b alignment) () := by
  have h := take_reads b (List.replicate ((alignment - b.length % alignment) % alignment) 0)
  rw [List.length_replicate] at h
  exact (Reads.position b).bind (h.returns rfl)

theorem fromUTF8_toByteArray (s : String) : String.fromUTF8? s.toByteArray.data.toList.toByteArray = some s := by
  have hbytes : s.toByteArray.data.toList.toByteArray = s.toByteArray := by
    apply ByteArray.ext
    simp [List.data_toByteArray]
  simp only [hbytes, String.fromUTF8?]
  rw [dif_pos s.isValidUTF8]
  rfl

theorem length_string (s : String) : s.toByteArray.data.toList.length = s.utf8ByteSize := by
  rw [Array.length_toList, ByteArray.size_data, String.size_toByteArray]

theorem value_reads (b : List UInt8) {v : WireValue} (hv : v.Fits) : Reads value b (writeValue b v) v.toValue := by
  unfold value
  cases v with
  | null => exact (u8_reads b tNull).returns rfl
  | bool v =>
      cases v with
      | false => exact (u8_reads b tFalse).returns rfl
      | true => exact (u8_reads b tTrue).returns rfl
  | int32 i =>
      simp only [writeValue]
      rw [← List.singleton_append, ← List.append_assoc]
      refine (u8_reads b tInt32).bind ((take_leBytes _ 4 _).returns ?_)
      rw [ofLe_leBytes_of_lt i.toBitVec.isLt]
      simp [WireValue.toValue]
  | int64 i =>
      simp only [writeValue]
      rw [← List.singleton_append, ← List.append_assoc]
      refine (u8_reads b tInt64).bind ((take_leBytes _ 8 _).returns ?_)
      rw [ofLe_leBytes_of_lt i.toBitVec.isLt]
      simp [WireValue.toValue]
  | float64 bits =>
      simp only [writeValue]
      refine (u8_reads b tFloat64).bind ((align_reads _ 8).bind ((take_leBytes _ 8 _).returns ?_))
      rw [ofLe_leBytes_of_lt bits.toNat_lt]
      simp [WireValue.toValue]
  | string s =>
      simp only [writeValue, writeString]
      have hbytes := take_reads (writeSize (b ++ [tString]) s.utf8ByteSize) s.toByteArray.data.toList
      rw [length_string] at hbytes
      refine (u8_reads b tString).bind ((size_reads _ hv).bind (hbytes.returns ?_))
      rw [fromUTF8_toByteArray]
      rfl

/-- A key, and its value. -/
theorem entry_reads (b : List UInt8) {e : String × WireValue} (hkey : e.1.utf8ByteSize < 4_294_967_296)
    (hv : e.2.Fits) : Reads entry b (writeEntry b e) (e.1, e.2.toValue) := by
  have hfirst : Reads value b (writeString b e.1) (.string e.1) := value_reads b (v := .string e.1) hkey
  exact hfirst.bind ((value_reads _ hv).returns rfl)

/-- A value under another tag cannot be read. -/
theorem entry_unknown (b rest : List UInt8) (key : String) (tag : UInt8) (hkey : key.utf8ByteSize < 4_294_967_296)
    (htag : tag ∉ [tNull, tTrue, tFalse, tInt32, tInt64, tFloat64, tString]) :
    entry ⟨writeString b key ++ tag :: rest, b.length⟩ = none := by
  have hfirst : Reads value b (writeString b key) (.string key) := value_reads b (v := .string key) hkey
  have hvalue : value ⟨writeString b key ++ tag :: rest, (writeString b key).length⟩ = none := by
    unfold value
    rw [bind_apply, (u8_reads (writeString b key) tag).whole _ ⟨rest, by simp⟩]
    simp only [List.mem_cons, List.not_mem_nil, or_false, not_or] at htag
    simp [htag]
    rfl
  apply hfirst.bind_none ⟨_, rfl⟩
  dsimp only
  rw [bind_apply, hvalue]
  rfl

end Reader

/-! ## Maps -/

/-- The entries' values. -/
def toValues (entries : List (String × WireValue)) : List (String × Value) := entries.map fun e => (e.1, e.2.toValue)

/-- The map of entries, the last of equal keys winning. -/
def mapOf (entries : List (String × Value)) : ParamMap := entries.foldl ParamMap.insert fun _ => none

theorem mapOf_iff (entries : List (String × Value)) (key : String) (v : Value) :
    mapOf entries key = some v ↔ Runs.Since (· = (key, v)) (fun e => e.1 = key) entries := by
  induction entries using List.reverseRecOn with
  | nil => simp [mapOf]
  | append_singleton entries e ih =>
      obtain ⟨k, w⟩ := e
      rw [Runs.since_concat, ← ih, mapOf, List.foldl_concat, ← mapOf, ParamMap.insert, Function.update_apply]
      by_cases hk : k = key
      · simp [hk]
      · simp [hk, Ne.symm hk]

theorem decodeEntries_eq (n : Nat) (r : Reader) (out : ParamMap) :
    decodeEntries n r out = (items Reader.entry n r).foldl ParamMap.insert out := by
  induction n generalizing r out with
  | zero => rfl
  | succ n ih =>
      rw [decodeEntries, items]
      cases Reader.entry r with
      | none => rfl
      | some e => exact ih e.2 (out.insert e.1)

/-- A message with the tag and a count of entries decodes to the entries found. -/
theorem decodeMap_eq {n : Nat} (hn : n < 4_294_967_296) {bytes : List UInt8} (h : mapHead n <+: bytes) :
    decodeMap bytes = some (mapOf (items Reader.entry n ⟨bytes, (mapHead n).length⟩)) := by
  have hsize := Reader.size_reads [tMap] hn
  have htag : Reader.u8 ⟨bytes, 0⟩ = some (tMap, ⟨bytes, [tMap].length⟩) :=
    (Reader.u8_reads [] tMap).whole bytes (hsize.grows.trans h)
  rw [mapOf, ← decodeEntries_eq]
  simp only [decodeMap]
  rw [htag]
  simp only [Option.bind_eq_bind, Option.bind_some, ne_eq, not_true_eq_false, if_false]
  rw [hsize.whole bytes h]
  rfl

theorem written_reads {entries : List (String × WireValue)}
    (hfits : ∀ e ∈ entries, e.1.utf8ByteSize < 4_294_967_296 ∧ e.2.Fits) :
    ∀ e ∈ entries, ∀ b, Reads Reader.entry b (writeEntry b e) (e.1, e.2.toValue) :=
  fun e he b => Reader.entry_reads b (hfits e he).1 (hfits e he).2

/-- What follows the head of a message that has entries, and then whatever else, is those entries and what is found
there. -/
theorem decodeMap_written {entries : List (String × WireValue)} {n : Nat} {bytes : List UInt8}
    (hn : entries.length + n < 4_294_967_296)
    (hfits : ∀ e ∈ entries, e.1.utf8ByteSize < 4_294_967_296 ∧ e.2.Fits)
    (h : entries.foldl writeEntry (mapHead (entries.length + n)) <+: bytes) :
    decodeMap bytes = some (mapOf (toValues entries ++ items Reader.entry n
      ⟨bytes, (entries.foldl writeEntry (mapHead (entries.length + n))).length⟩)) := by
  have hread := written_reads hfits
  have hhead := (prefix_foldl (fun e he b => (hread e he b).grows) (mapHead (entries.length + n))).trans h
  rw [decodeMap_eq hn hhead, items_written hread h]
  rfl

/-- The head of a message of `n` entries, and the entries of it before the one whose value is of a type that is not
decoded. -/
def encodeUpTo (n : Nat) (entries : List (String × WireValue)) (key : String) : List UInt8 :=
  writeString (entries.foldl writeEntry (mapHead n)) key

/-- What creation params decode to: the entries the codec encoded, those before a value of another type, and those a
message that is cut short has whole. -/
structure Decodes (entries : List (String × WireValue)) : Prop where
  last : ∀ key v, mapOf (toValues entries) key = some v ↔
    Runs.Since (· = (key, v)) (fun e => e.1 = key) (toValues entries)
  whole : decodeMap (encodeMap entries) = some (mapOf (toValues entries))
  before : ∀ n key tag rest, entries.length < n → n < 4_294_967_296 → key.utf8ByteSize < 4_294_967_296 →
    tag ∉ [tNull, tTrue, tFalse, tInt32, tInt64, tFloat64, tString] →
    decodeMap (encodeUpTo n entries key ++ tag :: rest) = some (mapOf (toValues entries))
  cut : ∀ n, (mapHead entries.length).length ≤ n →
    decodeMap ((encodeMap entries).take n) =
      some (mapOf (toValues (within writeEntry (mapHead entries.length) entries n)))

/-- Creation params decode to what the codec encoded, whatever its last entry is and wherever it is cut. -/
theorem decodes {entries : List (String × WireValue)} (h : Encodable entries) : Decodes entries where
  last := mapOf_iff _
  whole := by
    have hall := decodeMap_written (n := 0) h.1 h.2 List.prefix_rfl
    simpa [items, encodeMap] using hall
  before := by
    intro n key tag rest hlt hn hkey htag
    obtain ⟨m, rfl⟩ := Nat.exists_eq_add_of_lt hlt
    have hgrows : entries.foldl writeEntry (mapHead (entries.length + (m + 1))) <+:
        encodeUpTo (entries.length + (m + 1)) entries key ++ tag :: rest :=
      (Reader.value_reads _ (v := .string key) hkey).grows.trans (List.prefix_append _ _)
    rw [Nat.add_assoc, decodeMap_written hn h.2 hgrows, items_succ, encodeUpTo, Reader.entry_unknown _ rest key tag hkey htag]
    simp
  cut := by
    intro n hn
    have hread := written_reads h.2
    have hgrows : mapHead entries.length <+: encodeMap entries :=
      prefix_foldl (fun e he b => (hread e he b).grows) _
    rw [decodeMap_eq h.1 (List.prefix_take_iff.mpr ⟨hgrows, hn⟩), encodeMap, items_cut hread hn]
    rfl

/-- What the widget encodes when only an app id and a pixel ratio of 1.5 are given. -/
theorem decodes_widget : Decodes [("token", .null), ("app_id", .string "org.example.app"),
    ("dpr", .float64 0x3FF8000000000000)] :=
  decodes (by decide)

end IhsWl
