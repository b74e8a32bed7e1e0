import IhsWl.Lib.Decode
import Mathlib.Logic.Function.Basic

/-!
# Creation params

A view's `creationParams`, as the widget encodes them with Flutter's StandardMessageCodec: a map of string keys to
strings, numbers or null. Only the value types that map uses are decoded; any other ends the decode there.
-/

namespace IhsWl

open Decode

/-- A decoded value; a double as its bits. -/
inductive Value where
  | null
  | bool (b : Bool)
  | int (i : Int64)
  | double (bits : UInt64)
  | string (s : String)
  deriving DecidableEq, Repr

/-! ## StandardMessageCodec type tags -/

def tNull : UInt8 := 0
def tTrue : UInt8 := 1
def tFalse : UInt8 := 2
def tInt32 : UInt8 := 3
def tInt64 : UInt8 := 4
def tFloat64 : UInt8 := 6
def tString : UInt8 := 7
def tMap : UInt8 := 13

abbrev Reader := Cursor UInt8

namespace Reader

/-- A slice is shorter than `usize::MAX`, so that the end of what is taken overflows makes no difference. -/
def take (n : Nat) : Decoder UInt8 (List UInt8) := fun r =>
  if r.pos + n ≤ r.bytes.length then some ((r.bytes.drop r.pos).take n, { r with pos := r.pos + n }) else none

def u8 : Decoder UInt8 UInt8 := do
  let b ← take 1
  return b.headD 0

/-- The codec's variable-length size. -/
def size : Decoder UInt8 Nat := do
  let b ← u8
  if b.toNat ≤ 253 then return b.toNat
  else if b = 254 then return ofLe (← take 2)
  else return ofLe (← take 4)

/-- Floats are 8-byte aligned from the start of the message. -/
def align (alignment : Nat) : Decoder UInt8 Unit := do
  let pos ← position
  let _ ← take ((alignment - pos % alignment) % alignment)

def value : Decoder UInt8 Value := do
  let tag ← u8
  if tag = tNull then return .null
  else if tag = tTrue then return .bool true
  else if tag = tFalse then return .bool false
  else if tag = tInt32 then return .int (Int32.ofBitVec (.ofNat 32 (ofLe (← take 4)))).toInt64
  else if tag = tInt64 then return .int (Int64.ofBitVec (.ofNat 64 (ofLe (← take 8))))
  else if tag = tFloat64 then
    align 8
    return .double (UInt64.ofNat (ofLe (← take 8)))
  else if tag = tString then
    let n ← size
    let s ← StateT.lift (String.fromUTF8? (← take n).toByteArray)
    return .string s
  -- Anything else would need its own decoder to be skipped; stop.
  else failure

/-- A key and its value. -/
def entry : Decoder UInt8 (String × Value) := do
  match ← value with
  | .string key => return (key, ← value)
  | _ => failure

end Reader

/-- The decoded map: each key's value, if it has one. -/
abbrev ParamMap := String → Option Value

def ParamMap.insert (out : ParamMap) (e : String × Value) : ParamMap := Function.update out e.1 (some e.2)

/-- Entries are kept up to the first one that cannot be decoded. -/
def decodeEntries : Nat → Reader → ParamMap → ParamMap
  | 0, _, out => out
  | n + 1, r, out =>
      match Reader.entry r with
      | none => out
      | some (e, r) => decodeEntries n r (out.insert e)

/-- Decode a top-level map with string keys. -/
def decodeMap (bytes : List UInt8) : Option ParamMap := do
  let (tag, r) ← Reader.u8 ⟨bytes, 0⟩
  if tag ≠ tMap then none
  else
    let (n, r) ← Reader.size r
    return decodeEntries n r fun _ => none

/-! ## The codec -/

/-- A value as the codec writes it, an integer in one of two forms. -/
inductive WireValue where
  | null
  | bool (b : Bool)
  | int32 (i : Int32)
  | int64 (i : Int64)
  | float64 (bits : UInt64)
  | string (s : String)
  deriving DecidableEq, Repr

namespace WireValue

/-- What the value is. -/
def toValue : WireValue → Value
  | .null => .null
  | .bool b => .bool b
  | .int32 i => .int i.toInt64
  | .int64 i => .int i
  | .float64 bits => .double bits
  | .string s => .string s

/-- A string's length is written in 32 bits at most. -/
def Fits : WireValue → Prop
  | .string s => s.utf8ByteSize < 4_294_967_296
  | _ => True

instance : DecidablePred Fits := fun v => by cases v <;> unfold Fits <;> infer_instance

end WireValue

/-- The size of a string or a map, in 1, 3 or 5 bytes. -/
def writeSize (b : List UInt8) (n : Nat) : List UInt8 :=
  if n ≤ 253 then b ++ [UInt8.ofNat n]
  else if n ≤ 65535 then b ++ 254 :: leBytes 2 n
  else b ++ 255 :: leBytes 4 n

def writeString (b : List UInt8) (s : String) : List UInt8 :=
  writeSize (b ++ [tString]) s.utf8ByteSize ++ s.toByteArray.data.toList

/-- Zero bytes up to the next multiple of `alignment` from the start of the message. -/
def writeAlignment (b : List UInt8) (alignment : Nat) : List UInt8 :=
  b ++ List.replicate ((alignment - b.length % alignment) % alignment) 0

def writeValue (b : List UInt8) : WireValue → List UInt8
  | .null => b ++ [tNull]
  | .bool true => b ++ [tTrue]
  | .bool false => b ++ [tFalse]
  | .int32 i => b ++ tInt32 :: leBytes 4 i.toBitVec.toNat
  | .int64 i => b ++ tInt64 :: leBytes 8 i.toBitVec.toNat
  | .float64 bits => writeAlignment (b ++ [tFloat64]) 8 ++ leBytes 8 bits.toNat
  | .string s => writeString b s

def writeEntry (b : List UInt8) (e : String × WireValue) : List UInt8 := writeValue (writeString b e.1) e.2

/-- The tag and the count of the entries. -/
def mapHead (n : Nat) : List UInt8 := writeSize [tMap] n

/-- The message of a map, its entries in order. -/
def encodeMap (entries : List (String × WireValue)) : List UInt8 := entries.foldl writeEntry (mapHead entries.length)

/-- Sizes are written in 32 bits at most. -/
def Encodable (entries : List (String × WireValue)) : Prop :=
  entries.length < 4_294_967_296 ∧ ∀ e ∈ entries, e.1.utf8ByteSize < 4_294_967_296 ∧ e.2.Fits

instance : DecidablePred Encodable := fun _ => inferInstanceAs (Decidable (_ ∧ ∀ e ∈ _, _ ∧ _))

end IhsWl
