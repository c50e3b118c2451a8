/-!
Fixed byte layouts. A layout is a bijection between the values of a type and
the byte strings of one length, so every byte string of that length is a value
and every value has one form. Words are little endian. In a stream each record
is followed by zero bytes up to a multiple of 16.
-/

set_option autoImplicit false

namespace SymmetricTrees.BlockStream

structure Layout (Value : Type) where
  size : Nat
  encode : Value → List UInt8
  decode : List UInt8 → Value
  length_encode : ∀ value, (encode value).length = size
  decode_encode : ∀ value, decode (encode value) = value
  encode_decode : ∀ bytes, bytes.length = size → encode (decode bytes) = bytes

/-- Every record of a stream takes a multiple of this many bytes. -/
def alignment : Nat := 16

def alignedSize (size : Nat) : Nat := (size + alignment - 1) / alignment * alignment

namespace Layout

variable {First Second Value : Type}

def byte : Layout UInt8 where
  size := 1
  encode value := [value]
  decode bytes := bytes.headD 0
  length_encode _ := rfl
  decode_encode _ := rfl
  encode_decode bytes length := by
    match bytes, length with
    | [_], _ => rfl

def encodeNat : Nat → Nat → List UInt8
  | 0, _ => []
  | count + 1, value => UInt8.ofNat value :: encodeNat count (value / 256)

def decodeNat : List UInt8 → Nat
  | [] => 0
  | byte :: rest => byte.toNat + 256 * decodeNat rest

theorem length_encode_nat (count value : Nat) : (encodeNat count value).length = count := by
  induction count generalizing value with
  | zero => rfl
  | succ count induction => simp only [encodeNat, List.length_cons, induction]

theorem decode_nat_encode_nat (count value : Nat) :
    decodeNat (encodeNat count value) = value % Nat.pow 256 count := by
  induction count generalizing value with
  | zero => exact (Nat.mod_one value).symm
  | succ count induction =>
      have lowest : (UInt8.ofNat value).toNat = value % 256 := UInt8.toNat_ofNat'
      have larger : Nat.pow 256 (count + 1) = 256 * Nat.pow 256 count := Nat.mul_comm _ _
      rw [encodeNat, decodeNat, induction, lowest, larger, Nat.mod_mul]

theorem encode_nat_decode_nat (bytes : List UInt8) :
    encodeNat bytes.length (decodeNat bytes) = bytes := by
  induction bytes with
  | nil => rfl
  | cons byte rest induction =>
      have small : byte.toNat < 256 := byte.toNat_lt
      rw [List.length_cons, decodeNat, encodeNat]
      congr 1
      · apply UInt8.toNat_inj.mp
        have lowest : (UInt8.ofNat (byte.toNat + 256 * decodeNat rest)).toNat =
            (byte.toNat + 256 * decodeNat rest) % 256 := UInt8.toNat_ofNat'
        omega
      · have quotient : (byte.toNat + 256 * decodeNat rest) / 256 = decodeNat rest := by omega
        rw [quotient, induction]

theorem decode_nat_lt (bytes : List UInt8) : decodeNat bytes < Nat.pow 256 bytes.length := by
  induction bytes with
  | nil => exact Nat.zero_lt_one
  | cons byte rest induction =>
      have small : byte.toNat < 256 := byte.toNat_lt
      have larger : Nat.pow 256 (rest.length + 1) = 256 * Nat.pow 256 rest.length :=
        Nat.mul_comm _ _
      rw [decodeNat, List.length_cons, larger]
      omega

/-- A 32-bit word, least significant byte first. -/
def word : Layout UInt32 where
  size := 4
  encode value := encodeNat 4 value.toNat
  decode bytes := UInt32.ofNat (decodeNat bytes)
  length_encode _ := length_encode_nat _ _
  decode_encode value := by
    have small : value.toNat < 4294967296 := value.toNat_lt
    have whole : value.toNat % Nat.pow 256 4 = value.toNat := Nat.mod_eq_of_lt small
    rw [decode_nat_encode_nat, whole, UInt32.ofNat_toNat]
  encode_decode bytes length := by
    have small := decode_nat_lt bytes
    rw [length] at small
    have same : (UInt32.ofNat (decodeNat bytes)).toNat = decodeNat bytes :=
      UInt32.toNat_ofNat_of_lt' small
    rw [same, ← length, encode_nat_decode_nat]

def pair (first : Layout First) (second : Layout Second) : Layout (First × Second) where
  size := first.size + second.size
  encode value := first.encode value.1 ++ second.encode value.2
  decode bytes := (first.decode (bytes.take first.size), second.decode (bytes.drop first.size))
  length_encode value := by
    rw [List.length_append, first.length_encode, second.length_encode]
  decode_encode value := by
    rw [List.take_left' (first.length_encode _), List.drop_left' (first.length_encode _),
      first.decode_encode, second.decode_encode]
  encode_decode bytes length := by
    rw [first.encode_decode _ (by rw [List.length_take]; omega),
      second.encode_decode _ (by rw [List.length_drop]; omega), List.take_append_drop]

def relabel (layout : Layout First) (toValue : First → Second) (ofValue : Second → First)
    (toValue_ofValue : ∀ value, toValue (ofValue value) = value)
    (ofValue_toValue : ∀ value, ofValue (toValue value) = value) : Layout Second where
  size := layout.size
  encode value := layout.encode (ofValue value)
  decode bytes := toValue (layout.decode bytes)
  length_encode value := layout.length_encode _
  decode_encode value := by rw [layout.decode_encode, toValue_ofValue]
  encode_decode bytes length := by rw [ofValue_toValue, layout.encode_decode _ length]

def repeated (layout : Layout Value) :
    (count : Nat) → Layout { values : List Value // values.length = count }
  | 0 =>
      { size := 0
        encode := fun _ => []
        decode := fun _ => ⟨[], rfl⟩
        length_encode := fun _ => rfl
        decode_encode := fun ⟨values, length⟩ => by
          cases List.eq_nil_of_length_eq_zero length
          rfl
        encode_decode := fun bytes length => (List.eq_nil_of_length_eq_zero length).symm }
  | count + 1 =>
      (layout.pair (repeated layout count)).relabel
        (fun value => ⟨value.1 :: value.2.1, congrArg (· + 1) value.2.2⟩)
        (fun
          | ⟨value :: values, length⟩ => (value, ⟨values, Nat.succ.inj length⟩))
        (fun
          | ⟨_ :: _, _⟩ => rfl)
        (fun _ => rfl)

def encodePadded (layout : Layout Value) (value : Value) : List UInt8 :=
  layout.encode value ++ List.replicate (alignedSize layout.size - layout.size) 0

end Layout

end SymmetricTrees.BlockStream
