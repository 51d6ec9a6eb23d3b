import Mathlib.Algebra.Group.Int.Defs
import Muduo.Buffer
import Muduo.ByteOrder

/-! The typed integers of `muduo::net::Buffer` and the conversions of `Endian.h` they go through, on a
host of either byte order. Signed and unsigned integers of one width are the same bits, so that an
`intN_t` is a bit vector and a conversion between the two does nothing. What is written are the
big-endian two's complement bytes of the integer, and reading them gives it back. -/

namespace Muduo

/-! ## Types -/

inductive IntType where
  | int8
  | int16
  | int32
  | int64
  deriving DecidableEq, Repr

namespace IntType

/-- `sizeof` -/
def size : IntType → Nat
  | .int8 => 1
  | .int16 => 2
  | .int32 => 4
  | .int64 => 8

def bits : IntType → Nat
  | .int8 => 8
  | .int16 => 16
  | .int32 => 32
  | .int64 => 64

theorem two_pow_bits (type : IntType) : 2 ^ type.bits = 256 ^ type.size := by
  cases type <;> rfl

end IntType

/-- An integer of one of the types. -/
structure TypedInt where
  type : IntType
  value : BitVec type.bits
  deriving DecidableEq, Repr

/-- The bytes of the two's complement of an integer, the most significant byte first. -/
def TypedInt.wire (x : TypedInt) : Bytes :=
  BigEndian.encode x.type.size (x.value.toInt % 256 ^ x.type.size).toNat

/-! ## `Endian.h` -/

namespace Endian

variable (order : ByteOrder)

/-- `htobe64` and the others: the bytes of an integer in network order. -/
def htobe (type : IntType) (x : BitVec type.bits) : BitVec type.bits :=
  BitVec.ofNat type.bits (order.network type.size x.toNat)

/-- `be64toh` and the others. -/
def betoh (type : IntType) (x : BitVec type.bits) : BitVec type.bits :=
  BitVec.ofNat type.bits (order.network type.size x.toNat)

def hostToNetwork64 (host64 : BitVec 64) : BitVec 64 := htobe order .int64 host64
def hostToNetwork32 (host32 : BitVec 32) : BitVec 32 := htobe order .int32 host32
def hostToNetwork16 (host16 : BitVec 16) : BitVec 16 := htobe order .int16 host16

def networkToHost64 (net64 : BitVec 64) : BitVec 64 := betoh order .int64 net64
def networkToHost32 (net32 : BitVec 32) : BitVec 32 := betoh order .int32 net32
def networkToHost16 (net16 : BitVec 16) : BitVec 16 := betoh order .int16 net16

/-- The bytes of a variable, from its address on. -/
def memory (type : IntType) (x : BitVec type.bits) : Bytes := order.store type.size x.toNat

/-- `memcpy` of as many bytes as the type has into a variable. -/
def memcpy (type : IntType) (bytes : Bytes) : BitVec type.bits :=
  BitVec.ofNat type.bits (order.load (bytes.take type.size))

end Endian

/-! ## `Buffer` -/

namespace Buffer

/-- The bytes of the content are read from `peek()` on. -/
def retrieveInt64 (b : Buffer) : Option Buffer := b.retrieve IntType.int64.size
def retrieveInt32 (b : Buffer) : Option Buffer := b.retrieve IntType.int32.size
def retrieveInt16 (b : Buffer) : Option Buffer := b.retrieve IntType.int16.size
def retrieveInt8 (b : Buffer) : Option Buffer := b.retrieve IntType.int8.size

namespace OnHost

variable (order : ByteOrder)

def appendInt64 (b : Buffer) (x : BitVec 64) : Option Buffer :=
  b.append (Endian.memory order .int64 (Endian.hostToNetwork64 order x))

def appendInt32 (b : Buffer) (x : BitVec 32) : Option Buffer :=
  b.append (Endian.memory order .int32 (Endian.hostToNetwork32 order x))

def appendInt16 (b : Buffer) (x : BitVec 16) : Option Buffer :=
  b.append (Endian.memory order .int16 (Endian.hostToNetwork16 order x))

def appendInt8 (b : Buffer) (x : BitVec 8) : Option Buffer := b.append (Endian.memory order .int8 x)

def prependInt64 (b : Buffer) (x : BitVec 64) : Option Buffer :=
  b.prepend (Endian.memory order .int64 (Endian.hostToNetwork64 order x))

def prependInt32 (b : Buffer) (x : BitVec 32) : Option Buffer :=
  b.prepend (Endian.memory order .int32 (Endian.hostToNetwork32 order x))

def prependInt16 (b : Buffer) (x : BitVec 16) : Option Buffer :=
  b.prepend (Endian.memory order .int16 (Endian.hostToNetwork16 order x))

def prependInt8 (b : Buffer) (x : BitVec 8) : Option Buffer := b.prepend (Endian.memory order .int8 x)

/-- The bytes at `peek()` in a variable of the type. -/
def peekRaw (type : IntType) (b : Buffer) : Option (BitVec type.bits) :=
  -- assert(readableBytes() >= sizeof(..))
  if type.size ≤ b.readableBytes then some (Endian.memcpy order type b.readable) else none

def peekInt64 (b : Buffer) : Option (BitVec 64) :=
  (peekRaw order .int64 b).map (Endian.networkToHost64 order)

def peekInt32 (b : Buffer) : Option (BitVec 32) :=
  (peekRaw order .int32 b).map (Endian.networkToHost32 order)

def peekInt16 (b : Buffer) : Option (BitVec 16) :=
  (peekRaw order .int16 b).map (Endian.networkToHost16 order)

-- int8_t x = *peek()
def peekInt8 (b : Buffer) : Option (BitVec 8) := peekRaw order .int8 b

def readInt64 (b : Buffer) : Option (BitVec 64 × Buffer) := do
  let result ← peekInt64 order b
  let rest ← b.retrieveInt64
  return (result, rest)

def readInt32 (b : Buffer) : Option (BitVec 32 × Buffer) := do
  let result ← peekInt32 order b
  let rest ← b.retrieveInt32
  return (result, rest)

def readInt16 (b : Buffer) : Option (BitVec 16 × Buffer) := do
  let result ← peekInt16 order b
  let rest ← b.retrieveInt16
  return (result, rest)

def readInt8 (b : Buffer) : Option (BitVec 8 × Buffer) := do
  let result ← peekInt8 order b
  let rest ← b.retrieveInt8
  return (result, rest)

/-! The member for an integer or a type. -/

def appendInt (b : Buffer) : TypedInt → Option Buffer
  | ⟨.int8, x⟩ => appendInt8 order b x
  | ⟨.int16, x⟩ => appendInt16 order b x
  | ⟨.int32, x⟩ => appendInt32 order b x
  | ⟨.int64, x⟩ => appendInt64 order b x

def prependInt (b : Buffer) : TypedInt → Option Buffer
  | ⟨.int8, x⟩ => prependInt8 order b x
  | ⟨.int16, x⟩ => prependInt16 order b x
  | ⟨.int32, x⟩ => prependInt32 order b x
  | ⟨.int64, x⟩ => prependInt64 order b x

def peekInt (b : Buffer) : IntType → Option TypedInt
  | .int8 => (peekInt8 order b).map (TypedInt.mk .int8)
  | .int16 => (peekInt16 order b).map (TypedInt.mk .int16)
  | .int32 => (peekInt32 order b).map (TypedInt.mk .int32)
  | .int64 => (peekInt64 order b).map (TypedInt.mk .int64)

def readInt (b : Buffer) : IntType → Option (TypedInt × Buffer)
  | .int8 => (readInt8 order b).map (Prod.map (TypedInt.mk .int8) id)
  | .int16 => (readInt16 order b).map (Prod.map (TypedInt.mk .int16) id)
  | .int32 => (readInt32 order b).map (Prod.map (TypedInt.mk .int32) id)
  | .int64 => (readInt64 order b).map (Prod.map (TypedInt.mk .int64) id)

/-- The integers are appended one after the other. -/
def appendInts (b : Buffer) (xs : List TypedInt) : Option Buffer := xs.foldlM (appendInt order) b

/-- The integers are prepended, the last one first. -/
def prependInts (b : Buffer) (xs : List TypedInt) : Option Buffer :=
  xs.reverse.foldlM (prependInt order) b

/-- Integers of the types are read one after the other. -/
def readInts (b : Buffer) : List IntType → Option (List TypedInt × Buffer)
  | [] => some ([], b)
  | type :: types => do
      let (x, rest) ← readInt order b type
      let (xs, last) ← readInts rest types
      return (x :: xs, last)

end OnHost
end Buffer

/-! ## The bytes -/

namespace TypedInt

theorem toNat_lt {type : IntType} (x : BitVec type.bits) : x.toNat < 256 ^ type.size := by
  rw [← type.two_pow_bits]
  exact x.isLt

/-- The two's complement of an integer is its bits. -/
theorem wire_eq (x : TypedInt) : x.wire = BigEndian.encode x.type.size x.value.toNat := by
  have hbits : (x.value.toInt % (2 ^ x.type.bits : Nat)).toNat = x.value.toNat := by
    rw [← BitVec.toNat_ofInt, BitVec.ofInt_toInt]
  rw [IntType.two_pow_bits, Int.natCast_pow] at hbits
  exact congrArg (BigEndian.encode x.type.size) hbits

@[simp] theorem wire_length (x : TypedInt) : x.wire.length = x.type.size := by
  rw [wire_eq, BigEndian.encode_length]

theorem ofNat_decode_wire (x : TypedInt) :
    BitVec.ofNat x.type.bits (BigEndian.decode x.wire) = x.value := by
  rw [wire_eq, BigEndian.decode_encode, Nat.mod_eq_of_lt (toNat_lt x.value), BitVec.ofNat_toNat,
    BitVec.setWidth_eq]

end TypedInt

namespace Endian

variable (order : ByteOrder)

theorem toNat_htobe {type : IntType} (x : BitVec type.bits) :
    (htobe order type x).toNat = order.network type.size x.toNat := by
  have hlt := order.network_lt (TypedInt.toNat_lt x)
  rw [← type.two_pow_bits] at hlt
  rw [htobe, BitVec.toNat_ofNat, Nat.mod_eq_of_lt hlt]

/-- An integer in network order lies in memory as it goes over the wire. -/
theorem memory_htobe (x : TypedInt) : memory order x.type (htobe order x.type x.value) = x.wire := by
  rw [memory, toNat_htobe, ByteOrder.store_network, TypedInt.wire_eq]

/-- One byte needs no conversion. -/
theorem memory_int8 (x : BitVec 8) : memory order .int8 x = TypedInt.wire ⟨.int8, x⟩ := by
  rw [TypedInt.wire_eq]
  cases order <;> rfl

theorem toNat_memcpy {type : IntType} {bytes : Bytes} (hbytes : type.size ≤ bytes.length) :
    (memcpy order type bytes).toNat = order.load (bytes.take type.size) := by
  have hlt := order.load_lt (bytes.take type.size)
  rw [List.length_take, Nat.min_eq_left hbytes, ← type.two_pow_bits] at hlt
  rw [memcpy, BitVec.toNat_ofNat, Nat.mod_eq_of_lt hlt]

/-- Bytes that are copied and converted back are read with the most significant byte first. -/
theorem betoh_memcpy {type : IntType} {bytes : Bytes} (hbytes : type.size ≤ bytes.length) :
    betoh order type (memcpy order type bytes) =
      BitVec.ofNat type.bits (BigEndian.decode (bytes.take type.size)) := by
  have hload := order.network_load (bytes.take type.size)
  rw [List.length_take, Nat.min_eq_left hbytes] at hload
  rw [betoh, toNat_memcpy order hbytes, hload]

theorem betoh_memcpy_wire (x : TypedInt) (later : Bytes) :
    betoh order x.type (memcpy order x.type (x.wire ++ later)) = x.value := by
  have hbytes : x.type.size ≤ (x.wire ++ later).length := by
    rw [List.length_append, x.wire_length]
    exact Nat.le_add_right _ _
  rw [betoh_memcpy order hbytes, List.take_left' x.wire_length, TypedInt.ofNat_decode_wire]

theorem memcpy_int8 (x : BitVec 8) (later : Bytes) :
    memcpy order .int8 (TypedInt.wire ⟨.int8, x⟩ ++ later) = x := by
  have hbyte : (TypedInt.wire ⟨.int8, x⟩ ++ later).take IntType.int8.size = TypedInt.wire ⟨.int8, x⟩ :=
    List.take_left' (TypedInt.wire_length _)
  have hload : order.load (TypedInt.wire ⟨.int8, x⟩) = BigEndian.decode (TypedInt.wire ⟨.int8, x⟩) := by
    rw [TypedInt.wire_eq]
    cases order <;> rfl
  rw [memcpy, hbyte, hload]
  exact TypedInt.ofNat_decode_wire ⟨.int8, x⟩

end Endian

/-! ## Reading what was written -/

namespace Buffer.OnHost

variable (order : ByteOrder)

/-- Every member of the family appends the integer as it goes over the wire. -/
theorem appendInt_eq (b : Buffer) (x : TypedInt) : appendInt order b x = b.append x.wire := by
  obtain ⟨type, x⟩ := x
  cases type with
  | int8 => exact congrArg b.append (Endian.memory_int8 order x)
  | int16 => exact congrArg b.append (Endian.memory_htobe order ⟨.int16, x⟩)
  | int32 => exact congrArg b.append (Endian.memory_htobe order ⟨.int32, x⟩)
  | int64 => exact congrArg b.append (Endian.memory_htobe order ⟨.int64, x⟩)

theorem prependInt_eq (b : Buffer) (x : TypedInt) : prependInt order b x = b.prepend x.wire := by
  obtain ⟨type, x⟩ := x
  cases type with
  | int8 => exact congrArg b.prepend (Endian.memory_int8 order x)
  | int16 => exact congrArg b.prepend (Endian.memory_htobe order ⟨.int16, x⟩)
  | int32 => exact congrArg b.prepend (Endian.memory_htobe order ⟨.int32, x⟩)
  | int64 => exact congrArg b.prepend (Endian.memory_htobe order ⟨.int64, x⟩)

/-- An integer at the front of the content is peeked. -/
theorem peekInt_eq {b : Buffer} {x : TypedInt} {later : Bytes} (hfront : b.readable = x.wire ++ later) :
    peekInt order b x.type = some x := by
  have hsize : x.type.size ≤ b.readableBytes := by
    rw [← b.readable_length, hfront, List.length_append, x.wire_length]
    exact Nat.le_add_right _ _
  have hraw : peekRaw order x.type b = some (Endian.memcpy order x.type (x.wire ++ later)) := by
    rw [peekRaw, if_pos hsize, hfront]
  obtain ⟨type, x⟩ := x
  have hvalue := Endian.betoh_memcpy_wire order ⟨type, x⟩ later
  cases type with
  | int8 =>
      simp only [peekInt, peekInt8, hraw, Option.map_some]
      exact congrArg (fun value => some (TypedInt.mk .int8 value)) (Endian.memcpy_int8 order x later)
  | int16 =>
      simp only [peekInt, peekInt16, hraw]
      exact congrArg (fun value => some (TypedInt.mk .int16 value)) hvalue
  | int32 =>
      simp only [peekInt, peekInt32, hraw]
      exact congrArg (fun value => some (TypedInt.mk .int32 value)) hvalue
  | int64 =>
      simp only [peekInt, peekInt64, hraw]
      exact congrArg (fun value => some (TypedInt.mk .int64 value)) hvalue

/-- Reading is peeking and retrieving as many bytes as the type has. -/
theorem readInt_eq (b : Buffer) (type : IntType) :
    readInt order b type =
      (peekInt order b type).bind fun x => (b.retrieve type.size).map fun rest => (x, rest) := by
  cases type with
  | int8 =>
      simp only [readInt, readInt8, peekInt, retrieveInt8]
      cases peekInt8 order b <;> cases b.retrieve IntType.int8.size <;> rfl
  | int16 =>
      simp only [readInt, readInt16, peekInt, retrieveInt16]
      cases peekInt16 order b <;> cases b.retrieve IntType.int16.size <;> rfl
  | int32 =>
      simp only [readInt, readInt32, peekInt, retrieveInt32]
      cases peekInt32 order b <;> cases b.retrieve IntType.int32.size <;> rfl
  | int64 =>
      simp only [readInt, readInt64, peekInt, retrieveInt64]
      cases peekInt64 order b <;> cases b.retrieve IntType.int64.size <;> rfl

/-- Reading an integer at the front of the content takes its bytes away and nothing else. -/
theorem readInt_front {b : Buffer} {x : TypedInt} {later : Bytes}
    (hfront : b.readable = x.wire ++ later) :
    ∃ rest, readInt order b x.type = some (x, rest) ∧ rest.readable = later := by
  have hsize : x.type.size ≤ b.readableBytes := by
    rw [← b.readable_length, hfront, List.length_append, x.wire_length]
    exact Nat.le_add_right _ _
  obtain ⟨rest, hrest, hcontent⟩ := Buffer.retrieve_readable hsize
  refine ⟨rest, ?_, ?_⟩
  · rw [readInt_eq, peekInt_eq order hfront, hrest]
    rfl
  · rw [hcontent, hfront]
    exact List.drop_left' x.wire_length

/-- The content is too short for an integer of the type. -/
theorem peekInt_short {b : Buffer} {type : IntType} (hshort : ¬type.size ≤ b.readableBytes) :
    peekInt order b type = none := by
  have hraw : peekRaw order type b = none := if_neg hshort
  cases type with
  | int8 =>
      rw [peekInt, peekInt8, hraw]
      rfl
  | int16 =>
      rw [peekInt, peekInt16, hraw]
      rfl
  | int32 =>
      rw [peekInt, peekInt32, hraw]
      rfl
  | int64 =>
      rw [peekInt, peekInt64, hraw]
      rfl

/-- What reading returns is what peeking returns. -/
theorem peekInt_eq_readInt (b : Buffer) (type : IntType) :
    peekInt order b type = (readInt order b type).map Prod.fst := by
  rw [readInt_eq]
  by_cases hsize : type.size ≤ b.readableBytes
  · obtain ⟨rest, hrest, -⟩ := Buffer.retrieve_readable hsize
    rw [hrest]
    cases peekInt order b type <;> rfl
  · rw [peekInt_short order hsize]
    rfl

/-! ## Lists of integers -/

/-- The integers as they go over the wire. -/
def wires (xs : List TypedInt) : Bytes := xs.flatMap TypedInt.wire

theorem wires_cons (x : TypedInt) (xs : List TypedInt) : wires (x :: xs) = x.wire ++ wires xs :=
  List.flatMap_cons

theorem wires_concat (xs : List TypedInt) (x : TypedInt) : wires (xs ++ [x]) = wires xs ++ x.wire := by
  rw [wires, List.flatMap_append, List.flatMap_singleton]
  rfl

theorem appendInts_readable (b : Buffer) (xs : List TypedInt) :
    ∃ full, appendInts order b xs = some full ∧ full.readable = b.readable ++ wires xs := by
  induction xs generalizing b with
  | nil => exact ⟨b, rfl, (List.append_nil _).symm⟩
  | cons x xs ih =>
      obtain ⟨longer, hlonger, hcontent⟩ := b.append_readable x.wire
      obtain ⟨full, hfull, hresult⟩ := ih longer
      refine ⟨full, ?_, ?_⟩
      · rw [appendInts, List.foldlM_cons, appendInt_eq, hlonger]
        exact hfull
      · rw [hresult, hcontent, wires_cons, List.append_assoc]

/-- Prepending takes its bytes from the room in front. -/
theorem prepend_room {b longer : Buffer} {data : Bytes} (hlonger : b.prepend data = some longer) :
    longer.prependableBytes = b.prependableBytes - data.length := by
  rw [prepend] at hlonger
  split at hlonger
  · cases hlonger
    rfl
  · cases hlonger

theorem prependInts_readable (b : Buffer) (xs : List TypedInt)
    (hroom : (wires xs).length ≤ b.prependableBytes) :
    ∃ full, prependInts order b xs = some full ∧ full.readable = wires xs ++ b.readable := by
  -- the last integer is prepended first
  induction xs using List.reverseRecOn generalizing b with
  | nil => exact ⟨b, rfl, rfl⟩
  | append_singleton xs x ih =>
      rw [wires_concat, List.length_append] at hroom
      have hfits : x.wire.length ≤ b.prependableBytes := Nat.le_trans (Nat.le_add_left _ _) hroom
      obtain ⟨longer, hlonger, hcontent⟩ := Buffer.prepend_readable hfits
      obtain ⟨full, hfull, hresult⟩ := ih longer (by rw [prepend_room hlonger]; omega)
      refine ⟨full, ?_, ?_⟩
      · rw [prependInts, List.reverse_append, List.reverse_singleton, List.singleton_append,
          List.foldlM_cons, prependInt_eq, hlonger]
        exact hfull
      · rw [hresult, hcontent, wires_concat, List.append_assoc]

theorem readInts_front {b : Buffer} {xs : List TypedInt} {later : Bytes}
    (hfront : b.readable = wires xs ++ later) :
    ∃ rest, readInts order b (xs.map TypedInt.type) = some (xs, rest) ∧ rest.readable = later := by
  induction xs generalizing b with
  | nil => exact ⟨b, rfl, hfront⟩
  | cons x xs ih =>
      rw [wires_cons, List.append_assoc] at hfront
      obtain ⟨middle, hmiddle, hcontent⟩ := readInt_front order hfront
      obtain ⟨rest, hrest, hlater⟩ := ih hcontent
      refine ⟨rest, ?_, hlater⟩
      simp only [List.map_cons, readInts, hmiddle, hrest, Option.bind_eq_bind, Option.bind_some]
      rfl

/-- **Typed integers round trip.** Integers of any widths that a host of either byte order appends stand
behind the content as their big-endian two's complement bytes, and those it prepends, the last one first,
stand in front of it. A host of either byte order reads them back and finds the rest of the content as it
was. Peeking returns what reading returns. -/
theorem ints_round_trip (writer reader : ByteOrder) (b : Buffer) (xs : List TypedInt) :
    (∃ full, appendInts writer b xs = some full ∧ full.readable = b.readable ++ wires xs ∧
      ∃ front rest, full.retrieve b.readableBytes = some front ∧
        readInts reader front (xs.map TypedInt.type) = some (xs, rest) ∧ rest.readable = []) ∧
    ((wires xs).length ≤ b.prependableBytes →
      ∃ full, prependInts writer b xs = some full ∧ full.readable = wires xs ++ b.readable ∧
        ∃ rest, readInts reader full (xs.map TypedInt.type) = some (xs, rest) ∧
          rest.readable = b.readable) ∧
    ∀ type, peekInt reader b type = (readInt reader b type).map Prod.fst := by
  refine ⟨?_, ?_, peekInt_eq_readInt reader b⟩
  · obtain ⟨full, hfull, hcontent⟩ := appendInts_readable writer b xs
    have hbehind : b.readableBytes ≤ full.readableBytes := by
      rw [← b.readable_length, ← full.readable_length, hcontent, List.length_append]
      exact Nat.le_add_right _ _
    obtain ⟨front, hfront, hdrop⟩ := Buffer.retrieve_readable hbehind
    have hints : front.readable = wires xs ++ [] := by
      rw [hdrop, hcontent, List.append_nil]
      exact List.drop_left' b.readable_length
    obtain ⟨rest, hrest, hnone⟩ := readInts_front reader hints
    exact ⟨full, hfull, hcontent, front, rest, hfront, hrest, hnone⟩
  · intro hroom
    obtain ⟨full, hfull, hcontent⟩ := prependInts_readable writer b xs hroom
    obtain ⟨rest, hrest, hkept⟩ := readInts_front reader hcontent
    exact ⟨full, hfull, hcontent, rest, hrest, hkept⟩

/-- The first integers of `testBufferReadInt`. -/
def negatives : List TypedInt := [⟨.int8, -1⟩, ⟨.int16, -2⟩, ⟨.int32, -3⟩]

/-- They fit into the room in front of an empty buffer. -/
theorem ints_round_trip_prepended :
    (wires negatives).length ≤ (Buffer.new 16).prependableBytes ∧
      ∃ full, prependInts .little (Buffer.new 16) negatives = some full ∧
        full.readable = [255, 255, 254, 255, 255, 255, 253] ∧
        ∃ rest, readInts .big full [.int8, .int16, .int32] = some (negatives, rest) ∧
          rest.readable = [] := by
  have hroom : (wires negatives).length ≤ (Buffer.new 16).prependableBytes := by decide
  obtain ⟨full, hfull, hcontent, rest, hrest, hkept⟩ :=
    (ints_round_trip .little .big (Buffer.new 16) negatives).2.1 hroom
  rw [Buffer.readable_new] at hcontent hkept
  exact ⟨hroom, full, hfull, hcontent, rest, hrest, hkept⟩

end Buffer.OnHost
end Muduo
