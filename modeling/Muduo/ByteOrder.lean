import Muduo.BigEndian

/-! Unsigned integers in the memory of a host, whose byte order is either of the two. Converting an
integer to network order and storing it writes the most significant byte first on both hosts, and
loading the bytes and converting back reads it again. -/

inductive ByteOrder where
  | little
  | big
  deriving DecidableEq, Repr

namespace ByteOrder

/-- The bytes of an integer of the given number of bytes, by ascending addresses. -/
def store (order : ByteOrder) (width value : Nat) : List UInt8 :=
  match order with
  | .little => (BigEndian.encode width value).reverse
  | .big => BigEndian.encode width value

/-- The integer that lies in the bytes. -/
def load (order : ByteOrder) (bytes : List UInt8) : Nat :=
  match order with
  | .little => BigEndian.decode bytes.reverse
  | .big => BigEndian.decode bytes

/-- The integer whose bytes are those of the given one the other way round. -/
def swap (width value : Nat) : Nat := BigEndian.decode (BigEndian.encode width value).reverse

/-- `htobe` and `betoh`, which are the same function. -/
def network (order : ByteOrder) (width value : Nat) : Nat :=
  match order with
  | .little => swap width value
  | .big => value

theorem swap_lt (width value : Nat) : swap width value < 256 ^ width := by
  have hlt := BigEndian.decode_lt (BigEndian.encode width value).reverse
  rwa [List.length_reverse, BigEndian.encode_length] at hlt

theorem network_lt (order : ByteOrder) {width value : Nat} (hvalue : value < 256 ^ width) :
    order.network width value < 256 ^ width := by
  cases order with
  | little => exact swap_lt width value
  | big => exact hvalue

theorem load_lt (order : ByteOrder) (bytes : List UInt8) : order.load bytes < 256 ^ bytes.length := by
  cases order with
  | little =>
      have hlt := BigEndian.decode_lt bytes.reverse
      rwa [List.length_reverse] at hlt
  | big => exact BigEndian.decode_lt bytes

/-- The bytes of a swapped integer are the bytes the other way round. -/
theorem encode_swap (width value : Nat) :
    BigEndian.encode width (swap width value) = (BigEndian.encode width value).reverse := by
  have hencode := BigEndian.encode_decode (BigEndian.encode width value).reverse
  rwa [List.length_reverse, BigEndian.encode_length] at hencode

/-- What is stored after the conversion does not depend on the host. -/
theorem store_network (order : ByteOrder) (width value : Nat) :
    order.store width (order.network width value) = BigEndian.encode width value := by
  cases order with
  | little => rw [store, network, encode_swap, List.reverse_reverse]
  | big => rfl

/-- Nor does what is loaded before it. -/
theorem network_load (order : ByteOrder) (bytes : List UInt8) :
    order.network bytes.length (order.load bytes) = BigEndian.decode bytes := by
  cases order with
  | little =>
      have hencode := BigEndian.encode_decode bytes.reverse
      rw [List.length_reverse] at hencode
      rw [network, load, swap, hencode, List.reverse_reverse]
  | big => rfl

end ByteOrder
