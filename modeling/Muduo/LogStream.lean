import Muduo.Execution
import Muduo.LogConvert

/-! `muduo::LogStream`: pieces of text are copied to a buffer of fixed size, numbers are converted in place.
A piece that does not fit is dropped, and the two kinds of pieces have different tests for that. -/

namespace Muduo

open CheckedInt Execution Memory LogConvert

/-- `kSmallBuffer`. -/
def kSmallBuffer : Nat := 4000

inductive IntegerType
  | short | unsignedShort | int | unsignedInt | long | unsignedLong | longLong | unsignedLongLong
  deriving DecidableEq

/-- The values of a type. -/
def IntegerType.Holds : IntegerType → Int → Prop
  | short, v => -2 ^ 15 ≤ v ∧ v < 2 ^ 15
  | unsignedShort, v => 0 ≤ v ∧ v < 2 ^ 16
  | int, v => -2 ^ 31 ≤ v ∧ v < 2 ^ 31
  | unsignedInt, v => 0 ≤ v ∧ v < 2 ^ 32
  | long, v => -2 ^ 63 ≤ v ∧ v < 2 ^ 63
  | unsignedLong, v => 0 ≤ v ∧ v < 2 ^ 64
  | longLong, v => -2 ^ 63 ≤ v ∧ v < 2 ^ 63
  | unsignedLongLong, v => 0 ≤ v ∧ v < 2 ^ 64

instance : (type : IntegerType) → (v : Int) → Decidable (type.Holds v)
  | .short, _ | .unsignedShort, _ | .int, _ | .unsignedInt, _ | .long, _ | .unsignedLong, _ | .longLong, _
  | .unsignedLongLong, _ => instDecidableAnd

/-- A value of one of the types. -/
structure Integer where
  type : IntegerType
  value : Int
  holds : type.Holds value

/-- Every value fits in 64 bits, with or without a sign. -/
theorem Integer.bounds (v : Integer) : -2 ^ 63 ≤ v.value ∧ v.value < 2 ^ 64 := by
  have hholds := v.holds
  cases htype : v.type <;> simp only [htype, IntegerType.Holds] at hholds <;> omega

/-- `Fmt`, whose constructor asserts that the text fits. -/
structure Fmt where
  text : Bytes
  length_lt : text.length < 32

/-- The operand of a `<<`. A C string ends before its terminator and may be null. Of a floating-point number
there is the text that `%.12g` gives. -/
inductive Piece
  | bool (v : Bool)
  | integer (v : Integer)
  | pointer (v : BitVec 64)
  | double (v : {text : Bytes // text.length < 32})
  | char (v : UInt8)
  | cstring (str : Option Bytes)
  | string (v : Bytes)
  | stringPiece (v : Bytes)
  | fmt (v : Fmt)

/-- `LogStream`, with the array of its buffer and the position in it. -/
structure LogStream where
  data : Bytes
  cur : Nat := 0

namespace LogStream

def kMaxNumericSize : Nat := 32

def avail (s : LogStream) : Nat := kSmallBuffer - s.cur

/-- `FixedBuffer::append`. -/
def append (s : LogStream) (text : Bytes) : Option LogStream := do
  if s.avail > text.length then
    let data ← copy s.data s.cur text
    return { data := data, cur := s.cur + text.length }
  else return s

/-- `formatInteger`. -/
def formatInteger (s : LogStream) (v : Int) : Option LogStream := do
  if s.avail ≥ kMaxNumericSize then
    let (len, data) ← convert 20 s.data s.cur v
    return { data := data, cur := s.cur + len }
  else return s

/-- `operator<<(const void*)`. -/
def formatPointer (s : LogStream) (v : BitVec 64) : Option LogStream := do
  if s.avail ≥ kMaxNumericSize then
    let data ← store s.data s.cur 48
    let data ← store data (s.cur + 1) 120
    let (len, data) ← convertHex 16 data (s.cur + 2) v.toNat
    return { data := data, cur := s.cur + (len + 2) }
  else return s

/-- `snprintf` of a text to a position. -/
def snprintf (data : Bytes) (buf size : Nat) (text : Bytes) : Option Bytes :=
  copy data buf (text.take (size - 1) ++ [0])

/-- `operator<<(double)`. -/
def formatDouble (s : LogStream) (text : Bytes) : Option LogStream := do
  if s.avail ≥ kMaxNumericSize then
    let data ← snprintf s.data s.cur kMaxNumericSize text
    return { data := data, cur := s.cur + text.length }
  else return s

/-- `operator<<`. -/
def put (s : LogStream) : Piece → Option LogStream
  | .bool v => s.append (ascii (if v then "1" else "0"))
  | .integer v => s.formatInteger v.value
  | .pointer v => s.formatPointer v
  | .double v => s.formatDouble v
  | .char v => s.append [v]
  | .cstring (some str) => s.append str
  | .cstring none => s.append (ascii "(null)")
  | .string v => s.append v
  | .stringPiece v => s.append v
  | .fmt v => s.append v.text

def step (s : LogStream) (piece : Piece) : Except Unit LogStream := (s.put piece).elim (.error ()) .ok

/-- `toString`. -/
def content (s : LogStream) : Bytes := s.data.take s.cur

end LogStream

namespace Piece

open LogStream

/-- The complete text. -/
def text : Piece → Bytes
  | .bool v => ascii (if v then "1" else "0")
  | .integer v => Decimal.printInt v.value
  | .pointer v => ascii "0x" ++ Numeral.print hexChar 16 v.toNat
  | .double v => v
  | .char v => [v]
  | .cstring str => str.getD (ascii "(null)")
  | .string v => v
  | .stringPiece v => v
  | .fmt v => v.text

/-- The pieces that are converted in place. -/
def inPlace : Piece → Bool
  | .integer _ | .pointer _ | .double _ => true
  | _ => false

/-- Whether a piece is kept when so many bytes are in use. -/
def keeps (used : Nat) (piece : Piece) : Bool :=
  if piece.inPlace then used + kMaxNumericSize ≤ kSmallBuffer else used + piece.text.length < kSmallBuffer

/-- The pieces that are kept. -/
def kept : Nat → List Piece → List Piece
  | _, [] => []
  | used, piece :: pieces =>
      if piece.keeps used then piece :: kept (used + piece.text.length) pieces else kept used pieces

/-- The texts of the pieces that are kept, one behind the other. -/
def keptText (pieces : List Piece) : Bytes := ((kept 0 pieces).map text).flatten

theorem kept_sublist (used : Nat) (pieces : List Piece) : (kept used pieces).Sublist pieces := by
  induction pieces generalizing used with
  | nil => exact List.Sublist.refl _
  | cons piece pieces ih =>
      rw [kept]
      split
      · exact (ih _).cons_cons piece
      · exact (ih _).cons piece

theorem kept_append (used : Nat) (pieces : List Piece) (piece : Piece) :
    kept used (pieces ++ [piece]) = kept used pieces ++
      if piece.keeps (used + ((kept used pieces).map text).flatten.length) then [piece] else [] := by
  induction pieces generalizing used with
  | nil => rfl
  | cons first pieces ih =>
      rw [List.cons_append, kept, kept]
      split
      · rw [ih, List.map_cons, List.flatten_cons, List.length_append, Nat.add_assoc, List.cons_append]
      · rw [ih]

/-- One piece more. -/
theorem keptText_append (pieces : List Piece) (piece : Piece) :
    keptText (pieces ++ [piece]) = keptText pieces ++
      if piece.keeps (keptText pieces).length then piece.text else [] := by
  rw [keptText, kept_append, List.map_append, List.flatten_append, Nat.zero_add, ← keptText]
  split
  · rw [List.map_singleton, List.flatten_singleton]
  · rfl

/-- A text that fits into the empty buffer is at the front. -/
theorem keptText_take {front : Bytes} (hfront : front.length < kSmallBuffer) (pieces : List Piece) :
    (keptText (.string front :: pieces)).take front.length = front := by
  have hkeeps : (Piece.string front).keeps 0 = true := decide_eq_true (by
    rw [Nat.zero_add]
    exact hfront)
  rw [keptText, kept, if_pos hkeeps, List.map_cons, List.flatten_cons]
  exact List.take_left

/-- The length after one piece more. -/
theorem length_keptText_append (pieces : List Piece) (piece : Piece) :
    (keptText (pieces ++ [piece])).length =
      if piece.keeps (keptText pieces).length then (keptText pieces).length + piece.text.length
      else (keptText pieces).length := by
  rw [keptText_append, List.length_append]
  split
  · rfl
  · rfl

theorem notMem_keptText {c : UInt8} {pieces : List Piece} (hpieces : ∀ piece ∈ pieces, c ∉ piece.text) :
    c ∉ keptText pieces := by
  intro hc
  obtain ⟨text, htext, hmem⟩ := List.mem_flatten.mp hc
  obtain ⟨piece, hpiece, rfl⟩ := List.mem_map.mp htext
  exact hpieces piece ((kept_sublist 0 pieces).subset hpiece) hmem

end Piece

namespace LogStream

/-- The position is within the array, and at least one byte is free. -/
structure Within (s : LogStream) : Prop where
  length_data : s.data.length = kSmallBuffer
  cur_lt : s.cur < kSmallBuffer

variable {s : LogStream}

theorem length_content (hwithin : s.Within) : s.content.length = s.cur := by
  rw [content, List.length_take, hwithin.length_data]
  exact Nat.min_eq_left (Nat.le_of_lt hwithin.cur_lt)

/-- A text that was written at the position, with what was written behind it. -/
theorem content_written (hwithin : s.Within) (text behind : Bytes) (hroom : s.cur + text.length < kSmallBuffer)
    (hbehind : s.cur + (text ++ behind).length ≤ kSmallBuffer) :
    Within ⟨written s.data s.cur (text ++ behind), s.cur + text.length⟩ ∧
      content ⟨written s.data s.cur (text ++ behind), s.cur + text.length⟩ = s.content ++ text := by
  rw [← hwithin.length_data] at hroom hbehind
  refine ⟨⟨?_, by rwa [hwithin.length_data] at hroom⟩, take_written (Nat.le_of_lt hroom) behind⟩
  rw [length_written hbehind, hwithin.length_data]

/-- What a `<<` makes of the stream. -/
def After (s : LogStream) (kept : Bool) (text : Bytes) (next : LogStream) : Prop :=
  next.Within ∧ next.content = s.content ++ if kept then text else []

theorem after_dropped (hwithin : s.Within) (text : Bytes) : After s false text s :=
  ⟨hwithin, (List.append_nil _).symm⟩

theorem append_spec (hwithin : s.Within) (text : Bytes) :
    ∃ next, s.append text = some next ∧ After s (s.cur + text.length < kSmallBuffer) text next := by
  by_cases hfits : s.cur + text.length < kSmallBuffer
  · have havail : s.avail > text.length := by
      rw [avail]
      omega
    have hcopy : copy s.data s.cur text = some (written s.data s.cur text) :=
      if_pos (by
        rw [hwithin.length_data]
        exact Nat.le_of_lt hfits)
    obtain ⟨hnext, hcontent⟩ := content_written hwithin text [] hfits (by
      rw [List.append_nil]
      exact Nat.le_of_lt hfits)
    rw [List.append_nil] at hnext hcontent
    refine ⟨_, by rw [append, if_pos havail, hcopy]; rfl, hnext, ?_⟩
    rw [decide_eq_true hfits]
    exact hcontent
  · have havail : ¬ s.avail > text.length := by
      rw [avail]
      omega
    refine ⟨s, if_neg havail, ?_⟩
    rw [decide_eq_false hfits]
    exact after_dropped hwithin text

/-- **The in-place conversions** have one form: below the headroom they do nothing, otherwise they write the
text and more behind it, all within the headroom. -/
theorem converted_spec (hwithin : s.Within) {text : Bytes} (behind : Bytes) (hbehind : 0 < behind.length)
    (hroom : (text ++ behind).length ≤ kMaxNumericSize)
    {attempt : Option LogStream} (hfull : ¬ s.avail ≥ kMaxNumericSize → attempt = some s)
    (hconvert : s.avail ≥ kMaxNumericSize → s.cur + (text ++ behind).length ≤ s.data.length →
      attempt = some ⟨written s.data s.cur (text ++ behind), s.cur + text.length⟩) :
    ∃ next, attempt = some next ∧ After s (s.cur + kMaxNumericSize ≤ kSmallBuffer) text next := by
  have hcur := hwithin.cur_lt
  have hiff : s.avail ≥ kMaxNumericSize ↔ s.cur + kMaxNumericSize ≤ kSmallBuffer := by
    rw [avail, kMaxNumericSize]
    omega
  by_cases hfits : s.cur + kMaxNumericSize ≤ kSmallBuffer
  · have htotal : s.cur + (text ++ behind).length ≤ kSmallBuffer := by omega
    obtain ⟨hnext, hcontent⟩ := content_written hwithin text behind (by
      rw [List.length_append] at htotal
      omega) htotal
    refine ⟨_, hconvert (hiff.mpr hfits) (by rwa [hwithin.length_data]), hnext, ?_⟩
    rw [decide_eq_true hfits]
    exact hcontent
  · refine ⟨s, hfull (fun h => hfits (hiff.mp h)), ?_⟩
    rw [decide_eq_false hfits]
    exact after_dropped hwithin text

theorem formatInteger_spec (hwithin : s.Within) (v : Integer) :
    ∃ next, s.formatInteger v.value = some next ∧
      After s (s.cur + kMaxNumericSize ≤ kSmallBuffer) (Decimal.printInt v.value) next := by
  have hlength := length_printInt_le v.bounds.1 v.bounds.2
  refine converted_spec hwithin [0] (by decide) ?_ (fun hfull => if_neg hfull)
    fun hfits hroom => ?_
  · rw [List.length_append, List.length_singleton, kMaxNumericSize]
    omega
  · rw [List.length_append, List.length_singleton] at hroom
    have hbounds := v.bounds
    rw [formatInteger, if_pos hfits, bind_of_eq (convert_spec (by decide) (by omega) (by omega))]
    rfl

theorem formatPointer_spec (hwithin : s.Within) (v : BitVec 64) :
    ∃ next, s.formatPointer v = some next ∧
      After s (s.cur + kMaxNumericSize ≤ kSmallBuffer) (ascii "0x" ++ Numeral.print hexChar 16 v.toNat) next := by
  have hlength := length_hex_le v.isLt
  have hascii : ascii "0x" = [48, 120] := rfl
  refine converted_spec hwithin [0] (by decide) ?_ (fun hfull => if_neg hfull)
    fun hfits hroom => ?_
  · simp only [hascii, List.length_append, List.length_cons, List.length_nil, kMaxNumericSize]
    omega
  · simp only [hascii, List.length_append, List.length_cons, List.length_nil] at hroom
    have hfirst : store s.data s.cur 48 = some (written s.data s.cur [48]) := store_eq (by omega)
    have hsecond : store (written s.data s.cur [48]) (s.cur + 1) 120 = some (written s.data s.cur [48, 120]) :=
      store_written [48] (by rw [List.length_singleton]; omega)
    have hhex : convertHex 16 (written s.data s.cur [48, 120]) (s.cur + 2) v.toNat =
        some ((Numeral.print hexChar 16 v.toNat).length,
          written s.data s.cur ([48, 120] ++ (Numeral.print hexChar 16 v.toNat ++ [0]))) := by
      have hdata : (written s.data s.cur [48, 120]).length = s.data.length := length_written (by
        simp only [List.length_cons, List.length_nil]
        omega)
      rw [convertHex_spec (by decide) v.isLt (by omega)]
      exact congrArg (fun data => some (_, data)) (written_written [48, 120] (by
        simp only [List.length_cons, List.length_nil]
        omega))
    rw [formatPointer, if_pos hfits, bind_of_eq hfirst, bind_of_eq hsecond, bind_of_eq hhex, hascii,
      List.append_assoc, List.length_append, Nat.add_comm (List.length [48, 120])]
    rfl

theorem formatDouble_spec (hwithin : s.Within) {text : Bytes} (htext : text.length < kMaxNumericSize) :
    ∃ next, s.formatDouble text = some next ∧
      After s (s.cur + kMaxNumericSize ≤ kSmallBuffer) text next := by
  refine converted_spec hwithin [0] (by decide) ?_ (fun hfull => if_neg hfull)
    fun hfits hroom => ?_
  · rw [List.length_append, List.length_singleton]
    exact htext
  · have hwhole : text.take (kMaxNumericSize - 1) = text := List.take_of_length_le (Nat.le_sub_one_of_lt htext)
    have hsnprintf : snprintf s.data s.cur kMaxNumericSize text = some (written s.data s.cur (text ++ [0])) := by
      rw [snprintf, hwhole]
      exact if_pos hroom
    rw [formatDouble, if_pos hfits, bind_of_eq hsnprintf]
    rfl

/-- **One `<<`.** The piece is appended as a whole or not at all, and nothing is written outside of the
array. -/
theorem put_spec (hwithin : s.Within) (piece : Piece) :
    ∃ next, s.put piece = some next ∧ After s (piece.keeps s.cur) piece.text next := by
  cases piece with
  | bool v | char v | string v | stringPiece v | fmt v => exact append_spec hwithin _
  | integer v => exact formatInteger_spec hwithin v
  | pointer v => exact formatPointer_spec hwithin v
  | double v => exact formatDouble_spec hwithin v.2
  | cstring str =>
      cases str with
      | none | some str => exact append_spec hwithin _

theorem step_spec (hwithin : s.Within) (piece : Piece) :
    ∃ next, step s piece = .ok next ∧ After s (piece.keeps s.cur) piece.text next := by
  obtain ⟨next, hnext, hafter⟩ := put_spec hwithin piece
  exact ⟨next, by rw [step, hnext]; rfl, hafter⟩

/-- **Every sequence of `<<`** on an empty stream. -/
theorem run_pieces {data : Bytes} (hdata : data.length = kSmallBuffer) (pieces : List Piece) :
    ∃ final, run step { data := data } pieces = .ok final ∧ final.Within ∧
      final.content = Piece.keptText pieces := by
  refine run_of_history (fun pieces (s : LogStream) => s.Within ∧ s.content = Piece.keptText pieces)
    (fun pieces s piece hinvariant (_ : True) => ?_) ⟨⟨hdata, Nat.succ_pos 3999⟩, ?_⟩ fun _ _ => trivial
  · obtain ⟨hwithin, hcontent⟩ := hinvariant
    obtain ⟨next, hnext, hafter, hnew⟩ := step_spec hwithin piece
    refine ⟨next, hnext, hafter, ?_⟩
    rw [hnew, Piece.keptText_append, ← hcontent, length_content hwithin]
  · exact List.take_zero

/-- **Pieces.** After every sequence of `<<` the buffer holds the complete texts of some of the pieces, in
order. At most 3999 bytes are in use, and the array was never left, also not by the terminators that the
conversions write. A piece of text is kept just when it and one more byte are free. -/
theorem pieces_whole (data : Bytes) (hdata : data.length = kSmallBuffer) (pieces : List Piece) :
    (∃ (final : LogStream) (kept : List Piece), run step { data := data } pieces = .ok final ∧ kept.Sublist pieces ∧
      final.content = (kept.map Piece.text).flatten ∧ final.content.length = final.cur ∧ final.cur ≤ 3999 ∧
      final.data.length = 4000) ∧
    ∀ front piece back, pieces = front ++ piece :: back → piece.inPlace = false →
      ∃ before after, run step { data := data } front = .ok before ∧ step before piece = .ok after ∧
        after.content = before.content ++
          if (before.cur : Int) < 4000 - piece.text.length then piece.text else [] := by
  refine ⟨?_, ?_⟩
  · obtain ⟨final, hrun, hwithin, hcontent⟩ := run_pieces hdata pieces
    exact ⟨final, _, hrun, Piece.kept_sublist 0 pieces, hcontent, length_content hwithin,
      Nat.le_of_lt_succ hwithin.cur_lt, hwithin.length_data⟩
  · rintro front piece back - htext
    obtain ⟨before, hrun, hwithin, -⟩ := run_pieces hdata front
    obtain ⟨after, hafter, -, hcontent⟩ := step_spec hwithin piece
    refine ⟨before, after, hrun, hafter, ?_⟩
    have hkeeps : piece.keeps before.cur ↔ (before.cur : Int) < 4000 - piece.text.length := by
      rw [Piece.keeps, htext, kSmallBuffer]
      simp only [Bool.false_eq_true, if_false, decide_eq_true_eq]
      omega
    simp only [hcontent, hkeeps]

/-- A text that leaves room for no more than the terminator, a number that is dropped, and a character that
is dropped. -/
theorem pieces_whole_full :
    ∃ before after, run step { data := List.replicate 4000 0 }
        [.string (List.replicate 3999 97), .integer ⟨.int, 7, by decide⟩] = .ok before ∧
      step before (.char 98) = .ok after ∧
      after.content = before.content ++
        if (before.cur : Int) < 4000 - (Piece.char 98).text.length then (Piece.char 98).text else [] :=
  (pieces_whole (List.replicate 4000 0) List.length_replicate
    [.string (List.replicate 3999 97), .integer ⟨.int, 7, by decide⟩, .char 98]).2 _ _ [] rfl rfl

end LogStream
end Muduo
