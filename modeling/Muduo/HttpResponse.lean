import Mathlib.Data.List.Lex
import Muduo.BufferShrink
import Muduo.Codec
import Muduo.Decimal
import Muduo.HttpGrammar

/-! `muduo::net::HttpResponse`. A response that keeps the connection open says how long its body is, and
the client reads the responses of a stream one behind the other. Everything is appended to the buffer as a
`StringPiece`, whose length is an `int`. -/

namespace Muduo

inductive HttpStatusCode where
  | kUnknown
  | k200Ok
  | k301MovedPermanently
  | k400BadRequest
  | k404NotFound
  deriving DecidableEq, Repr

def HttpStatusCode.value : HttpStatusCode → Nat
  | .kUnknown => 0
  | .k200Ok => 200
  | .k301MovedPermanently => 301
  | .k400BadRequest => 400
  | .k404NotFound => 404

/-! ## Headers -/

/-- `operator<` of `std::string` compares the bytes as unsigned numbers. -/
def rank (key : Bytes) : List Nat := key.map UInt8.toNat

theorem rank_injective : Function.Injective rank := by
  apply List.map_injective_iff.mpr
  intro a b hab
  exact UInt8.toNat_inj.mp hab

/-- `std::map<string, string>`: it is iterated in the order of the keys. -/
structure HttpHeaders where
  entries : List (Bytes × Bytes)
  increasing : entries.Pairwise fun a b => rank a.1 < rank b.1

namespace HttpHeaders

/-- `headers_[key] = value`. -/
def assign (key value : Bytes) : List (Bytes × Bytes) → List (Bytes × Bytes)
  | [] => [(key, value)]
  | (k, v) :: rest =>
      if rank key < rank k then (key, value) :: (k, v) :: rest
      else if key = k then (key, value) :: rest
      else (k, v) :: assign key value rest

theorem mem_assign {key value : Bytes} {entries : List (Bytes × Bytes)} {e : Bytes × Bytes}
    (he : e ∈ assign key value entries) : e = (key, value) ∨ e ∈ entries := by
  induction entries with
  | nil => exact .inl (List.mem_singleton.mp he)
  | cons first rest ih =>
      rw [assign] at he
      split_ifs at he
      · exact List.mem_cons.mp he
      · exact (List.mem_cons.mp he).imp id (List.mem_cons_of_mem _)
      · rcases List.mem_cons.mp he with rfl | hrest
        · exact .inr List.mem_cons_self
        · exact (ih hrest).imp id (List.mem_cons_of_mem _)

theorem increasing_assign {key value : Bytes} {entries : List (Bytes × Bytes)}
    (hentries : entries.Pairwise fun a b => rank a.1 < rank b.1) :
    (assign key value entries).Pairwise fun a b => rank a.1 < rank b.1 := by
  induction entries with
  | nil => exact List.pairwise_singleton _ _
  | cons first rest ih =>
      obtain ⟨hfirst, hrest⟩ := List.pairwise_cons.mp hentries
      rw [assign]
      split_ifs with hless hequal
      · refine List.pairwise_cons.mpr ⟨fun e he => ?_, hentries⟩
        rcases List.mem_cons.mp he with rfl | hlater
        · exact hless
        · exact lt_trans hless (hfirst e hlater)
      · subst hequal
        exact List.pairwise_cons.mpr ⟨hfirst, hrest⟩
      · refine List.pairwise_cons.mpr ⟨fun e he => ?_, ih hrest⟩
        rcases mem_assign he with rfl | hlater
        · exact lt_of_le_of_ne (not_lt.mp hless) fun hrank => hequal (rank_injective hrank.symm)
        · exact hfirst e hlater

end HttpHeaders

structure HttpResponse where
  headers : HttpHeaders := ⟨[], List.Pairwise.nil⟩
  statusCode : HttpStatusCode := .kUnknown
  statusMessage : Bytes := []
  closeConnection : Bool
  body : Bytes := []

namespace HttpResponse

open Buffer HttpRequest

def addHeader (r : HttpResponse) (key value : Bytes) : HttpResponse :=
  { r with headers := ⟨HttpHeaders.assign key value r.headers.entries,
      HttpHeaders.increasing_assign r.headers.increasing⟩ }

def setContentType (r : HttpResponse) (contentType : Bytes) : HttpResponse :=
  r.addHeader (ascii "Content-Type") contentType

/-- `snprintf` into an array of some size: the text is cut off to leave room for the final zero. -/
def snprintf (size : Nat) (text : Bytes) : Bytes := text.take (size - 1)

/-- What is appended, in order. -/
def pieces (r : HttpResponse) : List Bytes :=
  [snprintf 32 (ascii "HTTP/1.1 " ++ Decimal.print r.statusCode.value ++ ascii " "),
    r.statusMessage, ascii "\r\n"] ++
  (if r.closeConnection then [ascii "Connection: close\r\n"]
    else [snprintf 32 (ascii "Content-Length: " ++ Decimal.print r.body.length ++ ascii "\r\n"),
      ascii "Connection: Keep-Alive\r\n"]) ++
  r.headers.entries.flatMap (fun header => [header.1, ascii ": ", header.2, ascii "\r\n"]) ++
  [ascii "\r\n", r.body]

/-- Append the strings one after another. -/
def appendPieces : List Bytes → Buffer → Option Buffer
  | [], output => some output
  | piece :: pieces, output =>
      (output.appendPiece (StringPiece.ofBytes piece)).bind (appendPieces pieces)

def appendToBuffer (r : HttpResponse) (output : Buffer) : Option Buffer := appendPieces r.pieces output

/-- What a response appends to a buffer of its own. -/
def output (r : HttpResponse) : Option Bytes :=
  (r.appendToBuffer (Buffer.new kInitialSize)).map readable

/-- The concatenation of the outputs. -/
def outputs : List HttpResponse → Option Bytes
  | [] => some []
  | r :: responses => r.output.bind fun front => (outputs responses).map (front ++ ·)

/-! ## Reading responses -/

/-- What a response says. -/
structure Content where
  statusCode : HttpStatusCode
  statusMessage : Bytes
  headers : List (Bytes × Bytes)
  body : Bytes
  deriving DecidableEq, Repr

def content (r : HttpResponse) : Content :=
  ⟨r.statusCode, r.statusMessage, r.headers.entries, r.body⟩

def statusLine (code : HttpStatusCode) (message : Bytes) : Bytes :=
  ascii "HTTP/1.1 " ++ (Decimal.print code.value ++ space :: message)

def codes : List HttpStatusCode :=
  [.kUnknown, .k200Ok, .k301MovedPermanently, .k400BadRequest, .k404NotFound]

def readStatusLine (line : Bytes) : Option (HttpStatusCode × Bytes) :=
  if line.take 9 = ascii "HTTP/1.1 " then
    (Lines.cut space (line.drop 9)).bind fun parts =>
      (codes.find? fun code => Decimal.print code.value = parts.1).map fun code => (code, parts.2)
  else none

def headerLine (header : Bytes × Bytes) : Bytes := header.1 ++ colon :: space :: header.2

def readHeader (line : Bytes) : Option (Bytes × Bytes) :=
  match Lines.cut colon line with
  | some (name, s :: value) => if s = space then some (name, value) else none
  | _ => none

def readHeaders : List Bytes → Option (List (Bytes × Bytes))
  | [] => some []
  | line :: lines => (readHeader line).bind fun header => (readHeaders lines).map (header :: ·)

/-- A number in decimal without leading zeros. -/
def readNumber (digits : Bytes) : Option Nat :=
  if Decimal.print (Decimal.value digits) = digits then some (Decimal.value digits) else none

/-- What the first `Content-Length` header says. -/
def announced (lines : List Bytes) : Option Nat :=
  (readHeaders lines).bind fun headers =>
    (headers.find? fun header => header.1 = ascii "Content-Length").bind fun header =>
      readNumber header.2

/-- The two headers in front of the response's own. -/
def generated (length : Nat) : List (Bytes × Bytes) :=
  [(ascii "Content-Length", Decimal.print length), (ascii "Connection", ascii "Keep-Alive")]

/-- The lines and the body of a response. -/
def written (c : Content) : (Bytes × List Bytes) × Bytes :=
  ((statusLine c.statusCode c.statusMessage, (generated c.body.length ++ c.headers).map headerLine), c.body)

def readWritten (w : (Bytes × List Bytes) × Bytes) : Option Content :=
  (readStatusLine w.1.1).bind fun status =>
    (readHeaders w.1.2).bind fun headers =>
      if headers.take 2 = generated w.2.length then
        some ⟨status.1, status.2, headers.drop 2, w.2⟩
      else none

theorem readStatusLine_statusLine (code : HttpStatusCode) (message : Bytes) :
    readStatusLine (statusLine code message) = some (code, message) := by
  have hdigits : space ∉ Decimal.print code.value := by
    intro hspace
    have hdigit := (Decimal.mem_print hspace).1
    revert hdigit
    decide
  have hcode : codes.find? (fun other => Decimal.print other.value = Decimal.print code.value) =
      some code := by
    cases code <;> decide +kernel
  have htake : (statusLine code message).take 9 = ascii "HTTP/1.1 " :=
    List.take_left' rfl
  have hdrop : (statusLine code message).drop 9 = Decimal.print code.value ++ space :: message :=
    List.drop_left' rfl
  rw [readStatusLine, if_pos htake, hdrop, Lines.cut_append hdigits, Option.bind_some]
  simp only [hcode, Option.map_some]

theorem statusLine_of_readStatusLine {line message : Bytes} {code : HttpStatusCode}
    (hread : readStatusLine line = some (code, message)) : line = statusLine code message := by
  rw [readStatusLine] at hread
  split_ifs at hread with hhttp
  obtain ⟨⟨digits, rest⟩, hcut, hmap⟩ := Option.bind_eq_some_iff.mp hread
  obtain ⟨other, hfind, hparts⟩ := Option.map_eq_some_iff.mp hmap
  rw [Prod.mk.injEq] at hparts
  obtain ⟨rfl, rfl⟩ := hparts
  have hfound := List.find?_some hfind
  have hdigits : Decimal.print other.value = digits := of_decide_eq_true hfound
  obtain ⟨hline, -⟩ := Lines.cut_eq_some.mp hcut
  rw [← List.take_append_drop 9 line, hhttp, hline, ← hdigits]
  rfl

theorem readHeader_headerLine {header : Bytes × Bytes} (hname : colon ∉ header.1) :
    readHeader (headerLine header) = some header := by
  rw [readHeader, headerLine, Lines.cut_append hname]
  exact if_pos rfl

theorem headerLine_of_readHeader {line : Bytes} {header : Bytes × Bytes}
    (hread : readHeader line = some header) : line = headerLine header := by
  rw [readHeader] at hread
  split at hread
  · rename_i name s value hcut
    split_ifs at hread with hspace
    obtain rfl := Option.some.inj hread
    rw [(Lines.cut_eq_some.mp hcut).1, hspace]
    rfl
  · cases hread

theorem readHeaders_map {headers : List (Bytes × Bytes)} (hnames : ∀ h ∈ headers, colon ∉ h.1) :
    readHeaders (headers.map headerLine) = some headers := by
  induction headers with
  | nil => rfl
  | cons header headers ih =>
      rw [List.map_cons, readHeaders, readHeader_headerLine (hnames header List.mem_cons_self),
        Option.bind_some, ih fun h hh => hnames h (List.mem_cons_of_mem _ hh)]
      rfl

theorem map_of_readHeaders {lines : List Bytes} {headers : List (Bytes × Bytes)}
    (hread : readHeaders lines = some headers) : lines = headers.map headerLine := by
  induction lines generalizing headers with
  | nil =>
      obtain rfl := Option.some.inj hread
      rfl
  | cons line lines ih =>
      obtain ⟨header, hheader, hmap⟩ := Option.bind_eq_some_iff.mp hread
      obtain ⟨others, hothers, rfl⟩ := Option.map_eq_some_iff.mp hmap
      rw [List.map_cons, headerLine_of_readHeader hheader, ih hothers]

theorem colon_notMem_generated (length : Nat) : ∀ h ∈ generated length, colon ∉ h.1 := by
  intro h hh
  rw [generated, List.mem_cons, List.mem_singleton] at hh
  rcases hh with rfl | rfl
  · exact show colon ∉ ascii "Content-Length" by decide
  · exact show colon ∉ ascii "Connection" by decide

/-- No name of a header contains a colon. -/
def Named (c : Content) : Prop := ∀ h ∈ c.headers, colon ∉ h.1

theorem readHeaders_written {c : Content} (hnamed : Named c) :
    readHeaders (written c).1.2 = some (generated c.body.length ++ c.headers) := by
  apply readHeaders_map
  intro h hh
  rcases List.mem_append.mp hh with hgenerated | hown
  · exact colon_notMem_generated _ h hgenerated
  · exact hnamed h hown

theorem readWritten_written {c : Content} (hnamed : Named c) : readWritten (written c) = some c := by
  have hstatus := readStatusLine_statusLine c.statusCode c.statusMessage
  have htake : (generated c.body.length ++ c.headers).take 2 = generated c.body.length := rfl
  rw [readWritten, readHeaders_written hnamed]
  simp only [written, hstatus, Option.bind_some, htake, if_true]
  rfl

theorem written_of_readWritten {w : (Bytes × List Bytes) × Bytes} {c : Content}
    (hread : readWritten w = some c) : w = written c := by
  obtain ⟨⟨line, lines⟩, body⟩ := w
  obtain ⟨⟨code, message⟩, hstatus, hrest⟩ := Option.bind_eq_some_iff.mp hread
  obtain ⟨headers, hheaders, hcontent⟩ := Option.bind_eq_some_iff.mp hrest
  split_ifs at hcontent with hgenerated
  obtain rfl := Option.some.inj hcontent
  have hline : line = statusLine code message := statusLine_of_readStatusLine hstatus
  have hlines : lines = headers.map headerLine := map_of_readHeaders hheaders
  have hsplit : generated body.length ++ headers.drop 2 = headers := by
    rw [← hgenerated, List.take_append_drop]
  rw [hline, hlines, written, hsplit]

/-- The length of the body is what the first `Content-Length` header says. -/
theorem announced_written {c : Content} (hnamed : Named c) :
    announced (written c).1.2 = some c.body.length := by
  have hnumber : readNumber (Decimal.print c.body.length) = some c.body.length := by
    rw [readNumber, Decimal.value_print, if_pos rfl]
  rw [announced, readHeaders_written hnamed, Option.bind_some, generated, List.cons_append,
    List.find?_cons_of_pos (by simp)]
  exact hnumber

theorem kCR_ne_kLF : kCR ≠ kLF := by decide

/-- Responses in a stream: the status line, the header lines up to the first empty line, and as many bytes
as the first `Content-Length` header says. -/
def codec : Codec UInt8 Content :=
  (((Codec.line kCR_ne_kLF).bind fun _ => Codec.block kCR_ne_kLF).bind
    fun head => Codec.exactly (announced head.2)).convert
      written readWritten Named readWritten_written written_of_readWritten

theorem text_codec (c : Content) :
    codec.text c = statusLine c.statusCode c.statusMessage ++ CRLF ++
      (((generated c.body.length ++ c.headers).flatMap fun h => headerLine h ++ CRLF) ++ CRLF) ++ c.body := by
  have hlines : ((generated c.body.length ++ c.headers).map headerLine).flatMap
      (Codec.line kCR_ne_kLF).text =
        (generated c.body.length ++ c.headers).flatMap fun h => headerLine h ++ CRLF := by
    rw [List.flatMap_map]
    rfl
  rw [← hlines]
  rfl

theorem text_codec_ne_nil (c : Content) : codec.text c ≠ [] := by
  rw [text_codec, statusLine]
  simp [ascii]

/-- The conditions on a response: it keeps the connection open, its lines are lines, and the length of its
body fits into the array it is printed into. -/
structure Plain (r : HttpResponse) : Prop where
  keepAlive : r.closeConnection = false
  message : kCR ∉ r.statusMessage ∧ kLF ∉ r.statusMessage
  names : ∀ h ∈ r.headers.entries, kCR ∉ h.1 ∧ kLF ∉ h.1 ∧ colon ∉ h.1
  values : ∀ h ∈ r.headers.entries, kCR ∉ h.2 ∧ kLF ∉ h.2
  body : r.body.length < 10 ^ 13

theorem kCR_notMem_print (n : Nat) : kCR ∉ Decimal.print n := by
  intro hdigit
  have hrange := (Decimal.mem_print hdigit).1
  revert hrange
  decide

theorem plain_of_notMem {line : Bytes} (hline : kCR ∉ line) : ¬ [kCR, kLF] <:+: line := by
  intro hinside
  exact hline (hinside.subset List.mem_cons_self)

theorem valid_content {r : HttpResponse} (hplain : r.Plain) : codec.Valid r.content := by
  have hnamed : Named r.content := fun h hh => (hplain.names h hh).2.2
  have hstatus : kCR ∉ statusLine r.statusCode r.statusMessage := by
    rw [statusLine, List.mem_append, List.mem_append, List.mem_cons, not_or, not_or, not_or]
    exact ⟨by decide, kCR_notMem_print _, by decide, hplain.message.1⟩
  have hheader {h : Bytes × Bytes} (hname : kCR ∉ h.1) (hvalue : kCR ∉ h.2) : kCR ∉ headerLine h := by
    rw [headerLine, List.mem_append, List.mem_cons, List.mem_cons, not_or, not_or, not_or]
    exact ⟨hname, by decide, by decide, hvalue⟩
  refine ⟨hnamed, ⟨plain_of_notMem hstatus, fun line hline => ?_⟩, announced_written hnamed⟩
  obtain ⟨h, hh, rfl⟩ := List.mem_map.mp hline
  refine ⟨by simp [headerLine], plain_of_notMem ?_⟩
  rcases List.mem_append.mp hh with hgenerated | hown
  · rw [generated, List.mem_cons, List.mem_singleton] at hgenerated
    rcases hgenerated with rfl | rfl
    · exact hheader (show kCR ∉ ascii "Content-Length" by decide) (kCR_notMem_print _)
    · exact hheader (show kCR ∉ ascii "Connection" by decide) (show kCR ∉ ascii "Keep-Alive" by decide)
  · exact hheader (hplain.names h hown).1 (hplain.values h hown).1

/-! ## What is written -/

theorem snprintf_eq {size : Nat} {text : Bytes} (hfits : text.length < size) : snprintf size text = text :=
  List.take_of_length_le (Nat.le_sub_one_of_lt hfits)

/-- The strings of a response are the text of what it says. -/
theorem flatten_pieces {r : HttpResponse} (hplain : r.Plain) :
    r.pieces.flatten = codec.text r.content := by
  have hcode : (Decimal.print r.statusCode.value).length ≤ 3 := by
    apply Decimal.length_print_le (by decide)
    cases r.statusCode <;> decide
  have hstatus : snprintf 32 (ascii "HTTP/1.1 " ++ Decimal.print r.statusCode.value ++ ascii " ") =
      ascii "HTTP/1.1 " ++ Decimal.print r.statusCode.value ++ ascii " " := by
    apply snprintf_eq
    rw [List.length_append, List.length_append, show (ascii "HTTP/1.1 ").length = 9 from rfl,
      show (ascii " ").length = 1 from rfl]
    omega
  have hdigits := Decimal.length_print_le (by decide) hplain.body
  have hlength : snprintf 32 (ascii "Content-Length: " ++ Decimal.print r.body.length ++ ascii "\r\n") =
      ascii "Content-Length: " ++ Decimal.print r.body.length ++ ascii "\r\n" := by
    apply snprintf_eq
    rw [List.length_append, List.length_append, show (ascii "Content-Length: ").length = 16 from rfl,
      show (ascii "\r\n").length = 2 from rfl]
    omega
  have hheaders : (r.headers.entries.flatMap fun h => [h.1, ascii ": ", h.2, ascii "\r\n"]).flatten =
      r.headers.entries.flatMap fun h => headerLine h ++ CRLF := by
    induction r.headers.entries with
    | nil => rfl
    | cons h headers ih =>
        rw [List.flatMap_cons, List.flatten_append, ih, List.flatMap_cons]
        simp [headerLine, CRLF]
        rfl
  have hname : ascii "Content-Length: " = ascii "Content-Length" ++ [colon, space] := rfl
  have hconnection : ascii "Connection: Keep-Alive\r\n" =
    headerLine (ascii "Connection", ascii "Keep-Alive") ++ CRLF := rfl
  have hend : ascii "\r\n" = CRLF := rfl
  have hspace : ascii " " = [space] := rfl
  rw [pieces, hplain.keepAlive, hstatus, hlength, text_codec, List.flatten_append, List.flatten_append,
    List.flatten_append, hheaders, List.flatMap_append, hname, hconnection, hend, hspace]
  simp [statusLine, generated, headerLine, content]

/-- The strings that are not fixed are short enough for a `StringPiece`. -/
structure Short (r : HttpResponse) : Prop where
  message : r.statusMessage.length < 2 ^ 31
  headers : ∀ h ∈ r.headers.entries, h.1.length < 2 ^ 31 ∧ h.2.length < 2 ^ 31
  body : r.body.length < 2 ^ 31

theorem short_iff (r : HttpResponse) : r.Short ↔ ∀ piece ∈ r.pieces, piece.length < 2 ^ 31 := by
  constructor
  · intro hshort piece hpiece
    have hsnprintf (text : Bytes) : (snprintf 32 text).length < 2 ^ 31 := by
      have hcut := List.length_take_le (32 - 1) text
      rw [snprintf]
      omega
    rw [pieces, List.mem_append, List.mem_append, List.mem_append] at hpiece
    rcases hpiece with ((hstatus | hgenerated) | hown) | hbody
    · simp only [List.mem_cons, List.not_mem_nil, or_false] at hstatus
      rcases hstatus with rfl | rfl | rfl
      · exact hsnprintf _
      · exact hshort.message
      · decide
    · split_ifs at hgenerated
      · rw [List.mem_singleton.mp hgenerated]
        decide
      · rw [List.mem_cons, List.mem_singleton] at hgenerated
        rcases hgenerated with rfl | rfl
        · exact hsnprintf _
        · decide
    · obtain ⟨h, hh, hpiece⟩ := List.mem_flatMap.mp hown
      simp only [List.mem_cons, List.not_mem_nil, or_false] at hpiece
      rcases hpiece with rfl | rfl | rfl | rfl
      · exact (hshort.headers h hh).1
      · decide
      · exact (hshort.headers h hh).2
      · decide
    · rw [List.mem_cons, List.mem_singleton] at hbody
      rcases hbody with rfl | rfl
      · decide
      · exact hshort.body
  · intro hall
    refine ⟨hall _ ?_, fun h hh => ⟨hall _ ?_, hall _ ?_⟩, hall _ ?_⟩
    · simp [pieces]
    · rw [pieces, List.mem_append, List.mem_append]
      exact .inl (.inr (List.mem_flatMap.mpr ⟨h, hh, List.mem_cons_self⟩))
    · rw [pieces, List.mem_append, List.mem_append]
      exact .inl (.inr (List.mem_flatMap.mpr ⟨h, hh, by simp⟩))
    · simp [pieces]

theorem appendPieces_short {strings : List Bytes} (hshort : ∀ piece ∈ strings, piece.length < 2 ^ 31)
    (b : Buffer) :
    ∃ longer, appendPieces strings b = some longer ∧ longer.readable = b.readable ++ strings.flatten := by
  induction strings generalizing b with
  | nil => exact ⟨b, rfl, (List.append_nil _).symm⟩
  | cons piece strings ih =>
      obtain ⟨next, hnext, hreadable⟩ := b.append_readable piece
      obtain ⟨longer, hlonger, hcontent⟩ := ih (fun p hp => hshort p (List.mem_cons_of_mem _ hp)) next
      refine ⟨longer, ?_, ?_⟩
      · rw [appendPieces, appendPiece_ofBytes b (hshort piece List.mem_cons_self), hnext]
        exact hlonger
      · rw [hcontent, hreadable, List.flatten_cons, List.append_assoc]

/-- Nothing is appended that is not in the strings, and all of it only if they are short. -/
theorem appendPieces_length {strings : List Bytes} {b longer : Buffer}
    (hlonger : appendPieces strings b = some longer) :
    longer.readable.length ≤ b.readable.length + strings.flatten.length ∧
      (longer.readable.length = b.readable.length + strings.flatten.length →
        ∀ piece ∈ strings, piece.length < 2 ^ 31) := by
  induction strings generalizing b with
  | nil =>
      obtain rfl := Option.some.inj hlonger
      exact ⟨Nat.le_refl _, fun _ _ hpiece => absurd hpiece List.not_mem_nil⟩
  | cons piece strings ih =>
      obtain ⟨next, hnext, hrest⟩ := Option.bind_eq_some_iff.mp hlonger
      obtain ⟨count, hcount, -, happend, hall⟩ := appendPiece_cases hnext
      obtain ⟨other, hother, hreadable⟩ := b.append_readable (piece.take count)
      obtain rfl := Option.some.inj (happend.symm.trans hother)
      obtain ⟨hle, heq⟩ := ih hrest
      have hlength : next.readable.length = b.readable.length + count := by
        rw [hreadable, List.length_append, List.length_take, Nat.min_eq_left hcount]
      rw [List.flatten_cons, List.length_append]
      refine ⟨by omega, fun hwhole other hmem => ?_⟩
      rcases List.mem_cons.mp hmem with rfl | hlater
      · exact hall (by omega)
      · exact heq (by omega) other hlater

variable {r : HttpResponse} {responses : List HttpResponse}

theorem output_short (hplain : r.Plain) (hshort : r.Short) : r.output = some (codec.text r.content) := by
  obtain ⟨longer, hlonger, hreadable⟩ :=
    appendPieces_short (r.short_iff.mp hshort) (Buffer.new kInitialSize)
  rw [output, appendToBuffer, hlonger, Option.map_some, hreadable, readable_new, List.nil_append,
    flatten_pieces hplain]

theorem output_length (hplain : r.Plain) {bytes : Bytes} (houtput : r.output = some bytes) :
    bytes.length ≤ (codec.text r.content).length ∧
      (bytes.length = (codec.text r.content).length → r.Short) := by
  obtain ⟨longer, hlonger, rfl⟩ := Option.map_eq_some_iff.mp houtput
  obtain ⟨hle, heq⟩ := appendPieces_length hlonger
  rw [readable_new, flatten_pieces hplain, List.length_nil, Nat.zero_add] at hle heq
  exact ⟨hle, fun hlength => r.short_iff.mpr (heq hlength)⟩

theorem outputs_short (hplain : ∀ r ∈ responses, r.Plain) (hshort : ∀ r ∈ responses, r.Short) :
    outputs responses = some ((responses.map content).flatMap codec.text) := by
  induction responses with
  | nil => rfl
  | cons r responses ih =>
      have hrest := ih (fun r hr => hplain r (List.mem_cons_of_mem _ hr))
        (fun r hr => hshort r (List.mem_cons_of_mem _ hr))
      rw [outputs, output_short (hplain r List.mem_cons_self) (hshort r List.mem_cons_self), hrest]
      rfl

theorem outputs_length (hplain : ∀ r ∈ responses, r.Plain) {bytes : Bytes}
    (houtputs : outputs responses = some bytes) :
    bytes.length ≤ ((responses.map content).flatMap codec.text).length ∧
      (bytes.length = ((responses.map content).flatMap codec.text).length →
        ∀ r ∈ responses, r.Short) := by
  induction responses generalizing bytes with
  | nil =>
      obtain rfl := Option.some.inj houtputs
      exact ⟨Nat.le_refl _, fun _ _ hr => absurd hr List.not_mem_nil⟩
  | cons r responses ih =>
      obtain ⟨front, hfront, hmap⟩ := Option.bind_eq_some_iff.mp houtputs
      obtain ⟨back, hback, rfl⟩ := Option.map_eq_some_iff.mp hmap
      obtain ⟨hle, heq⟩ := output_length (hplain r List.mem_cons_self) hfront
      obtain ⟨hles, heqs⟩ := ih (fun r hr => hplain r (List.mem_cons_of_mem _ hr)) hback
      rw [List.map_cons, List.flatMap_cons, List.length_append, List.length_append]
      refine ⟨by omega, fun hwhole other hmem => ?_⟩
      rcases List.mem_cons.mp hmem with rfl | hlater
      · exact heq (by omega)
      · exact heqs (by omega) other hlater

/-- The outputs are decoded to what the responses say, and no other responses have these outputs. -/
def DecodedBack (responses : List HttpResponse) : Prop :=
  ∃ bytes, outputs responses = some bytes ∧ codec.decode bytes = some (responses.map content) ∧
    ∀ others : List HttpResponse, (∀ r ∈ others, r.Plain ∧ r.Short) → outputs others = some bytes →
      others.map content = responses.map content

theorem decode_outputs (hplain : ∀ r ∈ responses, r.Plain) :
    codec.decode ((responses.map content).flatMap codec.text) = some (responses.map content) := by
  apply Codec.decode_texts text_codec_ne_nil
  intro c hc
  obtain ⟨r, hr, rfl⟩ := List.mem_map.mp hc
  exact valid_content (hplain r hr)

/-- **Responses are self-delimiting.** A list of responses that keep the connection open, with lines that are
lines, is read back from the concatenation of the outputs just when every string in them is shorter than
`2^31` bytes. -/
theorem decodedBack_iff (responses : List HttpResponse) (hplain : ∀ r ∈ responses, r.Plain) :
    DecodedBack responses ↔ ∀ r ∈ responses, r.Short := by
  constructor
  · rintro ⟨bytes, houtputs, hdecode, -⟩
    -- what is decoded is all that the responses say, so nothing was cut off
    have htext := Codec.texts_of_decode hdecode
    exact (outputs_length hplain houtputs).2 (congrArg List.length htext)
  · intro hshort
    refine ⟨_, outputs_short hplain hshort, decode_outputs hplain, fun others hothers hsame => ?_⟩
    have hplain' : ∀ r ∈ others, r.Plain := fun r hr => (hothers r hr).1
    have hshort' : ∀ r ∈ others, r.Short := fun r hr => (hothers r hr).2
    rw [outputs_short hplain' hshort', Option.some.injEq] at hsame
    have hdecode := decode_outputs hplain'
    rw [hsame, decode_outputs hplain] at hdecode
    exact (Option.some.inj hdecode).symm

/-- A body that looks like the end of the headers and another response. -/
def confusing : HttpResponse :=
  ({ closeConnection := false, statusCode := .k200Ok, statusMessage := ascii "OK",
     body := ascii "\r\n\r\nHTTP/1.1 404 " } : HttpResponse).setContentType (ascii "text/plain")

theorem decodedBack_confusing : DecodedBack [confusing, confusing.addHeader (ascii "Content-Length") []] := by
  have hplain : ∀ r ∈ [confusing, confusing.addHeader (ascii "Content-Length") []], r.Plain := by
    intro r hr
    rw [List.mem_cons, List.mem_singleton] at hr
    rcases hr with rfl | rfl
    · exact ⟨rfl, by decide +kernel, by decide +kernel, by decide +kernel, by decide +kernel⟩
    · exact ⟨rfl, by decide +kernel, by decide +kernel, by decide +kernel, by decide +kernel⟩
  apply (decodedBack_iff _ hplain).mpr
  intro r hr
  rw [List.mem_cons, List.mem_singleton] at hr
  rcases hr with rfl | rfl
  · exact ⟨by decide +kernel, by decide +kernel, by decide +kernel⟩
  · exact ⟨by decide +kernel, by decide +kernel, by decide +kernel⟩

/-- A response that consists of its body. -/
def withBody (body : Bytes) : HttpResponse :=
  { closeConnection := false, statusCode := .k200Ok, statusMessage := ascii "OK", body := body }

/-- What it appends before a body of `2^32` bytes. -/
def headPieces : List Bytes :=
  [ascii "HTTP/1.1 200 ", ascii "OK", ascii "\r\n", ascii "Content-Length: 4294967296\r\n",
    ascii "Connection: Keep-Alive\r\n", ascii "\r\n"]

theorem appendPieces_append (front back : List Bytes) (b : Buffer) :
    appendPieces (front ++ back) b = (appendPieces front b).bind (appendPieces back) := by
  induction front generalizing b with
  | nil => rfl
  | cons piece front ih =>
      rw [List.cons_append, appendPieces, appendPieces]
      cases b.appendPiece (StringPiece.ofBytes piece) with
      | none => rfl
      | some next => exact ih next

/-- A body whose length is a multiple of `2^32` is left out. -/
theorem output_withBody {body : Bytes} (hbody : body.length = 2 ^ 32) :
    (withBody body).output =
      some (ascii "HTTP/1.1 200 OK\r\nContent-Length: 4294967296\r\nConnection: Keep-Alive\r\n\r\n") := by
  have hpieces : (withBody body).pieces = headPieces ++ [body] := by
    have hstatus : snprintf 32 (ascii "HTTP/1.1 " ++ Decimal.print 200 ++ ascii " ") =
        ascii "HTTP/1.1 200 " := by decide +kernel
    have hlength : snprintf 32 (ascii "Content-Length: " ++ Decimal.print (2 ^ 32) ++ ascii "\r\n") =
        ascii "Content-Length: 4294967296\r\n" := by decide +kernel
    rw [pieces, show (withBody body).body.length = 2 ^ 32 from hbody, hlength,
      show (withBody body).statusCode.value = 200 from rfl, hstatus]
    rfl
  have hsize : (StringPiece.ofBytes body).size = 0 := by
    rw [StringPiece.size, StringPiece.ofBytes, hbody]
    exact show ((BitVec.ofNat 32 (2 ^ 32)).signExtend 64).toNat = 0 by decide
  have hshort : ∀ piece ∈ headPieces, piece.length < 2 ^ 31 := by decide +kernel
  obtain ⟨head, hhead, hreadable⟩ := appendPieces_short hshort (Buffer.new kInitialSize)
  obtain ⟨last, hlast, hsame⟩ := head.append_readable []
  have hnothing : head.appendPiece (StringPiece.ofBytes body) = some last := by
    rw [appendPiece, hsize, if_pos ⟨Nat.zero_le _, Nat.zero_le _⟩]
    exact hlast
  rw [output, appendToBuffer, hpieces, appendPieces_append, hhead, Option.bind_some, appendPieces,
    hnothing, Option.bind_some, appendPieces, Option.map_some, hsame, hreadable, readable_new]
  exact congrArg some (by decide +kernel)

/-- The response announces a body and ends without it. -/
theorem long_body_dropped :
    ∃ r : HttpResponse, r.Plain ∧ r.body.length = 2 ^ 32 ∧
      outputs [r] =
        some (ascii "HTTP/1.1 200 OK\r\nContent-Length: 4294967296\r\nConnection: Keep-Alive\r\n\r\n") ∧
      ¬ DecodedBack [r] := by
  obtain ⟨body, hbody⟩ : ∃ body : Bytes, body.length = 2 ^ 32 :=
    ⟨List.replicate (2 ^ 32) 0, List.length_replicate⟩
  have houtputs : outputs [withBody body] = some (ascii
      "HTTP/1.1 200 OK\r\nContent-Length: 4294967296\r\nConnection: Keep-Alive\r\n\r\n") := by
    rw [outputs, output_withBody hbody]
    rfl
  have hplain : (withBody body).Plain := by
    refine ⟨rfl, show kCR ∉ ascii "OK" ∧ kLF ∉ ascii "OK" by decide,
      fun h hh => absurd hh List.not_mem_nil,
      fun h hh => absurd hh List.not_mem_nil, ?_⟩
    rw [show (withBody body).body = body from rfl, hbody]
    decide
  refine ⟨withBody body, hplain, hbody, houtputs, ?_⟩
  rintro ⟨bytes, hbytes, hdecode, -⟩
  rw [houtputs, Option.some.injEq] at hbytes
  have hnone : codec.decode (ascii
      "HTTP/1.1 200 OK\r\nContent-Length: 4294967296\r\nConnection: Keep-Alive\r\n\r\n") = none := by
    decide +kernel
  rw [← hbytes, hnone] at hdecode
  cases hdecode

end HttpResponse
end Muduo
