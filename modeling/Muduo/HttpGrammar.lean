import Mathlib.Data.List.Infix
import Muduo.HttpContext

/-! The grammar of requests without a body, and which streams the parser accepts: those that begin with a
request, and those in which a line without a colon stands in the place of the empty line. -/

namespace Muduo

open Framing HttpRequest

/-- The end of a line. -/
def CRLF : Bytes := [Buffer.kCR, Buffer.kLF]

/-- A request: the request line, header lines with a colon each, and an empty line. -/
structure HttpMessage where
  method : HttpRequest.Method
  target : Bytes
  version : Version
  /-- What stands before the first colon of a header line, and what stands behind it. -/
  headers : List (Bytes × Bytes)
  method_valid : method ≠ .kInvalid
  version_known : version ≠ .kUnknown
  target_word : space ∉ target
  line_plain : ¬ CRLF <:+: methodString method ++ space :: (target ++ space :: versionString version)
  names_plain : ∀ header ∈ headers, colon ∉ header.1
  headers_plain : ∀ header ∈ headers, ¬ CRLF <:+: header.1 ++ colon :: header.2

namespace HttpMessage

def requestLine (m : HttpMessage) : Bytes :=
  methodString m.method ++ space :: (m.target ++ space :: versionString m.version)

def headerLines (headers : List (Bytes × Bytes)) : Bytes :=
  headers.flatMap fun header => header.1 ++ colon :: header.2 ++ CRLF

/-- The lines before the empty one. -/
def head (m : HttpMessage) : Bytes := m.requestLine ++ CRLF ++ headerLines m.headers

def text (m : HttpMessage) : Bytes := m.head ++ CRLF

def trim (value : Bytes) : Bytes := trimRight (trimLeft value)

/-- What the request line says. The target is split in front of its first question mark. -/
def opening (m : HttpMessage) : HttpRequest where
  method := m.method
  version := m.version
  path := m.target.takeWhile (· ≠ question)
  query := m.target.dropWhile (· ≠ question)

/-- What the request says. Of several headers with one name the last counts. -/
def meaning (m : HttpMessage) : HttpRequest :=
  { m.opening with headers := fun name => (m.headers.reverse.lookup name).map trim }

end HttpMessage

/-! ## The request line -/

namespace HttpRequest

theorem setTarget_eq (r : HttpRequest) (hquery : r.query = []) (target : Bytes) :
    r.setTarget target =
      { r with path := target.takeWhile (· ≠ question), query := target.dropWhile (· ≠ question) } := by
  obtain ⟨htake, hdrop⟩ := Lines.cut_split question target
  rw [setTarget, htake, hdrop]
  cases Lines.cut question target with
  | some parts => rfl
  | none => simp [← hquery]

theorem space_notMem_methodString (m : HttpRequest.Method) : space ∉ methodString m := by
  cases m <;> decide

/-- A new request is given what the line says. -/
theorem processRequestLine_requestLine (m : HttpMessage) :
    ({} : HttpRequest).processRequestLine m.requestLine = .ok (true, m.opening) := by
  rw [processRequestLine, HttpMessage.requestLine,
    Lines.cut_append (space_notMem_methodString m.method)]
  simp only [setMethod, if_pos, methodOf_methodString, ne_eq, m.method_valid, not_false_eq_true,
    decide_true, processTarget, Lines.cut_append m.target_word,
    versionOf_eq_some.mpr ⟨m.version_known, rfl⟩]
  rw [setTarget_eq _ rfl]
  rfl

/-- A line is accepted by a new request only if it is a request line. -/
theorem exists_requestLine {line : Bytes} {r : HttpRequest}
    (hline : ¬ CRLF <:+: line)
    (hok : ({} : HttpRequest).processRequestLine line = .ok (true, r)) :
    ∃ m : HttpMessage, m.headers = [] ∧ line = m.requestLine := by
  rw [processRequestLine] at hok
  cases hcut : Lines.cut space line with
  | none => simp [hcut] at hok
  | some parts =>
      obtain ⟨method, rest⟩ := parts
      simp only [hcut, setMethod, if_pos] at hok
      by_cases hmethod : methodOf method = .kInvalid
      · simp [hmethod] at hok
      · simp only [ne_eq, hmethod, not_false_eq_true, decide_true, processTarget, Except.ok.injEq]
          at hok
        cases htarget : Lines.cut space rest with
        | none => simp [htarget] at hok
        | some parts =>
            obtain ⟨target, version⟩ := parts
            cases hversion : versionOf version with
            | none => simp [htarget, hversion] at hok
            | some v =>
                obtain ⟨rfl, -⟩ := Lines.cut_eq_some.mp hcut
                obtain ⟨rfl, hword⟩ := Lines.cut_eq_some.mp htarget
                obtain ⟨hknown, rfl⟩ := versionOf_eq_some.mp hversion
                rw [← methodString_methodOf hmethod] at hline ⊢
                exact ⟨⟨_, target, v, [], hmethod, hknown, hword, hline, by simp, by simp⟩, rfl, rfl⟩

/-- The header map after some header lines. -/
theorem foldl_addHeader (headers : List (Bytes × Bytes)) (r : HttpRequest) :
    headers.foldl (fun r header => r.addHeader header.1 header.2) r =
      { r with headers := fun name =>
          ((headers.reverse.lookup name).map HttpMessage.trim).or (r.headers name) } := by
  induction headers generalizing r with
  | nil => rfl
  | cons header headers ih =>
      obtain ⟨field, last⟩ := header
      rw [List.foldl_cons, ih, addHeader]
      congr 1
      funext name
      rw [List.reverse_cons, List.lookup_append]
      simp only [Function.update_apply]
      cases headers.reverse.lookup name with
      | some value => rfl
      | none =>
          by_cases hname : name = field
          · subst hname
            simp [HttpMessage.trim]
          · have : (name == field) = false := by simpa using hname
            simp [List.lookup_cons, this, hname]

end HttpRequest

/-! ## The machine on a request -/

namespace HttpContext

theorem isFrame_crlf {line : Bytes} (hline : ¬ CRLF <:+: line) : lines.IsFrame (line ++ CRLF) line :=
  Lines.isFrame_line (by decide) hline

theorem parse_requestLine (m : HttpMessage) (later : Bytes) :
    parse {} (m.requestLine ++ CRLF ++ later) = parse ⟨.kExpectHeaders, m.opening⟩ later := by
  have hframe : lines.IsFrame (m.requestLine ++ CRLF) m.requestLine := isFrame_crlf m.line_plain
  rw [parse, drive_isFrame hframe]
  simp only [move, processRequestLine_requestLine]
  rfl

theorem parse_headerLines {headers : List (Bytes × Bytes)}
    (hnames : ∀ header ∈ headers, colon ∉ header.1)
    (hplain : ∀ header ∈ headers, ¬ CRLF <:+: header.1 ++ colon :: header.2)
    (r : HttpRequest) (later : Bytes) :
    parse ⟨.kExpectHeaders, r⟩ (HttpMessage.headerLines headers ++ later) =
      parse ⟨.kExpectHeaders, headers.foldl (fun r header => r.addHeader header.1 header.2) r⟩
        later := by
  induction headers generalizing r with
  | nil => rfl
  | cons header headers ih =>
      rw [List.forall_mem_cons] at hnames hplain
      rw [HttpMessage.headerLines, List.flatMap_cons, List.append_assoc, parse,
        drive_isFrame (isFrame_crlf hplain.1)]
      simp only [move, Lines.cut_append hnames.1]
      exact ih hnames.2 hplain.2 (r.addHeader header.1 header.2)

/-- A line without a colon ends the headers, whether or not it is empty. -/
theorem parse_last {last : Bytes} (hcolon : colon ∉ last) (hplain : ¬ CRLF <:+: last)
    (r : HttpRequest) (later : Bytes) :
    parse ⟨.kExpectHeaders, r⟩ (last ++ CRLF ++ later) = ⟨⟨.kGotAll, r⟩, later, .halted⟩ := by
  rw [parse, drive_isFrame (isFrame_crlf hplain)]
  simp only [move, Lines.cut_eq_none.mpr hcolon]

/-- **What the parser makes of a request**, and of a request that ends in another line. -/
theorem parse_message (m : HttpMessage) {last : Bytes} (hcolon : colon ∉ last)
    (hplain : ¬ CRLF <:+: last) (later : Bytes) :
    parse {} (m.head ++ (last ++ CRLF ++ later)) = ⟨⟨.kGotAll, m.meaning⟩, later, .halted⟩ := by
  rw [HttpMessage.head, List.append_assoc, parse_requestLine,
    parse_headerLines m.names_plain m.headers_plain, parse_last hcolon hplain, foldl_addHeader]
  simp [HttpMessage.meaning, HttpMessage.opening]

theorem nil_plain : ¬ CRLF <:+: [] := by decide

theorem parse_text (m : HttpMessage) (later : Bytes) :
    parse {} (m.text ++ later) = ⟨⟨.kGotAll, m.meaning⟩, later, .halted⟩ := by
  rw [HttpMessage.text, List.append_assoc]
  exact parse_message m List.not_mem_nil nil_plain later

/-! ## What is accepted -/

/-- Behind the request line the machine halts at a line without a colon, and reads headers up to it. -/
theorem exists_headerLines {r : HttpRequest} {stream : Bytes}
    (hhalted : (parse ⟨.kExpectHeaders, r⟩ stream).verdict = .halted) :
    ∃ (headers : List (Bytes × Bytes)) (last later : Bytes),
      (∀ header ∈ headers, colon ∉ header.1) ∧
      (∀ header ∈ headers, ¬ CRLF <:+: header.1 ++ colon :: header.2) ∧
      colon ∉ last ∧ ¬ CRLF <:+: last ∧
      stream = HttpMessage.headerLines headers ++ (last ++ CRLF ++ later) := by
  generalize hcontext : HttpContext.mk .kExpectHeaders r = context at hhalted
  rw [parse] at hhalted
  induction context, stream using drive_induction lines (move .invalid)
    generalizing r with
  | hmore context stream hlook =>
      rw [drive_more hlook] at hhalted
      cases hhalted
  | hframe context stream line length hlook ih =>
      subst hcontext
      obtain ⟨rest, rfl, rfl, hplain⟩ := Lines.look_eq_frame hlook
      cases hcut : Lines.cut colon line with
      | none =>
          exact ⟨[], line, rest, by simp, by simp, Lines.cut_eq_none.mp hcut, hplain,
            by simp [HttpMessage.headerLines, CRLF]⟩
      | some parts =>
          have hmove : move .invalid ⟨.kExpectHeaders, r⟩ line =
              .go ⟨.kExpectHeaders, r.addHeader parts.1 parts.2⟩ := by
            simp only [move, hcut]
          rw [drive_frame hlook, hmove] at hhalted
          obtain ⟨headers, last, later, hnames, hheaders, hcolon, hlast, hrest⟩ :=
            ih _ hmove rfl hhalted
          obtain ⟨rfl, hname⟩ := Lines.cut_eq_some.mp hcut
          refine ⟨parts :: headers, last, later, List.forall_mem_cons.mpr ⟨hname, hnames⟩,
            List.forall_mem_cons.mpr ⟨hplain, hheaders⟩, hcolon, hlast, ?_⟩
          rw [Lines.drop_line] at hrest
          rw [hrest]
          simp [HttpMessage.headerLines, CRLF]

/-- The machine halts only behind a request, or behind a request that ends in another line. -/
theorem exists_message {stream : Bytes} (hhalted : (parse {} stream).verdict = .halted) :
    ∃ (m : HttpMessage) (last later : Bytes), colon ∉ last ∧ ¬ CRLF <:+: last ∧
      stream = m.head ++ (last ++ CRLF ++ later) := by
  rcases look_cases lines stream with hlook | ⟨line, length, hlook⟩
  · rw [parse, drive_more hlook] at hhalted
    cases hhalted
  · obtain ⟨rest, rfl, rfl, hplain⟩ := Lines.look_eq_frame hlook
    obtain ⟨ok, r, hline⟩ := processRequestLine_ok (r := {}) rfl line
    cases ok with
    | false =>
        rw [parse, drive_frame hlook] at hhalted
        simp only [move, hline] at hhalted
        cases hhalted
    | true =>
        obtain ⟨m, hnone, rfl⟩ := exists_requestLine hplain hline
        have hsplit : m.requestLine ++ Buffer.kCR :: Buffer.kLF :: rest =
            m.requestLine ++ CRLF ++ rest := by simp [CRLF]
        rw [hsplit, parse_requestLine] at hhalted
        obtain ⟨headers, last, later, hnames, hheaders, hcolon, hlast, rfl⟩ :=
          exists_headerLines hhalted
        refine ⟨{ m with headers := headers, names_plain := hnames, headers_plain := hheaders },
          last, later, hcolon, hlast, ?_⟩
        rw [hsplit, HttpMessage.head, HttpMessage.requestLine, HttpMessage.requestLine,
          ← List.append_assoc]

/-- Where the headers should end stands a line that is neither a header nor empty. -/
def Unfinished (stream : Bytes) : Prop :=
  ∃ (m : HttpMessage) (last later : Bytes), last ≠ [] ∧ colon ∉ last ∧ ¬ CRLF <:+: last ∧
    stream = m.head ++ (last ++ CRLF ++ later)

theorem head_eq_line (m : HttpMessage) : ∃ front, m.head = front ++ CRLF := by
  rcases List.eq_nil_or_concat m.headers with hnone | ⟨headers, header, hheaders⟩
  · exact ⟨m.requestLine, by simp [HttpMessage.head, hnone, HttpMessage.headerLines]⟩
  · refine ⟨m.requestLine ++ CRLF ++ HttpMessage.headerLines headers ++
      (header.1 ++ colon :: header.2), ?_⟩
    simp [HttpMessage.head, hheaders, HttpMessage.headerLines, List.flatMap_append]

/-- Such a stream does not begin with a request. -/
theorem Unfinished.not_text {stream : Bytes} (hunfinished : Unfinished stream) (m : HttpMessage) :
    ¬ m.text <+: stream := by
  rintro ⟨rest, rfl⟩
  obtain ⟨m', last, later, hne, hcolon, hplain, hstream⟩ := hunfinished
  -- the parser stops in one place
  have hsame := (congrArg (parse {}) hstream).symm.trans (parse_text m rest)
  rw [parse_message m' hcolon hplain, Driven.mk.injEq] at hsame
  obtain ⟨-, rfl, -⟩ := hsame
  have hheads : m.head = m'.head ++ last := by
    simpa [HttpMessage.text, ← List.append_assoc] using hstream
  obtain ⟨front, hfront⟩ := head_eq_line m
  obtain ⟨front', hfront'⟩ := head_eq_line m'
  rw [hfront, hfront'] at hheads
  -- so the other line ends in the end of a line
  rcases List.eq_nil_or_concat last with rfl | ⟨last, c, rfl⟩
  · exact hne rfl
  · have hback := congrArg List.reverse hheads
    simp only [CRLF, List.reverse_append, List.concat_eq_append, List.reverse_cons, List.reverse_nil,
      List.nil_append, List.cons_append, List.cons.injEq] at hback
    obtain ⟨rfl, hback⟩ := hback
    rcases List.eq_nil_or_concat last with rfl | ⟨last, c, rfl⟩
    · simp [Buffer.kCR, Buffer.kLF] at hback
    · simp only [List.concat_eq_append, List.reverse_append, List.reverse_cons, List.reverse_nil,
        List.nil_append, List.cons_append, List.cons.injEq] at hback
      obtain ⟨rfl, -⟩ := hback
      exact hplain ⟨last, [], by simp [CRLF]⟩

/-- The machine halts where a request ends, and where a stream is unfinished. -/
theorem halted_iff (stream : Bytes) :
    (parse {} stream).verdict = .halted ↔
      (∃ m : HttpMessage, m.text <+: stream) ∨ Unfinished stream := by
  constructor
  · intro hhalted
    obtain ⟨m, last, later, hcolon, hplain, rfl⟩ := exists_message hhalted
    by_cases hlast : last = []
    · subst hlast
      exact .inl ⟨m, later, by simp [HttpMessage.text]⟩
    · exact .inr ⟨m, last, later, hlast, hcolon, hplain, rfl⟩
  · rintro (⟨m, later, rfl⟩ | ⟨m, last, later, -, hcolon, hplain, rfl⟩)
    · rw [parse_text]
    · rw [parse_message m hcolon hplain]

/-- **The parser accepts its grammar** on the streams that are not unfinished, and on no other: there it
reports a request that has not ended. A request that stands at the front is consumed and understood on
every stream. -/
theorem gotAll_iff_text (stream : Bytes) (size : Nat) (receiveTime : Timestamp) :
    ∃ full ok context rest, (Buffer.new size).append stream = some full ∧
      parseRequest {} full receiveTime = .ok (ok, context, rest) ∧
      ((context.gotAll = true ↔ ∃ m : HttpMessage, m.text <+: stream) ↔ ¬ Unfinished stream) ∧
      ∀ m : HttpMessage, m.text <+: stream →
        context.gotAll = true ∧ stream = m.text ++ rest.readable ∧
          context.sansTime.request = m.meaning := by
  obtain ⟨full, hfull, hreadable⟩ := (Buffer.new size).append_readable stream
  rw [Buffer.readable_new, List.nil_append] at hreadable
  obtain ⟨context, rest, hparse, hstate, hrest, hgot, -⟩ := parseRequest_eq ready_new full receiveTime
  change context.gotAll = decide ((parse {} full.readable).verdict = .halted) at hgot
  change context.sansTime = (parse {} full.readable).state at hstate
  change rest.readable = (parse {} full.readable).rest at hrest
  rw [hreadable] at hgot hstate hrest
  refine ⟨full, _, context, rest, hfull, hparse, ?_, ?_⟩
  · rw [hgot, decide_eq_true_iff, halted_iff]
    constructor
    · intro hiff hunfinished
      obtain ⟨m, hm⟩ := hiff.mp (.inr hunfinished)
      exact hunfinished.not_text m hm
    · intro hfinished
      exact or_iff_left hfinished
  · rintro m ⟨later, rfl⟩
    rw [parse_text] at hgot hstate hrest
    refine ⟨hgot, by rw [hrest], ?_⟩
    rw [hstate]

/-- A line that is no header ends the headers: the parser has got all of a request, and the stream does
not begin with one. -/
theorem gotAll_without_empty_line :
    ∃ full ok context rest,
      (Buffer.new Buffer.kInitialSize).append (ascii "GET / HTTP/1.1\r\nHost\r\n") = some full ∧
      parseRequest {} full .invalid = .ok (ok, context, rest) ∧ context.gotAll = true ∧
      ¬ ∃ m : HttpMessage, m.text <+: ascii "GET / HTTP/1.1\r\nHost\r\n" := by
  have hunfinished : Unfinished (ascii "GET / HTTP/1.1\r\nHost\r\n") :=
    ⟨⟨.kGet, ascii "/", .kHttp11, [], by decide, by decide, by decide, by decide, by simp, by simp⟩,
      ascii "Host", [], by decide, by decide, by decide, by decide⟩
  obtain ⟨full, hfull, hreadable⟩ :=
    (Buffer.new Buffer.kInitialSize).append_readable (ascii "GET / HTTP/1.1\r\nHost\r\n")
  rw [Buffer.readable_new, List.nil_append] at hreadable
  obtain ⟨context, rest, hparse, -, -, hgot, -⟩ := parseRequest_eq ready_new full .invalid
  refine ⟨full, _, context, rest, hfull, hparse, ?_, fun ⟨m, hm⟩ => hunfinished.not_text m hm⟩
  rw [hgot, decide_eq_true_iff, hreadable]
  exact (halted_iff _).mpr (.inr hunfinished)

end HttpContext
end Muduo
