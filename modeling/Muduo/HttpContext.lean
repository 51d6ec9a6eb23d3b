import Mathlib.Logic.Function.Basic
import Muduo.Buffer
import Muduo.FramingMachine
import Muduo.Timestamp

/-! `muduo::net::HttpRequest` and the parser in `muduo::net::HttpContext`. The parser takes line after
line from the front of a buffer. It is an instance of the machines of `FramingMachine`: what it does to a
buffer is to drive the machine over the content. -/

namespace Muduo

open Framing

/-- `isspace` in the C locale. -/
def isspace (c : UInt8) : Bool := c == 32 || (9 ≤ c && c ≤ 13)

/-- Why `parseRequest` does not return: the assertion of `setMethod` or one of `Buffer` fails, or its loop
goes on forever. -/
inductive HttpStop where
  | method
  | buffer
  | diverges
  deriving DecidableEq, Repr

/-! ## Requests -/

namespace HttpRequest

inductive Method where
  | kInvalid
  | kGet
  | kPost
  | kHead
  | kPut
  | kDelete
  deriving DecidableEq, Repr

inductive Version where
  | kUnknown
  | kHttp10
  | kHttp11
  deriving DecidableEq, Repr

end HttpRequest

structure HttpRequest where
  method : HttpRequest.Method := .kInvalid
  version : HttpRequest.Version := .kUnknown
  path : Bytes := []
  query : Bytes := []
  receiveTime : Timestamp := .invalid
  headers : Bytes → Option Bytes := fun _ => none

namespace HttpRequest

def space : UInt8 := 32
def question : UInt8 := 63
def colon : UInt8 := 58

/-- The method that `setMethod` stores for a string. -/
def methodOf (m : Bytes) : Method :=
  if m = ascii "GET" then .kGet
  else if m = ascii "POST" then .kPost
  else if m = ascii "HEAD" then .kHead
  else if m = ascii "PUT" then .kPut
  else if m = ascii "DELETE" then .kDelete
  else .kInvalid

/-- `setMethod`: whether the method is valid, and the request. -/
def setMethod (r : HttpRequest) (m : Bytes) : Except HttpStop (Bool × HttpRequest) :=
  -- assert(method_ == kInvalid)
  if r.method = .kInvalid then
    .ok (methodOf m ≠ .kInvalid, { r with method := methodOf m })
  else .error .method

def methodString : Method → Bytes
  | .kGet => ascii "GET"
  | .kPost => ascii "POST"
  | .kHead => ascii "HEAD"
  | .kPut => ascii "PUT"
  | .kDelete => ascii "DELETE"
  | .kInvalid => ascii "UNKNOWN"

theorem methodOf_methodString (m : Method) : methodOf (methodString m) = m := by
  cases m <;> decide

theorem methodString_methodOf {m : Bytes} (hm : methodOf m ≠ .kInvalid) :
    methodString (methodOf m) = m := by
  rw [methodOf] at hm ⊢
  split_ifs at hm ⊢ with hget hpost hhead hput hdelete
  · exact hget.symm
  · exact hpost.symm
  · exact hhead.symm
  · exact hput.symm
  · exact hdelete.symm
  · exact absurd rfl hm

def trimLeft (value : Bytes) : Bytes := value.dropWhile isspace

def trimRight (value : Bytes) : Bytes := (value.reverse.dropWhile isspace).reverse

/-- `addHeader` with what stands before the colon and what stands behind it. -/
def addHeader (r : HttpRequest) (field value : Bytes) : HttpRequest :=
  { r with headers := Function.update r.headers field (some (trimRight (trimLeft value))) }

/-- The request without the time it was received at. -/
def sansTime (r : HttpRequest) : HttpRequest := { r with receiveTime := .invalid }

def getHeader (r : HttpRequest) (field : Bytes) : Bytes := (r.headers field).getD []

/-- The path and the query of a target. The question mark belongs to the query. -/
def setTarget (r : HttpRequest) (target : Bytes) : HttpRequest :=
  match Lines.cut question target with
  | some (path, query) => { r with path := path, query := question :: query }
  | none => { r with path := target }

/-- The version at the end of a request line. -/
def versionOf (version : Bytes) : Option Version :=
  -- end-start == 8 && std::equal(start, end-1, "HTTP/1.")
  if version.length = 8 ∧ version.take 7 = ascii "HTTP/1." then
    if version.drop 7 = ascii "1" then some .kHttp11
    else if version.drop 7 = ascii "0" then some .kHttp10
    else none
  else none

def versionString : Version → Bytes
  | .kHttp10 => ascii "HTTP/1.0"
  | .kHttp11 => ascii "HTTP/1.1"
  | .kUnknown => []

theorem versionOf_eq_some {version : Bytes} {v : Version} :
    versionOf version = some v ↔ v ≠ .kUnknown ∧ version = versionString v := by
  rw [versionOf]
  constructor
  · intro h
    split_ifs at h with hhttp hone hzero
    · cases h
      exact ⟨by decide, by rw [← List.take_append_drop 7 version, hhttp.2, hone]; rfl⟩
    · cases h
      exact ⟨by decide, by rw [← List.take_append_drop 7 version, hhttp.2, hzero]; rfl⟩
  · rintro ⟨hknown, rfl⟩
    cases v with
    | kUnknown => exact absurd rfl hknown
    | kHttp10 => decide
    | kHttp11 => decide

/-- `processRequestLine` behind the method and its space. -/
def processTarget (r : HttpRequest) (line : Bytes) : Bool × HttpRequest :=
  match Lines.cut space line with
  | some (target, version) =>
      match versionOf version with
      | some v => (true, { r.setTarget target with version := v })
      | none => (false, r.setTarget target)
  | none => (false, r)

def processRequestLine (r : HttpRequest) (line : Bytes) : Except HttpStop (Bool × HttpRequest) :=
  match Lines.cut space line with
  | some (method, rest) =>
      match r.setMethod method with
      | .ok (true, r) => .ok (r.processTarget rest)
      | .ok (false, r) => .ok (false, r)
      | .error stop => .error stop
  | none => .ok (false, r)

/-- The assertion is about what was parsed before. -/
theorem processRequestLine_ok {r : HttpRequest} (hmethod : r.method = .kInvalid) (line : Bytes) :
    ∃ ok next, r.processRequestLine line = .ok (ok, next) := by
  rw [processRequestLine]
  cases Lines.cut space line with
  | none => exact ⟨false, r, rfl⟩
  | some parts =>
      simp only [setMethod, if_pos hmethod]
      cases decide (methodOf parts.1 ≠ .kInvalid) with
      | true | false => exact ⟨_, _, rfl⟩

theorem processRequestLine_assertion {r : HttpRequest} (hmethod : r.method ≠ .kInvalid) {line : Bytes}
    (hspace : space ∈ line) : r.processRequestLine line = .error .method := by
  rw [processRequestLine]
  cases hcut : Lines.cut space line with
  | none => exact absurd hspace (Lines.cut_eq_none.mp hcut)
  | some parts => simp only [setMethod, if_neg hmethod]

/-- The time a request was received at is not looked at. -/
theorem processRequestLine_receiveTime (r : HttpRequest) (time : Timestamp) (line : Bytes) :
    { r with receiveTime := time }.processRequestLine line =
      (r.processRequestLine line).map fun result =>
        (result.1, { result.2 with receiveTime := time }) := by
  have htarget (r : HttpRequest) (target : Bytes) :
      { r with receiveTime := time }.setTarget target =
        { r.setTarget target with receiveTime := time } := by
    rw [setTarget, setTarget]
    cases Lines.cut question target <;> rfl
  have hrest (r : HttpRequest) (rest : Bytes) :
      { r with receiveTime := time }.processTarget rest =
        ((r.processTarget rest).1, { (r.processTarget rest).2 with receiveTime := time }) := by
    rw [processTarget, processTarget]
    cases Lines.cut space rest with
    | none => rfl
    | some parts =>
        simp only [htarget]
        cases versionOf parts.2 <;> rfl
  rw [processRequestLine, processRequestLine]
  cases Lines.cut space line with
  | none => rfl
  | some parts =>
      simp only [setMethod]
      by_cases hmethod : r.method = .kInvalid
      · rw [if_pos hmethod, if_pos hmethod]
        cases decide (methodOf parts.1 ≠ .kInvalid) with
        | true => exact congrArg Except.ok (hrest { r with method := methodOf parts.1 } parts.2)
        | false => rfl
      · rw [if_neg hmethod, if_neg hmethod]
        rfl

end HttpRequest

/-! ## The parser -/

namespace HttpContext

inductive HttpRequestParseState where
  | kExpectRequestLine
  | kExpectHeaders
  | kExpectBody
  | kGotAll
  deriving DecidableEq, Repr

end HttpContext

structure HttpContext where
  state : HttpContext.HttpRequestParseState := .kExpectRequestLine
  request : HttpRequest := {}

namespace HttpContext

def gotAll (context : HttpContext) : Bool := context.state = .kGotAll

def reset (_ : HttpContext) : HttpContext := {}

/-- The loop of `parseRequest`, for a number of turns: what it returns, the context and the buffer. -/
def parseLoop (receiveTime : Timestamp) :
    Nat → HttpContext → Buffer → Except HttpStop (Bool × HttpContext × Buffer)
  | 0, _, _ => .error .diverges
  | turns + 1, context, buf =>
      match context.state with
      | .kExpectRequestLine =>
          match buf.findCRLF with
          | some crlf =>
              match context.request.processRequestLine (buf.readable.take crlf) with
              | .ok (true, request) =>
                  match buf.retrieveUntil (buf.readerIndex + (crlf + 2)) with
                  | some rest =>
                      parseLoop receiveTime turns
                        ⟨.kExpectHeaders, { request with receiveTime := receiveTime }⟩ rest
                  | none => .error .buffer
              | .ok (false, request) => .ok (false, { context with request := request }, buf)
              | .error stop => .error stop
          | none => .ok (true, context, buf)
      | .kExpectHeaders =>
          match buf.findCRLF with
          | some crlf =>
              match buf.retrieveUntil (buf.readerIndex + (crlf + 2)) with
              | some rest =>
                  match Lines.cut HttpRequest.colon (buf.readable.take crlf) with
                  | some (field, value) =>
                      parseLoop receiveTime turns
                        { context with request := context.request.addHeader field value } rest
                  -- empty line, end of header
                  | none => .ok (true, { context with state := .kGotAll }, rest)
              | none => .error .buffer
          | none => .ok (true, context, buf)
      -- nothing is done, and `hasMore` stays set
      | .kExpectBody => parseLoop receiveTime turns context buf
      | .kGotAll => parseLoop receiveTime turns context buf

/-- `parseRequest`. A turn that does not end the loop takes a line from the buffer. -/
def parseRequest (context : HttpContext) (buf : Buffer) (receiveTime : Timestamp) :
    Except HttpStop (Bool × HttpContext × Buffer) :=
  parseLoop receiveTime (buf.readableBytes + 1) context buf

/-! ## The parser as a machine -/

/-- The lines of a buffer. -/
def lines : Decoder UInt8 Bytes Empty := Lines.decoder (a := Buffer.kCR) (b := Buffer.kLF) (by decide)

/-- What the parser does with a line. -/
def move (receiveTime : Timestamp) (context : HttpContext) (line : Bytes) : Move HttpContext :=
  match context.state with
  | .kExpectRequestLine =>
      match context.request.processRequestLine line with
      | .ok (true, request) => .go ⟨.kExpectHeaders, { request with receiveTime := receiveTime }⟩
      | .ok (false, request) => .refuse { context with request := request }
      | .error _ => .refuse context
  | .kExpectHeaders =>
      match Lines.cut HttpRequest.colon line with
      | some (field, value) => .go { context with request := context.request.addHeader field value }
      | none => .halt { context with state := .kGotAll }
  | _ => .refuse context

/-- The parser can be called: it is at the request line and has no method yet, or at the headers. -/
def Ready (context : HttpContext) : Prop :=
  context.state = .kExpectRequestLine ∧ context.request.method = .kInvalid ∨
    context.state = .kExpectHeaders

theorem ready_new : Ready {} := .inl ⟨rfl, rfl⟩

theorem ready_of_go {receiveTime : Timestamp} {context next : HttpContext} {line : Bytes}
    (hmove : move receiveTime context line = .go next) : Ready next := by
  rw [move] at hmove
  split at hmove
  · split at hmove
    · cases hmove
      exact .inr rfl
    · cases hmove
    · cases hmove
  · rename_i hstate
    split at hmove
    · cases hmove
      exact .inr hstate
    · cases hmove
  · cases hmove

/-- A line that was found can be retrieved. -/
theorem retrieve_line {buf : Buffer} {line rest : Bytes}
    (hcontent : buf.readable = line ++ Buffer.kCR :: Buffer.kLF :: rest) :
    ∃ left, buf.retrieveUntil (buf.readerIndex + (line.length + 2)) = some left ∧
      left.readable = rest := by
  have hfits : line.length + 2 ≤ buf.readableBytes := by
    rw [← buf.readable_length, hcontent, List.length_append]
    simp
  obtain ⟨left, hleft, hrest⟩ := Buffer.retrieveUntil_readable hfits
  refine ⟨left, hleft, ?_⟩
  rw [hrest, hcontent, Lines.drop_line]

theorem findCRLF_eq {buf : Buffer} {line rest : Bytes}
    (hcontent : buf.readable = line ++ Buffer.kCR :: Buffer.kLF :: rest)
    (hline : ¬ [Buffer.kCR, Buffer.kLF] <:+: line) :
    buf.findCRLF = some line.length ∧ buf.readable.take line.length = line := by
  refine ⟨?_, ?_⟩
  · rw [Buffer.findCRLF, hcontent]
    exact Lines.find_line (by decide) hline rest
  · rw [hcontent, List.take_left]

/-- **The loop drives the machine.** Called where it can be called, it returns, no assertion fails, and
the buffer is left with what the machine has left. -/
theorem parseLoop_eq (receiveTime : Timestamp) {context : HttpContext} (hready : Ready context)
    (buf : Buffer) {turns : Nat} (hturns : buf.readableBytes < turns) :
    ∃ rest, parseLoop receiveTime turns context buf =
        .ok (decide ((drive lines (move receiveTime) context buf.readable).verdict ≠ .refused),
          (drive lines (move receiveTime) context buf.readable).state, rest) ∧
      rest.readable = (drive lines (move receiveTime) context buf.readable).rest := by
  induction turns generalizing context buf with
  | zero => omega
  | succ turns ih =>
      rcases look_cases lines buf.readable with hlook | ⟨line, length, hlook⟩
      · have hnone : buf.findCRLF = none := Lines.find_eq_none.mpr (Lines.look_eq_more.mp hlook)
        rw [drive_more hlook]
        refine ⟨buf, ?_, rfl⟩
        rcases hready with ⟨hstate, -⟩ | hstate
        · simp only [parseLoop, hstate, hnone]
          rfl
        · simp only [parseLoop, hstate, hnone]
          rfl
      · obtain ⟨later, hcontent, rfl, hline⟩ := Lines.look_eq_frame hlook
        obtain ⟨hfind, htake⟩ := findCRLF_eq hcontent hline
        obtain ⟨left, hleft, hrest⟩ := retrieve_line hcontent
        have hdrop : buf.readable.drop (line.length + 2) = left.readable := by
          rw [hrest, hcontent, Lines.drop_line]
        -- the loop goes on with what is behind the line
        have hgo {next : HttpContext} (hnext : Ready next) :=
          ih hnext left (by
            rw [← left.readable_length, hrest]
            have hlength := congrArg List.length hcontent
            rw [buf.readable_length, List.length_append] at hlength
            simp only [List.length_cons] at hlength
            omega)
        rw [drive_frame hlook, hdrop]
        rcases hready with ⟨hstate, hmethod⟩ | hstate
        · obtain ⟨ok, request, hrequest⟩ := HttpRequest.processRequestLine_ok hmethod line
          cases ok with
          | true =>
              simp only [parseLoop, move, hstate, hfind, htake, hrequest, hleft]
              exact hgo (.inr rfl)
          | false =>
              simp only [parseLoop, move, hstate, hfind, htake, hrequest]
              exact ⟨buf, rfl, rfl⟩
        · cases hcut : Lines.cut HttpRequest.colon line with
          | some parts =>
              simp only [parseLoop, move, hstate, hfind, htake, hleft, hcut]
              exact hgo (.inr rfl)
          | none =>
              simp only [parseLoop, move, hstate, hfind, htake, hleft, hcut]
              exact ⟨left, rfl, rfl⟩

/-! ## What a call leaves -/

/-- The context without the time the request was received at. -/
def sansTime (context : HttpContext) : HttpContext :=
  { context with request := context.request.sansTime }

theorem move_sansTime (receiveTime : Timestamp) (context : HttpContext) (line : Bytes) :
    move .invalid context.sansTime line = (move receiveTime context line).map sansTime := by
  obtain ⟨state, request⟩ := context
  simp only [move, sansTime, HttpRequest.sansTime]
  cases state with
  | kExpectRequestLine =>
      rw [request.processRequestLine_receiveTime .invalid line]
      cases request.processRequestLine line with
      | error stop => rfl
      | ok result =>
          obtain ⟨ok, request⟩ := result
          cases ok with
          | true => rfl
          | false => rfl
  | kExpectHeaders =>
      cases Lines.cut HttpRequest.colon line with
      | none => rfl
      | some parts => rfl
  | kExpectBody => rfl
  | kGotAll => rfl

/-- The machine without the clock. -/
def parse (context : HttpContext) (stream : Bytes) : Driven HttpContext UInt8 :=
  drive lines (move .invalid) context stream

theorem parse_nil (context : HttpContext) : parse context [] = ⟨context, [], .hungry⟩ :=
  drive_more lines.look_nil

theorem parse_append (context : HttpContext) (stream later : Bytes) :
    parse context (stream ++ later) =
      resume lines (move .invalid) (parse context stream) later :=
  drive_append context stream later

theorem parse_sansTime (receiveTime : Timestamp) (context : HttpContext) (stream : Bytes) :
    parse context.sansTime stream =
      (drive lines (move receiveTime) context stream).map sansTime :=
  drive_map sansTime (move_sansTime receiveTime) context stream

/-- How the context is left, by what stopped the machine. -/
def Left (p : Driven HttpContext UInt8) : Prop :=
  match p.verdict with
  | .hungry => Ready p.state
  | .halted => p.state.state = .kGotAll
  | .refused => p.state.state = .kExpectRequestLine

theorem left_drive (receiveTime : Timestamp) {context : HttpContext} (hready : Ready context)
    (stream : Bytes) : Left (drive lines (move receiveTime) context stream) := by
  induction context, stream using drive_induction lines (move receiveTime) with
  | hmore context stream hlook =>
      rw [drive_more hlook]
      exact hready
  | hframe context stream line length hlook ih =>
      rw [drive_frame hlook]
      cases hmove : move receiveTime context line with
      | go next => exact ih next hmove (ready_of_go hmove)
      | halt next =>
          rw [move] at hmove
          split at hmove
          · split at hmove <;> cases hmove
          · split at hmove <;> cases hmove
            rfl
          · cases hmove
      | refuse next =>
          rcases hready with ⟨hstate, hmethod⟩ | hstate
          · obtain ⟨ok, request, hrequest⟩ :=
              HttpRequest.processRequestLine_ok hmethod line
            simp only [move, hstate, hrequest] at hmove
            cases ok <;> cases hmove
            rfl
          · simp only [move, hstate] at hmove
            split at hmove <;> cases hmove

theorem gotAll_of_left {p : Driven HttpContext UInt8} (hleft : Left p) :
    p.state.gotAll = decide (p.verdict = .halted) := by
  rw [Left] at hleft
  rw [gotAll, decide_eq_decide]
  split at hleft
  · rename_i hverdict
    rw [hverdict]
    rcases hleft with ⟨hstate, -⟩ | hstate <;> simp [hstate]
  · rename_i hverdict
    simp [hleft, hverdict]
  · rename_i hverdict
    simp [hleft, hverdict]

/-- **What `parseRequest` does**, where it can be called. -/
theorem parseRequest_eq {context : HttpContext} (hready : Ready context) (buf : Buffer)
    (receiveTime : Timestamp) :
    ∃ next rest, context.parseRequest buf receiveTime =
        .ok (decide ((parse context.sansTime buf.readable).verdict ≠ .refused), next, rest) ∧
      next.sansTime = (parse context.sansTime buf.readable).state ∧
      rest.readable = (parse context.sansTime buf.readable).rest ∧
      next.gotAll = decide ((parse context.sansTime buf.readable).verdict = .halted) ∧
      ((parse context.sansTime buf.readable).verdict = .hungry → Ready next) := by
  obtain ⟨rest, hloop, hrest⟩ :=
    parseLoop_eq receiveTime hready buf (Nat.lt_succ_self _)
  have hleft := left_drive receiveTime hready buf.readable
  rw [parse_sansTime receiveTime]
  refine ⟨_, rest, hloop, rfl, hrest, gotAll_of_left hleft, fun hhungry => ?_⟩
  rw [Left] at hleft
  rw [Driven.map_verdict] at hhungry
  rw [hhungry] at hleft
  exact hleft

end HttpContext
end Muduo
