import Muduo.HttpServer

/-! When `parseRequest` returns. The loop makes progress in the two states that read lines: a turn takes a
line from the buffer or is the last one. In the other two states no branch does anything and the loop goes
on forever. One of them, `kGotAll`, is left only by `reset`. -/

namespace Muduo
namespace HttpContext

open Execution HttpConnection

/-- The calls of the public interface. -/
inductive Call where
  | parseRequest (buf : Buffer) (receiveTime : Timestamp)
  | reset

/-- The context after a call that returns. -/
def call (context : HttpContext) : Call → Except HttpStop HttpContext
  | .parseRequest buf receiveTime => (context.parseRequest buf receiveTime).map fun result => result.2.1
  | .reset => .ok context.reset

/-- The request line at the front of the buffer would set the method a second time. -/
def Clashes (context : HttpContext) (buf : Buffer) : Prop :=
  HalfRead context ∧ ∃ line later,
    buf.readable = line ++ Buffer.kCR :: Buffer.kLF :: later ∧ ¬ CRLF <:+: line ∧
      HttpRequest.space ∈ line

/-- In these states the loop has a branch. -/
def Reads (context : HttpContext) : Prop :=
  context.state = .kExpectRequestLine ∨ context.state = .kExpectHeaders

theorem reads_cases {context : HttpContext} (hreads : Reads context) :
    Ready context ∨ HalfRead context := by
  rcases hreads with hline | hheaders
  · by_cases hmethod : context.request.method = .kInvalid
    · exact .inl (.inl ⟨hline, hmethod⟩)
    · exact .inr ⟨hline, hmethod⟩
  · exact .inl (.inr hheaders)

theorem reads_of_ready {context : HttpContext} (hready : Ready context) : Reads context := by
  rcases hready with ⟨hline, -⟩ | hheaders
  · exact .inl hline
  · exact .inr hheaders

/-- Nothing changes from one turn to the next. -/
theorem parseLoop_gotAll {context : HttpContext} (hstate : context.state = .kGotAll) (buf : Buffer)
    (receiveTime : Timestamp) (turns : Nat) :
    parseLoop receiveTime turns context buf = .error .diverges := by
  induction turns with
  | zero => rfl
  | succ turns ih =>
      rw [parseLoop, hstate]
      exact ih

/-- With a method already set the first turn is the last one: the line at the front is refused, or its
method fails the assertion. -/
theorem parseLoop_halfRead {context : HttpContext} (hhalf : HalfRead context) (buf : Buffer)
    (receiveTime : Timestamp) (turns : Nat) :
    (Clashes context buf ∧ parseLoop receiveTime (turns + 1) context buf = .error .method) ∨
      ¬ Clashes context buf ∧ ∃ ok, parseLoop receiveTime (turns + 1) context buf = .ok (ok, context, buf) := by
  cases hfind : buf.findCRLF with
  | none =>
      have hnone : ¬ CRLF <:+: buf.readable := Lines.find_eq_none.mp hfind
      refine .inr ⟨?_, true, by simp only [parseLoop, hhalf.1, hfind]⟩
      rintro ⟨-, line, later, hcontent, -⟩
      exact hnone ⟨line, later, by rw [hcontent]; simp [CRLF]⟩
  | some crlf =>
      obtain ⟨line, later, hcontent, rfl, hplain⟩ := Lines.find_eq_some hfind
      have htake : buf.readable.take line.length = line := by rw [hcontent, List.take_left]
      by_cases hspace : HttpRequest.space ∈ line
      · refine .inl ⟨⟨hhalf, line, later, hcontent, hplain, hspace⟩, ?_⟩
        simp only [parseLoop, hhalf.1, hfind, htake,
          HttpRequest.processRequestLine_assertion hhalf.2 hspace]
      · have hrefused : context.request.processRequestLine line = .ok (false, context.request) := by
          rw [HttpRequest.processRequestLine, Lines.cut_eq_none.mpr hspace]
        refine .inr ⟨?_, false, by
          simp only [parseLoop, hhalf.1, hfind, htake, hrefused]
          rw [← hhalf.1]⟩
        rintro ⟨-, other, rest, hother, hordinary, hword⟩
        -- the line at the front is determined by the content
        obtain ⟨hsame, -⟩ := findCRLF_eq hother hordinary
        rw [hfind, Option.some.injEq] at hsame
        have hline := congrArg (List.take line.length) (hcontent.symm.trans hother)
        rw [List.take_left, hsame, List.take_left] at hline
        exact hspace (hline ▸ hword)

/-- Where the loop has a branch it ends, whatever the buffer holds. -/
theorem parseLoop_reads {context : HttpContext} (hreads : Reads context) (buf : Buffer)
    (receiveTime : Timestamp) :
    (Clashes context buf ∧ context.parseRequest buf receiveTime = .error .method) ∨
      ¬ Clashes context buf ∧ ∃ ok next rest,
        context.parseRequest buf receiveTime = .ok (ok, next, rest) ∧
          (Reads next ∨ next.state = .kGotAll) := by
  rcases reads_cases hreads with hready | hhalf
  · right
    obtain ⟨rest, hloop, -⟩ := parseLoop_eq receiveTime hready buf (Nat.lt_succ_self _)
    have hleft := left_drive receiveTime hready buf.readable
    refine ⟨fun hclash => not_halfRead_of_ready hready hclash.1, _, _, rest, hloop, ?_⟩
    rw [Left] at hleft
    split at hleft
    · exact .inl (reads_of_ready hleft)
    · exact .inr hleft
    · exact .inl (.inl hleft)
  · rcases parseLoop_halfRead hhalf buf receiveTime buf.readableBytes with
      ⟨hclash, hloop⟩ | ⟨hclash, ok, hloop⟩
    · exact .inl ⟨hclash, hloop⟩
    · exact .inr ⟨hclash, ok, context, buf, hloop, .inl (.inl hhalf.1)⟩

/-- The states that the calls lead to. `kExpectBody` is not among them. -/
theorem reachable_state {context : HttpContext} (hreach : Reachable call {} context) :
    Reads context ∨ context.state = .kGotAll := by
  refine hreach.preserves (fun context => Reads context ∨ context.state = .kGotAll) ?_ (.inl (.inl rfl))
  intro context label next hcontext hcall
  cases label with
  | reset =>
      obtain rfl := Except.ok.inj hcall
      exact .inl (.inl rfl)
  | parseRequest buf receiveTime =>
      rw [call] at hcall
      rcases hcontext with hreads | hgot
      · rcases parseLoop_reads hreads buf receiveTime with ⟨-, hloop⟩ | ⟨-, ok, other, rest, hloop, hother⟩
        · rw [hloop] at hcall
          cases hcall
        · rw [hloop] at hcall
          obtain rfl := Except.ok.inj hcall
          exact hother
      · rw [parseRequest, parseLoop_gotAll hgot] at hcall
        cases hcall

/-- **When `parseRequest` returns.** On a context that calls of `parseRequest` and `reset` have led to, the
loop ends and `parseRequest` returns just when the context has not got all of a request and the line at the
front of the buffer does not set the method a second time, which an assertion forbids. On a context that
has got all of a request, and on no other, the loop goes on forever. -/
theorem parseRequest_returns_iff (context : HttpContext) (hreach : Reachable call {} context)
    (buf : Buffer) (receiveTime : Timestamp) :
    ((∃ turns result, parseLoop receiveTime turns context buf = .ok result) ↔
      context.state ≠ .kGotAll ∧ ¬ Clashes context buf) ∧
    ((∀ turns, parseLoop receiveTime turns context buf = .error .diverges) ↔
      context.state = .kGotAll) := by
  rcases reachable_state hreach with hreads | hgot
  · have hstate : context.state ≠ .kGotAll := by
      rcases hreads with h | h <;> rw [h] <;> decide
    rcases parseLoop_reads hreads buf receiveTime with ⟨hclash, hloop⟩ | ⟨hclash, ok, next, rest, hloop, -⟩
    · have hends : ¬ ∀ turns, parseLoop receiveTime turns context buf = .error .diverges := by
        intro hall
        have hnever := (hall (buf.readableBytes + 1)).symm.trans hloop
        cases hnever
      refine ⟨iff_of_false ?_ fun h => h.2 hclash, iff_of_false hends hstate⟩
      rintro ⟨turns, result, hok⟩
      -- every number of turns ends at the assertion
      cases turns with
      | zero => cases hok
      | succ turns =>
          rcases parseLoop_halfRead hclash.1 buf receiveTime turns with ⟨-, hfails⟩ | ⟨hnot, -⟩
          · rw [hfails] at hok
            cases hok
          · exact hnot hclash
    · refine ⟨iff_of_true ⟨_, _, hloop⟩ ⟨hstate, hclash⟩, iff_of_false ?_ hstate⟩
      intro hall
      have hnever := (hall (buf.readableBytes + 1)).symm.trans hloop
      cases hnever
  · have hforever := parseLoop_gotAll hgot buf receiveTime
    refine ⟨iff_of_false ?_ fun h => h.1 hgot, iff_of_true hforever hgot⟩
    rintro ⟨turns, result, hok⟩
    rw [hforever turns] at hok
    cases hok

/-- The text as the content of a buffer. -/
def buffered (text : Bytes) : Buffer := ((Buffer.new 16).append text).getD (Buffer.new 16)

/-- In the middle of the headers the parser can be called again. -/
theorem parseRequest_returns_headers :
    ∃ context, Reachable call {} context ∧ context.state = .kExpectHeaders ∧
      ∃ turns result, parseLoop .invalid turns context (buffered (ascii "Host: a\r\n\r\n")) = .ok result := by
  obtain ⟨context, hrun, hstate⟩ := exists_of_outcome call {}
    [.parseRequest (buffered (ascii "GET / HTTP/1.1\r\nAcc")) .invalid]
    (fun context => context.state = .kExpectHeaders) (by decide +kernel)
  have hheaders : context.state = .kExpectHeaders := of_decide_eq_true hstate
  have hreach : Reachable call {} context := ⟨_, hrun⟩
  refine ⟨context, hreach, hheaders, ?_⟩
  apply (parseRequest_returns_iff context hreach (buffered (ascii "Host: a\r\n\r\n")) .invalid).1.mpr
  refine ⟨by rw [hheaders]; decide, fun hclash => ?_⟩
  have hline := hclash.1.1
  rw [hheaders] at hline
  cases hline

/-- A second call after `gotAll()` never returns, on whatever buffer. -/
theorem second_call_diverges :
    ∃ context, run call {} [.parseRequest (buffered (ascii "GET / HTTP/1.1\r\n\r\n")) .invalid] = .ok context ∧
      context.gotAll = true ∧
      ∀ buf turns, parseLoop .invalid turns context buf = .error .diverges := by
  obtain ⟨context, hrun, hgot⟩ := exists_of_outcome call {}
    [.parseRequest (buffered (ascii "GET / HTTP/1.1\r\n\r\n")) .invalid] gotAll (by decide +kernel)
  refine ⟨context, hrun, hgot, fun buf turns => ?_⟩
  exact parseLoop_gotAll (of_decide_eq_true hgot) buf .invalid turns

end HttpContext
end Muduo
