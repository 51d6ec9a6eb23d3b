import Muduo.HttpContext

/-! Parsing a request that arrives in pieces: the parser is called after each of them, until it returns
false or has got all of the request. -/

namespace Muduo.HttpContext

open Framing

/-- What the last call returned, and the context and the buffer it left. -/
abbrev Parsed := Bool × HttpContext × Buffer

/-- Append a chunk and call `parseRequest`, as long as there is a reason to. The chunks that are left over
are returned too. -/
def feed : Parsed → List (Bytes × Timestamp) → Except HttpStop (Parsed × List Bytes)
  | parsed, [] => .ok (parsed, [])
  | (ok, context, buf), (chunk, receiveTime) :: later =>
      if ok ∧ !context.gotAll then
        match buf.append chunk with
        | some full =>
            match context.parseRequest full receiveTime with
            | .ok parsed => feed parsed later
            | .error stop => .error stop
        | none => .error .buffer
      else .ok ((ok, context, buf), chunk :: later.map Prod.fst)

/-- The calls so far show that the machine has stopped there. -/
structure Shows (parsed : Parsed) (p : Driven HttpContext UInt8) : Prop where
  ok_eq : parsed.1 = decide (p.verdict ≠ .refused)
  state_eq : parsed.2.1.sansTime = p.state
  gotAll_eq : parsed.2.1.gotAll = decide (p.verdict = .halted)
  rest_eq : parsed.2.2.readable = p.rest
  ready : p.verdict = .hungry → Ready parsed.2.1
  /-- A machine that is hungry has read the lines there are. -/
  look : p.verdict = .hungry → lines.look p.rest = .more

theorem shows_new (size : Nat) :
    Shows (true, {}, Buffer.new size) ⟨{}, [], .hungry⟩ where
  ok_eq := rfl
  state_eq := rfl
  gotAll_eq := rfl
  rest_eq := Buffer.readable_new size
  ready _ := ready_new
  look _ := lines.look_nil

theorem Shows.going {parsed : Parsed} {p : Driven HttpContext UInt8} (hshows : Shows parsed p) :
    (parsed.1 ∧ !parsed.2.1.gotAll) ↔ p.verdict = .hungry := by
  rw [hshows.ok_eq, hshows.gotAll_eq]
  cases p.verdict <;> decide

/-- A further call shows what the machine makes of the longer stream. -/
theorem Shows.call {parsed : Parsed} {p : Driven HttpContext UInt8} (hshows : Shows parsed p)
    (hhungry : p.verdict = .hungry) (chunk : Bytes) (receiveTime : Timestamp) :
    ∃ full next, parsed.2.2.append chunk = some full ∧
      parsed.2.1.parseRequest full receiveTime = .ok next ∧
      Shows next (resume lines (move .invalid) p chunk) := by
  obtain ⟨full, hfull, hreadable⟩ := parsed.2.2.append_readable chunk
  obtain ⟨context, rest, hparse, hstate, hrest, hgot, hready⟩ :=
    parseRequest_eq (hshows.ready hhungry) full receiveTime
  have hresume : parse parsed.2.1.sansTime full.readable = resume lines (move .invalid) p chunk := by
    rw [resume_hungry hhungry, hreadable, hshows.state_eq, hshows.rest_eq]
    rfl
  rw [hresume] at hparse hstate hrest hgot hready
  refine ⟨full, _, hfull, hparse, rfl, hstate, hgot, hrest, hready, fun hmore => ?_⟩
  rw [resume_hungry hhungry] at hmore ⊢
  exact look_rest hmore

/-- Calls after each chunk, and the chunks behind the last call. -/
theorem Shows.feed {parsed : Parsed} {p : Driven HttpContext UInt8} (hshows : Shows parsed p)
    (chunks : List (Bytes × Timestamp)) :
    ∃ last left q, HttpContext.feed parsed chunks = .ok (last, left) ∧ Shows last q ∧
      resume lines (move .invalid) p (chunks.map Prod.fst).flatten =
        ⟨q.state, q.rest ++ left.flatten, q.verdict⟩ := by
  induction chunks generalizing parsed p with
  | nil =>
      refine ⟨parsed, [], p, rfl, hshows, ?_⟩
      by_cases hhungry : p.verdict = .hungry
      · rw [resume_hungry hhungry, List.map_nil, List.flatten_nil, List.append_nil,
          drive_more (hshows.look hhungry), hhungry]
      · exact resume_stopped hhungry _
  | cons chunk later ih =>
      obtain ⟨ok, context, buf⟩ := parsed
      obtain ⟨bytes, receiveTime⟩ := chunk
      by_cases hhungry : p.verdict = .hungry
      · obtain ⟨full, next, hfull, hparse, hnext⟩ := hshows.call hhungry bytes receiveTime
        obtain ⟨last, left, q, hfeed, hlast, hresume⟩ := ih hnext
        refine ⟨last, left, q, ?_, hlast, ?_⟩
        · rw [HttpContext.feed, if_pos (hshows.going.mpr hhungry)]
          simp only [hfull, hparse]
          exact hfeed
        · calc resume lines (move .invalid) p (((bytes, receiveTime) :: later).map Prod.fst).flatten
              = drive lines (move .invalid) p.state
                  (p.rest ++ bytes ++ (later.map Prod.fst).flatten) := by
                rw [resume_hungry hhungry, List.map_cons, List.flatten_cons, List.append_assoc]
            _ = resume lines (move .invalid) (resume lines (move .invalid) p bytes)
                  (later.map Prod.fst).flatten := by
                rw [drive_append, resume_hungry hhungry]
            _ = ⟨q.state, q.rest ++ left.flatten, q.verdict⟩ := hresume
      · refine ⟨(ok, context, buf), bytes :: later.map Prod.fst, p, ?_, hshows, ?_⟩
        · rw [HttpContext.feed, if_neg (mt hshows.going.mp hhungry)]
        · exact resume_stopped hhungry _

/-- **Parsing does not depend on where the chunks end.** The calls after each chunk and one call on the
whole stream return the same, they leave the same context but for the time, and the same is unread. -/
theorem feed_eq_parseRequest (chunks : List (Bytes × Timestamp)) (size : Nat)
    (receiveTime : Timestamp) :
    ∃ full ok fed whole left right unread,
      feed (true, {}, Buffer.new size) chunks = .ok ((ok, fed, left), unread) ∧
      (Buffer.new size).append (chunks.map Prod.fst).flatten = some full ∧
      parseRequest {} full receiveTime = .ok (ok, whole, right) ∧
      fed.sansTime = whole.sansTime ∧ left.readable ++ unread.flatten = right.readable := by
  obtain ⟨last, unread, q, hfeed, hlast, hresume⟩ := (shows_new size).feed chunks
  obtain ⟨full, hfull, hreadable⟩ := (Buffer.new size).append_readable (chunks.map Prod.fst).flatten
  obtain ⟨whole, right, hparse, hstate, hrest, -, -⟩ := parseRequest_eq ready_new full receiveTime
  have hmachine : parse (sansTime {}) full.readable =
      ⟨q.state, q.rest ++ unread.flatten, q.verdict⟩ := by
    rw [← hresume, hreadable, Buffer.readable_new]
    rfl
  rw [hmachine] at hparse hstate hrest
  obtain ⟨ok, fed, left⟩ := last
  have hok : ok = decide (q.verdict ≠ .refused) := hlast.ok_eq
  refine ⟨full, ok, fed, whole, left, right, unread, hfeed, hfull, ?_, ?_, ?_⟩
  · rw [hparse, hok]
  · rw [hstate]
    exact hlast.state_eq
  · rw [hrest, hlast.rest_eq]

end Muduo.HttpContext
