import Mathlib.Logic.Function.Basic
import Muduo.Buffer
import Muduo.Execution

/-! Buffers under every sequence of operations, against plain byte lists. There are any number of
buffers, since `swap` exchanges two of them. -/

namespace Muduo

open Execution

variable {ι : Type} [DecidableEq ι]

/-- The operations on the buffers `i` and `j`. -/
inductive BufferLabel (ι : Type) where
  | append (i : ι) (data : Bytes)
  | prepend (i : ι) (data : Bytes)
  | retrieve (i : ι) (len : Nat)
  /-- The argument of `retrieveUntil` is `peek() + offset`. -/
  | retrieveUntil (i : ι) (offset : Nat)
  | retrieveAll (i : ι)
  | retrieveAsString (i : ι) (len : Nat)
  | ensureWritableBytes (i : ι) (len : Nat)
  /-- The data is written from `beginWrite()` on, then `hasWritten(len)` is called. -/
  | write (i : ι) (data : Bytes) (len : Nat)
  | unwrite (i : ι) (len : Nat)
  | swap (i j : ι)
  deriving DecidableEq, Repr

structure BufferPool (ι : Type) where
  buffers : ι → Buffer
  /-- The strings that `retrieveAsString` has returned. -/
  returned : List Bytes := []

namespace BufferPool

/-- The constructor of every buffer has been called. -/
def new (sizes : ι → Nat) : BufferPool ι := { buffers := fun i => Buffer.new (sizes i) }

/-- The operation on one buffer has returned, or one of its assertions has failed. -/
def put (s : BufferPool ι) (i : ι) : Option Buffer → Except Unit (BufferPool ι)
  | some b => .ok { s with buffers := Function.update s.buffers i b }
  | none => .error ()

def step (s : BufferPool ι) : BufferLabel ι → Except Unit (BufferPool ι)
  | .append i data => s.put i ((s.buffers i).append data)
  | .prepend i data => s.put i ((s.buffers i).prepend data)
  | .retrieve i len => s.put i ((s.buffers i).retrieve len)
  | .retrieveUntil i offset =>
      s.put i ((s.buffers i).retrieveUntil ((s.buffers i).readerIndex + offset))
  | .retrieveAll i => s.put i (some (s.buffers i).retrieveAll)
  | .retrieveAsString i len =>
      match (s.buffers i).retrieveAsString len with
      | some (string, b) => { s with returned := s.returned ++ [string] }.put i (some b)
      | none => .error ()
  | .ensureWritableBytes i len => s.put i ((s.buffers i).ensureWritableBytes len)
  | .write i data len => s.put i (((s.buffers i).fill data).bind fun filled => filled.hasWritten len)
  | .unwrite i len => s.put i ((s.buffers i).unwrite len)
  | .swap i j =>
      .ok { s with buffers := Function.update (Function.update s.buffers i (s.buffers j)) j (s.buffers i) }

/-- What the operation asserts before it does anything, and for `write` that no byte is written behind
the writable ones and `hasWritten` counts written bytes. -/
def Asserted (s : BufferPool ι) : BufferLabel ι → Prop
  | .append _ _ => True
  | .prepend i data => data.length ≤ (s.buffers i).prependableBytes
  | .retrieve i len => len ≤ (s.buffers i).readableBytes
  | .retrieveUntil i offset => offset ≤ (s.buffers i).readableBytes
  | .retrieveAll _ => True
  | .retrieveAsString i len => len ≤ (s.buffers i).readableBytes
  | .ensureWritableBytes _ _ => True
  | .write i data len => len ≤ data.length ∧ data.length ≤ (s.buffers i).writableBytes
  | .unwrite i len => len ≤ (s.buffers i).readableBytes
  | .swap _ _ => True

instance (s : BufferPool ι) : (label : BufferLabel ι) → Decidable (s.Asserted label)
  | .append _ _ => isTrue trivial
  | .prepend _ _ => inferInstanceAs (Decidable (_ ≤ _))
  | .retrieve _ _ => inferInstanceAs (Decidable (_ ≤ _))
  | .retrieveUntil _ _ => inferInstanceAs (Decidable (_ ≤ _))
  | .retrieveAll _ => isTrue trivial
  | .retrieveAsString _ _ => inferInstanceAs (Decidable (_ ≤ _))
  | .ensureWritableBytes _ _ => isTrue trivial
  | .write _ _ _ => inferInstanceAs (Decidable (_ ∧ _))
  | .unwrite _ _ => inferInstanceAs (Decidable (_ ≤ _))
  | .swap _ _ => isTrue trivial

end BufferPool

/-! ## The byte lists -/

@[ext] structure ByteLists (ι : Type) where
  contents : ι → Bytes := fun _ => []
  returned : List Bytes := []

namespace ByteLists

def set (l : ByteLists ι) (i : ι) (bytes : Bytes) : ByteLists ι :=
  { l with contents := Function.update l.contents i bytes }

/-- The same operation on plain byte lists. -/
def apply (l : ByteLists ι) : BufferLabel ι → ByteLists ι
  | .append i data => l.set i (l.contents i ++ data)
  | .prepend i data => l.set i (data ++ l.contents i)
  | .retrieve i len => l.set i ((l.contents i).drop len)
  | .retrieveUntil i offset => l.set i ((l.contents i).drop offset)
  | .retrieveAll i => l.set i []
  | .retrieveAsString i len =>
      { l with returned := l.returned ++ [(l.contents i).take len] }.set i ((l.contents i).drop len)
  | .ensureWritableBytes _ _ => l
  | .write i data len => l.set i (l.contents i ++ data.take len)
  | .unwrite i len => l.set i ((l.contents i).take ((l.contents i).length - len))
  | .swap i j =>
      { l with contents := Function.update (Function.update l.contents i (l.contents j)) j (l.contents i) }

end ByteLists

namespace BufferPool

variable {s : BufferPool ι} {label : BufferLabel ι}

def view (s : BufferPool ι) : ByteLists ι :=
  { contents := fun i => (s.buffers i).readable, returned := s.returned }

/-- The contents follow an update of the buffers. -/
theorem contents_update (buffers : ι → Buffer) (i : ι) (b : Buffer) :
    (fun k => (Function.update buffers i b k).readable) =
      Function.update (fun k => (buffers k).readable) i b.readable := by
  funext k
  exact Function.apply_update (fun _ b => b.readable) buffers i b k

theorem put_spec {i : ι} {b : Buffer} {bytes : Bytes} (hbytes : b.readable = bytes)
    (s : BufferPool ι) : ∃ next, s.put i (some b) = .ok next ∧ next.view = s.view.set i bytes := by
  refine ⟨_, rfl, ?_⟩
  apply ByteLists.ext
  · rw [← hbytes]
    exact contents_update s.buffers i b
  · rfl

/-- An operation whose assertions hold on entry fails none later on, and does to the content what it
does to a byte list. -/
theorem step_spec (hasserted : s.Asserted label) :
    ∃ next, s.step label = .ok next ∧ next.view = s.view.apply label := by
  cases label with
  | append i data =>
      obtain ⟨b, hb, hbytes⟩ := (s.buffers i).append_readable data
      rw [step, hb]
      exact put_spec hbytes s
  | prepend i data =>
      obtain ⟨b, hb, hbytes⟩ := Buffer.prepend_readable hasserted
      rw [step, hb]
      exact put_spec hbytes s
  | retrieve i len =>
      obtain ⟨b, hb, hbytes⟩ := Buffer.retrieve_readable hasserted
      rw [step, hb]
      exact put_spec hbytes s
  | retrieveUntil i offset =>
      obtain ⟨b, hb, hbytes⟩ := Buffer.retrieveUntil_readable hasserted
      rw [step, hb]
      exact put_spec hbytes s
  | retrieveAll i => exact put_spec (s.buffers i).readable_retrieveAll s
  | retrieveAsString i len =>
      obtain ⟨b, hb, hbytes⟩ := Buffer.retrieveAsString_readable hasserted
      rw [step, hb]
      exact put_spec hbytes _
  | ensureWritableBytes i len =>
      obtain ⟨b, hb, hbytes, -⟩ := (s.buffers i).ensureWritableBytes_spec len
      rw [step, hb]
      obtain ⟨next, hnext, hview⟩ := put_spec (i := i) hbytes s
      refine ⟨next, hnext, hview.trans ?_⟩
      apply ByteLists.ext
      · exact Function.update_eq_self i _
      · rfl
  | write i data len =>
      obtain ⟨b, hb, hbytes⟩ := Buffer.fill_hasWritten_readable hasserted.2 hasserted.1
      rw [step, hb]
      exact put_spec hbytes s
  | unwrite i len =>
      obtain ⟨b, hb, hbytes⟩ := Buffer.unwrite_readable hasserted
      rw [step, hb]
      exact put_spec hbytes s
  | swap i j =>
      refine ⟨_, rfl, ?_⟩
      apply ByteLists.ext
      · show (fun k => (Function.update (Function.update s.buffers i (s.buffers j)) j (s.buffers i)
          k).readable) = _
        rw [contents_update, contents_update]
        rfl
      · rfl

theorem run_refines {labels : List (BufferLabel ι)} (hmeets : Meets step Asserted s labels) :
    ∃ final, run step s labels = .ok final ∧ final.view = labels.foldl ByteLists.apply s.view := by
  induction labels generalizing s with
  | nil => exact ⟨s, rfl, rfl⟩
  | cons label labels ih =>
      obtain ⟨next, hnext, hview⟩ := step_spec hmeets.1
      obtain ⟨final, hrun, hfinal⟩ := ih (hmeets.2 next hnext)
      refine ⟨final, run_cons_ok.mpr ⟨next, hnext, hrun⟩, ?_⟩
      rw [hfinal, hview, List.foldl_cons]

omit [DecidableEq ι] in
theorem view_new (sizes : ι → Nat) : (new sizes).view = {} := by
  apply ByteLists.ext
  · funext i
    exact Buffer.readable_new (sizes i)
  · rfl

/-- **A buffer is a byte sequence.** In every sequence of operations whose asserted preconditions hold, no
assertion fails, the contents and the strings returned are those of the same operations on byte
lists, the indices keep their order, and from every state reached `ensureWritableBytes` makes the
bytes writable and keeps the content, whichever way `makeSpace` takes. -/
theorem buffer_refines (sizes : ι → Nat) (labels : List (BufferLabel ι))
    (hmeets : Meets step Asserted (new sizes) labels) :
    ∃ final, run step (new sizes) labels = .ok final ∧
      final.view = labels.foldl ByteLists.apply {} ∧
      ∀ i, (final.buffers i).readerIndex ≤ (final.buffers i).writerIndex ∧
        (final.buffers i).writerIndex ≤ (final.buffers i).buffer.length ∧
        (∀ len, ∃ wide, (final.buffers i).ensureWritableBytes len = some wide ∧
          wide.readable = (final.buffers i).readable ∧ len ≤ wide.writableBytes) ∧
        ∀ len hlen, ((final.buffers i).makeSpace len hlen).isSome := by
  obtain ⟨final, hrun, hview⟩ := run_refines hmeets
  rw [view_new] at hview
  refine ⟨final, hrun, hview, fun i => ⟨(final.buffers i).reader_le_writer,
    (final.buffers i).writer_le_size, (final.buffers i).ensureWritableBytes_spec, ?_⟩⟩
  intro len hlen
  obtain ⟨wide, hwide, -⟩ := (final.buffers i).makeSpace_spec len hlen
  rw [hwide]
  rfl

/-- A prepend eats into the reserve, then the content is moved to the front and later the buffer
grows. -/
def prepends : List (BufferLabel Bool) :=
  [.append true [1, 2, 3, 4, 5, 6, 7, 8, 9, 10], .prepend true [0, 0, 0, 0, 0, 0], .retrieve true 14,
    .append true [11, 12, 13, 14, 15, 16], .unwrite true 1, .prepend true [7], .swap true false,
    .ensureWritableBytes false 30, .write false [1, 2, 3] 2, .retrieveAsString false 4, .retrieveUntil false 2]

theorem buffer_refines_prepends :
    Meets step Asserted (new fun _ => 12) prepends ∧
      ∃ final, run step (new fun _ => 12) prepends = .ok final ∧
        (final.buffers false).readable = [14, 15, 1, 2] ∧ final.returned = [[7, 9, 10, 11]] := by
  have hmeets : Meets step Asserted (new fun _ => 12) prepends := by decide +kernel
  obtain ⟨final, hrun, hview, -⟩ := buffer_refines (fun _ => 12) prepends hmeets
  refine ⟨hmeets, final, hrun, ?_, ?_⟩
  · exact (congrFun (congrArg ByteLists.contents hview) false).trans (by decide)
  · exact (congrArg ByteLists.returned hview).trans (by decide)

end BufferPool
end Muduo
