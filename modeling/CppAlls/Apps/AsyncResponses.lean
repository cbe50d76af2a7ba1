import CppAlls.Apps.AsyncConnection
import CppAlls.Lib.Machine

namespace CppAlls
set_option autoImplicit true

open Failing Machines

/-- A connection whose responses are written, with the bytes that its socket has transmitted. The
history variables are the bytes that were appended to `response_`, and how many of those that
`response_` holds were given to the write under way. -/
structure Responding where
  connection : AsyncConnectionFast Empty := {}
  transmitted : Bytes := []
  appended : Bytes := []
  given : Nat := 0

/-- What users and asio do, one thing at a time. What a callback does comes after the completion
that calls it, and every `operator<<` appends by `put_data`. -/
inductive RespondingInput where
  | append (bs : Bytes)
  | asyncWrite
  | transmit (size : Nat)
  | complete
deriving DecidableEq, Repr

namespace Responding

def writing (s : Responding) : Bool := s.connection.outstanding ≠ []

def inFlight (s : Responding) : Bytes :=
  match s.connection.outstanding with
  | [.write _ rest] => rest
  | _ => []

/-- What `response_` holds behind the bytes of the write under way. -/
def toSend (s : Responding) : Bytes := s.connection.response.pimpl.drop s.given

def append (s : Responding) (bs : Bytes) : Responding :=
  { s with
    connection := ((AsyncM.onResponse (ResponseM.putData bs StackResponse.npos)).on
      s.connection).2
    appended := s.appended ++ bs }

def asyncWrite (s : Responding) : Responding :=
  { s with
    connection := ((AsyncConnectionFast.asyncWrite none).on s.connection).2
    given := s.connection.response.pimpl.length }

def transmit (s : Responding) (size : Nat) : Responding :=
  { s with
    connection := { s.connection with
      outstanding := [.write none (s.inFlight.drop size)] }
    transmitted := s.transmitted ++ s.inFlight.take size }

def complete (s : Responding) : Responding :=
  { s with
    connection := ((AsyncConnectionFast.callbackWriteWrapped (fun _ _ => pure ()) none false).on
      { s.connection with outstanding := [] }).2
    given := 0 }

end Responding

/-- At most one write is under way, and it completes when all its bytes are transmitted. -/
def RespondingInput.Enabled (s : Responding) : RespondingInput → Prop
  | .append _ => True
  | .asyncWrite => s.writing = false
  | .transmit size => s.writing = true ∧ 0 < size ∧ size ≤ s.inFlight.length
  | .complete => s.writing = true ∧ s.inFlight = []

instance RespondingInput.decidableEnabled (s : Responding) (i : RespondingInput) :
    Decidable (i.Enabled s) := by
  cases i <;> unfold RespondingInput.Enabled <;> infer_instance

def respondingMachine : Machine Responding RespondingInput where
  init := {}
  Enabled s i := i.Enabled s
  next
    | s, .append bs => s.append bs
    | s, .asyncWrite => s.asyncWrite
    | s, .transmit size => s.transmit size
    | s, .complete => s.complete

instance respondingMachine.decidableEnabled (s : Responding) (i : RespondingInput) :
    Decidable (respondingMachine.Enabled s i) :=
  inferInstanceAs (Decidable (i.Enabled s))

/-- The bytes transmitted, in flight and still to be sent are the bytes that were appended. -/
def Responding.Intact (s : Responding) : Prop :=
  s.transmitted ++ s.inFlight ++ s.toSend = s.appended

instance Responding.decidableIntact (s : Responding) : Decidable s.Intact :=
  inferInstanceAs (Decidable (_ = _))

/-- Nothing is appended while a write is under way. -/
def RespondingInput.Apart (s : Responding) : RespondingInput → Prop
  | .append _ => s.writing = false
  | .asyncWrite => True
  | .transmit _ => True
  | .complete => True

namespace Responding

variable {s : Responding}

/-- The connection rests, or the write under way was given all that `response_` holds. -/
inductive Orderly (s : Responding) : Prop where
  | resting : s.connection.outstanding = [] → s.given = 0 →
      s.transmitted ++ s.connection.response.pimpl = s.appended → Orderly s
  | writing (rest : Bytes) : s.connection.outstanding = [.write none rest] →
      s.given = s.connection.response.pimpl.length → s.transmitted ++ rest = s.appended → Orderly s

theorem append_connection (s : Responding) (bs : Bytes) :
    (s.append bs).connection = { s.connection with
      response := ⟨s.connection.response.pimpl ++ bs⟩ } := by
  rw [append, AsyncM.onResponse, FailM.on_part, ResponseM.Appends.putData]

theorem Orderly.intact (h : s.Orderly) : s.Intact := by
  rw [Intact]
  cases h with
  | resting ho hg hs =>
    rw [inFlight, ho, toSend, hg, List.append_nil, List.drop_zero]
    exact hs
  | writing rest ho hg hs =>
    rw [inFlight, ho, toSend, hg, List.drop_length, List.append_nil]
    exact hs

theorem writing_eq_false (h : s.writing = false) : s.connection.outstanding = [] := by
  simpa [writing] using h

theorem Orderly.append (h : s.Orderly) (hw : s.writing = false) (bs : Bytes) :
    (s.append bs).Orderly := by
  have ho := writing_eq_false hw
  cases h with
  | resting _ hg hs =>
    apply Orderly.resting
    · rw [append_connection]
      exact ho
    · exact hg
    · rw [append_connection]
      change s.transmitted ++ (s.connection.response.pimpl ++ bs) = s.appended ++ bs
      rw [← List.append_assoc, hs]
  | writing rest ho' _ _ =>
    rw [ho] at ho'
    cases ho'

theorem Orderly.asyncWrite (h : s.Orderly) (hw : s.writing = false) : s.asyncWrite.Orderly := by
  have ho := writing_eq_false hw
  cases h with
  | resting _ _ hs =>
    apply Orderly.writing s.connection.response.pimpl
    · change s.connection.outstanding ++ _ = _
      rw [ho]
      rfl
    · rfl
    · exact hs
  | writing rest ho' _ _ =>
    rw [ho] at ho'
    cases ho'

theorem Orderly.transmit (h : s.Orderly) (hw : s.writing = true) (size : Nat) :
    (s.transmit size).Orderly := by
  cases h with
  | resting ho _ _ => simp [Responding.writing, ho] at hw
  | writing rest ho hg hs =>
    have hrest : s.inFlight = rest := by rw [inFlight, ho]
    apply Orderly.writing (rest.drop size)
    · rw [Responding.transmit, hrest]
    · exact hg
    · rw [Responding.transmit, hrest]
      change s.transmitted ++ rest.take size ++ rest.drop size = s.appended
      rw [List.append_assoc, List.take_append_drop, hs]

/-- The completion clears all of `response_`, and all of it was given to the write. -/
theorem Orderly.complete (h : s.Orderly) (hw : s.writing = true) (hf : s.inFlight = []) :
    s.complete.Orderly := by
  cases h with
  | resting ho _ _ => simp [Responding.writing, ho] at hw
  | writing rest ho hg hs =>
    have hrest : rest = [] := by
      rw [inFlight, ho] at hf
      exact hf
    rw [hrest] at hs
    exact .resting rfl rfl hs

end Responding

instance RespondingInput.decidableApart (s : Responding) (i : RespondingInput) :
    Decidable (i.Apart s) := by
  cases i <;> unfold RespondingInput.Apart <;> infer_instance

open Responding in
/-- In every run that appends nothing while a write is under way, each byte is transmitted once and
in order. -/
theorem responses_intact {s : Responding}
    (hr : respondingMachine.Reachable (fun s i => i.Apart s) s) : s.Intact := by
  apply Orderly.intact
  apply hr.invariant
  · exact .resting rfl rfl rfl
  · intro s i h he ha
    cases i with
    | append bs => exact h.append ha bs
    | asyncWrite => exact h.asyncWrite he
    | transmit size => exact h.transmit he.1 size
    | complete => exact h.complete he.1 he.2

/-- The second response is in flight, and the first one is transmitted. -/
theorem second_response_intact : Responding.Intact ([.append [1], .asyncWrite, .transmit 1,
    .complete, .append [2, 3], .asyncWrite, .transmit 1].foldl respondingMachine.next
      respondingMachine.init) := by
  have hrun : respondingMachine.Follows (fun s i => i.Apart s) respondingMachine.init
      [.append [1], .asyncWrite, .transmit 1, .complete, .append [2, 3], .asyncWrite,
        .transmit 1] := by
    decide
  exact responses_intact (Machine.Reachable.init.follow hrun)

/-- The completion of the write of the first byte clears the second one. -/
theorem append_during_write_lost :
    ¬ ∀ s, respondingMachine.Reachable (fun _ _ => True) s → s.Intact := by
  intro h
  have hrun : respondingMachine.Follows (fun _ _ => True) respondingMachine.init
      [.append [1], .asyncWrite, .append [2], .transmit 1, .complete] := by
    decide
  exact absurd (h _ (Machine.Reachable.init.follow hrun)) (by decide)

end CppAlls
