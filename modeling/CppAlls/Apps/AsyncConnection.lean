import CppAlls.Core.RoundTrip

namespace CppAlls
set_option autoImplicit true

open LittleEndian Interaction Failing

/-- An operation under way on the socket of a connection, with the callback that it ends in: a
read that has received `got` of its `size` bytes, or a write that has `rest` still to transmit. -/
inductive AsyncOperation (K : Type) where
  | read (callback : Option K) (size got : Nat)
  | write (callback : Option K) (rest : Bytes)
deriving DecidableEq, Repr

/-- An `async_connection_fast`, with the operations that asio has not completed. -/
structure AsyncConnectionFast (K : Type) where
  request : StackRequest := {}
  response : StackResponse := {}
  closed : Bool := false
  outstanding : List (AsyncOperation K) := []

abbrev AsyncM (K α : Type) := FailM Exn (AsyncConnectionFast K) α

namespace AsyncM

def onRequest (m : RequestM α) : AsyncM K α :=
  m.part (fun c => c.request) (fun c r => { c with request := r })

def onResponse (m : ResponseM α) : AsyncM K α :=
  m.part (fun c => c.response) (fun c r => { c with response := r })

end AsyncM

def RequestM.resize (size : Nat) : RequestM Unit :=
  ExceptT.mk fun r =>
    match r.resize size with
    | .ok r' => (.ok (), r')
    | .error e => (.error e, r)

theorem RequestM.on_resize {r : StackRequest} (h : r.resize n = .ok r') :
    (RequestM.resize n).on r = (.ok (), r') := by
  change (match r.resize n with
    | .ok r' => ((.ok (), r') : Except Exn Unit × StackRequest)
    | .error e => (.error e, r)) = _
  rw [h]

namespace AsyncConnectionFast

open AsyncM

def asyncRead (cb : Option K) (size : Nat) : AsyncM K Unit := do
  modify fun c => { c with request := c.request.clear }
  onRequest (RequestM.resize size)
  modify fun c => { c with outstanding := c.outstanding ++ [.read cb size 0] }

def asyncWrite (cb : Option K) : AsyncM K Unit :=
  modify fun c => { c with outstanding := c.outstanding ++ [.write cb c.response.pimpl] }

def close : AsyncM K Unit := modify fun c => { c with closed := true }

/-- `callback_read_wrapped`; `call` runs a callback with its error code. -/
def callbackReadWrapped {m : Type → Type} [Monad m] (call : K → Bool → m Unit)
    (callback : Option K) (error : Bool) : m Unit :=
  match callback with
  | some k => call k error
  | none => return

def callbackWriteWrapped (call : K → Bool → AsyncM K Unit) (callback : Option K) (error : Bool) :
    AsyncM K Unit := do
  modify fun c => { c with response := c.response.clear }
  match callback with
  | some k => call k error
  | none => return

theorem asyncRead_on (cb : Option K) (h : n < 2 ^ 63) (c : AsyncConnectionFast K) :
    ∃ r, (asyncRead cb n).on c = (.ok (), { c with
        request := r, outstanding := c.outstanding ++ [.read cb n 0] }) ∧
      r.pimpl.length = n ∧ r.dataExtracted = 0 := by
  obtain ⟨r, hr, hp, hc⟩ := StackRequest.resize_ok (r := c.request.clear) h
  refine ⟨r, ?_, ?_, hc⟩
  · simp only [asyncRead, onRequest, FailM.on_bind, FailM.on_modify, FailM.on_part,
      RequestM.on_resize hr]
  · rw [hp]
    simp [StackRequest.clear]

end AsyncConnectionFast

/-- A connection between the bytes in flight to it and those in flight from it. -/
structure Served (K : Type) where
  inbound : Bytes := []
  outbound : Bytes := []
  connection : AsyncConnectionFast K := {}

open AsyncConnectionFast in
/-- Asio moves any part of the streams to and from the buffers of the operations, and calls the
handler of one that is complete. -/
inductive Served.Step [DecidableEq K] (call : K → Bool → AsyncM K Unit) (s : Served K) :
    Served K → Prop where
  | receive : .read cb size got ∈ s.connection.outstanding → s.inbound = bs ++ rest → bs ≠ [] →
      got + bs.length ≤ size → s.connection.request.fill got bs = .ok r →
      Step call s { s with
        inbound := rest
        connection := { s.connection with
          request := r
          outstanding := .read cb size (got + bs.length) ::
            s.connection.outstanding.erase (.read cb size got) } }
  | transmit : .write cb (bs ++ rest) ∈ s.connection.outstanding → bs ≠ [] →
      Step call s { s with
        outbound := s.outbound ++ bs
        connection := { s.connection with
          outstanding := .write cb rest ::
            s.connection.outstanding.erase (.write cb (bs ++ rest)) } }
  | readDone : .read cb size size ∈ s.connection.outstanding →
      Step call s { s with
        connection := ((callbackReadWrapped call cb false).on { s.connection with
          outstanding := s.connection.outstanding.erase (.read cb size size) }).2 }
  | writeDone : .write cb [] ∈ s.connection.outstanding →
      Step call s { s with
        connection := ((callbackWriteWrapped call cb false).on { s.connection with
          outstanding := s.connection.outstanding.erase (.write cb []) }).2 }

end CppAlls
