import CppAlls.Apps.Echo

namespace CppAlls
set_option autoImplicit true

open Interaction Failing Relation AsyncM

namespace EchoConnectionProcessor

/-- The callbacks of `echo_connection_processor<T, Close>` for an arithmetic type `T`. -/
inductive Callback where
  | onRead
  | onWrite
deriving DecidableEq, Repr

open AsyncConnectionFast

def operatorCall (T : Num) : AsyncM Callback Unit := asyncRead (some .onRead) T.size

def onWrite (T : Num) (close : Bool) (error : Bool) : AsyncM Callback Unit :=
  if error then AsyncConnectionFast.close
  else if close then AsyncConnectionFast.close
  else operatorCall T

def onRead (o : ByteOrder) (T : Num) (error : Bool) : AsyncM Callback Unit := do
  if error then return
  let val ← onRequest ((Ty.num T).operatorShr o).fromRequest
  onResponse ((Ty.num T).operatorShl o val)
  asyncWrite (some .onWrite)

def call (o : ByteOrder) (T : Num) (close : Bool) : Callback → Bool → AsyncM Callback Unit
  | .onRead, error => onRead o T error
  | .onWrite, error => onWrite T close error

end EchoConnectionProcessor

/-- What can happen to a connection: a step of asio without an error, the end of an operation with
one, and anything that the client does with the streams. -/
inductive Served.Event [DecidableEq K] (call : K → Bool → AsyncM K Unit) (s : Served K) :
    Served K → Prop where
  | step : Served.Step call s s' → Event call s s'
  | readFailed : .read cb size got ∈ s.connection.outstanding →
      Event call s { s with
        connection := ((AsyncConnectionFast.callbackReadWrapped call cb true).on { s.connection with
          outstanding := s.connection.outstanding.erase (.read cb size got) }).2 }
  | writeFailed : .write cb rest ∈ s.connection.outstanding →
      Event call s { s with
        connection := ((AsyncConnectionFast.callbackWriteWrapped call cb true).on {
          s.connection with
          outstanding := s.connection.outstanding.erase (.write cb rest) }).2 }
  | client (inbound outbound : Bytes) :
      Event call s { s with inbound := inbound, outbound := outbound }

theorem RequestM.on_resize_error {r : StackRequest} (h : r.resize n = .error e) :
    (RequestM.resize n).on r = (.error e, r) := by
  simp only [RequestM.resize, FailM.on, ExceptT.run, ExceptT.mk, StateT.run, h]

namespace AsyncConnectionFast

variable {K : Type} {c : AsyncConnectionFast K}

/-- One operation at a time is under way, none on a closed connection, and the buffer that asio
reads from or writes to is as it was when the operation began. -/
structure TakesTurns (c : AsyncConnectionFast K) : Prop where
  one : c.outstanding.length ≤ 1
  closed : c.closed = true → c.outstanding = []
  reading : ∀ cb size got, .read cb size got ∈ c.outstanding →
    c.request.pimpl.length = size ∧ c.request.dataExtracted = 0 ∧ got ≤ size
  writing : ∀ cb rest, .write cb rest ∈ c.outstanding → rest <:+ c.response.pimpl

/-- The operation under way, if there is one, has only just begun. -/
structure Begun (c : AsyncConnectionFast K) : Prop extends TakesTurns c where
  fresh : ∀ cb size got, .read cb size got ∈ c.outstanding → got = 0
  whole : ∀ cb rest, .write cb rest ∈ c.outstanding → rest = c.response.pimpl

/-- A connection on which nothing is under way, and that is not closed. -/
structure Free (c : AsyncConnectionFast K) : Prop where
  outstanding : c.outstanding = []
  closed : c.closed = false

theorem begun_of_idle (h : c.outstanding = []) : c.Begun := by
  have hno {op : AsyncOperation K} {P : Prop} (hop : op ∈ c.outstanding) : P := by
    rw [h] at hop
    cases hop
  refine ⟨⟨?_, fun _ => h, ?_, ?_⟩, ?_, ?_⟩
  · rw [h]
    exact Nat.zero_le 1
  · exact fun _ _ _ hop => hno hop
  · exact fun _ _ hop => hno hop
  · exact fun _ _ _ hop => hno hop
  · exact fun _ _ hop => hno hop

/-- A single operation is all that is under way. -/
theorem TakesTurns.outstanding_eq (h : c.TakesTurns) (hop : op ∈ c.outstanding) :
    c.outstanding = [op] ∧ c.closed = false := by
  obtain ⟨xs, ys, he⟩ := List.append_of_mem hop
  have hlen := h.one
  rw [he, List.length_append, List.length_cons] at hlen
  have hxs : xs = [] := List.eq_nil_of_length_eq_zero (by omega)
  have hys : ys = [] := List.eq_nil_of_length_eq_zero (by omega)
  subst hxs hys
  refine ⟨he, Bool.eq_false_iff.mpr ?_⟩
  intro hclosed
  cases he.symm.trans (h.closed hclosed)

theorem Free.asyncRead (h : c.Free) (cb : Option K) (n : Nat) :
    ((asyncRead cb n).on c).2.Begun := by
  by_cases hn : n < 2 ^ 63
  · obtain ⟨r, hon, hlen, hcur⟩ := asyncRead_on cb hn c
    rw [hon, h.outstanding]
    refine ⟨⟨Nat.le_refl 1, ?_, ?_, ?_⟩, ?_, ?_⟩
    · intro hclosed
      cases h.closed.symm.trans hclosed
    · intro cb' size got hop
      cases List.mem_singleton.mp hop
      exact ⟨hlen, hcur, Nat.zero_le n⟩
    · intro cb' rest hop
      cases List.mem_singleton.mp hop
    · intro cb' size got hop
      cases List.mem_singleton.mp hop
      rfl
    · intro cb' rest hop
      cases List.mem_singleton.mp hop
  · have hresize : c.request.clear.resize n = .error .lengthError := dif_neg hn
    rw [AsyncConnectionFast.asyncRead, FailM.on_bind_ok (FailM.on_modify _ c), FailM.on_bind,
      onRequest, FailM.on_part]
    simp only [RequestM.on_resize_error hresize]
    exact begun_of_idle h.outstanding

theorem Free.asyncWrite (h : c.Free) (cb : Option K) :
    ((asyncWrite cb).on c).2.Begun := by
  rw [AsyncConnectionFast.asyncWrite, FailM.on_modify, h.outstanding]
  refine ⟨⟨Nat.le_refl 1, ?_, ?_, ?_⟩, ?_, ?_⟩
  · intro hclosed
    cases h.closed.symm.trans hclosed
  · intro cb' size got hop
    cases List.mem_singleton.mp hop
  · intro cb' rest hop
    cases List.mem_singleton.mp hop
    exact List.suffix_refl _
  · intro cb' size got hop
    cases List.mem_singleton.mp hop
  · intro cb' rest hop
    cases List.mem_singleton.mp hop
    rfl

theorem Free.close (h : c.Free) : (close.on c).2.Begun := begun_of_idle h.outstanding

/-- What a callback extracts or appends first leaves the connection free. -/
theorem Free.onRequest_bind (h : c.Free) {m : RequestM α} {f : α → AsyncM K Unit}
    (hf : ∀ a c', c'.Free → ((f a).on c').2.Begun) :
    ((onRequest m >>= f).on c).2.Begun := by
  rw [FailM.on_bind, onRequest, FailM.on_part]
  generalize m.on c.request = x
  obtain ⟨r, q⟩ := x
  cases r with
  | error e => exact begun_of_idle h.outstanding
  | ok a => exact hf a _ ⟨h.outstanding, h.closed⟩

theorem Free.onResponse_bind (h : c.Free) {m : ResponseM α} {f : α → AsyncM K Unit}
    (hf : ∀ a c', c'.Free → ((f a).on c').2.Begun) :
    ((onResponse m >>= f).on c).2.Begun := by
  rw [FailM.on_bind, onResponse, FailM.on_part]
  generalize m.on c.response = x
  obtain ⟨r, q⟩ := x
  cases r with
  | error e => exact begun_of_idle h.outstanding
  | ok a => exact hf a _ ⟨h.outstanding, h.closed⟩

/-- On a free connection a callback of the processor begins at most one operation, and then neither
touches the buffer of that operation nor closes the connection. -/
def CallsInTurn (call : K → Bool → AsyncM K Unit) : Prop :=
  ∀ k error c, c.Free → ((call k error).on c).2.Begun

theorem callbackReadWrapped_begun {call : K → Bool → AsyncM K Unit} (hcall : CallsInTurn call)
    (cb : Option K) (error : Bool) (h : c.Free) :
    ((callbackReadWrapped call cb error).on c).2.Begun := by
  cases cb with
  | none => exact begun_of_idle h.outstanding
  | some k => exact hcall k error c h

theorem callbackWriteWrapped_begun {call : K → Bool → AsyncM K Unit} (hcall : CallsInTurn call)
    (cb : Option K) (error : Bool) (h : c.Free) :
    ((callbackWriteWrapped call cb error).on c).2.Begun :=
  callbackReadWrapped_begun hcall cb error (c := { c with response := c.response.clear })
    ⟨h.outstanding, h.closed⟩

theorem TakesTurns.taken [DecidableEq K] (h : c.TakesTurns) (hop : op ∈ c.outstanding) :
    Free { c with outstanding := c.outstanding.erase op } := by
  obtain ⟨he, hclosed⟩ := h.outstanding_eq hop
  refine ⟨?_, hclosed⟩
  rw [he, List.erase_cons_head]

theorem TakesTurns.received [DecidableEq K] (h : c.TakesTurns)
    (hop : .read cb size got ∈ c.outstanding) (hle : got + bs.length ≤ size)
    (hf : c.request.fill got bs = .ok r) :
    TakesTurns { c with
      request := r
      outstanding := .read cb size (got + bs.length) ::
        c.outstanding.erase (.read cb size got) } := by
  obtain ⟨he, hclosed⟩ := h.outstanding_eq hop
  obtain ⟨hlen, hcur, _⟩ := h.reading cb size got hop
  have hfit : c.request.dataExtracted + got + bs.length ≤ c.request.pimpl.length := by
    rw [hcur, hlen, Nat.zero_add]
    exact hle
  obtain ⟨r', hr', hcur', hp⟩ := StackRequest.fill_ok hfit
  cases hf.symm.trans hr'
  rw [he, List.erase_cons_head]
  refine ⟨Nat.le_refl 1, ?_, ?_, ?_⟩
  · intro hc
    cases hclosed.symm.trans hc
  · intro cb' size' got' hm
    cases List.mem_singleton.mp hm
    refine ⟨?_, hcur'.trans hcur, hle⟩
    simp only [hp, List.length_append, List.length_take, List.length_drop]
    omega
  · intro cb' rest hm
    cases List.mem_singleton.mp hm

theorem TakesTurns.transmitted [DecidableEq K] (h : c.TakesTurns)
    (hop : .write cb (bs ++ rest) ∈ c.outstanding) :
    TakesTurns { c with
      outstanding := .write cb rest :: c.outstanding.erase (.write cb (bs ++ rest)) } := by
  obtain ⟨he, hclosed⟩ := h.outstanding_eq hop
  have hsuffix := h.writing cb _ hop
  rw [he, List.erase_cons_head]
  refine ⟨Nat.le_refl 1, ?_, ?_, ?_⟩
  · intro hc
    cases hclosed.symm.trans hc
  · intro cb' size got hm
    cases List.mem_singleton.mp hm
  · intro cb' rest' hm
    cases List.mem_singleton.mp hm
    exact (List.suffix_append bs _).trans hsuffix

end AsyncConnectionFast

open AsyncConnectionFast

theorem Served.Event.takesTurns [DecidableEq K] {call : K → Bool → AsyncM K Unit}
    (hcall : CallsInTurn call) {s s' : Served K} (h : s.connection.TakesTurns)
    (he : Served.Event call s s') : s'.connection.TakesTurns := by
  cases he with
  | step hst =>
    cases hst with
    | receive hop _ _ hle hf => exact h.received hop hle hf
    | transmit hop _ => exact h.transmitted hop
    | readDone hop => exact (callbackReadWrapped_begun hcall _ false (h.taken hop)).toTakesTurns
    | writeDone hop => exact (callbackWriteWrapped_begun hcall _ false (h.taken hop)).toTakesTurns
  | readFailed hop => exact (callbackReadWrapped_begun hcall _ true (h.taken hop)).toTakesTurns
  | writeFailed hop => exact (callbackWriteWrapped_begun hcall _ true (h.taken hop)).toTakesTurns
  | client inbound outbound => exact h

theorem takesTurns_run [DecidableEq K] {call : K → Bool → AsyncM K Unit}
    (hcall : CallsInTurn call) {s s' : Served K} (h : s.connection.TakesTurns)
    (hs : ReflTransGen (Served.Event call) s s') : s'.connection.TakesTurns := by
  induction hs with
  | refl => exact h
  | tail _ he ih => exact he.takesTurns hcall ih

theorem EchoConnectionProcessorString.callsInTurn (o : ByteOrder) (close : Bool) :
    CallsInTurn (call o close) := by
  intro k error c h
  cases k with
  | onRead1 =>
    cases error with
    | true => exact begun_of_idle h.outstanding
    | false => exact h.onRequest_bind fun size c' h' => h'.asyncRead _ _
  | onRead2 =>
    cases error with
    | true => exact begun_of_idle h.outstanding
    | false => exact h.onResponse_bind fun _ c' h' => h'.asyncWrite _
  | onWrite =>
    cases error with
    | true => exact h.close
    | false =>
      cases close with
      | true => exact h.close
      | false => exact h.asyncRead _ _

theorem EchoConnectionProcessor.callsInTurn (o : ByteOrder) (T : Num) (close : Bool) :
    CallsInTurn (call o T close) := by
  intro k error c h
  cases k with
  | onRead =>
    cases error with
    | true => exact begun_of_idle h.outstanding
    | false =>
      exact h.onRequest_bind fun val c' h' => h'.onResponse_bind fun _ c'' h'' => h''.asyncWrite _
  | onWrite =>
    cases error with
    | true => exact h.close
    | false =>
      cases close with
      | true => exact h.close
      | false => exact h.asyncRead _ _

/-- In every run of the echo processors, with or without `Close`, whatever the client sends and
whichever operations fail: a connection has at most one operation under way, a closed one none, and
the operation finds its buffer as it was given. -/
theorem echo_connections_take_turns (o : ByteOrder) (T : Num) (close : Bool) :
    (∀ s, ReflTransGen (Served.Event (EchoConnectionProcessorString.call o close))
        { connection := (EchoConnectionProcessorString.operatorCall.on {}).2 } s →
      s.connection.TakesTurns) ∧
    ∀ s, ReflTransGen (Served.Event (EchoConnectionProcessor.call o T close))
        { connection := ((EchoConnectionProcessor.operatorCall T).on {}).2 } s →
      s.connection.TakesTurns := by
  constructor
  · intro s hs
    exact takesTurns_run (EchoConnectionProcessorString.callsInTurn o close)
      (Free.asyncRead ⟨rfl, rfl⟩ _ _).toTakesTurns hs
  · intro s hs
    exact takesTurns_run (EchoConnectionProcessor.callsInTurn o T close)
      (Free.asyncRead ⟨rfl, rfl⟩ _ _).toTakesTurns hs

end CppAlls
