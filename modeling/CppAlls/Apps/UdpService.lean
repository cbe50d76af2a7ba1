import CppAlls.Apps.AsyncConnection
import CppAlls.Apps.UdpDatagram
import CppAlls.Core.Canonical

namespace CppAlls
set_option autoImplicit true

open LittleEndian Failing Relation Extraction

/-- A datagram and the endpoint of its sender. The header of UDP has 16 bits for the size. -/
structure Datagram where
  endpoint : Nat
  bytes : Bytes
  size_lt : bytes.length < 2 ^ 16 := by decide
deriving DecidableEq

namespace Datagram

/-- The datagram starts with its own size. -/
def Headed (d : Datagram) : Prop := d.bytes.take 4 = leBytes 4 d.bytes.length

instance decidableHeaded (d : Datagram) : Decidable d.Headed :=
  inferInstanceAs (Decidable (_ = _))

def payload (d : Datagram) : Bytes := d.bytes.drop 4

/-- The request of a connection that has read the header. -/
def request (d : Datagram) : StackRequest where
  pimpl := d.bytes
  dataExtracted := 4
  size_lt := Nat.lt_trans d.size_lt (by decide)

end Datagram

/-- `processor::operator()(request&, response&)`, with the state of the processor. -/
abbrev Processor (σ : Type) := FailM Exn (σ × StackRequest × StackResponse) Unit

/-- A `udp_connection_fast` with the endpoint of its `udp_helper`. A callback is the size
`available` that it has captured. -/
structure UdpConnectionFast where
  connection : AsyncConnectionFast Nat := {}
  endpoint : Nat := 0

/-- A call of the processor, with the bytes that it put into the response. -/
structure Invocation where
  endpoint : Nat
  request : StackRequest
  response : Bytes
deriving DecidableEq

/-- A started acceptor with the datagrams that wait in its socket and those that it transmitted.
The history variables are all datagrams received, the calls of the processor, and for each call of
`accept` after the one of `start` how many calls of the processor there were before it. -/
structure UdpService (σ : Type) where
  processor : σ
  peeking : Bool := true
  connections : List UdpConnectionFast := []
  arrived : List Datagram := []
  transmitted : List (Nat × Bytes) := []
  received : List Datagram := []
  invoked : List Invocation := []
  accepts : List Nat := []

/-- What a callback does to the acceptor and to the connection it is called on. -/
abbrev ServiceM (σ α : Type) := FailM Exn (UdpService σ × UdpConnectionFast) α

namespace UdpService

def accept (s : UdpService σ) : UdpService σ :=
  { s with peeking := true, accepts := s.accepts ++ [s.invoked.length] }

/-- Only the operations that asio has not completed keep a connection alive. -/
def keep (s : UdpService σ) (c : UdpConnectionFast) : UdpService σ :=
  if c.connection.outstanding = [] then s else { s with connections := s.connections ++ [c] }

def onConnection (m : AsyncM Nat α) : ServiceM σ α :=
  m.part (fun x => x.2.connection) (fun x c => (x.1, { x.2 with connection := c }))

/-- A processor that throws has done what it did before. -/
def invoke (p : Processor σ) : ServiceM σ Unit := do
  let (s, c) ← get
  let (r, processor, request, response) :=
    p.on (s.processor, c.connection.request, c.connection.response)
  let call : Invocation := ⟨c.endpoint, c.connection.request, response.pimpl⟩
  set ({ s with processor := processor, invoked := s.invoked ++ [call] },
    { c with connection := { c.connection with request := request, response := response } })
  FailM.ofExcept r

/-- The callback of the read in `on_accpet`. -/
def readCallback (o : ByteOrder) (p : Processor σ) (available : Nat) (error : Bool) :
    ServiceM σ Unit := do
  modify fun x => (x.1.accept, x.2)
  if error then return
  let size ← onConnection (AsyncM.onRequest (doIstream o .unsignedInt).fromRequest)
  if available ≠ size.toNat then return
  invoke p

/-- A completed operation calls its callback, and lets go of the connection. -/
def complete (o : ByteOrder) (p : Processor σ) (callback : Option Nat) (error : Bool)
    (s : UdpService σ) (c : UdpConnectionFast) : UdpService σ :=
  match callback with
  | some available =>
    let x := ((readCallback o p available error).on (s, c)).2
    x.1.keep x.2
  | none => s.keep c

/-- The peek found a datagram; `available()` is the size of the first one. -/
def onAccpet (s : UdpService σ) (available : Nat) : UdpService σ :=
  let c := ((AsyncConnectionFast.asyncRead (some available) available).on {}).2
  { s with peeking := false }.keep { connection := c }

/-- `async_read` goes on until its buffer is full or a receive yields nothing. -/
def receive (o : ByteOrder) (p : Processor σ) (callback : Option Nat) (size got transferred : Nat)
    (s : UdpService σ) (c : UdpConnectionFast) : UdpService σ :=
  if transferred = 0 ∨ got + transferred = size then
    s.complete o p callback false c
  else
    s.keep { c with connection := { c.connection with
      outstanding := .read callback size (got + transferred) :: c.connection.outstanding } }

end UdpService

namespace UdpConnectionFast

def completed (c : UdpConnectionFast) (op : AsyncOperation Nat) : UdpConnectionFast :=
  { c with connection := { c.connection with outstanding := c.connection.outstanding.erase op } }

/-- `async_receive_from` sets `endpoint_`, and drops what does not fit into the buffer. -/
def receivedFrom (c : UdpConnectionFast) (r : StackRequest) (endpoint : Nat) : UdpConnectionFast :=
  { c with connection := { c.connection with request := r }, endpoint := endpoint }

def transmitted (c : UdpConnectionFast) : UdpConnectionFast :=
  { c with connection := { c.connection with response := c.connection.response.clear } }

end UdpConnectionFast

open UdpService in
/-- Datagrams arrive, and asio completes the operations under way. A peek or receive that fails
leaves the datagram in the socket; nothing is aborted, for the socket stays open. -/
inductive UdpService.Step (o : ByteOrder) (p : Processor σ) (s : UdpService σ) :
    UdpService σ → Prop where
  | arrive (d : Datagram) :
      Step o p s { s with arrived := s.arrived ++ [d], received := s.received ++ [d] }
  | peek : s.peeking = true → s.arrived = d :: rest → Step o p s (s.onAccpet d.bytes.length)
  | peekFailed : s.peeking = true → Step o p s s.accept
  | receive : s.connections = cs ++ c :: cs' →
      .read callback size got ∈ c.connection.outstanding → s.arrived = d :: rest →
      c.connection.request.fill got (d.bytes.take (size - got)) = .ok r →
      Step o p s ({ s with arrived := rest, connections := cs ++ cs' }.receive o p callback size got
        (d.bytes.take (size - got)).length
        ((c.completed (.read callback size got)).receivedFrom r d.endpoint))
  | receiveFailed : s.connections = cs ++ c :: cs' →
      .read callback size got ∈ c.connection.outstanding →
      Step o p s ({ s with connections := cs ++ cs' }.complete o p callback true
        (c.completed (.read callback size got)))
  | send : s.connections = cs ++ c :: cs' → .write callback bs ∈ c.connection.outstanding →
      Step o p s ({ s with
          transmitted := s.transmitted ++ [(c.endpoint, bs)]
          connections := cs ++ cs' }.complete o p callback false
        (c.completed (.write callback bs)).transmitted)

/-- All datagrams received are handled, and the acceptor waits for the next one. -/
structure UdpService.AtRest (s : UdpService σ) : Prop where
  peeking : s.peeking = true
  connections : s.connections = []
  arrived : s.arrived = []

/-- The processor was called once for the payload of each datagram with its own size, and each
response that is not empty was transmitted once to the peer. -/
structure UdpService.Answered (s : UdpService σ) : Prop where
  invoked : (s.invoked.map fun i => (i.endpoint, i.request.unread)).Perm
    ((s.received.filter Datagram.Headed).map fun d => (d.endpoint, d.payload))
  transmitted : s.transmitted.Perm
    ((s.invoked.filter fun i => i.response ≠ []).map fun i => (i.endpoint, i.response))

/-- In no run that receives these datagrams is the service stuck, and when it rests all of them are
answered. -/
structure AnswersDatagrams (o : ByteOrder) (p : Processor σ) (processor : σ) (ds : List Datagram) :
    Prop where
  settles : ∀ s, ReflTransGen (UdpService.Step o p) { processor := processor } s →
    s.received = ds → ∃ s', ReflTransGen (UdpService.Step o p) s s' ∧ s'.received = ds ∧ s'.AtRest
  answered : ∀ s, ReflTransGen (UdpService.Step o p) { processor := processor } s →
    s.received = ds → s.AtRest → s.Answered

namespace Processor

/-- One more call of the processor, on a connection that received the datagram. -/
def serve (p : Processor σ) (x : σ × List Invocation) (d : Datagram) : σ × List Invocation :=
  let y := (p.on (x.1, d.request, {})).2
  (y.1, x.2 ++ [⟨d.endpoint, d.request, y.2.2.pimpl⟩])

/-- The calls of a processor for datagrams in their order. -/
def calls (p : Processor σ) (processor : σ) (ds : List Datagram) : σ × List Invocation :=
  ds.foldl p.serve (processor, [])

/-- A datagram without its own size is dropped. -/
def handle (p : Processor σ) (x : σ × List Invocation) (d : Datagram) : σ × List Invocation :=
  if d.Headed then p.serve x d else x

theorem calls_filter (p : Processor σ) (processor : σ) (ds : List Datagram) :
    p.calls processor (ds.filter Datagram.Headed) = ds.foldl p.handle (processor, []) := by
  rw [calls, List.foldl_filter]
  congr 1
  funext x d
  simp only [decide_eq_true_eq]
  rfl

theorem calls_map (p : Processor σ) (x : σ × List Invocation) (ds : List Datagram) :
    (ds.foldl p.serve x).2.map (fun i => (i.endpoint, i.request.unread)) =
      x.2.map (fun i => (i.endpoint, i.request.unread)) ++
        ds.map fun d => (d.endpoint, d.payload) := by
  induction ds generalizing x with
  | nil => rw [List.foldl_nil, List.map_nil, List.append_nil]
  | cons d ds ih =>
    rw [List.foldl_cons, ih, serve, List.map_append, List.append_assoc]
    rfl

end Processor

namespace Datagram

variable {d : Datagram} {r : StackRequest}

/-- What is behind a header that was read. -/
theorem eq_request (hp : r.pimpl = d.bytes) (hu : r.unread = d.payload) (hd : 4 ≤ d.bytes.length)
    (hr : r.dataExtracted ≤ r.pimpl.length) : r = d.request := by
  have hlen := congrArg List.length hu
  rw [r.unread_length, payload, List.length_drop, hp] at hlen
  rw [hp] at hr
  apply StackRequest.ext
  · exact hp
  · change r.dataExtracted = 4
    omega

theorem verdict_headed (o : ByteOrder) (h : d.Headed) (hr : r.Holds d.bytes) :
    udpReadCallback o d.bytes.length r = .processed d.request {} := by
  have hlt : d.bytes.length < 2 ^ 32 := Nat.lt_trans d.size_lt (by decide)
  obtain ⟨q, hverdict, hp, hu, hq⟩ := udpReadCallback_headed o h hlt hr
  rw [hverdict, eq_request hp hu (le_length_of_take_eq h) hq]

theorem verdict_unheaded (o : ByteOrder) (h : ¬ d.Headed) (hr : r.Holds d.bytes) :
    udpReadCallback o d.bytes.length r ≠ .processed q a := by
  intro hv
  obtain ⟨size, hon, hn⟩ := udpReadCallback_processed hv
  have hsize := doIstream_sizesFit o .unsignedInt
  cases hc : (doIstream o .unsignedInt).consume r.unread with
  | none =>
    obtain ⟨q', hon', _⟩ := fromRequest_short hsize hr.cursor_le hc
    cases hon.symm.trans hon'
  | some x =>
    obtain ⟨q', hon', _⟩ := fromRequest_consume hsize hr.cursor_le hc
    cases hon.symm.trans hon'
    apply h
    have hbytes : d.bytes = leBytes 4 x.1.toNat ++ x.2 := hr.unread ▸ Num.encode_consume hc
    rw [Headed, hn, hbytes]
    exact List.take_left' (leBytes_length 4 _)

end Datagram

namespace UdpService

theorem readCallback_on (o : ByteOrder) (p : Processor σ) (n : Nat) (s : UdpService σ)
    (c : UdpConnectionFast) : (readCallback o p n false).on (s, c) =
      match (doIstream o .unsignedInt).fromRequest.on c.connection.request with
      | (.error e, q) =>
        (.error e, s.accept, { c with connection := { c.connection with request := q } })
      | (.ok size, q) =>
        (if n ≠ size.toNat then pure () else invoke p : ServiceM σ Unit).on
          (s.accept, { c with connection := { c.connection with request := q } }) := by
  rw [readCallback, FailM.on_bind_ok (FailM.on_modify _ _)]
  simp only [Bool.false_eq_true, ↓reduceIte]
  rw [FailM.on_bind, onConnection, FailM.on_part, AsyncM.onRequest, FailM.on_part]
  generalize (fromRequest (doIstream o .unsignedInt)).on c.connection.request = r
  obtain ⟨r, q⟩ := r
  cases r <;> rfl

theorem readCallback_processed {c : UdpConnectionFast} (p : Processor σ) (s : UdpService σ)
    (h : udpReadCallback o n c.connection.request = .processed q a) :
    (readCallback o p n false).on (s, c) =
      (invoke p).on (s.accept, { c with connection := { c.connection with request := q } }) := by
  obtain ⟨size, hon, hn⟩ := udpReadCallback_processed h
  rw [readCallback_on, hon]
  dsimp only
  rw [if_neg fun hne => hne hn]

theorem readCallback_refused {c : UdpConnectionFast} (p : Processor σ) (s : UdpService σ)
    (h : ∀ q a, udpReadCallback o n c.connection.request ≠ .processed q a) :
    ∃ r q, (readCallback o p n false).on (s, c) =
      (r, s.accept, { c with connection := { c.connection with request := q } }) := by
  rw [readCallback_on]
  rcases hon : (doIstream o .unsignedInt).fromRequest.on c.connection.request with ⟨r, q⟩
  cases r with
  | error e => exact ⟨.error e, q, rfl⟩
  | ok size =>
    dsimp only
    rw [if_pos (udpReadCallback_refused h hon)]
    exact ⟨.ok (), q, rfl⟩

/-- The acceptor after the calls `x` of the processor. -/
def called (s : UdpService σ) (x : σ × List Invocation) : UdpService σ :=
  { s with processor := x.1, invoked := x.2 }

theorem keep_done {s : UdpService σ} {c : UdpConnectionFast} (h : c.connection.outstanding = []) :
    s.keep c = s := if_pos h

/-- A connection that received a datagram, with no operation under way. -/
structure Received (c : UdpConnectionFast) (d : Datagram) : Prop where
  endpoint : c.endpoint = d.endpoint
  request : c.connection.request.Holds d.bytes
  response : c.connection.response = {}
  outstanding : c.connection.outstanding = []

theorem Received.complete (h : Received c d) (o : ByteOrder) (p : Processor σ) (s : UdpService σ) :
    s.complete o p (some d.bytes.length) false c =
      s.accept.called (p.handle (s.processor, s.invoked) d) := by
  by_cases hd : d.Headed
  · have hon := readCallback_processed p s (Datagram.verdict_headed o hd h.request)
    have hinvoke : ((invoke p).on (s.accept, { c with
        connection := { c.connection with request := d.request } })).2.1 =
          s.accept.called (p.serve (s.processor, s.invoked) d) := by
      rw [called, Processor.serve, ← h.endpoint, ← h.response]
      rfl
    rw [Processor.handle, if_pos hd]
    simp only [UdpService.complete, hon]
    rw [keep_done, hinvoke]
    exact h.outstanding
  · obtain ⟨r, q, hon⟩ :=
      readCallback_refused p s fun q a => Datagram.verdict_unheaded o hd h.request
    rw [Processor.handle, if_neg hd]
    simp only [UdpService.complete, hon]
    exact keep_done h.outstanding

/-- A fresh connection whose read is for the datagram. -/
structure Awaits (c : UdpConnectionFast) (d : Datagram) : Prop where
  outstanding : c.connection.outstanding = [.read (some d.bytes.length) d.bytes.length 0]
  size : c.connection.request.pimpl.length = d.bytes.length
  cursor : c.connection.request.dataExtracted = 0
  response : c.connection.response = {}

/-- The connection that `on_accpet` makes for a datagram. -/
def accepted (d : Datagram) : UdpConnectionFast where
  connection := ((AsyncConnectionFast.asyncRead (some d.bytes.length) d.bytes.length).on {}).2

theorem accepted_awaits (d : Datagram) : Awaits (accepted d) d := by
  have hlt : d.bytes.length < 2 ^ 63 := Nat.lt_trans d.size_lt (by decide)
  obtain ⟨r, hon, hsize, hcursor⟩ :=
    AsyncConnectionFast.asyncRead_on (some d.bytes.length) hlt ({} : AsyncConnectionFast Nat)
  rw [accepted, hon]
  exact ⟨rfl, hsize, hcursor, rfl⟩

theorem onAccpet_eq (s : UdpService σ) (d : Datagram) : s.onAccpet d.bytes.length =
    { s with peeking := false, connections := s.connections ++ [accepted d] } := by
  change keep _ (accepted d) = _
  rw [keep, if_neg]
  rw [(accepted_awaits d).outstanding]
  exact List.cons_ne_nil _ _

theorem onAccpet_awaits (s : UdpService σ) (d : Datagram) : ∃ c, Awaits c d ∧
    s.onAccpet d.bytes.length =
      { s with peeking := false, connections := s.connections ++ [c] } :=
  ⟨accepted d, accepted_awaits d, onAccpet_eq s d⟩

theorem Awaits.fill (h : Awaits c d) :
    ∃ r, c.connection.request.fill 0 d.bytes = .ok r ∧ r.Holds d.bytes := by
  have hle : c.connection.request.dataExtracted + 0 + d.bytes.length ≤
      c.connection.request.pimpl.length := by
    rw [h.cursor, h.size, Nat.zero_add]
  obtain ⟨r, hf, hc, hp⟩ := StackRequest.fill_ok hle
  refine ⟨r, hf, ?_, hc.trans h.cursor⟩
  rw [hp, h.cursor, Nat.zero_add, Nat.zero_add, List.take_zero, List.nil_append,
    List.drop_eq_nil_of_le (Nat.le_of_eq h.size), List.append_nil]

theorem Awaits.completed (h : Awaits c d) :
    (c.completed (.read (some d.bytes.length) d.bytes.length 0)).connection.outstanding = [] := by
  change c.connection.outstanding.erase _ = []
  rw [h.outstanding]
  exact List.erase_cons_head _ _

theorem Awaits.receive (h : Awaits c d) (hr : r.Holds d.bytes) (o : ByteOrder) (p : Processor σ)
    (s : UdpService σ) :
    s.receive o p (some d.bytes.length) d.bytes.length 0 d.bytes.length
        ((c.completed (.read (some d.bytes.length) d.bytes.length 0)).receivedFrom r d.endpoint) =
      s.accept.called (p.handle (s.processor, s.invoked) d) := by
  rw [UdpService.receive, if_pos (.inr (Nat.zero_add _))]
  apply Received.complete
  exact ⟨rfl, hr, h.response, h.completed⟩

/-- The processor was called for the datagrams that have left the socket. -/
structure Handled (p : Processor σ) (processor : σ) (s : UdpService σ) (handled : List Datagram) :
    Prop where
  received : s.received = handled ++ s.arrived
  called : (s.processor, s.invoked) = handled.foldl p.handle (processor, [])
  transmitted : s.transmitted = []

/-- The acceptor peeks, or one connection reads the datagram that it saw. -/
inductive Orderly (p : Processor σ) (processor : σ) (s : UdpService σ) : Prop where
  | peeking (handled : List Datagram) : s.peeking = true → s.connections = [] →
      Handled p processor s handled → Orderly p processor s
  | reading (handled rest : List Datagram) (d : Datagram) (c : UdpConnectionFast) :
      s.peeking = false → s.arrived = d :: rest → s.connections = [c] → Awaits c d →
      Handled p processor s handled → Orderly p processor s

variable {p : Processor σ} {processor : σ} {s s' : UdpService σ}

theorem Handled.arrive (h : Handled p processor s handled) (d : Datagram) :
    Handled p processor
      { s with arrived := s.arrived ++ [d], received := s.received ++ [d] } handled := by
  refine ⟨?_, h.called, h.transmitted⟩
  change s.received ++ [d] = handled ++ (s.arrived ++ [d])
  rw [h.received, List.append_assoc]

theorem Handled.taken (h : Handled p processor s handled) (ha : s.arrived = d :: rest)
    (cs : List UdpConnectionFast) :
    Handled p processor (accept { s with arrived := rest, connections := cs }
      |>.called (p.handle (s.processor, s.invoked) d)) (handled ++ [d]) := by
  refine ⟨?_, ?_, h.transmitted⟩
  · change s.received = handled ++ [d] ++ rest
    rw [h.received, ha, List.append_assoc]
    rfl
  · rw [List.foldl_append, ← h.called]
    rfl

/-- An operation under way is the read of the datagram that the last peek saw. -/
theorem Orderly.underWay (h : s.Orderly p processor) (hcs : s.connections = cs ++ c :: cs')
    (hop : op ∈ c.connection.outstanding) : ∃ handled rest d, cs = [] ∧ cs' = [] ∧
      s.arrived = d :: rest ∧ Awaits c d ∧ op = .read (some d.bytes.length) d.bytes.length 0 ∧
      Handled p processor s handled := by
  cases h with
  | peeking _ _ hc _ =>
    rw [hc] at hcs
    exact absurd hcs.symm (List.append_ne_nil_of_right_ne_nil _ (List.cons_ne_nil _ _))
  | reading handled rest d _ _ ha hc hw hh =>
    rw [hc] at hcs
    rcases List.append_eq_singleton_iff.mp hcs.symm with ⟨rfl, he⟩ | ⟨_, he⟩
    · cases he
      rw [hw.outstanding] at hop
      exact ⟨handled, rest, d, rfl, rfl, ha, hw, List.mem_singleton.mp hop, hh⟩
    · cases he

theorem complete_failed {c : UdpConnectionFast} (h : c.connection.outstanding = [])
    (o : ByteOrder) (p : Processor σ) (n : Nat) (s : UdpService σ) :
    s.complete o p (some n) true c = s.accept := keep_done h

theorem Orderly.step (h : s.Orderly p processor) (hs : Step o p s s') :
    s'.Orderly p processor := by
  cases hs with
  | arrive d =>
    cases h with
    | peeking handled hp hc hh => exact .peeking handled hp hc (hh.arrive d)
    | reading handled rest d' c hp ha hc hw hh =>
      have ha' : s.arrived ++ [d] = d' :: (rest ++ [d]) := by
        rw [ha]
        rfl
      exact .reading handled _ d' c hp ha' hc hw (hh.arrive d)
  | @peek d rest hp ha =>
    cases h with
    | peeking handled _ hc hh =>
      obtain ⟨c, hw, hon⟩ := onAccpet_awaits s d
      rw [hon, hc]
      exact .reading handled rest d c rfl ha rfl hw ⟨hh.received, hh.called, hh.transmitted⟩
    | reading _ _ _ _ hp' _ _ _ _ =>
      rw [hp] at hp'
      cases hp'
  | peekFailed hp =>
    cases h with
    | peeking handled _ hc hh =>
      exact .peeking handled rfl hc ⟨hh.received, hh.called, hh.transmitted⟩
    | reading _ _ _ _ hp' _ _ _ _ =>
      rw [hp] at hp'
      cases hp'
  | receive hcs hop ha hf =>
    obtain ⟨handled, _, d, rfl, rfl, ha', hw, hread, hh⟩ := h.underWay hcs hop
    cases hread
    cases ha'.symm.trans ha
    rw [Nat.sub_zero, List.take_length] at hf ⊢
    obtain ⟨r, hr, hholds⟩ := hw.fill
    cases hr.symm.trans hf
    rw [hw.receive hholds]
    exact .peeking _ rfl rfl (hh.taken ha [])
  | receiveFailed hcs hop =>
    obtain ⟨handled, _, d, rfl, rfl, _, hw, hread, hh⟩ := h.underWay hcs hop
    cases hread
    rw [complete_failed]
    · exact .peeking handled rfl rfl ⟨hh.received, hh.called, hh.transmitted⟩
    · exact hw.completed
  | send hcs hop =>
    obtain ⟨_, _, _, _, _, _, _, hread, _⟩ := h.underWay hcs hop
    cases hread

theorem Orderly.steps (h : s.Orderly p processor) (hs : ReflTransGen (Step o p) s s') :
    s'.Orderly p processor := by
  induction hs with
  | refl => exact h
  | tail _ hs ih => exact ih.step hs

theorem Awaits.step (hw : Awaits c d) (hc : s.connections = [c]) (ha : s.arrived = d :: rest)
    (o : ByteOrder) (p : Processor σ) :
    ∃ s', Step o p s s' ∧ s'.received = s.received ∧ s'.arrived = rest := by
  obtain ⟨r, hr, hholds⟩ := hw.fill
  have hc' : s.connections = [] ++ c :: [] := hc
  have hop : .read (some d.bytes.length) d.bytes.length 0 ∈ c.connection.outstanding := by
    rw [hw.outstanding]
    exact List.mem_cons_self
  have hf : c.connection.request.fill 0 (d.bytes.take (d.bytes.length - 0)) = .ok r := by
    rw [Nat.sub_zero, List.take_length]
    exact hr
  have hstep : Step o p s _ := .receive hc' hop ha hf
  rw [Nat.sub_zero, List.take_length, hw.receive hholds] at hstep
  exact ⟨_, hstep, rfl, rfl⟩

/-- Some run of peeks and receives that succeed handles all datagrams in the socket. -/
theorem Orderly.settles (h : s.Orderly p processor) (o : ByteOrder) :
    ∃ s', ReflTransGen (Step o p) s s' ∧ s'.received = s.received ∧ s'.AtRest := by
  induction ha : s.arrived generalizing s with
  | nil =>
    cases h with
    | peeking _ hp hc _ => exact ⟨s, .refl, rfl, hp, hc, ha⟩
    | reading _ _ _ _ _ ha' _ _ _ =>
      rw [ha] at ha'
      cases ha'
  | cons d rest ih =>
    have htaken : ∃ s', ReflTransGen (Step o p) s s' ∧ s'.received = s.received ∧
        s'.arrived = rest := by
      cases h with
      | peeking _ hp hc _ =>
        obtain ⟨c, hw, hon⟩ := onAccpet_awaits s d
        have hpeek : Step o p s _ := .peek hp ha
        rw [hon, hc] at hpeek
        obtain ⟨s', hs, hr, ha'⟩ :=
          hw.step (s := { s with peeking := false, connections := [c] }) rfl ha o p
        exact ⟨s', .head hpeek (.single hs), hr, ha'⟩
      | reading _ _ _ _ _ ha' hc hw _ =>
        cases ha'.symm.trans ha
        obtain ⟨s', hs, hr, ha'⟩ := hw.step hc ha o p
        exact ⟨s', .single hs, hr, ha'⟩
    obtain ⟨s₁, hs₁, hr₁, ha₁⟩ := htaken
    obtain ⟨s₂, hs₂, hr₂, hrest⟩ := ih (h.steps hs₁) ha₁
    exact ⟨s₂, hs₁.trans hs₂, hr₂.trans hr₁, hrest⟩

theorem Orderly.invoked (h : s.Orderly p processor) (hr : s.AtRest) : s.transmitted = [] ∧
    s.invoked = (p.calls processor (s.received.filter Datagram.Headed)).2 := by
  cases h with
  | peeking handled _ _ hh =>
    have hreceived : s.received = handled := by
      rw [hh.received, hr.arrived, List.append_nil]
    refine ⟨hh.transmitted, ?_⟩
    rw [Processor.calls_filter, hreceived, ← hh.called]
  | reading _ _ _ _ _ _ hc _ _ =>
    rw [hr.connections] at hc
    cases hc

/-- Nothing was transmitted, so all that the processor put into responses must be nothing. -/
theorem Orderly.answered_iff (h : s.Orderly p processor) (hr : s.AtRest) : s.Answered ↔
    ∀ i ∈ (p.calls processor (s.received.filter Datagram.Headed)).2, i.response = [] := by
  obtain ⟨htransmitted, hinvoked⟩ := h.invoked hr
  have hcalls := Processor.calls_map p (processor, []) (s.received.filter Datagram.Headed)
  rw [← hinvoked]
  constructor
  · intro ha i hi
    have hnone := ha.transmitted
    rw [htransmitted, List.nil_perm, List.map_eq_nil_iff, List.filter_eq_nil_iff] at hnone
    simpa using hnone i hi
  · intro hempty
    constructor
    · rw [hinvoked]
      exact .of_eq hcalls
    · rw [htransmitted, List.nil_perm, List.map_eq_nil_iff, List.filter_eq_nil_iff]
      intro i hi
      simpa using hempty i hi

/-- Every datagram that is received is in the history of some run. -/
theorem exists_received (o : ByteOrder) (p : Processor σ) (s : UdpService σ) (ds : List Datagram) :
    ∃ s', ReflTransGen (Step o p) s s' ∧ s'.received = s.received ++ ds := by
  induction ds generalizing s with
  | nil => exact ⟨s, .refl, (List.append_nil _).symm⟩
  | cons d ds ih =>
    obtain ⟨s', hs, hr⟩ := ih { s with
      arrived := s.arrived ++ [d], received := s.received ++ [d] }
    refine ⟨s', .head (.arrive d) hs, ?_⟩
    rw [hr, List.append_assoc]
    rfl

end UdpService

theorem Processor.orderly (p : Processor σ) (processor : σ) :
    UdpService.Orderly p processor { processor := processor } :=
  .peeking [] rfl rfl ⟨rfl, rfl, rfl⟩

open UdpService in
theorem AnswersDatagrams.responses_empty {p : Processor σ} {processor : σ}
    (h : AnswersDatagrams o p processor ds) :
    ∀ i ∈ (p.calls processor (ds.filter Datagram.Headed)).2, i.response = [] := by
  obtain ⟨s, hs, hr⟩ := exists_received o p { processor := processor } ds
  obtain ⟨s', hs', hr', hrest⟩ := h.settles s hs hr
  have hiff := ((p.orderly processor).steps (hs.trans hs')).answered_iff hrest
  rw [hr'] at hiff
  exact hiff.mp (h.answered s' (hs.trans hs') hr' hrest)

/-- The callback never calls `async_write`, so the datagrams are answered exactly if the processor
has nothing to answer. -/
theorem datagrams_answered_iff (o : ByteOrder) (p : Processor σ) (processor : σ)
    (ds : List Datagram) : AnswersDatagrams o p processor ds ↔
      ∀ i ∈ (p.calls processor (ds.filter Datagram.Headed)).2, i.response = [] := by
  constructor
  · exact fun h => h.responses_empty
  · intro hempty
    constructor
    · rintro s hs rfl
      exact ((p.orderly processor).steps hs).settles o
    · rintro s hs rfl hrest
      exact (((p.orderly processor).steps hs).answered_iff hrest).mpr hempty

/-- A processor that puts what it reads into the response. -/
def echoProcessor : Processor Unit :=
  (modify fun x => (x.1, x.2.1, ⟨x.2.2.pimpl ++ x.2.1.unread⟩) :
    FailM Exn (Unit × StackRequest × StackResponse) Unit)

/-- The echo of a datagram with one byte of payload is not transmitted. -/
theorem echo_not_transmitted :
    ¬ ∀ (σ : Type) o (p : Processor σ) processor ds, AnswersDatagrams o p processor ds := by
  intro h
  have hping := h Unit .little echoProcessor () [{ endpoint := 1, bytes := [5, 0, 0, 0, 9] }]
  exact absurd hping.responses_empty (by decide)

end CppAlls
