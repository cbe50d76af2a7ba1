import CppAlls.Apps.Turns
import CppAlls.Lib.Recording

namespace CppAlls
set_option autoImplicit true

open LittleEndian Interaction Failing Relation AsyncConnectionFast

namespace AsyncConnectionFast

variable {K : Type}

/-- What the read under way has received. -/
def buffered (c : AsyncConnectionFast K) : Bytes :=
  match c.outstanding with
  | [.read _ _ got] => c.request.pimpl.take got
  | _ => []

/-- What the write under way has still to transmit. -/
def toTransmit (c : AsyncConnectionFast K) : List Bytes :=
  match c.outstanding with
  | [.write _ rest] => [rest]
  | _ => []

theorem buffered_reading {c : AsyncConnectionFast K} (h : c.outstanding = [.read cb size got]) :
    c.buffered = c.request.pimpl.take got := by
  rw [buffered, h]

theorem buffered_writing {c : AsyncConnectionFast K} (h : c.outstanding = [.write cb rest]) :
    c.buffered = [] := by
  rw [buffered, h]

theorem toTransmit_reading {c : AsyncConnectionFast K} (h : c.outstanding = [.read cb size got]) :
    c.toTransmit = [] := by
  rw [toTransmit, h]

theorem toTransmit_writing {c : AsyncConnectionFast K} (h : c.outstanding = [.write cb rest]) :
    c.toTransmit = [rest] := by
  rw [toTransmit, h]

theorem Begun.buffered_eq {c : AsyncConnectionFast K} (h : c.Begun) : c.buffered = [] := by
  rw [buffered]
  split
  next cb size got he =>
    have hgot := h.fresh cb size got (he ▸ List.mem_singleton_self _)
    rw [hgot, List.take_zero]
  next => rfl

end AsyncConnectionFast

open Recording in
/-- A callback that first records the request that it is called with. -/
def recorded (call : K → Bool → AsyncM K Unit) (k : K) (error : Bool) :
    FailM Exn (AsyncConnectionFast K × List Bytes) Unit := do
  note fun c handed => handed ++ [c.request.pimpl]
  beside (call k error)

theorem callbackReadWrapped_recorded (call : K → Bool → AsyncM K Unit) (cb : Option K)
    (error : Bool) (x : AsyncConnectionFast K × List Bytes) :
    ((callbackReadWrapped (recorded call) cb error).on x).2 =
      (((callbackReadWrapped call cb error).on x.1).2,
        x.2 ++ cb.toList.map fun _ => x.1.request.pimpl) := by
  cases cb with
  | none => exact Prod.ext rfl (List.append_nil x.2).symm
  | some k =>
    rw [callbackReadWrapped, recorded, FailM.on_bind_ok (Recording.on_note _ x)]
    rfl

/-- A connection with history variables: what its client has sent and taken, the requests that the
callbacks of reads were called with, those of the reads that had no callback, and the responses
that writes have begun with. -/
structure Streamed (K : Type) where
  served : Served K
  sent : Bytes := []
  taken : Bytes := []
  handed : List Bytes := []
  unclaimed : List Bytes := []
  given : List Bytes := []

/-- The connection rests until asio completes the one operation under way. -/
def Served.completes (s : Served K) : Bool :=
  match s.connection.outstanding with
  | [.read _ size got] => got = size
  | [.write _ rest] => rest = []
  | _ => false

/-- The handler of a complete read runs, with the processor recorded. -/
def Streamed.readDone [DecidableEq K] (call : K → Bool → AsyncM K Unit) (cb : Option K) (size : Nat)
    (x : Streamed K) : Streamed K :=
  let c := { x.served.connection with
    outstanding := x.served.connection.outstanding.erase (.read cb size size) }
  let y := ((callbackReadWrapped (recorded call) cb false).on (c, x.handed)).2
  { x with
    served := { x.served with connection := y.1 }
    handed := y.2
    unclaimed := if cb.isSome then x.unclaimed else x.unclaimed ++ [c.request.pimpl]
    given := x.given ++ y.1.toTransmit }

def Streamed.writeDone [DecidableEq K] (call : K → Bool → AsyncM K Unit) (cb : Option K)
    (x : Streamed K) : Streamed K :=
  let c := ((callbackWriteWrapped call cb false).on { x.served.connection with
    outstanding := x.served.connection.outstanding.erase (.write cb []) }).2
  { x with
    served := { x.served with connection := c }
    given := x.given ++ c.toTransmit }

/-- The client sends and takes what it likes, and asio does not fail. Its next step with a complete
operation calls the callback, which may begin the next write. -/
inductive Streamed.Step [DecidableEq K] (call : K → Bool → AsyncM K Unit) (x : Streamed K) :
    Streamed K → Prop where
  | send (bs : Bytes) : Step call x { x with
      served := { x.served with inbound := x.served.inbound ++ bs }
      sent := x.sent ++ bs }
  | take : x.served.outbound = bs ++ rest → Step call x { x with
      served := { x.served with outbound := rest }
      taken := x.taken ++ bs }
  | moved : Served.Step call x.served s' → x.served.completes = false →
      Step call x { x with served := s' }
  | readDone : .read cb size size ∈ x.served.connection.outstanding →
      Step call x (x.readDone call cb size)
  | writeDone : .write cb [] ∈ x.served.connection.outstanding → Step call x (x.writeDone call cb)

/-- A connection on which a processor has begun its first operation. -/
def Streamed.begun (c : AsyncConnectionFast K) : Streamed K where
  served := { connection := c }
  given := c.toTransmit

theorem Streamed.readDone_served [DecidableEq K] (call : K → Bool → AsyncM K Unit) (cb : Option K)
    (size : Nat) (x : Streamed K) : (x.readDone call cb size).served = { x.served with
      connection := ((callbackReadWrapped call cb false).on { x.served.connection with
        outstanding := x.served.connection.outstanding.erase (.read cb size size) }).2 } := by
  rw [readDone]
  simp only [callbackReadWrapped_recorded]

/-- The recorded steps are the steps of the connection. -/
theorem Streamed.Step.event [DecidableEq K] {call : K → Bool → AsyncM K Unit} {x x' : Streamed K}
    (h : Streamed.Step call x x') : Served.Event call x.served x'.served := by
  cases h with
  | send bs => exact .client _ _
  | take _ => exact .client _ _
  | moved hst _ => exact .step hst
  | readDone hop =>
    rw [readDone_served]
    exact .step (.readDone hop)
  | writeDone hop => exact .step (.writeDone hop)

/-- What asio moves on a connection that takes turns, before the operation is complete. -/
inductive Served.Moved (s s' : Served K) : Prop where
  | received : s.connection.outstanding = [.read cb size got] → s.inbound = bs ++ s'.inbound →
      s'.outbound = s.outbound → s'.connection.outstanding = [.read cb size (got + bs.length)] →
      s'.connection.request.pimpl.take (got + bs.length) =
        s.connection.request.pimpl.take got ++ bs →
      s'.connection.response = s.connection.response → Moved s s'
  | transmitted : s.connection.outstanding = [.write cb (bs ++ rest)] →
      s'.inbound = s.inbound → s'.outbound = s.outbound ++ bs →
      s'.connection.outstanding = [.write cb rest] → Moved s s'

theorem Served.completes_reading {s : Served K} (h : s.connection.outstanding = [.read cb size got]) :
    s.completes = decide (got = size) := by
  rw [completes, h]

theorem Served.completes_writing {s : Served K} (h : s.connection.outstanding = [.write cb rest]) :
    s.completes = decide (rest = []) := by
  rw [completes, h]

theorem Served.Step.moved [DecidableEq K] {call : K → Bool → AsyncM K Unit} {s s' : Served K}
    (h : s.connection.TakesTurns) (hst : Served.Step call s s') (hc : s.completes = false) :
    Served.Moved s s' := by
  cases hst with
  | @receive bs rest got size r cb hop hin hbs hle hf =>
    obtain ⟨he, _⟩ := h.outstanding_eq hop
    obtain ⟨hlen, hcur, _⟩ := h.reading cb size got hop
    have hfit : s.connection.request.dataExtracted + got + bs.length ≤
        s.connection.request.pimpl.length := by
      rw [hcur, hlen, Nat.zero_add]
      exact hle
    obtain ⟨r', hr', _, hp⟩ := StackRequest.fill_ok hfit
    cases hf.symm.trans hr'
    rw [hcur, Nat.zero_add] at hp
    refine .received he hin rfl ?_ ?_ rfl
    · simp only [he, List.erase_cons_head]
    · simp only [hp]
      apply List.take_left'
      rw [List.length_append, List.length_take, hlen, Nat.min_eq_left (by omega)]
  | @transmit bs cb rest hop hbs =>
    obtain ⟨he, _⟩ := h.outstanding_eq hop
    refine .transmitted he rfl rfl ?_
    simp only [he, List.erase_cons_head]
  | @readDone cb size hop =>
    obtain ⟨he, _⟩ := h.outstanding_eq hop
    rw [Served.completes_reading he, decide_eq_true rfl] at hc
    cases hc
  | @writeDone cb hop =>
    obtain ⟨he, _⟩ := h.outstanding_eq hop
    rw [Served.completes_writing he, decide_eq_true rfl] at hc
    cases hc

/-- What the handler of a complete read does to a connection that takes turns. -/
theorem Streamed.readDone_eq [DecidableEq K] {call : K → Bool → AsyncM K Unit} {x : Streamed K}
    (he : x.served.connection.outstanding = [.read cb size size]) : x.readDone call cb size =
      let c := ((callbackReadWrapped call cb false).on
        { x.served.connection with outstanding := [] }).2
      { x with
        served := { x.served with connection := c }
        handed := x.handed ++ cb.toList.map fun _ => x.served.connection.request.pimpl
        unclaimed := if cb.isSome then x.unclaimed
          else x.unclaimed ++ [x.served.connection.request.pimpl]
        given := x.given ++ c.toTransmit } := by
  rw [readDone]
  simp only [callbackReadWrapped_recorded, he, List.erase_cons_head]

theorem Streamed.writeDone_eq [DecidableEq K] {call : K → Bool → AsyncM K Unit} {x : Streamed K}
    (he : x.served.connection.outstanding = [.write cb []]) : x.writeDone call cb =
      let c := ((callbackWriteWrapped call cb false).on
        { x.served.connection with outstanding := [] }).2
      { x with
        served := { x.served with connection := c }
        given := x.given ++ c.toTransmit } := by
  rw [writeDone]
  simp only [he, List.erase_cons_head]

/-- The two byte streams of a connection: what the client has sent was handed to callbacks, was left
in the buffer by a last read without a callback, is in the buffer of the read under way or still in
flight, and what it has taken is all that responses were written with, but what is in flight or
still to transmit. -/
structure Streamed.Kept (x : Streamed K) : Prop where
  reading : x.handed.flatten ++ x.unclaimed.flatten ++ x.served.connection.buffered ++
    x.served.inbound = x.sent
  writing : x.taken ++ x.served.outbound ++ x.served.connection.toTransmit.flatten =
    x.given.flatten
  last : x.unclaimed ≠ [] → x.served.connection.outstanding = []

theorem Streamed.Kept.unclaimed_eq {x : Streamed K} (h : x.Kept)
    (hop : op ∈ x.served.connection.outstanding) : x.unclaimed = [] := by
  by_contra hne
  rw [h.last hne] at hop
  cases hop

theorem Streamed.kept_begun {c : AsyncConnectionFast K} (h : c.Begun) :
    (Streamed.begun c).Kept where
  reading := by
    change [] ++ [] ++ c.buffered ++ [] = []
    rw [h.buffered_eq]
    rfl
  writing := rfl
  last := fun h => absurd rfl h

theorem Streamed.Kept.moved {x : Streamed K} (h : x.Kept) (hm : Served.Moved x.served s') :
    Streamed.Kept { x with served := s' } := by
  have hr := h.reading
  have hw := h.writing
  cases hm with
  | received he hin hout he' hp _ =>
    have hnone := h.unclaimed_eq (he ▸ List.mem_singleton_self _)
    rw [buffered_reading he, hin] at hr
    rw [toTransmit_reading he] at hw
    refine ⟨?_, ?_, fun hne => absurd hnone hne⟩
    · simp only [buffered_reading he', hp]
      rw [← hr]
      simp only [List.append_assoc]
    · simp only [toTransmit_reading he', hout]
      exact hw
  | transmitted he hin hout he' =>
    have hnone := h.unclaimed_eq (he ▸ List.mem_singleton_self _)
    rw [buffered_writing he] at hr
    rw [toTransmit_writing he] at hw
    refine ⟨?_, ?_, fun hne => absurd hnone hne⟩
    · simp only [buffered_writing he', hin]
      exact hr
    · simp only [toTransmit_writing he', hout]
      rw [← hw]
      simp only [List.append_assoc, List.flatten_singleton]

theorem Streamed.Kept.readDone [DecidableEq K] {call : K → Bool → AsyncM K Unit}
    (hcall : CallsInTurn call) {x : Streamed K} (hT : x.served.connection.TakesTurns)
    (h : x.Kept) (hop : .read cb size size ∈ x.served.connection.outstanding) :
    (x.readDone call cb size).Kept := by
  obtain ⟨he, _⟩ := hT.outstanding_eq hop
  obtain ⟨hlen, _, _⟩ := hT.reading cb size size hop
  have hnone := h.unclaimed_eq hop
  have hr := h.reading
  have hw := h.writing
  rw [buffered_reading he, ← hlen, List.take_length, hnone] at hr
  rw [toTransmit_reading he, List.flatten_nil, List.append_nil] at hw
  have hfree := hT.taken hop
  rw [he, List.erase_cons_head] at hfree
  have hb := callbackReadWrapped_begun hcall cb false hfree
  rw [readDone_eq he]
  refine ⟨?_, ?_, ?_⟩
  · simp only [hb.buffered_eq, List.append_nil, ← hr, hnone]
    cases cb with
    | none => simp only [Option.toList_none, List.map_nil, Option.isSome_none, Bool.false_eq_true,
        ↓reduceIte, List.nil_append, List.flatten_nil, List.flatten_singleton, List.append_nil]
    | some k => simp only [Option.toList_some, List.map_cons, List.map_nil, Option.isSome_some,
        ↓reduceIte, List.flatten_append, List.flatten_singleton, List.flatten_nil, List.append_nil]
  · simp only [List.flatten_append, hw]
  · cases cb with
    | none => exact fun _ => rfl
    | some k => exact fun hne => absurd hnone hne

theorem Streamed.Kept.writeDone [DecidableEq K] {call : K → Bool → AsyncM K Unit}
    (hcall : CallsInTurn call) {x : Streamed K} (hT : x.served.connection.TakesTurns)
    (h : x.Kept) (hop : .write cb [] ∈ x.served.connection.outstanding) :
    (x.writeDone call cb).Kept := by
  obtain ⟨he, _⟩ := hT.outstanding_eq hop
  have hr := h.reading
  have hw := h.writing
  rw [buffered_writing he] at hr
  rw [toTransmit_writing he, List.flatten_singleton, List.append_nil] at hw
  have hfree := hT.taken hop
  rw [he, List.erase_cons_head] at hfree
  have hb := callbackWriteWrapped_begun hcall cb false hfree
  rw [writeDone_eq he]
  refine ⟨?_, ?_, fun hne => absurd (h.unclaimed_eq hop) hne⟩
  · simp only [hb.buffered_eq]
    exact hr
  · simp only [List.flatten_append, hw]

theorem Streamed.Kept.step [DecidableEq K] {call : K → Bool → AsyncM K Unit}
    (hcall : CallsInTurn call) {x x' : Streamed K} (hT : x.served.connection.TakesTurns)
    (h : x.Kept) (hst : Streamed.Step call x x') : x'.Kept := by
  cases hst with
  | send bs => exact ⟨by rw [← List.append_assoc, h.reading], h.writing, h.last⟩
  | take hout =>
    have hw := h.writing
    rw [hout] at hw
    refine ⟨h.reading, ?_, h.last⟩
    rw [← hw]
    simp only [List.append_assoc]
  | moved hst hc => exact h.moved (hst.moved hT hc)
  | readDone hop => exact h.readDone hcall hT hop
  | writeDone hop => exact h.writeDone hcall hT hop

theorem Streamed.run [DecidableEq K] {call : K → Bool → AsyncM K Unit} (hcall : CallsInTurn call)
    {c : AsyncConnectionFast K} (hc : c.Begun) {x : Streamed K}
    (hx : ReflTransGen (Streamed.Step call) (Streamed.begun c) x) :
    x.served.connection.TakesTurns ∧ x.Kept := by
  induction hx with
  | refl => exact ⟨hc.toTakesTurns, Streamed.kept_begun hc⟩
  | tail _ hst ih =>
    obtain ⟨hT, hk⟩ := ih
    exact ⟨hst.event.takesTurns hcall hT, hk.step hcall hT hst⟩

/-- With any processor whose callbacks begin at most one operation, and leave its buffer alone, a
connection is two byte streams: no byte that the client sends is lost, repeated or handed over out
of order, and neither is one of the responses. -/
theorem async_streams_kept [DecidableEq K] (call : K → Bool → AsyncM K Unit)
    (hcall : CallsInTurn call) (c : AsyncConnectionFast K) (hc : c.Begun) (x : Streamed K)
    (hx : ReflTransGen (Streamed.Step call) (Streamed.begun c) x) : x.Kept :=
  (Streamed.run hcall hc hx).2

open EchoConnectionProcessor in
/-- The echo of a `short` that waits for its two bytes. -/
def shortRead (b b' : UInt8) (got : Nat) : AsyncConnectionFast Callback where
  request := { pimpl := [b, b'], size_lt := (by decide : 2 < 2 ^ 63) }
  outstanding := [.read (some .onRead) 2 got]

open EchoConnectionProcessor in
def shortWrite (rest : Bytes) : AsyncConnectionFast Callback where
  request := { (shortRead 5 0 2).request with dataExtracted := 2 }
  response := ⟨[5, 0]⟩
  outstanding := [.write (some .onWrite) rest]

open EchoConnectionProcessor in
/-- The client has got back one byte of the two that it sent. -/
def shortEchoed : Streamed Callback where
  served := { connection := shortWrite [0] }
  sent := [5, 0]
  taken := [5]
  handed := [[5, 0]]
  given := [[5, 0]]

open EchoConnectionProcessor Streamed in
/-- The bytes arrive one by one, the callback of the read begins a write, and that transmits one. -/
theorem shortEchoed_run : ReflTransGen (Streamed.Step (call .little .short false))
    (Streamed.begun (shortRead 0 0 0)) shortEchoed := by
  have hall : ([5] : Bytes) = [5] ++ [] := rfl
  have hfirst : Served.Step (call .little .short false)
      { inbound := [5, 0], connection := shortRead 0 0 0 }
      { inbound := [0], connection := shortRead 5 0 1 } :=
    @Served.Step.receive _ _ _ _ [5] [0] 0 2 _ _ (List.mem_singleton_self _) rfl nofun
      (by decide) rfl
  have hsecond : Served.Step (call .little .short false)
      { inbound := [0], connection := shortRead 5 0 1 } { connection := shortRead 5 0 2 } :=
    @Served.Step.receive _ _ _ _ [0] [] 1 2 _ _ (List.mem_singleton_self _) rfl nofun
      (by decide) rfl
  have hsends : Served.Step (call .little .short false)
      { connection := shortWrite [5, 0] } { outbound := [5], connection := shortWrite [0] } :=
    @Served.Step.transmit _ _ _ _ [5] _ [0] (List.mem_singleton_self _) nofun
  apply ReflTransGen.head (.send [5, 0])
  apply ReflTransGen.head (.moved hfirst rfl)
  apply ReflTransGen.head (.moved hsecond rfl)
  apply ReflTransGen.head (.readDone (List.mem_singleton_self _))
  apply ReflTransGen.head (.moved hsends rfl)
  exact .single (.take hall)

open EchoConnectionProcessor in
theorem echo_streams_kept : shortEchoed.Kept :=
  async_streams_kept (call .little .short false) (callsInTurn .little .short false)
    ((operatorCall .short).on {}).2 (Free.asyncRead ⟨rfl, rfl⟩ _ _) shortEchoed shortEchoed_run

end CppAlls
