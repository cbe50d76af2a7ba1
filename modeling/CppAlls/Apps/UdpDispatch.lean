import CppAlls.Apps.UdpService

namespace CppAlls
set_option autoImplicit true

open LittleEndian Failing Relation Extraction

/-- `available()` finds the size of this datagram at the head of the queue, and the read that follows
delivers it, or fails. -/
structure UdpRound where
  datagram : Datagram
  error : Bool
deriving DecidableEq

namespace UdpService

/-- The connection that `on_accpet` makes, when its read has ended. -/
def roundConnection (x : UdpRound) : UdpConnectionFast :=
  let available := x.datagram.bytes.length
  let c := (accepted x.datagram).completed (.read (some available) available 0)
  match c.connection.request.fill 0 x.datagram.bytes with
  | .ok r => if x.error then c else c.receivedFrom r x.datagram.endpoint
  | .error _ => c

/-- A peek has found a datagram, and the read of it ends in its callback. -/
def round (o : ByteOrder) (p : Processor σ) (s : UdpService σ) (x : UdpRound) : UdpService σ :=
  { s with peeking := false }.complete o p (some x.datagram.bytes.length) x.error
    (roundConnection x)

end UdpService

/-- What a round leaves, also when an exception leaves its callback: the acceptor peeks, and `accept`
was called once, before any call of the processor; and the processor was called once, with what is
behind the header and an empty response, if the datagram was read and has its own size in front. -/
structure UdpRound.Handled (p : Processor σ) (x : UdpRound) (s s' : UdpService σ) : Prop where
  rearmed : s'.peeking = true ∧ s'.accepts = s.accepts ++ [s.invoked.length]
  dispatched : x.error = false → x.datagram.Headed → ∃ request : StackRequest,
    request.unread = x.datagram.payload ∧
      s'.processor = (p.on (s.processor, request, {})).2.1 ∧
      s'.invoked = s.invoked ++ [⟨x.datagram.endpoint, request,
        (p.on (s.processor, request, {})).2.2.2.pimpl⟩]
  dropped : x.error = true ∨ ¬ x.datagram.Headed →
    s'.processor = s.processor ∧ s'.invoked = s.invoked

/-- The acceptor peeks when the datagrams come, one after the other, and each of them is handled. -/
def UdpService.HandlesAll (o : ByteOrder) (p : Processor σ) : UdpService σ → List UdpRound → Prop
  | s, [] => s.peeking = true
  | s, x :: xs => s.peeking = true ∧ x.Handled p s (s.round o p x) ∧
    HandlesAll o p (s.round o p x) xs

namespace UdpService

variable {p : Processor σ}

theorem roundConnection_failed {x : UdpRound} (h : x.error = true) :
    roundConnection x = (accepted x.datagram).completed
      (.read (some x.datagram.bytes.length) x.datagram.bytes.length 0) := by
  simp only [roundConnection]
  rw [h]
  split <;> rfl

theorem roundConnection_delivered {x : UdpRound} {r : StackRequest} (h : x.error = false)
    (hr : (accepted x.datagram).connection.request.fill 0 x.datagram.bytes = .ok r) :
    roundConnection x = ((accepted x.datagram).completed
      (.read (some x.datagram.bytes.length) x.datagram.bytes.length 0)).receivedFrom
        r x.datagram.endpoint := by
  simp only [roundConnection, UdpConnectionFast.completed]
  rw [hr, h]
  rfl

theorem roundConnection_received {x : UdpRound} (h : x.error = false) :
    Received (roundConnection x) x.datagram := by
  have hw := accepted_awaits x.datagram
  obtain ⟨r, hr, hholds⟩ := hw.fill
  rw [roundConnection_delivered h hr]
  exact ⟨rfl, hholds, hw.response, hw.completed⟩

theorem round_failed (o : ByteOrder) (p : Processor σ) (s : UdpService σ) {x : UdpRound}
    (h : x.error = true) : s.round o p x = { s with peeking := false }.accept := by
  rw [round, h, roundConnection_failed h]
  exact complete_failed (accepted_awaits x.datagram).completed o p _ _

theorem round_delivered (o : ByteOrder) (p : Processor σ) (s : UdpService σ) {x : UdpRound}
    (h : x.error = false) : s.round o p x =
      { s with peeking := false }.accept.called (p.handle (s.processor, s.invoked) x.datagram) := by
  rw [round, h]
  exact (roundConnection_received h).complete o p _

theorem round_handled (o : ByteOrder) (p : Processor σ) (s : UdpService σ) (x : UdpRound) :
    x.Handled p s (s.round o p x) := by
  by_cases he : x.error = true
  · rw [round_failed o p s he]
    refine ⟨⟨rfl, rfl⟩, ?_, fun _ => ⟨rfl, rfl⟩⟩
    intro hok
    cases he.symm.trans hok
  · rw [round_delivered o p s (Bool.eq_false_iff.mpr he)]
    by_cases hd : x.datagram.Headed
    · rw [Processor.handle, if_pos hd]
      refine ⟨⟨rfl, rfl⟩, ?_, ?_⟩
      · exact fun _ _ => ⟨x.datagram.request, rfl, rfl, rfl⟩
      · exact fun h => (h.elim he fun hn => hn hd).elim
    · rw [Processor.handle, if_neg hd]
      exact ⟨⟨rfl, rfl⟩, fun _ h => absurd h hd, fun _ => ⟨rfl, rfl⟩⟩

/-- A round is a run of the service; a datagram that could not be read is still in the socket. -/
theorem round_steps (o : ByteOrder) (p : Processor σ) {s : UdpService σ} {x : UdpRound}
    (hp : s.peeking = true) (hc : s.connections = []) (ha : s.arrived = x.datagram :: rest) :
    ReflTransGen (Step o p) s (({ s with arrived := if x.error then s.arrived else rest } :
      UdpService σ).round o p x) := by
  obtain ⟨processor, peeking, connections, arrived, transmitted, received, invoked, accepts⟩ := s
  cases hp
  cases hc
  have hw := accepted_awaits x.datagram
  have hpeek : Step o p _ _ := .peek rfl ha
  rw [onAccpet_eq] at hpeek
  have hcs : (⟨processor, false, [accepted x.datagram], arrived, transmitted, received, invoked,
      accepts⟩ : UdpService σ).connections = [] ++ accepted x.datagram :: [] := rfl
  have hop : .read (some x.datagram.bytes.length) x.datagram.bytes.length 0 ∈
      (accepted x.datagram).connection.outstanding := by
    rw [hw.outstanding]
    exact List.mem_cons_self
  rw [round]
  by_cases he : x.error = true
  · have hfailed : Step o p _ _ := .receiveFailed hcs hop
    rw [roundConnection_failed he, if_pos he, he]
    exact .head hpeek (.single hfailed)
  · obtain ⟨r, hr, _⟩ := hw.fill
    have hf : (accepted x.datagram).connection.request.fill 0
        (x.datagram.bytes.take (x.datagram.bytes.length - 0)) = .ok r := by
      rw [Nat.sub_zero, List.take_length]
      exact hr
    have hstep : Step o p _ _ := .receive hcs hop ha hf
    rw [Nat.sub_zero, List.take_length, UdpService.receive, if_pos (.inr (Nat.zero_add _))] at hstep
    rw [roundConnection_delivered (Bool.eq_false_iff.mpr he) hr, if_neg he,
      Bool.eq_false_iff.mpr he]
    exact .head hpeek (.single hstep)

theorem handlesAll (o : ByteOrder) (p : Processor σ) (s : UdpService σ) (xs : List UdpRound)
    (h : s.peeking = true) : s.HandlesAll o p xs := by
  induction xs generalizing s with
  | nil => exact h
  | cons x xs ih =>
    have hx := s.round_handled o p x
    exact ⟨h, hx, ih _ hx.rearmed.1⟩

end UdpService

/-- Whatever arrives, and whether or not it can be read. -/
theorem datagrams_dispatched (o : ByteOrder) (p : Processor σ) (processor : σ)
    (xs : List UdpRound) : ({ processor := processor } : UdpService σ).HandlesAll o p xs :=
  UdpService.handlesAll o p _ xs rfl

end CppAlls
