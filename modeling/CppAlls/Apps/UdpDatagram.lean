import CppAlls.Core.RoundTrip

namespace CppAlls
set_option autoImplicit true

open LittleEndian Interaction Extraction

/-- How the read callback of the UDP acceptor ends. -/
inductive UdpVerdict where
  | thrown (e : Exn)
  | sizeMissmatch (received required : Nat)
  | processed (request : StackRequest) (response : StackResponse)
deriving DecidableEq

/-- `async_read` of a fresh connection: the request is resized and then takes what arrives. -/
def udpAsyncRead (available : Nat) (received : Bytes) : Except Exn StackRequest := do
  let request ← ({} : StackRequest).clear.resize available
  request.fill 0 received

/-- The read callback: the header of the datagram must be its own size. -/
def udpReadCallback (o : ByteOrder) (available : Nat) (request : StackRequest) : UdpVerdict :=
  match (doIstream o .unsignedInt).fromRequest.on request with
  | (.error e, _) => .thrown e
  | (.ok size, request) =>
    if available ≠ size.toNat then .sizeMissmatch available size.toNat
    else .processed request {}

/-- What `on_accpet` makes of the datagram at the head of the queue. -/
def udpOnAccpet (o : ByteOrder) (datagram : Bytes) : UdpVerdict :=
  match udpAsyncRead datagram.length datagram with
  | .error e => .thrown e
  | .ok request => udpReadCallback o datagram.length request

theorem udpAsyncRead_ok (h : d.length < 2 ^ 63) :
    ∃ r, udpAsyncRead d.length d = .ok r ∧ r.Holds d := by
  obtain ⟨r, hr, hp, hc⟩ := StackRequest.resize_ok (r := ({} : StackRequest).clear) h
  have hc' : r.dataExtracted = 0 := hc
  have hp' : r.pimpl = List.replicate d.length 0 := by
    rw [hp]
    simp [StackRequest.clear]
  have hle : r.dataExtracted + 0 + d.length ≤ r.pimpl.length := by
    rw [hc', hp', List.length_replicate]
    omega
  obtain ⟨r', hf, hc₂, hp₂⟩ := StackRequest.fill_ok hle
  refine ⟨r', ?_, ?_, hc₂.trans hc'⟩
  · rw [udpAsyncRead, hr]
    exact hf
  · rw [hp₂, hc', hp']
    simp

theorem udpReadCallback_processed (h : udpReadCallback o n r = .processed q a) :
    ∃ size, (doIstream o .unsignedInt).fromRequest.on r = (.ok size, q) ∧ n = size.toNat := by
  rw [udpReadCallback] at h
  generalize (doIstream o .unsignedInt).fromRequest.on r = x at h
  obtain ⟨x, q'⟩ := x
  cases x with
  | error e => cases h
  | ok size =>
    dsimp only at h
    split at h
    next => cases h
    next hn =>
      cases h
      exact ⟨size, rfl, Classical.not_not.mp hn⟩

theorem udpReadCallback_refused (h : ∀ q a, udpReadCallback o n r ≠ .processed q a)
    (hon : (doIstream o .unsignedInt).fromRequest.on r = (.ok size, q)) : n ≠ size.toNat := by
  intro hn
  apply h q {}
  rw [udpReadCallback, hon]
  exact if_neg fun hne => hne hn

/-- The callback passes on a datagram that starts with its own size, and has read just that. -/
theorem udpReadCallback_headed (o : ByteOrder) (h : d.take 4 = leBytes 4 d.length)
    (hlt : d.length < 2 ^ 32) {r : StackRequest} (hr : r.Holds d) :
    ∃ q, udpReadCallback o d.length r = .processed q {} ∧ q.pimpl = d ∧ q.unread = d.drop 4 ∧
      q.dataExtracted ≤ q.pimpl.length := by
  have hc : (doIstream o .unsignedInt).consume r.unread =
      some (toUnsignedInt d.length, d.drop 4) := by
    have hlength := doIstream_length o hlt (d.drop 4)
    rw [← h, List.take_append_drop] at hlength
    rw [hr.unread, hlength]
  obtain ⟨q, hon, hp, hu, hq⟩ :=
    fromRequest_consume (doIstream_sizesFit o .unsignedInt) hr.cursor_le hc
  refine ⟨q, ?_, hp.trans hr.1, hu, hq⟩
  rw [udpReadCallback, hon]
  simp only [toUnsignedInt_toNat, Nat.mod_eq_of_lt hlt]
  exact if_neg (fun hn => hn rfl)

/-- The acceptor dispatches a datagram that starts with its own size, with the rest unread. -/
theorem udpOnAccpet_framed (o : ByteOrder) (h : p.length + 4 < 2 ^ 32) :
    ∃ r, udpOnAccpet o (leBytes 4 (p.length + 4) ++ p) = .processed r {} ∧ r.unread = p := by
  have hlen : (leBytes 4 (p.length + 4) ++ p).length = p.length + 4 := by
    rw [List.length_append, leBytes_length, Nat.add_comm]
  have hhead : (leBytes 4 (p.length + 4) ++ p).take 4 =
      leBytes 4 (leBytes 4 (p.length + 4) ++ p).length := by
    rw [hlen]
    exact List.take_left' (leBytes_length 4 _)
  obtain ⟨r, hr, hh⟩ := udpAsyncRead_ok (d := leBytes 4 (p.length + 4) ++ p) (by omega)
  obtain ⟨q, hverdict, _, hu, _⟩ := udpReadCallback_headed o hhead (by omega) hh
  refine ⟨q, ?_, hu.trans (List.drop_left' (leBytes_length 4 _))⟩
  rw [udpOnAccpet, hr]
  exact hverdict

end CppAlls
