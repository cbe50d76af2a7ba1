import CppAlls.Apps.UdpSteps
import CppAlls.Lib.Completions
import CppAlls.Lib.Machine

namespace CppAlls
set_option autoImplicit true

open Failing Machines Completions

/-- The peeks and the reads that are not done; the callback of each read accepts again. -/
def UdpAcceptor.chainOperations (s : UdpAcceptor) : Nat :=
  underWay (fun _ => true) s.outstanding s.queued

/-- In every run of allowed inputs a started acceptor has at most one operation under way. -/
def SingleAcceptorChain (o : ByteOrder) (Allowed : UdpAcceptor → UdpInput → Prop) : Prop :=
  ∀ s, (udpMachine o).Reachable Allowed s → s.Started → s.chainOperations ≤ 1

namespace UdpAcceptor

variable {s s' : UdpAcceptor}

theorem Starts.chainOperations (h : Starts conf s r s')
    (hidle : conf.Succeeds → s.chainOperations = 0) (hs : s.chainOperations ≤ 1) :
    s'.chainOperations ≤ 1 := by
  cases h with
  | thrown _ hk =>
    rw [UdpAcceptor.chainOperations, hk.outstanding, hk.queued]
    exact hs
  | @accepting t k hc hk _ =>
    have ht : t.chainOperations = 0 := by
      rw [UdpAcceptor.chainOperations, hk.outstanding, hk.queued]
      exact hidle hc
    rw [UdpAcceptor.chainOperations, UdpAcceptor.peeking, underWay_begin]
    exact Nat.le_of_eq (congrArg (fun n => n + 1) ht)

/-- A handler begins at most one operation. -/
theorem Handles.chainOperations (h : Handles s op s') :
    s'.chainOperations ≤ s.chainOperations + 1 := by
  cases h with
  | nothing => exact Nat.le_succ _
  | peeking _ => exact Nat.le_of_eq (underWay_begin _)
  | reading _ => exact Nat.le_of_eq (underWay_begin _)
  | processed _ _ => exact Nat.le_of_eq (underWay_begin _)

end UdpAcceptor

/-- A start or reload that succeeds finds no operation under way. -/
def UdpInput.Alone (s : UdpAcceptor) : UdpInput → Prop
  | .start conf => conf.Succeeds → s.chainOperations = 0
  | .stop => True
  | .reload conf => conf.Succeeds → s.chainOperations = 0
  | .close _ => True
  | .complete _ _ _ => True
  | .run _ _ _ _ => True

open UdpAcceptor

theorem UdpInput.perform_alone {s : UdpAcceptor} (o : ByteOrder) (i : UdpInput)
    (h : s.chainOperations ≤ 1) (he : i.Enabled s) (hc : i.Alone s) :
    ((udpMachine o).next s i).chainOperations ≤ 1 := by
  cases i with
  | start conf => exact (start_starts conf s).chainOperations hc h
  | stop =>
    obtain ⟨hout, hqueued, _⟩ := stop_keeps s
    change (UdpAcceptor.stop.on s).2.chainOperations ≤ 1
    rw [UdpAcceptor.chainOperations, hout, hqueued]
    exact h
  | reload conf => exact (start_starts conf (resetPtrsCommon.on s).2).chainOperations hc h
  | close k => exact h
  | complete op error received =>
    have hcount : _ = s.chainOperations := underWay_complete he.1 (error, received)
    exact Nat.le_trans (Nat.le_of_eq hcount) h
  | run op error received available =>
    have hm : (op, error, received) ∈ s.queued := he
    have hcount : s.chainOperations = _ := underWay_take hm
    have hh := handler_handles o op error received available
      { s with queued := s.queued.erase (op, error, received) }
    apply Nat.le_trans hh.chainOperations
    exact Nat.le_trans (Nat.le_of_eq hcount.symm) h

theorem udp_single_acceptor_chain (o : ByteOrder) : SingleAcceptorChain o UdpInput.Alone := by
  intro s hs _
  apply hs.invariant
  · exact Nat.zero_le 1
  · intro s i h he hc
    exact i.perform_alone o h he hc

def goodUdpConf : UdpConf :=
  { logger := true, processor := some 0, derives := true, ioService := some 0, binds := true
    options := true }

/-- `reload` peeks on the new socket beside the peek on the old one. -/
theorem two_acceptor_chains : ¬ SingleAcceptorChain .little (fun _ _ => True) := by
  intro h
  have hinit : (udpMachine .little).Reachable (fun _ _ => True) (udpMachine .little).init := .init
  have hstart := hinit.step (i := UdpInput.start goodUdpConf) trivial trivial
  have hreload := hstart.step (i := UdpInput.reload goodUdpConf) trivial trivial
  have hle := h _ hreload ⟨⟨_, rfl⟩, ⟨_, rfl⟩, ⟨_, rfl⟩, ⟨_, rfl⟩⟩
  exact absurd hle (by decide)

end CppAlls
