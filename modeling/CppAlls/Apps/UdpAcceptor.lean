import CppAlls.Apps.TcpAcceptor
import CppAlls.Apps.UdpDatagram

namespace CppAlls
set_option autoImplicit true

open Failing Machines

/-- A connection of the UDP acceptor takes over the socket of the handler that made it. -/
structure UdpConnection where
  processor : Option Nat
  socketStrand : Option Nat
  socket : Nat
deriving DecidableEq, Repr

/-- A peek keeps its socket alive; `available` is the size of the datagram that a read is for. -/
inductive UdpOperation where
  | peek (socket : Nat)
  | read (c : UdpConnection) (available : Nat)
deriving DecidableEq, Repr

def UdpOperation.socket : UdpOperation → Nat
  | .peek k => k
  | .read c _ => c.socket

/-- The members of `udp`, with `sockets` counting the sockets made so far, the closes that `stop`
has posted, the completions with the bytes that were read, and the requests that processors got. -/
structure UdpAcceptor where
  processor : Option Nat := none
  ioService : Option Nat := none
  socketStrand : Option Nat := none
  socket : Option Nat := none
  sockets : Nat := 0
  closing : List Nat := []
  closed : List Nat := []
  outstanding : List UdpOperation := []
  queued : List (UdpOperation × Result × Bytes) := []
  served : List (Nat × UdpConnection × StackRequest) := []

/-- What `start` finds at its statements, in their order. The processor has to derive from
`processor`. -/
structure UdpConf where
  logger : Bool
  processor : Option Nat
  derives : Bool
  ioService : Option Nat
  binds : Bool
  options : Bool
deriving DecidableEq, Repr

def UdpConf.Succeeds (conf : UdpConf) : Prop :=
  conf.logger = true ∧ conf.processor ≠ none ∧ conf.derives = true ∧ conf.ioService ≠ none ∧
    conf.binds = true ∧ conf.options = true

instance (conf : UdpConf) : Decidable conf.Succeeds := by
  unfold UdpConf.Succeeds
  infer_instance

namespace UdpAcceptor

def accept : AcceptorM UdpAcceptor Unit := do
  let s ← get
  let k ← dereference .socket s.socket
  let _ ← dereference .socketStrand s.socketStrand
  modify fun s => { s with outstanding := s.outstanding ++ [.peek k] }

/-- `bound` is the socket that the handler kept; `available()` of a closed socket throws. -/
def onAccpet (error : Result) (bound : Nat) (available : Option Nat) :
    AcceptorM UdpAcceptor Unit := do
  if error ≠ .success then
    if error ≠ .aborted then accept
    return
  let s ← get
  let _ ← dereference .ioService s.ioService
  let c : UdpConnection :=
    { processor := s.processor, socketStrand := s.socketStrand, socket := bound }
  let available ← orThrow available
  let _ ← dereference .socketStrand c.socketStrand
  modify fun s => { s with outstanding := s.outstanding ++ [.read c available] }

/-- The callback of the read accepts again whatever the error is. -/
def readCallback (o : ByteOrder) (c : UdpConnection) (available : Nat) (error : Result)
    (received : Bytes) : AcceptorM UdpAcceptor Unit := do
  accept
  if error ≠ .success then return
  match udpAsyncRead available received with
  | .error _ => throw .thrown
  | .ok request =>
    match udpReadCallback o available request with
    | .thrown _ => throw .thrown
    | .sizeMissmatch _ _ => return
    | .processed request _ => do
      let p ← dereference .processor c.processor
      modify fun s => { s with served := s.served ++ [(p, c, request)] }

def resetPtrsCommon : AcceptorM UdpAcceptor Unit :=
  modify fun s =>
    { s with processor := none, socketStrand := none, socket := none, ioService := none }

def start (conf : UdpConf) : AcceptorM UdpAcceptor Unit := do
  if conf.logger = false then throw .thrown
  let processor ← orThrow conf.processor
  modify fun s => { s with processor }
  if conf.derives = false then throw .thrown
  let ioService ← orThrow conf.ioService
  modify fun s => { s with ioService }
  if conf.binds = false then throw .thrown
  modify fun s => { s with socket := some s.sockets, sockets := s.sockets + 1 }
  modify fun s => { s with socketStrand := some s.sockets }
  if conf.options = false then throw .thrown
  accept

def reload (conf : UdpConf) : AcceptorM UdpAcceptor Unit := do
  resetPtrsCommon
  start conf

/-- The socket is closed later, by a function posted to the strand. -/
def stop : AcceptorM UdpAcceptor Unit := do
  let s ← get
  if let some k := s.socket then
    let _ ← dereference .ioService s.ioService
    let _ ← dereference .socketStrand s.socketStrand
    modify fun s => { s with closing := s.closing ++ [k] }
  resetPtrsCommon

def handler (o : ByteOrder) (error : Result) (received : Bytes) (available : Option Nat) :
    UdpOperation → AcceptorM UdpAcceptor Unit
  | .peek k => onAccpet error k available
  | .read c n => readCallback o c n error received

end UdpAcceptor

/-- The calls of the server, and the steps of asio; `available` is what a socket answers when the
handler asks it. -/
inductive UdpInput where
  | start (conf : UdpConf)
  | stop
  | reload (conf : UdpConf)
  | close (socket : Nat)
  | complete (op : UdpOperation) (error : Result) (received : Bytes)
  | run (op : UdpOperation) (error : Result) (received : Bytes) (available : Option Nat)
deriving DecidableEq, Repr

def UdpInput.perform (o : ByteOrder) : UdpInput → AcceptorM UdpAcceptor Unit
  | .start conf => UdpAcceptor.start conf
  | .stop => UdpAcceptor.stop
  | .reload conf => UdpAcceptor.reload conf
  | .close k => modify fun s => { s with closing := s.closing.erase k, closed := k :: s.closed }
  | .complete op error received => modify fun s =>
    { s with
      outstanding := s.outstanding.erase op
      queued := s.queued ++ [(op, error, received)] }
  | .run op error received available => do
    modify fun s => { s with queued := s.queued.erase (op, error, received) }
    UdpAcceptor.handler o error received available op

/-- On a closed socket no operation succeeds, and a read gets no more than it asked for. -/
def UdpInput.Enabled (s : UdpAcceptor) : UdpInput → Prop
  | .start _ => True
  | .stop => True
  | .reload _ => True
  | .close k => k ∈ s.closing
  | .complete op error received => op ∈ s.outstanding ∧
    (op.socket ∈ s.closed → error ≠ .success) ∧
    match op with
    | .peek _ => True
    | .read _ available => received.length ≤ available
  | .run op error received _ => (op, error, received) ∈ s.queued

def udpMachine (o : ByteOrder) : Machine UdpAcceptor UdpInput where
  init := {}
  Enabled s i := i.Enabled s
  next s i := ((i.perform o).on s).2

end CppAlls
