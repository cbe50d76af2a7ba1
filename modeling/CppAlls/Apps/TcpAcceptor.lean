import CppAlls.Lib.Failing
import CppAlls.Lib.Machine

namespace CppAlls
set_option autoImplicit true

open Failing Machines

/-- How asio completes an operation; `aborted` is `operation_aborted`. -/
inductive Result where
  | success
  | aborted
  | failed
deriving DecidableEq, Repr

/-- The pointers of an acceptor that `stop()` resets. A `logger_stream` puts up with a null logger,
so `log_` is not among them. -/
inductive Member where
  | processor
  | ioService
  | acceptor
  | context
  | socket
  | socketStrand
deriving DecidableEq, Repr

inductive Failure where
  | thrown
  | nullDereference (m : Member)
deriving DecidableEq, Repr

abbrev AcceptorM (σ α : Type) := FailM Failure σ α

def dereference (m : Member) : Option α → AcceptorM σ α
  | some a => return a
  | none => throw (.nullDereference m)

def orThrow : Option α → AcceptorM σ α
  | some a => return a
  | none => throw .thrown

inductive Flavour where
  | tcp
  | tcpSsl
deriving DecidableEq, Repr

/-- A connection keeps the processor it was created with. -/
structure StreamConnection where
  processor : Option Nat
deriving DecidableEq, Repr

/-- An accept keeps its acceptor and its connection alive. -/
inductive TcpOperation where
  | accept (acceptor : Nat) (c : StreamConnection)
  | handshake (c : StreamConnection)
deriving DecidableEq, Repr

def TcpOperation.connection : TcpOperation → StreamConnection
  | .accept _ c => c
  | .handshake c => c

/-- The members of `tcp` and `tcp_ssl`, with `acceptors` counting the acceptors made so far, the
operations that asio has not completed, the completions whose handlers have not run, and the
processors that were called. -/
structure TcpAcceptor where
  processor : Option Nat := none
  ioService : Option Nat := none
  acceptor : Option Nat := none
  context : Option Nat := none
  acceptors : Nat := 0
  closed : List Nat := []
  outstanding : List TcpOperation := []
  queued : List (TcpOperation × Result) := []
  served : List (Nat × StreamConnection) := []

/-- What `start` finds at its statements, in their order: what is `none` or `false` throws. -/
structure TcpConf where
  logger : Bool
  processor : Option Nat
  ioService : Option Nat
  listens : Bool
  options : Bool
  contextFiles : Bool
deriving DecidableEq, Repr

def TcpConf.Succeeds (fl : Flavour) (conf : TcpConf) : Prop :=
  conf.logger = true ∧ conf.processor ≠ none ∧ conf.ioService ≠ none ∧ conf.listens = true ∧
    conf.options = true ∧ (fl = .tcpSsl → conf.contextFiles = true)

instance (fl : Flavour) (conf : TcpConf) : Decidable (conf.Succeeds fl) := by
  unfold TcpConf.Succeeds
  infer_instance

def goodTcpConf : TcpConf :=
  { logger := true, processor := some 0, ioService := some 0, listens := true, options := true
    contextFiles := true }

namespace TcpAcceptor

def createConnection (fl : Flavour) : AcceptorM TcpAcceptor StreamConnection := do
  let s ← get
  if fl = .tcpSsl then
    let _ ← dereference .context s.context
  let _ ← dereference .ioService s.ioService
  return { processor := s.processor }

def accept (fl : Flavour) : AcceptorM TcpAcceptor Unit := do
  let c ← createConnection fl
  let s ← get
  let a ← dereference .acceptor s.acceptor
  modify fun s => { s with outstanding := s.outstanding ++ [.accept a c] }

def callProcessor (p : Option Nat) (c : StreamConnection) : AcceptorM TcpAcceptor Unit := do
  let p ← dereference .processor p
  modify fun s => { s with served := s.served ++ [(p, c)] }

/-- An accepted connection goes to the processor of the acceptor, or starts its handshake. -/
def serve (c : StreamConnection) : Flavour → AcceptorM TcpAcceptor Unit
  | .tcp => do
    let s ← get
    callProcessor s.processor c
  | .tcpSsl => modify fun s => { s with outstanding := s.outstanding ++ [.handshake c] }

def onAccpet (fl : Flavour) (c : StreamConnection) (error : Result) :
    AcceptorM TcpAcceptor Unit := do
  if error = .aborted then return
  accept fl
  if error = .success then serve c fl

def handleHandshake (c : StreamConnection) (error : Result) : AcceptorM TcpAcceptor Unit := do
  if error ≠ .success then return
  callProcessor c.processor c

def start (fl : Flavour) (conf : TcpConf) : AcceptorM TcpAcceptor Unit := do
  if conf.logger = false then throw .thrown
  let processor ← orThrow conf.processor
  modify fun s => { s with processor }
  let ioService ← orThrow conf.ioService
  modify fun s => { s with ioService }
  if conf.listens = false then throw .thrown
  modify fun s => { s with acceptor := some s.acceptors, acceptors := s.acceptors + 1 }
  if conf.options = false then throw .thrown
  if fl = .tcpSsl then
    modify fun s => { s with context := some s.acceptors }
    if conf.contextFiles = false then throw .thrown
  accept fl

def stop : AcceptorM TcpAcceptor Unit :=
  modify fun s =>
    { s with
      closed := s.acceptor.toList ++ s.closed
      acceptor := none
      context := none
      processor := none
      ioService := none }

def reload (fl : Flavour) (conf : TcpConf) : AcceptorM TcpAcceptor Unit := do
  stop
  start fl conf

def handler (fl : Flavour) (error : Result) : TcpOperation → AcceptorM TcpAcceptor Unit
  | .accept _ c => onAccpet fl c error
  | .handshake c => handleHandshake c error

end TcpAcceptor

inductive TcpInput where
  | start (conf : TcpConf)
  | stop
  | reload (conf : TcpConf)
  | complete (op : TcpOperation) (error : Result)
  | run (op : TcpOperation) (error : Result)
deriving DecidableEq, Repr

def TcpInput.perform (fl : Flavour) : TcpInput → AcceptorM TcpAcceptor Unit
  | .start conf => TcpAcceptor.start fl conf
  | .stop => TcpAcceptor.stop
  | .reload conf => TcpAcceptor.reload fl conf
  | .complete op error => modify fun s =>
    { s with outstanding := s.outstanding.erase op, queued := s.queued ++ [(op, error)] }
  | .run op error => do
    modify fun s => { s with queued := s.queued.erase (op, error) }
    TcpAcceptor.handler fl error op

def TcpOperation.OnClosed (closed : List Nat) : TcpOperation → Prop
  | .accept a _ => a ∈ closed
  | .handshake _ => False

instance TcpOperation.decidableOnClosed (closed : List Nat) (op : TcpOperation) :
    Decidable (op.OnClosed closed) := by
  cases op <;> unfold TcpOperation.OnClosed <;> infer_instance

def TcpInput.Enabled (s : TcpAcceptor) : TcpInput → Prop
  | .start _ => True
  | .stop => True
  | .reload _ => True
  | .complete op error => op ∈ s.outstanding ∧ (op.OnClosed s.closed → error = .aborted)
  | .run op error => (op, error) ∈ s.queued

instance TcpInput.decidableEnabled (s : TcpAcceptor) (i : TcpInput) : Decidable (i.Enabled s) := by
  cases i <;> unfold TcpInput.Enabled <;> infer_instance

def tcpMachine (fl : Flavour) : Machine TcpAcceptor TcpInput where
  init := {}
  Enabled s i := i.Enabled s
  next s i := ((i.perform fl).on s).2

instance tcpMachine.decidableEnabled (fl : Flavour) (s : TcpAcceptor) (i : TcpInput) :
    Decidable ((tcpMachine fl).Enabled s i) :=
  inferInstanceAs (Decidable (i.Enabled s))

end CppAlls
