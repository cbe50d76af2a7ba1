import CppAlls.Lib.Failing
import CppAlls.Lib.Machine

namespace CppAlls
set_option autoImplicit true

open Failing Machines

/-- The call of the server that is under way: the loop of `reload` has threads up to `last` to
create, or `stop` joins them. -/
inductive IoServiceCall where
  | idle
  | creating (next last : Nat)
  | joining
deriving DecidableEq, Repr

/-- The members of `boost_io_service`, with the indices of the threads that are in `run`. -/
structure BoostIoService where
  work : Bool := false
  stopped : Bool := false
  requiredThreadsCount : Nat := 0
  threads : List Nat := []
  call : IoServiceCall := .idle

/-- `threads` is 0 where it is left out; `logger` tells whether `app::get` finds the logger. -/
structure IoServiceConf where
  threads : Nat
  logger : Bool
deriving DecidableEq, Repr

inductive IoServiceExn where
  | logger
deriving DecidableEq, Repr

abbrev IoServiceM (α : Type) := FailM IoServiceExn BoostIoService α

/-- The largest `unsigned short`. -/
def threadsCountMax : Nat := 65535

def getThreadsCount (hardwareConcurrency threads : Nat) : Nat :=
  let threadCount := if threads = 0 then hardwareConcurrency else threads
  let threadCount := if threadCount = 0 then 2 else threadCount
  if threadCount > threadsCountMax then threadsCountMax else threadCount

namespace BoostIoService

/-- The loop that creates the threads comes step by step after this. The empty tasks that are posted
when the count goes down only wake threads, which may evaluate their condition at any time. -/
def reload (hardwareConcurrency : Nat) (conf : IoServiceConf) : IoServiceM Unit := do
  let s ← get
  let threadsCountOld := s.requiredThreadsCount
  let threadsCountNew := getThreadsCount hardwareConcurrency conf.threads
  modify fun s => { s with work := true }
  if conf.logger = false then throw .logger
  modify fun s => { s with requiredThreadsCount := threadsCountNew }
  if threadsCountOld < threadsCountNew then
    modify fun s => { s with call := .creating threadsCountOld threadsCountNew }

def start (hardwareConcurrency : Nat) (conf : IoServiceConf) : IoServiceM Unit :=
  reload hardwareConcurrency conf

def createThread : IoServiceM Unit :=
  modify fun s =>
    match s.call with
    | .creating i n =>
      { s with
        threads := s.threads ++ [i]
        call := if i + 1 < n then .creating (i + 1) n else .idle }
    | _ => s

def leave (i : Nat) : IoServiceM Unit := modify fun s => { s with threads := s.threads.erase i }

/-- The condition of the loop in `run`. -/
def checkCondition (i : Nat) : IoServiceM Unit := do
  let s ← get
  if ¬ s.requiredThreadsCount > i then leave i

/-- The body of the loop: `run_one` finds nothing to run when the `io_service` is stopped. -/
def runOne (i : Nat) : IoServiceM Unit := do
  let s ← get
  if s.stopped then leave i

/-- `stop` up to `join_all`. -/
def stop : IoServiceM Unit := modify fun s =>
  { s with work := false, requiredThreadsCount := 0, stopped := true, call := .joining }

/-- `stop` from `join_all` on. -/
def joined : IoServiceM Unit := modify fun s => { s with stopped := false, call := .idle }

end BoostIoService

inductive IoServiceInput where
  | start (conf : IoServiceConf)
  | reload (conf : IoServiceConf)
  | createThread
  | checkCondition (i : Nat)
  | runOne (i : Nat)
  | stop
  | joined
deriving DecidableEq, Repr

def IoServiceInput.perform (hardwareConcurrency : Nat) : IoServiceInput → IoServiceM Unit
  | .start conf => BoostIoService.start hardwareConcurrency conf
  | .reload conf => BoostIoService.reload hardwareConcurrency conf
  | .createThread => BoostIoService.createThread
  | .checkCondition i => BoostIoService.checkCondition i
  | .runOne i => BoostIoService.runOne i
  | .stop => BoostIoService.stop
  | .joined => BoostIoService.joined

/-- The server makes one call at a time. -/
def IoServiceInput.Enabled (s : BoostIoService) : IoServiceInput → Prop
  | .start _ => s.call = .idle
  | .reload _ => s.call = .idle
  | .createThread => s.call ≠ .idle ∧ s.call ≠ .joining
  | .checkCondition i => i ∈ s.threads
  | .runOne i => i ∈ s.threads
  | .stop => s.call = .idle
  | .joined => s.call = .joining ∧ s.threads = []

instance IoServiceInput.decidableEnabled (s : BoostIoService) (i : IoServiceInput) :
    Decidable (i.Enabled s) := by
  cases i <;> unfold IoServiceInput.Enabled <;> infer_instance

def ioServiceMachine (hardwareConcurrency : Nat) : Machine BoostIoService IoServiceInput where
  init := {}
  Enabled s i := i.Enabled s
  next s i := ((i.perform hardwareConcurrency).on s).2

instance ioServiceMachine.decidableEnabled (hardwareConcurrency : Nat) (s : BoostIoService)
    (i : IoServiceInput) : Decidable ((ioServiceMachine hardwareConcurrency).Enabled s i) :=
  inferInstanceAs (Decidable (i.Enabled s))

end CppAlls
