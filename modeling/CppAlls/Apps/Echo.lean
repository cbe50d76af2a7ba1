import CppAlls.Apps.AsyncConnection
import CppAlls.Core.SyncRules
import Mathlib.Algebra.BigOperators.Group.List.Basic

namespace CppAlls
set_option autoImplicit true

open LittleEndian Interaction Failing Relation ConnM Extraction

namespace EchoConnectionProcessorString

inductive Callback where
  | onRead1
  | onRead2
  | onWrite
deriving DecidableEq, Repr

open AsyncM AsyncConnectionFast

def operatorCall : AsyncM Callback Unit := asyncRead (some .onRead1) Num.unsignedInt.size

def onWrite (close : Bool) (error : Bool) : AsyncM Callback Unit :=
  if error then AsyncConnectionFast.close
  else if close then AsyncConnectionFast.close
  else operatorCall

def onRead2 (o : ByteOrder) (error : Bool) : AsyncM Callback Unit := do
  if error then return
  let c ← get
  let s := c.request.unread
  onResponse (Ty.string.operatorShl o s)
  asyncWrite (some .onWrite)

def onRead1 (o : ByteOrder) (error : Bool) : AsyncM Callback Unit := do
  if error then return
  let size ← onRequest ((Ty.num .unsignedInt).operatorShr o).fromRequest
  asyncRead (some .onRead2) size.toNat

def call (o : ByteOrder) (close : Bool) : Callback → Bool → AsyncM Callback Unit
  | .onRead1, error => onRead1 o error
  | .onRead2, error => onRead2 o error
  | .onWrite, error => onWrite close error

def started : AsyncConnectionFast Callback := (operatorCall.on {}).2

end EchoConnectionProcessorString

open EchoConnectionProcessorString

/-- A client, which calls its socket, and an echoing server with the two streams between them.
The client is told of each pair of a string that it sent and the one that it got. -/
def echoWorld (o : ByteOrder) : ConnWorld (Bytes × Bytes) (Served Callback) where
  env := Served.Step (call o false)
  answer
    | s, (_, .send bs), some k, s' => s' = { s with inbound := s.inbound ++ bs.take k }
    | s, (_, .receive _), some bs, s' =>
      s.outbound = bs ++ s'.outbound ∧ s' = { s with outbound := s'.outbound }
    | s, (_, .available), some n, s' => n ≤ s.outbound.length ∧ s' = s
    | s, (_, .report _), _, s' => s' = s
    | _, _, _, _ => False

/-- `socket << s; socket >> r` for each string in turn. -/
def echoClient (o : ByteOrder) (V : Virtual (Bytes × Bytes)) :
    List Bytes → ConnM (Bytes × Bytes) (List Bytes)
  | [] => return []
  | s :: ss => do
    Connection.operatorShl o .string s
    let r ← V.operatorShr o .string
    report (s, r)
    let rs ← echoClient o V ss
    return r :: rs

/-- The server has nothing left to transmit, and nothing of the next message. -/
def AsyncConnectionFast.Idle (c : AsyncConnectionFast Callback) : Prop :=
  c.outstanding = [.write (some .onWrite) []] ∨
    c.outstanding = [.read (some .onRead1) 4 0] ∧ c.response.pimpl = []

structure NothingLeft (c : Connection) (s : Served Callback) : Prop where
  response : c.response.pimpl = []
  request : c.request.unread = []
  inbound : s.inbound = []
  outbound : s.outbound = []
  server : s.connection.Idle

def Echoed (s : Served Callback) : Connection × SocketCall (Bytes × Bytes) → Prop
  | (c, .report (sent, got)) => got = sent ∧ NothingLeft c s
  | _ => True

/-- The session of a client with byte order `o` and a server with byte order `o'`: every run is
finite, none is stuck, after each round the strings agree with nothing left, and so do all of them
at the end. -/
def EchoesAll (o o' : ByteOrder) (ss : List Bytes) : Prop :=
  Prog.Succeeds (echoWorld o') Echoed ((echoClient o tcpConnectionRaw ss).on {})
    (fun r _ => r.1 = .ok ss) { connection := started }

namespace EchoTermination

/-- How many more completions the completion of an operation can lead to, until bytes of the
inbound stream are needed. -/
def callbackRank : Option Callback → Nat
  | none => 1
  | some .onRead1 => 3
  | some .onRead2 => 2
  | some .onWrite => 1

def rank : AsyncOperation Callback → Nat
  | .read (some .onRead1) size got => if got = size then 3 else 0
  | .read cb _ _ => callbackRank cb
  | .write cb _ => callbackRank cb

def untransmitted : AsyncOperation Callback → Nat
  | .read _ _ _ => 0
  | .write _ rest => rest.length

def measures (s : Served Callback) : Nat × Nat × Nat :=
  (s.inbound.length, (s.connection.outstanding.map rank).sum,
    (s.connection.outstanding.map untransmitted).sum)

theorem rank_read (cb : Option Callback) (n : Nat) : rank (.read cb n n) = callbackRank cb := by
  rcases cb with _ | _ | _ | _
  · rfl
  · exact if_pos rfl
  · rfl
  · rfl

theorem asyncRead_outstanding (cb : Option Callback) (n : Nat) (c : AsyncConnectionFast Callback) :
    ∃ ops, ((AsyncConnectionFast.asyncRead cb n).on c).2.outstanding = c.outstanding ++ ops ∧
      (ops = [] ∨ ops = [.read cb n 0]) := by
  rw [AsyncConnectionFast.asyncRead, FailM.on_bind_ok (FailM.on_modify _ c), FailM.on_bind,
    AsyncM.onRequest, FailM.on_part]
  generalize (RequestM.resize n).on _ = r
  obtain ⟨r, q⟩ := r
  cases r with
  | error e => exact ⟨[], (List.append_nil _).symm, .inl rfl⟩
  | ok _ => exact ⟨_, rfl, .inr rfl⟩

theorem call_outstanding (o : ByteOrder) (k : Callback) (c : AsyncConnectionFast Callback) :
    ∃ ops, ((call o false k false).on c).2.outstanding = c.outstanding ++ ops ∧
      (ops.map rank).sum < callbackRank (some k) := by
  cases k with
  | onRead1 =>
    simp only [call, onRead1, Bool.false_eq_true, ↓reduceIte, AsyncM.onRequest]
    rw [FailM.on_bind, FailM.on_part]
    generalize (Ty.operatorShr o (.num .unsignedInt)).fromRequest.on c.request = r
    obtain ⟨r, q⟩ := r
    cases r with
    | error e => exact ⟨[], (List.append_nil _).symm, by decide⟩
    | ok n =>
      obtain ⟨ops, hon, rfl | rfl⟩ :=
        asyncRead_outstanding (some .onRead2) n.toNat { c with request := q }
      · exact ⟨_, hon, by decide⟩
      · exact ⟨_, hon, Nat.lt_succ_self 2⟩
  | onRead2 =>
    simp only [call, onRead2, Bool.false_eq_true, ↓reduceIte, AsyncM.onResponse]
    rw [FailM.on_bind_ok (FailM.on_get c), FailM.on_bind, FailM.on_part]
    generalize (Ty.operatorShl o .string _).on c.response = r
    obtain ⟨r, q⟩ := r
    cases r with
    | error e => exact ⟨[], (List.append_nil _).symm, by decide⟩
    | ok n => exact ⟨_, rfl, Nat.lt_succ_self 1⟩
  | onWrite =>
    obtain ⟨ops, hon, rfl | rfl⟩ := asyncRead_outstanding (some .onRead1) Num.unsignedInt.size c
    · exact ⟨_, hon, by decide⟩
    · exact ⟨_, hon, by decide⟩

theorem callbackReadWrapped_outstanding (o : ByteOrder) (cb : Option Callback)
    (c : AsyncConnectionFast Callback) :
    ∃ ops, ((AsyncConnectionFast.callbackReadWrapped (call o false) cb false).on c).2.outstanding =
      c.outstanding ++ ops ∧ (ops.map rank).sum < callbackRank cb := by
  cases cb with
  | none => exact ⟨[], (List.append_nil _).symm, by decide⟩
  | some k => exact call_outstanding o k c

theorem callbackWriteWrapped_outstanding (o : ByteOrder) (cb : Option Callback)
    (c : AsyncConnectionFast Callback) :
    ∃ ops, ((AsyncConnectionFast.callbackWriteWrapped (call o false) cb false).on c).2.outstanding =
      c.outstanding ++ ops ∧ (ops.map rank).sum < callbackRank cb :=
  callbackReadWrapped_outstanding o cb { c with response := c.response.clear }

abbrev Below : Nat × Nat × Nat → Nat × Nat × Nat → Prop :=
  Prod.Lex (· < ·) (Prod.Lex (· < ·) (· < ·))

theorem rank_completed {op : AsyncOperation Callback} {ops : List (AsyncOperation Callback)}
    (hop : op ∈ ops) (h : (new.map rank).sum < rank op) :
    ((ops.erase op ++ new).map rank).sum < (ops.map rank).sum := by
  have hsum := List.sum_map_erase rank hop
  rw [List.map_append, List.sum_append]
  omega

theorem step_below (h : Served.Step (call o false) s s') : Below (measures s') (measures s) := by
  cases h with
  | receive _ hin hbs _ _ =>
    apply Prod.Lex.left
    have hlen := List.length_pos_of_ne_nil hbs
    rw [hin, List.length_append]
    exact Nat.lt_add_of_pos_left hlen
  | @transmit bs cb rest hop hbs =>
    have hlen := List.length_pos_of_ne_nil hbs
    have hrank : (((AsyncOperation.write cb rest) ::
        s.connection.outstanding.erase (.write cb (bs ++ rest))).map rank).sum =
          (s.connection.outstanding.map rank).sum := List.sum_map_erase rank hop
    have hrest := List.sum_map_erase untransmitted hop
    apply Prod.Lex.right
    rw [hrank]
    apply Prod.Lex.right
    rw [← hrest, List.map_cons, List.sum_cons]
    simp only [untransmitted, List.length_append]
    omega
  | @readDone cb n hop =>
    obtain ⟨ops, hon, hlt⟩ := callbackReadWrapped_outstanding o cb
      { s.connection with outstanding := s.connection.outstanding.erase (.read cb n n) }
    apply Prod.Lex.right
    rw [hon]
    apply Prod.Lex.left
    apply rank_completed hop
    rw [rank_read]
    exact hlt
  | @writeDone cb hop =>
    obtain ⟨ops, hon, hlt⟩ := callbackWriteWrapped_outstanding o cb
      { s.connection with outstanding := s.connection.outstanding.erase (.write cb []) }
    apply Prod.Lex.right
    rw [hon]
    apply Prod.Lex.left
    exact rank_completed hop hlt

end EchoTermination

/-- Left alone, the server comes to rest. -/
theorem echoWorld_terminates (o : ByteOrder) : (echoWorld o).Terminates := by
  have hwf : WellFounded EchoTermination.Below :=
    (Prod.lex ⟨_, Nat.lt_wfRel.wf⟩ (Prod.lex ⟨_, Nat.lt_wfRel.wf⟩ ⟨_, Nat.lt_wfRel.wf⟩)).wf
  intro s
  apply Subrelation.accessible (fun h => EchoTermination.step_below h)
  exact (InvImage.wf EchoTermination.measures hwf).apply s

end CppAlls
