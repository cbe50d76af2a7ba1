import CppAlls.Core.Flushes
import CppAlls.Core.RawStreams
import Mathlib.Data.List.Forall2

namespace CppAlls
set_option autoImplicit true

open LittleEndian Interaction Relation ConnM

/-- `sync_connection::close`, which ignores the errors of the shutdown. -/
def Connection.close (V : Virtual SocketNote) : ConnM SocketNote Unit := do
  V.write
  report .shutdown

/-- The destructors close. -/
inductive FlushOp where
  | put (T : Ty) (v : T.Val)
  | write
  | close

namespace FlushOp

def run (o : ByteOrder) (V : Virtual SocketNote) (op : FlushOp) : ConnM SocketNote Unit := do
  report .begin
  match op with
  | .put T v => Connection.operatorShl o T v
  | .write => V.write
  | .close => Connection.close V

def appended (o : ByteOrder) : FlushOp → Bytes
  | .put T v => (StreamOp.put T v).appended o
  | .write => []
  | .close => []

def flushes : FlushOp → Bool
  | .put _ _ => false
  | .write => true
  | .close => true

end FlushOp

/-- The connections without headers, and those with one for each message. -/
inductive Framing where
  | raw
  | sized
deriving DecidableEq, Repr

namespace Framing

def write (o : ByteOrder) : Framing → ConnM U Unit
  | .raw => writeWitoutSize
  | .sized => writeWithSize o

def connections (o : ByteOrder) (garbage : Bytes) (depth : Nat) : Framing → List (Virtual U)
  | .raw => [tcpConnectionRaw, tcpSslConnectionRaw]
  | .sized => [tcpConnection o depth, udpConnection o depth, tcpSslConnection o garbage depth]

/-- What a message is transmitted as: itself, or itself with exactly one header. -/
def Frame : Framing → Bytes → Bytes → Prop
  | .raw, m, f => f = m
  | .sized, m, f => Carries m f

/-- A send may throw before the socket has taken anything of the message; with a header in the
message it may not throw at all. -/
def Throws : Framing → Taken → Prop
  | .raw, s => s.current = []
  | .sized, _ => False

/-- A flush of these bytes is defined and cuts nothing off. -/
def Fits : Framing → Bytes → Prop
  | .raw, p => p.length < 2 ^ 32
  | .sized, p => p = [] ∨ 4 ≤ p.length ∧ p.length + 4 < 2 ^ 32

def Allowed (F : Framing) (c : Connection) (_ : Taken) (op : FlushOp) : Prop :=
  op.flushes = true → F.Fits c.response.pimpl

theorem write_of_mem {V : Virtual U} {F : Framing} (h : V ∈ F.connections o garbage depth) :
    V.write = F.write o := by
  cases F with
  | raw => exact (functions_of_raw h).2
  | sized =>
    rcases List.mem_cons.mp h with rfl | h
    · rfl
    · rcases List.mem_cons.mp h with rfl | h
      · rfl
      · rw [List.mem_singleton.mp h]
        rfl

end Framing

/-- After these operations `response_` holds what was appended and belongs to no message yet, and
the socket has taken the frames of the messages in order, at most the last of them in part. -/
def NothingDuplicated (o : ByteOrder) (F : Framing) (done : List FlushOp) (c : Connection)
    (s : Taken) : Prop :=
  ∃ ms frames, List.Forall₂ F.Frame ms frames ∧ s.all <+: frames.flatten ∧
    ms.flatten ++ c.response.pimpl = done.flatMap (FlushOp.appended o)

/-- Each message was sent once and whole. -/
def SentWhole (F : Framing) (w : Bytes) (c : Connection) (s : Taken) : Prop :=
  ∃ ms frames, List.Forall₂ F.Frame ms frames ∧ s.all = frames.flatten ∧
    ms.flatten ++ c.response.pimpl = w

/-- A flush that returns has sent one frame, and one that throws has changed nothing. -/
inductive Flushed (F : Framing) (c : Connection) (s : Taken) : Connection → Taken → Prop where
  | sent : F.Frame c.response.pimpl f → Flushed F c s { c with response := {} } (s.take f)
  | kept : Flushed F c s c s

theorem write_flushed (o : ByteOrder) (F : Framing) (hf : F.Fits c.response.pimpl)
    (hs : s.current = []) : (F.write o : ConnM SocketNote Unit).Wp (flakySocket F.Throws)
      (fun _ _ => True) (fun _ c' s' => Flushed F c s c' s') c s := by
  cases F with
  | raw =>
    have hlt : c.response.pimpl.length < 2 ^ 32 := hf
    apply (writeWitoutSize_ends c s (fun _ _ _ => trivial)).mono
    intro r c' s' hr
    obtain ⟨hends, rfl⟩ := hr
    rw [Nat.mod_eq_of_lt hlt, List.take_length] at hends
    cases hends with
    | sent => exact .sent rfl
    | thrown done rest _ hthrow =>
      have hnil : s.current ++ done = [] := hthrow
      rw [hs, List.nil_append] at hnil
      rw [hnil, Taken.take_nil]
      exact .kept
  | sized =>
    rcases hf with hnil | ⟨h4, hlt⟩
    · apply ObjM.Wp.of_pure (writeWithSize_empty o hnil)
      intro t ht
      rw [flakySocket_quiet.steps ht]
      exact .kept
    · obtain ⟨i, _, hends⟩ := writeWithSize_ends (fun _ => False)
        (fun _ _ => True) o h4 s (fun _ _ _ _ => trivial)
      apply hends.mono
      intro r c' s' hr
      obtain ⟨hends, rfl⟩ := hr
      rw [Nat.mod_eq_of_lt hlt, ← frameAt_length c.response.pimpl i, List.take_length] at hends
      cases hends with
      | sent =>
        have hp : c.response.pimpl ≠ [] := by
          apply List.ne_nil_of_length_pos
          omega
        exact .sent (frameAt_carries hp i)
      | thrown _ _ _ hthrow => cases hthrow

theorem Flushed.sentWhole (h : Flushed F c s c' s') (hw : SentWhole F w c s) :
    SentWhole F w c' s' := by
  obtain ⟨ms, frames, hframes, hall, happended⟩ := hw
  cases h with
  | @sent f hf =>
    refine ⟨ms ++ [c.response.pimpl], frames ++ [f], ?_, ?_, ?_⟩
    · exact List.rel_append hframes (.cons hf .nil)
    · rw [List.flatten_append, List.flatten_singleton, ← hall]
      rfl
    · rw [List.flatten_append, List.flatten_singleton, List.append_nil]
      exact happended
  | kept => exact ⟨ms, frames, hframes, hall, happended⟩

theorem close_sentWhole (o : ByteOrder) {F : Framing} {V : Virtual SocketNote}
    (hV : V.write = F.write o) (hf : F.Fits c.response.pimpl) (hs : s.current = [])
    (hw : SentWhole F w c s) : (Connection.close V).Wp (flakySocket F.Throws) (fun _ _ => True)
      (fun _ c' s' => SentWhole F w c' s') c s := by
  rw [Connection.close, hV]
  apply (write_flushed o F hf hs).andThen
  · intro _ c' s' hr s₁ he
    rw [flakySocket_quiet.steps he]
    refine ⟨trivial, ?_⟩
    intro r s₂ ha s₃ he'
    have hclosed : s₂ = { s' with closed := true } := ha
    rw [flakySocket_quiet.steps he', hclosed]
    exact hr.sentWhole hw
  · intro _ c' s' t hr he
    rw [flakySocket_quiet.steps he]
    exact hr.sentWhole hw

theorem FlushOp.run_sentWhole (op : FlushOp) {o : ByteOrder} {F : Framing}
    {V : Virtual SocketNote} (hV : V.write = F.write o) (ha : F.Allowed c s op)
    (hw : SentWhole F w c s) : (op.run o V).Wp (flakySocket F.Throws) (fun _ _ => True)
      (fun _ c' s' => SentWhole F (w ++ op.appended o) c' s') c s := by
  apply ObjM.Wp.invoke_bind
  intro s₁ he
  rw [flakySocket_quiet.steps he]
  refine ⟨trivial, ?_⟩
  intro _ s₂ hr
  have hs₂ : s₂ = { s with current := [] } := hr
  subst hs₂
  cases op with
  | put T v =>
    obtain ⟨res, happ⟩ := operatorShl_appended o T v
    apply ObjM.Wp.of_pure (onResponse_on _ c)
    intro s₃ he
    rw [flakySocket_quiet.steps he, happ]
    obtain ⟨ms, frames, hframes, hall, happended⟩ := hw
    refine ⟨ms, frames, hframes, hall, ?_⟩
    rw [← happended, List.append_assoc]
    rfl
  | write =>
    simp only [hV, FlushOp.appended, List.append_nil]
    apply (write_flushed o F (ha rfl) rfl).mono
    intro _ c' s' hr
    exact hr.sentWhole hw
  | close =>
    simp only [FlushOp.appended, List.append_nil]
    exact close_sentWhole o hV (ha rfl) rfl hw

/-- A caller that catches what a flush throws and goes on sends nothing twice, as long as a raw
send throws only before the socket has taken something of the message, and a sized one never. -/
theorem failed_flush_duplicates_nothing (o : ByteOrder) (garbage : Bytes) (depth : Nat)
    (F : Framing) (V : Virtual SocketNote) (hV : V ∈ F.connections o garbage depth)
    (h : ObjM.Calls (flakySocket F.Throws) (FlushOp.run o V) F.Allowed {} {} done c s) :
    NothingDuplicated o F done c s := by
  have hw : SentWhole F (done.flatMap (FlushOp.appended o)) c s := by
    apply h.invariant (I := fun done c s => SentWhole F (done.flatMap (FlushOp.appended o)) c s)
    · exact ⟨[], [], .nil, rfl, rfl⟩
    · intro done c s op hw ha
      rw [List.flatMap_append, List.flatMap_singleton]
      exact op.run_sentWhole (Framing.write_of_mem hV) ha hw
  obtain ⟨ms, frames, hframes, hall, happended⟩ := hw
  exact ⟨ms, frames, hframes, hall ▸ List.prefix_refl _, happended⟩

def oneTaken : Taken := { all := [5], current := [5] }

/-- The socket takes the first of two bytes and throws at the second. -/
theorem partly_flushed : ReflTransGen (Prog.Step (flakySocket fun _ => True))
    ((FlushOp.run .little tcpConnectionRaw .write).on pendingShort, {})
    (.pure (.error .systemError, pendingShort), oneTaken) := by
  have hfirst : (flakySocket fun _ => True).answer {} (pendingShort, .send [5, 0])
      (some ⟨1, by decide⟩) oneTaken := ⟨rfl, rfl⟩
  have hsecond : (flakySocket fun _ => True).answer oneTaken (pendingShort, .send [0]) none
      oneTaken := ⟨trivial, rfl⟩
  apply ReflTransGen.head (.call (r := ()) rfl)
  change ReflTransGen _ ((writeWitoutSize : ConnM SocketNote Unit).on pendingShort, _) _
  rw [writeWitoutSize_on, ObjM.on_bind, writeImpl_on_lt (by decide)]
  apply ReflTransGen.head (.call hfirst)
  change ReflTransGen _ ((writeWitoutSizeImpl [5, 0] 2 1 : ConnM SocketNote Unit).on pendingShort >>=
    ObjM.andThen fun _ => clearResponse, _) _
  rw [writeImpl_on_lt (by decide)]
  exact .single (.call hsecond)

theorem short_appended : ReflTransGen (Prog.Step (flakySocket Throws))
    ((FlushOp.run .little V (.put (.num .short) 5)).on {}, {})
    (.pure (.ok (), pendingShort), {}) :=
  .single (.call (r := ()) rfl)

/-- The byte that was taken is still in `response_`, from where the next flush sends it again. -/
theorem taken_byte_kept : ¬ ∀ done c s, ObjM.Calls (flakySocket fun _ => True)
    (FlushOp.run .little tcpConnectionRaw) (fun _ _ _ => True) {} {} done c s →
    NothingDuplicated .little .raw done c s := by
  intro h
  obtain ⟨ms, frames, hframes, hall, happended⟩ := h _ _ _
    (.next (.next .none trivial short_appended) trivial partly_flushed)
  have hms : ms.flatten = [] := by
    have hlen := congrArg List.length happended
    rw [List.length_append] at hlen
    exact List.eq_nil_of_length_eq_zero (Nat.add_right_cancel hlen)
  have hflat : frames.flatten = ms.flatten := by
    congr 1
    exact (List.forall₂_eq_eq_eq ▸ hframes.imp fun _ _ h => h.symm : ms = frames).symm
  rw [hflat, hms] at hall
  cases List.prefix_nil.mp hall

/-- The first `write()` throws before the socket has taken anything, and changes nothing. -/
theorem flush_thrown : ReflTransGen (Prog.Step (flakySocket Framing.raw.Throws))
    ((FlushOp.run .little tcpConnectionRaw .write).on pendingShort, {})
    (.pure (.error .systemError, pendingShort), {}) := by
  have hthrow : (flakySocket Framing.raw.Throws).answer {} (pendingShort, .send [5, 0]) none {} :=
    ⟨rfl, rfl⟩
  apply ReflTransGen.head (.call (r := ()) rfl)
  change ReflTransGen _ ((writeWitoutSize : ConnM SocketNote Unit).on pendingShort, _) _
  rw [writeWitoutSize_on, ObjM.on_bind, writeImpl_on_lt (by decide)]
  exact .single (.call hthrow)

/-- The retried one sends both bytes, in two parts. -/
theorem flush_retried : ReflTransGen (Prog.Step (flakySocket Framing.raw.Throws))
    ((FlushOp.run .little tcpConnectionRaw .write).on pendingShort, {})
    (.pure (.ok (), {}), { all := [5, 0], current := [5, 0] }) := by
  have hfirst : (flakySocket Framing.raw.Throws).answer {} (pendingShort, .send [5, 0])
      (some ⟨1, by decide⟩) oneTaken := ⟨rfl, rfl⟩
  have hsecond : (flakySocket Framing.raw.Throws).answer oneTaken (pendingShort, .send [0])
      (some ⟨1, by decide⟩) { all := [5, 0], current := [5, 0] } := ⟨rfl, rfl⟩
  apply ReflTransGen.head (.call (r := ()) rfl)
  change ReflTransGen _ ((writeWitoutSize : ConnM SocketNote Unit).on pendingShort, _) _
  rw [writeWitoutSize_on, ObjM.on_bind, writeImpl_on_lt (by decide)]
  apply ReflTransGen.head (.call hfirst)
  change ReflTransGen _ ((writeWitoutSizeImpl [5, 0] 2 1 : ConnM SocketNote Unit).on pendingShort >>=
    ObjM.andThen fun _ => clearResponse, _) _
  rw [writeImpl_on_lt (by decide)]
  apply ReflTransGen.head (.call hsecond)
  change ReflTransGen _ ((writeWitoutSizeImpl [5, 0] 2 2 : ConnM SocketNote Unit).on pendingShort >>=
    ObjM.andThen fun _ => clearResponse, _) _
  rw [writeWitoutSizeImpl, if_pos rfl]
  exact .refl

/-- The caller catches the exception of the first flush and flushes again. -/
theorem short_not_duplicated : NothingDuplicated .little .raw
    [.put (.num .short) 5, .write, .write] {} { all := [5, 0], current := [5, 0] } := by
  have hput : ObjM.Calls (flakySocket Framing.raw.Throws) (FlushOp.run .little tcpConnectionRaw)
      Framing.raw.Allowed {} {} [.put (.num .short) 5] pendingShort {} :=
    .next .none nofun short_appended
  have hfits : Framing.raw.Fits pendingShort.response.pimpl := by
    show 2 < 2 ^ 32
    decide
  exact failed_flush_duplicates_nothing .little [] 0 .raw tcpConnectionRaw (.head _)
    (.next (.next hput (fun _ => hfits) flush_thrown) (fun _ => hfits) flush_retried)

end CppAlls
