import CppAlls.Core.RawStreams

namespace CppAlls
set_option autoImplicit true

open LittleEndian Interaction Relation ConnM

/-- What a socket has received, and how many bytes at the front of the request it has filled since
the request was resized. -/
structure Delivered where
  received : Bytes := []
  filled : Nat := 0

/-- A socket that delivers any positive part of what it is asked for, and throws at any call if it
`Fails`. -/
def sourceSocket (Fails : Prop) : ConnWorld Empty Delivered where
  env _ _ := False
  answer
    | s, (_, .send _), some _, s' => s' = s
    | s, (_, .send _), none, s' => Fails ∧ s' = s
    | s, (c, .receive size), some bs, s' =>
      s' = ⟨s.received ++ bs, c.request.pimpl.length - size + bs.1.length⟩
    | s, (c, .receive size), none, s' =>
      Fails ∧ s' = ⟨s.received, c.request.pimpl.length - size⟩
    | _, _, _, _ => False

variable {Fails : Prop}

theorem sourceSocket_quiet : (sourceSocket Fails).Quiet := fun _ _ h => h

/-- The calls that such a socket answers. -/
def Asks (_ : Delivered) : Connection × SocketCall Empty → Prop
  | (_, .send bs) => bs ≠ []
  | (_, .receive size) => 0 < size
  | _ => False

/-- How a refill by `k` bytes ends: the request holds what was received and nothing else, or the
flush throws, or a receive throws after `got`. -/
inductive RefillEnds (Fails : Prop) (c : Connection) (s : Delivered) (k : Nat) :
    Except Exn Unit → Connection → Delivered → Prop where
  | filled : got.length = k → q.Holds got → (0 < k → f = k) →
      RefillEnds Fails c s k (.ok ()) { c with request := q, response := {} } ⟨s.received ++ got, f⟩
  | unsent : Fails → RefillEnds Fails c s k (.error .systemError) c s
  | short : Fails → Filling k got q → got.length < k →
      RefillEnds Fails c s k (.error .systemError) { c with request := q, response := {} }
        ⟨s.received ++ got, got.length⟩

theorem writeWitoutSize_source (c : Connection) (s : Delivered) :
    (writeWitoutSize : ConnM Empty Unit).Wp (sourceSocket Fails) Asks (fun r c' s' => s' = s ∧
      (r = .ok () ∧ c' = { c with response := {} } ∨
        Fails ∧ r = .error .systemError ∧ c' = c)) c s := by
  apply writeWitoutSize_drains (J := fun _ s' => s' = s)
  · exact fun _ => sourceSocket_quiet.stable _
  · intro done rest s' _ hne hJ
    refine ⟨hne, ?_⟩
    intro r s'' ha
    cases r with
    | none =>
      obtain ⟨hf, rfl⟩ : Fails ∧ s'' = s' := ha
      intro t ht
      rw [sourceSocket_quiet.steps ht]
      exact ⟨hJ, .inr ⟨hf, rfl, rfl⟩⟩
    | some k =>
      have he : s'' = s' := ha
      exact he.trans hJ
  · exact fun s' hJ => ⟨hJ, .inl ⟨rfl, rfl⟩⟩
  · rfl

/-- A refill begins with a flush, which throws or empties the response. -/
theorem readWithoutSize_source {Q : Except Exn Unit → Connection → Delivered → Prop}
    (hfill : (shrink >>= fun _ => resize k >>= fun _ => readWithoutSizeImpl k 0 :
      ConnM Empty Unit).Wp (sourceSocket Fails) Asks Q { c with response := {} } s)
    (hsend : Fails → Q (.error .systemError) c s) :
    (readWithoutSize writeWitoutSize k).Wp (sourceSocket Fails) Asks Q c s := by
  rw [readWithoutSize]
  apply (writeWitoutSize_source c s).andThen
  · intro _ c' s' hr
    obtain ⟨rfl, ⟨_, rfl⟩ | ⟨_, he, _⟩⟩ := hr
    · exact hfill
    · cases he
  · intro e c' s' t hr ht
    rw [sourceSocket_quiet.steps ht]
    obtain ⟨rfl, ⟨he, _⟩ | ⟨hf, he, rfl⟩⟩ := hr
    · cases he
    · rw [he]
      exact hsend hf

variable (Fails) in
theorem read_refillEnds {c : Connection} (hd : c.request.dataExtracted ≤ c.request.pimpl.length)
    (hk : k < 2 ^ 63) (s : Delivered) :
    (readWithoutSize writeWitoutSize k).Wp (sourceSocket Fails) Asks
      (RefillEnds Fails c s k) c s := by
  apply readWithoutSize_source
  · apply refill_fills (c := { c with response := {} }) (J := fun got s' =>
      s'.received = s.received ++ got ∧ (got ≠ [] → s'.filled = got.length)) hd hk
    · exact fun _ => sourceSocket_quiet.stable _
    · intro got q s' hfill hlt hJ
      have hoff : q.pimpl.length - (k - got.length) = got.length := by
        rw [hfill.size]
        omega
      refine ⟨Nat.sub_pos_of_lt hlt, ?_⟩
      intro r s'' ha
      cases r with
      | some bs =>
        have he : s'' = ⟨s'.received ++ bs, q.pimpl.length - (k - got.length) + bs.1.length⟩ := ha
        rw [he, hoff, hJ.1]
        exact ⟨List.append_assoc _ _ _, fun _ => List.length_append.symm⟩
      | none =>
        obtain ⟨hf, he⟩ : Fails ∧ s'' = ⟨s'.received, q.pimpl.length - (k - got.length)⟩ := ha
        intro t ht
        rw [sourceSocket_quiet.steps ht, he, hoff, hJ.1]
        exact .short hf hfill hlt
    · intro got q s' hgot hq hJ
      obtain ⟨received, filled⟩ := s'
      obtain ⟨rfl, hfilled⟩ := hJ
      apply RefillEnds.filled hgot hq
      intro hpos
      rw [← hgot]
      exact hfilled (List.ne_nil_of_length_pos (by omega))
    · exact ⟨(List.append_nil _).symm, fun hne => absurd rfl hne⟩
  · exact .unsent

theorem sourceSocket_mono {Fails' : Prop} (h : Fails → Fails')
    {x y : Prog (Connection × SocketCall Empty) (fun o => o.2.Answer) α × Delivered}
    (hst : Prog.Step (sourceSocket Fails) x y) : Prog.Step (sourceSocket Fails') x y := by
  apply hst.mono
  · exact fun _ _ he => he
  intro s o r s' ha
  obtain ⟨c, call⟩ := o
  cases call with
  | send bs =>
    cases r with
    | none => exact ⟨h ha.1, ha.2⟩
    | some k => exact ha
  | receive size =>
    cases r with
    | none => exact ⟨h ha.1, ha.2⟩
    | some bs => exact ha
  | available => exact ha
  | report => exact ha

theorem sourceSocket_answers (s : Delivered) (o : Connection × SocketCall Empty) (h : Asks s o) :
    ∃ r s', (sourceSocket Fails).answer s o r s' := by
  obtain ⟨c, call⟩ := o
  cases call with
  | send bs => exact ⟨some ⟨bs.length, List.length_pos_iff.mpr h, Nat.le_refl _⟩, s, rfl⟩
  | receive size =>
    have hpos : 0 < size := h
    exact ⟨some ⟨[0], Nat.one_pos, hpos⟩, _, rfl⟩
  | available => cases h
  | report => cases h

/-- A successful `read(k)` leaves the unread bytes where they are, with the next `k` bytes that
come in behind them. -/
def KeepsUnread (V : Virtual Empty) (c : Connection) (k : Nat) : Prop :=
  ∀ c' s', ReflTransGen (Prog.Step (sourceSocket True)) ((V.read k).on c, {})
      (.pure (.ok (), c'), s') →
    s'.received.length = k ∧ c'.request.unread = c.request.unread ++ s'.received

theorem read_throws {c : Connection} {s : Delivered} {Q : Except Exn Unit → Connection → Delivered → Prop}
    (h : (shrink >>= fun _ => resize k : ConnM Empty Unit).on { c with response := {} } =
      .pure (.error e, c'))
    (hQ : Q (.error e) c' s) (hsend : Fails → Q (.error .systemError) c s) :
    (readWithoutSize writeWitoutSize k).Wp (sourceSocket Fails) Asks Q c s := by
  have hthrow : (shrink >>= fun _ => resize k >>= fun _ => readWithoutSizeImpl k 0 :
      ConnM Empty Unit).on { c with response := {} } = .pure (.error e, c') := by
    rw [← bind_assoc]
    exact ObjM.on_bind_throw h
  apply readWithoutSize_source _ hsend
  apply ObjM.Wp.of_pure hthrow
  intro t ht
  rw [sourceSocket_quiet.steps ht]
  exact hQ

/-- A refill by more than a buffer can hold throws; what was unread stays so. -/
theorem shrink_resize_throws {c : Connection}
    (hd : c.request.dataExtracted ≤ c.request.pimpl.length) (hk : ¬ k < 2 ^ 63) :
    ∃ q, (shrink >>= fun _ => resize k : ConnM Empty Unit).on c =
        .pure (.error .lengthError, { c with request := q }) ∧ q.Holds c.request.unread := by
  obtain ⟨q, hq, hp, hc⟩ := shrink_ok (U := Empty) hd
  refine ⟨q, ?_, hp, hc⟩
  rw [ObjM.on_bind_pure hq]
  apply onRequest_error
  rw [StackRequest.resize, dif_neg hk]
  rfl

theorem read_leaves_received (c : Connection) (k : Nat) :
    (readWithoutSize writeWitoutSize k).Wp (sourceSocket True) Asks (fun r c' s' =>
      r = .ok () → s'.received.length = k ∧ c'.request.unread = s'.received) c {} := by
  by_cases hd : c.request.dataExtracted ≤ c.request.pimpl.length
  · by_cases hk : k < 2 ^ 63
    · apply (read_refillEnds _ hd hk {}).mono
      intro r c' s' hr hok
      cases hr with
      | filled hgot hq _ => exact ⟨hgot, hq.unread⟩
      | unsent => cases hok
      | short => cases hok
    · obtain ⟨q, hq, _⟩ := shrink_resize_throws (c := { c with response := {} }) hd hk
      apply read_throws hq
      · intro hok
        cases hok
      · intro _ hok
        cases hok
  · have hq : (shrink : ConnM Empty Unit).on { c with response := {} } =
        .pure (.error .undefined, { c with response := {} }) := by
      apply onRequest_error
      rw [StackRequest.shrink, if_neg hd]
      rfl
    apply read_throws (ObjM.on_bind_throw hq)
    · intro hok
      cases hok
    · intro _ hok
      cases hok

theorem keepsUnread_iff {V : Virtual Empty} (hV : V ∈ [tcpConnectionRaw, tcpSslConnectionRaw])
    (c : Connection) (k : Nat) :
    KeepsUnread V c k ↔ c.request.unread = [] ∨ 2 ^ 63 ≤ k := by
  obtain ⟨hread, _⟩ := functions_of_raw hV
  constructor
  · intro h
    by_contra hno
    obtain ⟨hne, hk⟩ := not_or.mp hno
    have hlen := List.length_pos_iff.mpr hne
    rw [StackRequest.unread_length] at hlen
    have hd : c.request.dataExtracted ≤ c.request.pimpl.length := by omega
    obtain ⟨⟨r, c'⟩, s', hrun, hends⟩ := Prog.Wp.exists_result
      (read_refillEnds False hd (Nat.lt_of_not_le hk) {}) sourceSocket_answers
    cases hends with
    | @filled f q got hgot hq _ =>
      rw [← hread] at hrun
      obtain ⟨_, hu⟩ := h _ _
        (ReflTransGen.mono (fun _ _ => sourceSocket_mono False.elim) _ _ hrun)
      have hgot' : got = c.request.unread ++ got := hq.unread.symm.trans hu
      exact hne (List.self_eq_append_left.mp hgot')
    | unsent hf => exact hf
    | short hf => exact hf
  · intro h c' s' hrun
    rw [hread] at hrun
    have hw : ((readWithoutSize writeWitoutSize k).on c).Wp (sourceSocket True) Asks
        (fun r s' => r.1 = .ok () → s'.received.length = k ∧ r.2.request.unread = s'.received) {} :=
      read_leaves_received c k
    obtain ⟨hlen, hu⟩ : s'.received.length = k ∧ c'.request.unread = s'.received :=
      hw.result hrun rfl
    refine ⟨hlen, ?_⟩
    rcases h with hnil | hk
    · rw [hnil, hu]
      rfl
    · have hsize := c'.request.size_lt
      have hul := congrArg List.length hu
      rw [StackRequest.unread_length, hlen] at hul
      omega

/-- Explicit reads, and the extractions that `operator>>` makes. -/
inductive RefillOp where
  | read (k : Nat)
  | extract (n : Nat)
deriving DecidableEq, Repr

def RefillOp.run (V : Virtual Empty) : RefillOp → ConnM Empty Unit
  | .read k => V.read k
  | .extract n => do
    let _ ← Connection.extractData V.read n

/-- No refill finds unread bytes; no `operator>>` asks for `2 ^ 63` bytes at once. -/
def RefillOp.Drained (c : Connection) (_ : Delivered) : RefillOp → Prop
  | .read k => c.request.unread = [] ∨ 2 ^ 63 ≤ k
  | .extract n => n < 2 ^ 63 ∧ (n ≤ c.request.unread.length ∨ c.request.unread = [])

/-- What was extracted and what is unread are together what was received. -/
structure InStream (c : Connection) (s : Delivered) : Prop where
  cursor_le : c.request.dataExtracted ≤ c.request.pimpl.length
  stream : c.extracted ++ c.request.unread = s.received

theorem RefillEnds.inStream (h : RefillEnds False c s k r c' s') (hs : InStream c s)
    (hu : c.request.unread = []) : r = .ok () ∧ c'.request.unread.length = k ∧ InStream c' s' := by
  cases h with
  | @filled f q got hgot hq _ =>
    refine ⟨rfl, hq.unread.symm ▸ hgot, hq.cursor_le, ?_⟩
    have hstream := hs.stream
    rw [hu, List.append_nil] at hstream
    change c.extracted ++ q.unread = s.received ++ got
    rw [hq.unread, hstream]
  | unsent hf => exact hf.elim
  | short hf => exact hf.elim

theorem stackExtractData_inStream {c : Connection} (hs : InStream c s)
    (hn : n ≤ c.request.unread.length) :
    (Connection.stackExtractData n : ConnM Empty Bytes).Wp (sourceSocket Fails) Asks
      (fun r c' s' => (∃ bs, r = .ok bs) ∧ InStream c' s') c s := by
  have hcursor := hs.cursor_le
  rw [StackRequest.unread_length] at hn
  have hle : c.request.dataExtracted + n ≤ c.request.pimpl.length := by omega
  apply ObjM.Wp.of_pure (stackExtractData_ok hle)
  intro t ht
  rw [sourceSocket_quiet.steps ht]
  refine ⟨⟨_, rfl⟩, hle, ?_⟩
  rw [StackRequest.unread_advance, List.append_assoc, List.take_append_drop]
  exact hs.stream

/-- An extraction that finds enough bytes, or none at all, returns. -/
theorem extractData_inStream {c : Connection} (hs : InStream c s) (hn : n < 2 ^ 63)
    (h : n ≤ c.request.unread.length ∨ c.request.unread = []) :
    (Connection.extractData (readWithoutSize writeWitoutSize) n).Wp (sourceSocket False) Asks
      (fun r c' s' => (∃ bs, r = .ok bs) ∧ InStream c' s') c s := by
  have hcursor := hs.cursor_le
  by_cases hle : n ≤ c.request.unread.length
  · have hfit : c.request.dataExtracted + n ≤ c.request.pimpl.length := by
      rw [StackRequest.unread_length] at hle
      omega
    exact .of_on (extractData_enough _ hfit) (stackExtractData_inStream hs hle)
  · have hu := h.resolve_left hle
    apply extractData_refill hcursor hn (Nat.lt_of_not_le hle)
    rw [hu, List.length_nil, Nat.sub_zero]
    apply ObjM.Wp.returns_bind (R := fun c' s' => c'.request.unread.length = n ∧ InStream c' s')
    · apply (read_refillEnds _ hcursor hn s).mono
      intro r c' s' hr
      exact hr.inStream hs hu
    · intro c' s' hr
      exact stackExtractData_inStream hr.2 (Nat.le_of_eq hr.1.symm)

theorem read_inStream {c : Connection} (hs : InStream c s) (h : c.request.unread = [] ∨ 2 ^ 63 ≤ k) :
    (readWithoutSize writeWitoutSize k).Wp (sourceSocket False) Asks
      (fun _ c' s' => InStream c' s') c s := by
  have hcursor := hs.cursor_le
  by_cases hk : k < 2 ^ 63
  · have hu := h.resolve_right (Nat.not_le_of_lt hk)
    apply (read_refillEnds _ hcursor hk s).mono
    intro r c' s' hr
    exact (hr.inStream hs hu).2.2
  · obtain ⟨q, hq, hholds⟩ := shrink_resize_throws (c := { c with response := {} }) hcursor hk
    apply read_throws hq
    · refine ⟨hholds.cursor_le, ?_⟩
      change c.extracted ++ q.unread = s.received
      rw [hholds.unread]
      exact hs.stream
    · exact False.elim

theorem RefillOp.run_inStream (op : RefillOp) {V : Virtual Empty}
    (hV : V.read = readWithoutSize writeWitoutSize) (hs : InStream c s) (ha : op.Drained c s) :
    (op.run V).Wp (sourceSocket False) Asks (fun _ c' s' => InStream c' s') c s := by
  cases op with
  | read k =>
    rw [RefillOp.run, hV]
    exact read_inStream hs ha
  | extract n =>
    rw [RefillOp.run, hV]
    apply ObjM.Wp.andThen (extractData_inStream hs ha.1 ha.2)
    · intro _ c' s' hr t ht
      rw [sourceSocket_quiet.steps ht]
      exact hr.2
    · intro _ c' s' t hr ht
      rw [sourceSocket_quiet.steps ht]
      exact hr.2

/-- After these explicit reads and extractions the extracted bytes are consecutive bytes of the
stream, followed by the unread ones, and an extraction that refills gets enough. -/
structure StreamKept (V : Virtual Empty) (c : Connection) (s : Delivered) : Prop where
  stream : c.extracted ++ c.request.unread = s.received
  enough : ∀ n r c' s', RefillOp.Drained c s (.extract n) →
    ReflTransGen (Prog.Step (sourceSocket False)) ((Connection.extractData V.read n).on c, s)
      (.pure (r, c'), s') → ∃ bs, r = .ok bs

/-- A refill keeps the unread bytes exactly when there are none, and a run whose refills all find
none keeps the stream. -/
theorem refill_keeps_unread (V : Virtual Empty) (hV : V ∈ [tcpConnectionRaw, tcpSslConnectionRaw]) :
    (∀ c k, KeepsUnread V c k ↔ c.request.unread = [] ∨ 2 ^ 63 ≤ k) ∧
    ∀ ops c s, ObjM.Calls (sourceSocket False) (RefillOp.run V) RefillOp.Drained {} {} ops c s →
      StreamKept V c s := by
  refine ⟨keepsUnread_iff hV, ?_⟩
  intro ops c s hcalls
  obtain ⟨hread, _⟩ := functions_of_raw hV
  have hs : InStream c s := by
    apply hcalls.invariant (I := fun _ c s => InStream c s)
    · exact ⟨Nat.le_refl _, rfl⟩
    · intro _ c s op hs ha
      exact op.run_inStream hread hs ha
  refine ⟨hs.stream, ?_⟩
  intro n r c' s' ha hrun
  rw [hread] at hrun
  have hw : ((Connection.extractData (readWithoutSize writeWitoutSize) n).on c).Wp
      (sourceSocket False) Asks (fun x s' => (∃ bs, x.1 = .ok bs) ∧ InStream x.2 s') s :=
    extractData_inStream hs ha.1 ha.2
  exact (hw.result hrun).1

theorem fresh_connection_keeps :
    (∀ c k, KeepsUnread tcpConnectionRaw c k ↔ c.request.unread = [] ∨ 2 ^ 63 ≤ k) ∧
    ∀ ops c s, ObjM.Calls (sourceSocket False) (RefillOp.run tcpConnectionRaw)
      RefillOp.Drained {} {} ops c s → StreamKept tcpConnectionRaw c s :=
  refill_keeps_unread tcpConnectionRaw (.head _)

/-- A byte that is unread is overwritten by a `read(1)`. -/
theorem unread_byte_overwritten :
    ¬ KeepsUnread tcpConnectionRaw { request := { pimpl := [1] } } 1 := by
  rw [keepsUnread_iff (.head _)]
  rintro (h | h)
  · cases h
  · exact absurd h (by decide)

end CppAlls
