import CppAlls.Core.SyncRules

namespace CppAlls
set_option autoImplicit true

open LittleEndian Interaction Relation ConnM

inductive StreamOp where
  | put (T : Ty) (v : T.Val)
  | get (T : Ty)
  | write

/-- An operation on a connection. The user goes on when it throws. -/
def StreamOp.run (o : ByteOrder) (V : Virtual U) : StreamOp → ConnM U Unit
  | .put T v => (Connection.operatorShl o T v).catchAll
  | .get T => (V.operatorShr o T).catchAll
  | .write => V.write.catchAll

/-- A run of operations, which shows what was done before it, after it and in between. -/
def session (o : ByteOrder) (V : Virtual (List StreamOp)) (done : List StreamOp) :
    List StreamOp → ConnM (List StreamOp) Unit
  | [] => report done
  | op :: ops => do
    report done
    op.run o V
    session o V (done ++ [op]) ops

/-- An insertion that returns appends the encoding of its value; one that throws has appended
what came before the element that made it throw. -/
def StreamOp.appended (o : ByteOrder) : StreamOp → Bytes
  | .put T v =>
    match (T.operatorShl o v).on {} with
    | (.ok _, _) => T.encode v
    | (.error _, r) => r.pimpl
  | .get _ => []
  | .write => []

/-- A `get` begins with a refill, which flushes. -/
def StreamOp.flushes : StreamOp → Bool
  | .put _ _ => false
  | .get _ => true
  | .write => true

def StreamOp.pending (o : ByteOrder) (before : Nat) (op : StreamOp) : Nat :=
  if op.flushes then 0 else before + (op.appended o).length

/-- At each flush of the run fewer than `2 ^ 32` bytes are pending. -/
def FlushesFit (o : ByteOrder) (pending : Nat) : List StreamOp → Prop
  | [] => True
  | op :: ops =>
    (op.flushes = true → pending < 2 ^ 32) ∧ FlushesFit o (op.pending o pending) ops

/-- The two byte streams of a connection, as far as the socket has moved them. -/
structure Streams where
  sent : Bytes := []
  received : Bytes := []

/-- A socket that never fails, and transfers any positive part of what it is asked for. -/
def rawSocket : ConnWorld (List StreamOp) Streams where
  env _ _ := False
  answer
    | s, (_, .send bs), some k, s' => s' = { s with sent := s.sent ++ bs.take k }
    | s, (_, .receive _), some bs, s' => s' = { s with received := s.received ++ bs }
    | s, (_, .report _), _, s' => s' = s
    | _, _, _, _ => False

structure Settled (written : Bytes) (c : Connection) (s : Streams) : Prop where
  sent : s.sent ++ c.response.pimpl = written
  extracted : c.extracted = s.received
  drained : c.request.dataExtracted = c.request.pimpl.length

/-- The two streams are intact between operations, and a receive finds nothing unflushed. -/
def StreamsIntact (o : ByteOrder) (s : Streams) : Connection × SocketCall (List StreamOp) → Prop
  | (c, .report done) => Settled (done.flatMap (StreamOp.appended o)) c s
  | (c, .receive _) => c.response.pimpl = []
  | _ => True

theorem rawSocket_quiet : rawSocket.Quiet := fun _ _ h => h

variable {o : ByteOrder}

theorem writeWitoutSize_settled (h : Settled w c s) (hlt : c.response.pimpl.length < 2 ^ 32) :
    (writeWitoutSize : ConnM (List StreamOp) Unit).Wp rawSocket (StreamsIntact o)
      (fun r c' s' => r = .ok () ∧ c' = { c with response := {} } ∧
        s' = { s with sent := w }) c s := by
  have hpending : c.response.pimpl.take (c.response.pimpl.length % 2 ^ 32) =
      c.response.pimpl := by
    rw [Nat.mod_eq_of_lt hlt, List.take_length]
  apply writeWitoutSize_drains (J := fun done s' => s' = { s with sent := s.sent ++ done })
  · exact fun done => rawSocket_quiet.stable _
  · intro done rest s' _ _ hJ
    refine ⟨trivial, ?_⟩
    intro r s'' hr
    cases r with
    | none => cases hr
    | some k =>
      have he : s'' = { s' with sent := s'.sent ++ rest.take k } := hr
      simp only
      rw [he, hJ, List.append_assoc]
  · intro s' hJ
    rw [hpending, h.sent] at hJ
    exact ⟨rfl, rfl, hJ⟩
  · rw [List.append_nil]

theorem readWithoutSize_settled (h : Settled w c s) (hlt : c.response.pimpl.length < 2 ^ 32)
    (hn : n < 2 ^ 63) :
    (readWithoutSize writeWitoutSize n : ConnM (List StreamOp) Unit).Wp rawSocket (StreamsIntact o)
      (fun r c' s' => r = .ok () ∧ ∃ got q, got.length = n ∧ q.Holds got ∧
        c' = { c with request := q, response := {} } ∧
        s' = { sent := w, received := s.received ++ got }) c s := by
  apply readWithoutSize_fills
    (J := fun got s' => s' = { sent := w, received := s.received ++ got })
  · simpa only [List.append_nil] using writeWitoutSize_settled h hlt
  · exact Nat.le_of_eq h.drained
  · exact hn
  · exact fun got => rawSocket_quiet.stable _
  · intro got q s' _ _ hJ
    refine ⟨rfl, ?_⟩
    intro r s'' hr
    cases r with
    | none => cases hr
    | some bs =>
      have he : s'' = { s' with received := s'.received ++ bs } := hr
      simp only
      rw [he, hJ, List.append_assoc]
  · intro got q s' hgot hq hJ
    exact ⟨rfl, got, q, hgot, hq, rfl, hJ⟩

theorem extractData_settled (h : Settled w c s) (hlt : c.response.pimpl.length < 2 ^ 32)
    (hn : n < 2 ^ 63) :
    (Connection.extractData (readWithoutSize writeWitoutSize) n).Wp rawSocket (StreamsIntact o)
      (fun r c' s' => (∃ bs, r = .ok bs) ∧ Settled w c' s' ∧
        (0 < n ∨ c.response.pimpl = [] → c'.response.pimpl = [])) c s := by
  have hd := h.drained
  have hu : c.request.unread = [] := by
    rw [StackRequest.unread, hd, List.drop_length]
  cases n with
  | zero =>
    have hle : c.request.dataExtracted + 0 ≤ c.request.pimpl.length := Nat.le_of_eq hd
    apply ObjM.Wp.of_pure (extractData_unread _ hle)
    intro s' he
    rw [rawSocket_quiet.steps he]
    refine ⟨⟨_, rfl⟩, ⟨h.sent, ?_, hd⟩, ?_⟩
    · rw [List.take_zero, List.append_nil]
      exact h.extracted
    · rintro (hlt | hr)
      · cases hlt
      · exact hr
  | succ n =>
    apply extractData_refill (Nat.le_of_eq hd) hn (by rw [hu]; exact Nat.succ_pos n)
    rw [hu]
    apply ObjM.Wp.returns_bind (readWithoutSize_settled h hlt hn)
    intro c' s' hr
    obtain ⟨got, q, hgot, hq, rfl, rfl⟩ := hr
    have hle : q.dataExtracted + (n + 1) ≤ q.pimpl.length := by
      rw [hq.1, hq.2, hgot, Nat.zero_add]
    apply ObjM.Wp.of_pure (stackExtractData_ok hle)
    intro s' he
    rw [rawSocket_quiet.steps he]
    refine ⟨⟨_, rfl⟩, ⟨List.append_nil _, ?_, ?_⟩, fun _ => rfl⟩
    · simp only [hq.unread, h.extracted]
      rw [← hgot, List.take_length]
    · simp only [hq.1, hq.2, hgot, Nat.zero_add]

theorem run_settled {t : Extraction α} (ht : t.SizesFit) {V : Virtual (List StreamOp)}
    (hV : V.read = readWithoutSize writeWitoutSize) (h : Settled w c s)
    (hc : c.response.pimpl = []) :
    (V.run t).Wp rawSocket (StreamsIntact o)
      (fun r c' s' => (∃ a, r = .ok a) ∧ Settled w c' s' ∧ c'.response.pimpl = []) c s := by
  induction t generalizing c s with
  | pure a =>
    apply ObjM.Wp.of_pure (ObjM.on_pure a c)
    intro s' he
    rw [rawSocket_quiet.steps he]
    exact ⟨⟨a, rfl⟩, h, hc⟩
  | call n k ih =>
    have hlt : c.response.pimpl.length < 2 ^ 32 := by
      rw [hc]
      decide
    change (Connection.extractData V.read n >>= fun bs => V.run (k bs)).Wp _ _ _ _ _
    rw [hV]
    apply ObjM.Wp.andThen (extractData_settled h hlt ht.1)
    · intro bs c' s' hr
      obtain ⟨_, h', he⟩ := hr
      exact ih bs (ht.2 bs) h' (he (.inr hc))
    · intro _ _ _ _ hI
      obtain ⟨⟨bs, he⟩, _⟩ := hI
      cases he

theorem Ty.operatorShr_eq_call (o : ByteOrder) (T : Ty) :
    ∃ n k, T.operatorShr o = .call n k ∧ 0 < n := by
  cases T with
  | bool | string | vector => exact ⟨_, _, rfl, by decide⟩
  | num k => exact ⟨_, _, rfl, by cases k <;> decide⟩

/-- Every extraction of a value flushes first. -/
theorem operatorShr_settled {V : Virtual (List StreamOp)} (o' : ByteOrder)
    (hV : V.read = readWithoutSize writeWitoutSize) (T : Ty) (h : Settled w c s)
    (hlt : c.response.pimpl.length < 2 ^ 32) :
    (V.operatorShr o' T).Wp rawSocket (StreamsIntact o)
      (fun r c' s' => (∃ a, r = .ok a) ∧ Settled w c' s' ∧ c'.response.pimpl = []) c s := by
  obtain ⟨n, k, ht, hn⟩ := T.operatorShr_eq_call o'
  have hfit := T.operatorShr_sizesFit o'
  rw [Virtual.operatorShr]
  rw [ht] at hfit ⊢
  change (Connection.extractData V.read n >>= fun bs => V.run (k bs)).Wp _ _ _ _ _
  rw [hV]
  apply ObjM.Wp.andThen (extractData_settled h hlt hfit.1)
  · intro bs c' s' hr
    obtain ⟨_, h', he⟩ := hr
    exact run_settled (hfit.2 bs) hV h' (he (.inl hn))
  · intro _ _ _ _ hI
    obtain ⟨⟨bs, he⟩, _⟩ := hI
    cases he

theorem operatorShl_appended (o : ByteOrder) (T : Ty) (v : T.Val) :
    ∃ res, (T.operatorShl o v).Appends res ((StreamOp.put T v).appended o) := by
  rcases T.operatorShl_appends_or_error o v with h | ⟨e, bs, h⟩
  · refine ⟨.ok (), ?_⟩
    rw [StreamOp.appended, h]
    exact h
  · refine ⟨.error e, ?_⟩
    rw [StreamOp.appended, h]
    exact h

theorem StreamOp.run_settled {V : Virtual (List StreamOp)} (op : StreamOp)
    (hV : V.read = readWithoutSize writeWitoutSize) (hV' : V.write = writeWitoutSize)
    (h : Settled w c s) (hlt : op.flushes = true → c.response.pimpl.length < 2 ^ 32) :
    (op.run o V).Wp rawSocket (StreamsIntact o)
      (fun r c' s' => r = .ok () ∧ Settled (w ++ op.appended o) c' s' ∧
        c'.response.pimpl.length = op.pending o c.response.pimpl.length) c s := by
  cases op with
  | put T v =>
    obtain ⟨res, ha⟩ := operatorShl_appended o T v
    apply ObjM.Wp.catchAll
    apply ObjM.Wp.of_pure (onResponse_on _ c)
    intro s' he s'' he'
    rw [rawSocket_quiet.steps he', rawSocket_quiet.steps he, ha]
    refine ⟨rfl, ⟨?_, h.extracted, h.drained⟩, List.length_append⟩
    rw [← List.append_assoc, h.sent]
  | get T =>
    apply ObjM.Wp.catchAll
    apply (operatorShr_settled o hV T h (hlt rfl)).mono
    intro _ c' s' hr s'' he
    obtain ⟨_, h', hc⟩ := hr
    rw [rawSocket_quiet.steps he]
    refine ⟨rfl, ?_, by rw [hc]; rfl⟩
    rw [StreamOp.appended, List.append_nil]
    exact h'
  | write =>
    apply ObjM.Wp.catchAll
    rw [hV']
    apply (writeWitoutSize_settled h (hlt rfl)).mono
    intro _ c' s' hI s'' he
    obtain ⟨_, rfl, rfl⟩ := hI
    rw [rawSocket_quiet.steps he]
    exact ⟨rfl, ⟨rfl, h.extracted, h.drained⟩, rfl⟩

theorem session_settled {V : Virtual (List StreamOp)}
    (hV : V.read = readWithoutSize writeWitoutSize) (hV' : V.write = writeWitoutSize)
    (h : Settled (done.flatMap (StreamOp.appended o)) c s)
    (hfit : FlushesFit o c.response.pimpl.length ops) :
    (session o V done ops).Wp rawSocket (StreamsIntact o) (fun _ _ _ => True) c s := by
  induction ops generalizing done c s with
  | nil =>
    intro s' he
    rw [rawSocket_quiet.steps he]
    exact ⟨h, fun _ _ _ _ _ => trivial⟩
  | cons op ops ih =>
    apply ObjM.Wp.invoke_bind
    intro s' he
    rw [rawSocket_quiet.steps he]
    refine ⟨h, ?_⟩
    intro _ s'' hs
    have hs' : s'' = s := hs
    rw [hs']
    apply ObjM.Wp.returns_bind (op.run_settled hV hV' h hfit.1)
    intro c' s' hr
    obtain ⟨h', hlen⟩ := hr
    apply ih
    · rw [List.flatMap_append, List.flatMap_singleton]
      exact h'
    · rw [hlen]
      exact hfit.2

/-- In every run of a raw connection on sockets that do not fail, both streams are intact between
operations, and a receive is only issued when `response_` is empty. -/
theorem raw_streams_intact (o : ByteOrder) (V : Virtual (List StreamOp))
    (hV : V ∈ [tcpConnectionRaw, tcpSslConnectionRaw]) (ops : List StreamOp)
    (hfit : FlushesFit o 0 ops)
    (hrun : ReflTransGen (Prog.Step rawSocket) ((session o V [] ops).on {}, {})
      (.call (c, call) k, s)) : StreamsIntact o s (c, call) := by
  obtain ⟨hread, hwrite⟩ := functions_of_raw hV
  have h : Settled (List.flatMap (StreamOp.appended o) []) {} {} := ⟨rfl, rfl, rfl⟩
  exact Prog.Wp.called (session_settled hread hwrite h hfit) hrun

def pendingShort : Connection := { response := ⟨[5, 0]⟩ }

/-- Two bytes are sent one after the other, and nothing is received yet. -/
theorem short_flushed : ReflTransGen (Prog.Step rawSocket)
    ((writeWitoutSize : ConnM (List StreamOp) Unit).on pendingShort, {})
    (.pure (.ok (), {}), { sent := [5, 0] }) := by
  have hfirst : rawSocket.answer {} (pendingShort, .send [5, 0]) (some ⟨1, by decide⟩)
      { sent := [5] } := rfl
  have hsecond : rawSocket.answer { sent := [5] } (pendingShort, .send [0]) (some ⟨1, by decide⟩)
      { sent := [5, 0] } := rfl
  rw [writeWitoutSize_on, ObjM.on_bind, writeImpl_on_lt (by decide)]
  apply ReflTransGen.head (.call hfirst)
  change ReflTransGen _ ((writeWitoutSizeImpl [5, 0] 2 1 : ConnM _ Unit).on pendingShort >>=
    ObjM.andThen fun _ => clearResponse, _) _
  rw [writeImpl_on_lt (by decide)]
  apply ReflTransGen.head (.call hsecond)
  change ReflTransGen _ ((writeWitoutSizeImpl [5, 0] 2 2 : ConnM _ Unit).on pendingShort >>=
    ObjM.andThen fun _ => clearResponse, _) _
  rw [writeWitoutSizeImpl, if_pos rfl]
  exact .refl

/-- One of two bytes has been received. -/
def halfReceived : Connection := { request := { pimpl := [7, 0] } }

/-- The refill up to its second receive. -/
theorem refill_half : ReflTransGen (Prog.Step rawSocket)
    ((readWithoutSize writeWitoutSize 2).on pendingShort, {})
    ((readWithoutSizeImpl 2 1).on halfReceived, { sent := [5, 0], received := [7] }) := by
  have hreceive : rawSocket.answer { sent := [5, 0] }
      ({ request := { pimpl := [0, 0] } }, .receive 2) (some ⟨[7], by decide⟩)
      { sent := [5, 0], received := [7] } := rfl
  have hshrink : (shrink : ConnM (List StreamOp) Unit).on {} = .pure (.ok (), {}) := rfl
  have hresize : (resize 2 : ConnM (List StreamOp) Unit).on {} =
      .pure (.ok (), { request := { pimpl := [0, 0] } }) := rfl
  have hfill : (fill 0 [7] : ConnM (List StreamOp) Unit).on { request := { pimpl := [0, 0] } } =
      .pure (.ok (), halfReceived) := rfl
  rw [readWithoutSize, ObjM.on_bind]
  apply Prog.Step.bind_steps short_flushed
  rw [ObjM.andThen, ObjM.on_bind_pure hshrink, ObjM.on_bind_pure hresize,
    readImpl_on_lt (by decide)]
  apply ReflTransGen.head (.call hreceive)
  simp only [ObjM.on_bind_pure hfill]
  exact .refl

theorem refill_rest : ReflTransGen (Prog.Step rawSocket)
    ((readWithoutSizeImpl 2 1 : ConnM (List StreamOp) Unit).on halfReceived,
      { sent := [5, 0], received := [7] })
    (.pure (.ok (), halfReceived), { sent := [5, 0], received := [7, 0] }) := by
  have hreceive : rawSocket.answer { sent := [5, 0], received := [7] } (halfReceived, .receive 1)
      (some ⟨[0], by decide⟩) { sent := [5, 0], received := [7, 0] } := rfl
  have hfill : (fill 1 [0] : ConnM (List StreamOp) Unit).on halfReceived =
      .pure (.ok (), halfReceived) := rfl
  rw [readImpl_on_lt (by decide)]
  apply ReflTransGen.head (.call hreceive)
  simp only [ObjM.on_bind_pure hfill]
  rw [readWithoutSizeImpl, if_pos (by decide)]
  exact .refl

def gotShort : Connection := { request := { pimpl := [7, 0], dataExtracted := 2 }
                               extracted := [7, 0] }

theorem short_got : ReflTransGen (Prog.Step rawSocket)
    (((StreamOp.get (.num .short)).run .little tcpConnectionRaw :
      ConnM (List StreamOp) Unit).on pendingShort, {})
    (.pure (.ok (), gotShort), { sent := [5, 0], received := [7, 0] }) := by
  have hextract : ReflTransGen (Prog.Step rawSocket)
      ((Connection.extractData (readWithoutSize writeWitoutSize) 2).on pendingShort, {})
      (.pure (.ok [7, 0], gotShort), { sent := [5, 0], received := [7, 0] }) := by
    rw [extractData_shortfall _ (Nat.le_refl _) (by decide) (by decide), ObjM.on_bind]
    exact Prog.Step.bind_steps (refill_half.trans refill_rest) .refl
  exact Prog.Step.bind_steps (Prog.Step.bind_steps hextract .refl) .refl

def putThenGet : List StreamOp := [.put (.num .short) 5, .get (.num .short)]

theorem putThenGet_fits : FlushesFit .little 0 putThenGet :=
  ⟨fun h => (by cases h), fun _ => (by decide), trivial⟩

/-- A short is sent in two parts by the refill for another one. -/
theorem short_pending_intact :
    StreamsIntact .little { sent := [5, 0], received := [7, 0] } (gotShort, .report putThenGet) := by
  have hput : ReflTransGen (Prog.Step rawSocket)
      ((session .little tcpConnectionRaw [] putThenGet).on {}, {})
      ((session .little tcpConnectionRaw [.put (.num .short) 5] [.get (.num .short)]).on
        pendingShort, {}) := .single (.call (r := ()) rfl)
  have hget : ReflTransGen (Prog.Step rawSocket)
      ((session .little tcpConnectionRaw [.put (.num .short) 5] [.get (.num .short)]).on
        pendingShort, {})
      ((session .little tcpConnectionRaw putThenGet []).on gotShort,
        { sent := [5, 0], received := [7, 0] }) := by
    apply ReflTransGen.head (.call (r := ()) rfl)
    change ReflTransGen _ (((StreamOp.get (.num .short)).run .little tcpConnectionRaw >>= fun _ =>
      session .little tcpConnectionRaw putThenGet []).on pendingShort, _) _
    rw [ObjM.on_bind]
    exact Prog.Step.bind_steps short_got .refl
  exact raw_streams_intact .little tcpConnectionRaw (.head _) putThenGet putThenGet_fits
    (hput.trans hget)

end CppAlls
