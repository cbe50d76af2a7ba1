import CppAlls.Core.SyncRules

namespace CppAlls
set_option autoImplicit true

open LittleEndian Interaction Relation ConnM

/-- How the bytes travel: in a stream, or one frame in each datagram. -/
inductive Transport where
  | tcp
  | udp
deriving DecidableEq, Repr

def Transport.connection (o : ByteOrder) (depth : Nat) : Transport → Virtual U
  | .tcp => tcpConnection o depth
  | .udp => udpConnection o depth

/-- The segments or datagrams that have arrived and those that have not, and the bytes that the
user of the connection has got. -/
structure Net where
  arrived : List Bytes := []
  coming : List Bytes := []
  yielded : Bytes := []

/-- A stream gives any positive part of what has arrived; what does not fit of a datagram is
lost. -/
def Transport.Receives (size : Nat) (s : Net) (bs : Bytes) (s' : Net) : Transport → Prop
  | .tcp => ∃ rest, s.arrived.flatten = bs ++ rest ∧ s' = { s with arrived := [rest] }
  | .udp => ∃ d ds, s.arrived = d :: ds ∧ bs = d.take size ∧ s' = { s with arrived := ds }

/-- A network that delivers at any time. `Answers` restricts what `available()` answers when the
given bytes have arrived. -/
def net (tr : Transport) (Answers : Bytes → Nat → Prop) : ConnWorld Bytes Net where
  env s s' := ∃ b bs, s.coming = b :: bs ∧
    s' = { s with arrived := s.arrived ++ [b], coming := bs }
  answer
    | s, (_, .available), some k, s' =>
      s' = s ∧ k ≤ s.arrived.flatten.length ∧ Answers s.arrived.flatten k
    | s, (_, .receive size), some bs, s' => tr.Receives size s bs s'
    | s, (_, .report bs), _, s' => s' = { s with yielded := s.yielded ++ bs }
    | _, _, _, _ => False

/-- A reader whose user is shown each extraction. -/
def Virtual.yielding (V : Virtual Bytes) (t : Extraction α) : ConnM Bytes α :=
  t.interp fun size => do
    let bs ← Connection.extractData V.read size
    report bs
    return bs

def frame (p : Bytes) : Bytes := leBytes 4 (p.length + 4) ++ p

/-- The network starts with nothing arrived: a stream comes in any segments, datagrams come one
for each frame. -/
def Transport.Carries (payloads : List Bytes) (s : Net) : Transport → Prop
  | .tcp => s.arrived = [] ∧ s.yielded = [] ∧ s.coming.flatten = (payloads.map frame).flatten
  | .udp => s.arrived = [] ∧ s.yielded = [] ∧ s.coming = payloads.map frame

/-- Extractions yield consecutive bytes of the payloads, and end without an exception. -/
structure ReadsPayloads (W : ConnWorld Bytes Net) (V : Virtual Bytes) (t : Extraction α)
    (payloads : List Bytes) (s : Net) : Prop where
  yields : ∀ c bs k s', ReflTransGen (Prog.Step W)
    ((V.yielding t).on {}, s) (.call (c, .report bs) k, s') → s'.yielded ++ bs <+: payloads.flatten
  returns : ∀ r c s', ReflTransGen (Prog.Step W)
    ((V.yielding t).on {}, s) (.pure (r, c), s') → ∃ a, r = .ok a

/-- Each extraction takes bytes of one payload, the next one when the last is used up. -/
def Aligned : Extraction α → (unread : Bytes) → (payloads : List Bytes) → Prop
  | .pure _, _, _ => True
  | .call size k, unread, payloads =>
    if size ≤ unread.length then Aligned (k (unread.take size)) (unread.drop size) payloads
    else unread = [] ∧ ∀ p ∈ payloads.head?,
      size ≤ p.length ∧ Aligned (k (p.take size)) (p.drop size) payloads.tail

/-- `available()` answers the size of the frame at the head of what has arrived. -/
def Announced (arrived : Bytes) (k : Nat) : Prop :=
  4 ≤ arrived.length ∧ k = leNat (arrived.take 4)

/-- The frames still to be received, between two refills. -/
def Transport.Waiting (payloads : List Bytes) (s : Net) : Transport → Prop
  | .tcp => s.arrived.flatten ++ s.coming.flatten = (payloads.map frame).flatten
  | .udp => s.arrived ++ s.coming = payloads.map frame

/-- The rest of a frame, and the frames behind it, while the frame is being received. -/
def Transport.Receiving (got rest : Bytes) (payloads : List Bytes) (s : Net) : Transport → Prop
  | .tcp => s.arrived.flatten ++ s.coming.flatten = rest ++ (payloads.map frame).flatten
  | .udp => (got = [] ∧ ∃ ds, s.arrived = rest :: ds ∧ ds ++ s.coming = payloads.map frame) ∨
      (rest = [] ∧ s.arrived ++ s.coming = payloads.map frame)

theorem frame_length (p : Bytes) : (frame p).length = p.length + 4 := by
  rw [frame, List.length_append, leBytes_length, Nat.add_comm]

theorem leNat_frame (h : p.length + 4 < 2 ^ 32) (rest : Bytes) :
    leNat ((frame p ++ rest).take 4) = p.length + 4 := by
  rw [frame, List.append_assoc, List.take_left' (leBytes_length _ _), leNat_leBytes_of_lt h]

namespace Transport

variable {tr : Transport} {Answers : Bytes → Nat → Prop}

theorem waiting_stable (ps : List Bytes) (y : Bytes) :
    (net tr Answers).Stable (fun s => tr.Waiting ps s ∧ s.yielded = y) := by
  rintro s _ ⟨hw, hy⟩ ⟨b, bs, hc, rfl⟩
  refine ⟨?_, hy⟩
  cases tr with
  | tcp =>
    rw [Waiting, hc] at hw
    simpa [Waiting] using hw
  | udp =>
    rw [Waiting, hc] at hw
    simpa [Waiting] using hw

theorem receiving_stable (got rest : Bytes) (ps : List Bytes) (y : Bytes) :
    (net tr Answers).Stable (fun s => tr.Receiving got rest ps s ∧ s.yielded = y) := by
  rintro s _ ⟨hr, hy⟩ ⟨b, bs, hc, rfl⟩
  refine ⟨?_, hy⟩
  cases tr with
  | tcp =>
    rw [Receiving, hc] at hr
    simpa [Receiving] using hr
  | udp =>
    rw [Receiving, hc] at hr
    rcases hr with ⟨hg, ds, ha, hd⟩ | ⟨hg, ha⟩
    · exact .inl ⟨hg, ds ++ [b], by simp [ha], by simpa using hd⟩
    · exact .inr ⟨hg, by simpa using ha⟩

theorem Waiting.receiving (h : tr.Waiting (p :: ps) s) (ha : s.arrived ≠ []) :
    tr.Receiving [] (frame p) ps s := by
  cases tr with
  | tcp => exact h
  | udp =>
    rw [Waiting] at h
    cases hs : s.arrived with
    | nil => exact absurd hs ha
    | cons d ds =>
      rw [hs, List.map_cons, List.cons_append] at h
      obtain ⟨rfl, hd⟩ := List.cons.inj h
      exact .inl ⟨rfl, ds, hs, hd⟩

theorem Receiving.waiting (h : tr.Receiving got [] ps s) (hg : got ≠ []) : tr.Waiting ps s := by
  cases tr with
  | tcp => exact h
  | udp =>
    rcases h with ⟨he, _⟩ | ⟨_, h⟩
    · exact absurd he hg
    · exact h

theorem Receiving.receive (h : tr.Receiving got rest ps s) (hrest : rest ≠ [])
    (hn : n = rest.length) (hr : tr.Receives n s bs s') (hle : bs.length ≤ n) :
    ∃ rest', rest = bs ++ rest' ∧ tr.Receiving (got ++ bs) rest' ps s' ∧
      s'.yielded = s.yielded := by
  subst hn
  cases tr with
  | tcp =>
    obtain ⟨more, ha, rfl⟩ := hr
    rw [Receiving, ha, List.append_assoc] at h
    obtain ⟨rest', hb⟩ := List.prefix_of_prefix_length_le ⟨_, h⟩ ⟨_, rfl⟩ hle
    subst hb
    refine ⟨rest', rfl, ?_, rfl⟩
    rw [List.append_assoc] at h
    simpa [Receiving] using List.append_cancel_left h
  | udp =>
    obtain ⟨d, ds, ha, rfl, rfl⟩ := hr
    rcases h with ⟨rfl, ds', ha', hd⟩ | ⟨he, _⟩
    · rw [ha] at ha'
      obtain ⟨rfl, rfl⟩ := List.cons.inj ha'
      exact ⟨[], by simp, .inr ⟨rfl, hd⟩, rfl⟩
    · exact absurd he hrest

theorem Waiting.flatten (h : tr.Waiting ps s) :
    s.arrived.flatten ++ s.coming.flatten = (ps.map frame).flatten := by
  cases tr with
  | tcp => exact h
  | udp =>
    rw [Waiting] at h
    rw [← List.flatten_append, h]

theorem Waiting.announced (h : tr.Waiting ps s) (hps : ∀ p ∈ ps, p.length + 4 < 2 ^ 32)
    (ha : Announced s.arrived.flatten k) :
    ∃ p ps', ps = p :: ps' ∧ k = (frame p).length ∧ tr.Receiving [] (frame p) ps' s := by
  obtain ⟨hlen, rfl⟩ := ha
  have hf := h.flatten
  cases ps with
  | nil =>
    have he := (List.append_eq_nil_iff.mp hf).1
    rw [he] at hlen
    cases hlen
  | cons p ps' =>
    have hne : s.arrived ≠ [] := by
      intro he
      rw [he] at hlen
      cases hlen
    refine ⟨p, ps', rfl, ?_, h.receiving hne⟩
    have htake := congrArg (List.take 4) hf
    rw [List.take_append_of_le_length hlen] at htake
    rw [htake, List.map_cons, List.flatten_cons, frame_length]
    exact leNat_frame (hps p List.mem_cons_self) _

end Transport

variable {tr : Transport} {Answers : Bytes → Nat → Prop}

/-- The calls of a reader show consecutive bytes of the payloads. -/
def Yields (payloads : List Bytes) (s : Net) : Connection × SocketCall Bytes → Prop
  | (_, .report bs) => s.yielded ++ bs <+: payloads.flatten
  | _ => True

/-- Between two extractions `unread` is left of the current payload. -/
structure Reading (tr : Transport) (payloads : List Bytes) (unread : Bytes) (ps : List Bytes)
    (c : Connection) (s : Net) : Prop where
  unread_eq : c.request.unread = unread
  cursor_le : c.request.dataExtracted ≤ c.request.pimpl.length
  flushed : c.response.pimpl = []
  waiting : tr.Waiting ps s
  yielded : s.yielded ++ (unread ++ ps.flatten) = payloads.flatten

theorem readImpl_receives (h : tr.Receiving [] (frame p) ps s)
    (hc : c.request.dataExtracted = 0) (hsize : c.request.pimpl.length = (frame p).length) :
    (readWithoutSizeImpl (frame p).length 0).Wp (net tr Answers) (Yields payloads)
      (fun r c' s' => r = .ok () ∧ ∃ q, q.Holds (frame p) ∧ c' = { c with request := q } ∧
        tr.Waiting ps s' ∧ s'.yielded = s.yielded) c s := by
  have hlen := frame_length p
  apply readImpl_fills (J := fun got s' => ∃ rest, frame p = got ++ rest ∧
    tr.Receiving got rest ps s' ∧ s'.yielded = s.yielded)
  · intro got s₁ s₂ hI henv
    obtain ⟨rest, he, hr⟩ := hI
    exact ⟨rest, he, Transport.receiving_stable got rest ps s.yielded _ _ hr henv⟩
  · intro got q s₁ _ hlt hx
    obtain ⟨rest, he, hr, hy⟩ := hx
    refine ⟨trivial, ?_⟩
    intro r s₂ ha
    cases r with
    | none => cases ha
    | some bs =>
      have hrest : (frame p).length - got.length = rest.length := by
        rw [he, List.length_append, Nat.add_sub_cancel_left]
      obtain ⟨rest', rfl, hr', hy'⟩ := hr.receive
        (List.ne_nil_of_length_pos (by omega)) hrest ha bs.2.2
      exact ⟨rest', he.trans (List.append_assoc _ _ _).symm, hr', hy'.trans hy⟩
  · intro got q s₁ hgot hq hs
    obtain ⟨rest, he, hr, hy⟩ := hs
    have hrest : rest = [] := by
      rw [he, List.length_append] at hgot
      exact List.eq_nil_of_length_eq_zero (by omega)
    subst hrest
    rw [List.append_nil] at he
    refine ⟨rfl, q, he ▸ hq, rfl, hr.waiting ?_, hy⟩
    exact List.ne_nil_of_length_pos (by omega)
  · exact hc
  · exact hsize
  · exact ⟨frame p, rfl, h, rfl⟩

theorem assertActualSize_frame (o : ByteOrder) (h : p.length + 4 < 2 ^ 32) {c : Connection}
    (hc : c.request.Holds (frame p)) (read : Nat → ConnM U Unit) :
    ∃ c', (assertActualSize o (Connection.extractData read) (frame p).length .plain).on c =
        .pure (.ok (), c') ∧ c'.request.unread = p ∧
      c'.request.dataExtracted ≤ c'.request.pimpl.length ∧ c'.response = c.response := by
  have hhead := doIstream_length o h p
  rw [← show frame p = leBytes 4 (p.length + 4) ++ p from rfl, ← hc.unread] at hhead
  obtain ⟨c', hon, hc'⟩ := interp_consume read hc.cursor_le hhead
  refine ⟨c', ?_, hc'⟩
  rw [assertActualSize, ObjM.on_bind_pure hon, toUnsignedInt_toNat, Nat.mod_eq_of_lt h,
    frame_length, if_neg (fun hne => hne rfl)]
  rfl

/-- A refill that is told the size of the next frame makes its payload the unread bytes. -/
theorem readWithSize_refills (o : ByteOrder) (d : Nat) (hps : ∀ p ∈ ps, p.length + 4 < 2 ^ 32)
    (h : Reading tr payloads [] ps c s) :
    (readWithSize o [] .plain (writeWithSize o) (d + 1)).Wp (net tr Announced) (Yields payloads)
      (fun r c' s' => r = .ok () ∧
        ∃ p ps', ps = p :: ps' ∧ Reading tr payloads p ps' c' s') c s := by
  rw [readWithSize]
  apply ObjM.Wp.bind_pure (writeWithSize_empty o h.flushed)
  obtain ⟨q, hq, hp, hc⟩ := shrink_ok (U := Bytes) h.cursor_le
  apply ObjM.Wp.bind_pure hq
  apply available_bind
  intro s' hs
  obtain ⟨hw, hy⟩ := (Transport.waiting_stable ps s.yielded).steps ⟨h.waiting, rfl⟩ hs
  refine ⟨trivial, ?_⟩
  intro r s'' ha
  cases r with
  | none => cases ha
  | some k =>
    obtain ⟨rfl, _, hk⟩ := ha
    obtain ⟨p, ps', rfl, rfl, hr⟩ := hw.announced hps hk
    have hp32 := hps p List.mem_cons_self
    have hlen := frame_length p
    obtain ⟨q', hq', hp', hc'⟩ := resize_ok (U := Bytes) (c := { c with request := q })
      (n := (frame p).length) (by omega)
    have hsize : q'.pimpl.length = (frame p).length := by
      rw [hp', hp, h.unread_eq]
      simp
    rw [Answered]
    apply ObjM.Wp.bind_pure hq'
    apply ObjM.Wp.returns_bind (readImpl_receives hr (hc'.trans hc) hsize)
    intro c' s₁ hr
    obtain ⟨q'', hq'', rfl, hw, hy'⟩ := hr
    obtain ⟨c', hon, hu, hcur, hresp⟩ := assertActualSize_frame o hp32
      (c := { c with request := q'' }) hq'' (fun _ => readWithSize o [] .plain (writeWithSize o) d)
    apply ObjM.Wp.of_pure hon
    intro s₂ hs₂
    obtain ⟨hw', hy''⟩ := (Transport.waiting_stable ps' _).steps ⟨hw, hy'.trans hy⟩ hs₂
    refine ⟨rfl, p, ps', rfl, hu, hcur, ?_, hw', ?_⟩
    · rw [hresp]
      exact h.flushed
    · rw [hy'']
      exact h.yielded

theorem connection_read (o : ByteOrder) (d : Nat) (tr : Transport) (n : Nat) :
    (tr.connection o d : Virtual U).read n = readWithSize o [] .plain (writeWithSize o) d := by
  cases tr <;> rfl

/-- After an extraction of `bs` that the user was not shown yet. -/
def Holding (tr : Transport) (payloads : List Bytes) (unread : Bytes) (ps : List Bytes) (bs : Bytes)
    (c : Connection) (s : Net) : Prop :=
  Reading tr payloads unread ps c { s with yielded := s.yielded ++ bs }

theorem holding_stable (unread : Bytes) (ps : List Bytes) (bs : Bytes) (c : Connection) :
    (net tr Answers).Stable (Holding tr payloads unread ps bs c) := by
  intro s s' h he
  obtain ⟨hw, hy⟩ := Transport.waiting_stable ps s.yielded s s' ⟨h.waiting, rfl⟩ he
  refine ⟨h.unread_eq, h.cursor_le, h.flushed, hw, ?_⟩
  rw [hy]
  exact h.yielded

theorem unread_extracts {n : Nat} {m : ConnM Bytes Bytes} (hn : n ≤ unread.length)
    (h : Reading tr payloads unread ps c s)
    (hm : c.request.dataExtracted + n ≤ c.request.pimpl.length →
      m.on c = .pure (.ok (c.request.unread.take n),
        { request := { c.request with dataExtracted := c.request.dataExtracted + n }
          response := c.response
          extracted := c.extracted ++ c.request.unread.take n })) :
    m.Wp (net tr Answers) (Yields payloads) (fun r c' s' => r = .ok (unread.take n) ∧
      Holding tr payloads (unread.drop n) ps (unread.take n) c' s') c s := by
  have hle : c.request.dataExtracted + n ≤ c.request.pimpl.length := by
    have hlen := c.request.unread_length
    have hcur := h.cursor_le
    rw [h.unread_eq] at hlen
    omega
  apply ObjM.Wp.of_pure (hm hle)
  intro s' he
  refine ⟨by rw [h.unread_eq], ?_⟩
  apply (holding_stable _ _ _ _).steps _ he
  refine ⟨?_, hle, h.flushed, h.waiting, ?_⟩
  · rw [← h.unread_eq, StackRequest.unread, StackRequest.unread, List.drop_drop]
  · rw [List.append_assoc, ← List.append_assoc (unread.take n), List.take_append_drop]
    exact h.yielded

theorem extractData_refills (o : ByteOrder) (d : Nat) {n : Nat} (hn : 0 < n) (hfit : n < 2 ^ 63)
    (hps : ∀ p ∈ ps, p.length + 4 < 2 ^ 32) (hle : ∀ p ∈ ps.head?, n ≤ p.length)
    (h : Reading tr payloads [] ps c s) :
    (Connection.extractData (tr.connection o (d + 1)).read n).Wp (net tr Announced)
      (Yields payloads)
      (fun r c' s' => ∃ p ps', ps = p :: ps' ∧ r = .ok (p.take n) ∧
        Holding tr payloads (p.drop n) ps' (p.take n) c' s') c s := by
  apply extractData_refill h.cursor_le hfit (by rw [h.unread_eq]; exact hn)
  rw [connection_read]
  apply ObjM.Wp.returns_bind (readWithSize_refills o d hps h)
  intro c' s' hr
  obtain ⟨p, ps', rfl, h'⟩ := hr
  apply (unread_extracts (hle p rfl) h' stackExtractData_ok).mono
  intro _ _ _ hI
  obtain ⟨hr, h''⟩ := hI
  exact ⟨p, ps', rfl, hr, h''⟩

theorem yield_bind {m : ConnM Bytes Bytes} {f : Bytes → ConnM Bytes α} (bs unread : Bytes)
    (ps : List Bytes) {Q : Except Exn α → Connection → Net → Prop}
    (hm : m.Wp (net tr Answers) (Yields payloads)
      (fun r c' s' => r = .ok bs ∧ Holding tr payloads unread ps bs c' s') c s)
    (hf : ∀ c' s', Reading tr payloads unread ps c' s' →
      (f bs).Wp (net tr Answers) (Yields payloads) Q c' s') :
    ((do let bs ← m; report bs; return bs) >>= f).Wp (net tr Answers) (Yields payloads) Q c s := by
  rw [bind_assoc]
  apply ObjM.Wp.returns_bind hm
  intro c' s' h
  rw [bind_assoc]
  apply ObjM.Wp.invoke_bind
  intro s₁ hs
  have h₁ := (holding_stable _ _ _ _).steps h hs
  refine ⟨⟨_, h₁.yielded⟩, ?_⟩
  intro _ s₂ hr
  have hs₂ : s₂ = { s₁ with yielded := s₁.yielded ++ bs } := hr
  rw [pure_bind, hs₂]
  exact hf c' _ h₁

theorem yielding_call (V : Virtual Bytes) (n : Nat) (k : Bytes → Extraction α) :
    V.yielding (.call n k) = (do
      let bs ← Connection.extractData V.read n
      report bs
      return bs) >>= fun bs => V.yielding (k bs) := rfl

/-- Aligned extractions yield the payloads when each refill is told the size of the next frame. -/
theorem yielding_reads (o : ByteOrder) (d : Nat) {t : Extraction α} (ht : t.SizesFit)
    (hps : ∀ p ∈ ps, p.length + 4 < 2 ^ 32) (hal : Aligned t unread ps)
    (h : Reading tr payloads unread ps c s) :
    ((tr.connection o (d + 1)).yielding t).Wp (net tr Announced) (Yields payloads)
      (fun r _ _ => ∃ a, r = .ok a) c s := by
  induction t generalizing unread ps c s with
  | pure a => exact ObjM.Wp.of_pure (ObjM.on_pure a c) (fun _ _ => ⟨a, rfl⟩)
  | call n k ih =>
    rw [yielding_call]
    by_cases hn : n ≤ unread.length
    · rw [Aligned, if_pos hn] at hal
      exact yield_bind _ _ _ (unread_extracts hn h (extractData_unread _))
        (fun c' s' h' => ih _ (ht.2 _) hps hal h')
    · rw [Aligned, if_neg hn] at hal
      obtain ⟨rfl, hal⟩ := hal
      have hpos : 0 < n := Nat.lt_of_not_le hn
      have hle := fun p hp => (hal p hp).1
      cases ps with
      | nil =>
        -- Nothing is left to arrive: `available()` is never told of a frame.
        rw [bind_assoc]
        apply ObjM.Wp.andThen (extractData_refills o d hpos ht.1 hps hle h)
        · intro _ _ _ hr
          obtain ⟨_, _, he, _⟩ := hr
          cases he
        · intro _ _ _ _ hI
          obtain ⟨_, _, he, _⟩ := hI
          cases he
      | cons p ps' =>
        apply yield_bind (p.take n) (p.drop n) ps'
        · apply (extractData_refills o d hpos ht.1 hps hle h).mono
          intro _ _ _ hx
          obtain ⟨_, _, he, h'⟩ := hx
          cases he
          exact h'
        · intro c' s' h'
          exact ih _ (ht.2 _) (fun q hq => hps q (List.mem_cons_of_mem _ hq)) (hal p rfl).2 h'

theorem Transport.Carries.reading (h : tr.Carries payloads s) :
    Reading tr payloads [] payloads {} s := by
  refine ⟨rfl, Nat.le_refl _, rfl, ?_, ?_⟩
  · cases tr with
    | tcp => rw [Waiting, h.1, h.2.2]; rfl
    | udp => rw [Waiting, h.1, h.2.2]; rfl
  · have hy : s.yielded = [] := by
      cases tr with
      | tcp => exact h.2.1
      | udp => exact h.2.1
    rw [hy]
    rfl

/-- When each refill comes with nothing unread, is told the size of the next frame and needs no
more than its payload, the reader does not depend on the timing of the packets. It never enters
itself again: with `d = 0` that would end in `stackOverflow`. -/
theorem sized_reader_reads (tr : Transport) (o : ByteOrder) (d : Nat) (Ts : List Ty)
    (payloads : List Bytes) (s : Net) (hs : tr.Carries payloads s)
    (hps : ∀ p ∈ payloads, p.length + 4 < 2 ^ 32) (hal : Aligned (readAll o Ts) [] payloads) :
    ReadsPayloads (net tr Announced) (tr.connection o (d + 1)) (readAll o Ts) payloads s := by
  have h := yielding_reads o d (readAll_sizesFit o Ts) hps hal hs.reading
  constructor
  · intro c bs k s' hrun
    have hy : Yields payloads s' (c, .report bs) := Prog.Wp.called h hrun
    exact hy
  · intro r c s' hrun
    exact Prog.Wp.result h hrun

theorem two_shorts_read :
    ReadsPayloads (net .tcp Announced) (Transport.tcp.connection .little 1)
      (readAll .little [.num .short, .num .short]) [[1, 0], [2, 0]]
      { coming := [[6, 0, 0], [0, 1], [0, 6, 0, 0, 0, 2, 0]] } :=
  sized_reader_reads .tcp .little 0 _ _ _ (by simp [Transport.Carries, frame, leBytes])
    (by simp) ⟨rfl, fun p hp => by cases hp; exact ⟨by decide, rfl, fun p hp => by
      cases hp; exact ⟨by decide, trivial⟩⟩⟩

/-- `available()` answers four bytes or more, but not the size of the frame at the head. -/
def Missized (arrived : Bytes) (k : Nat) : Prop :=
  4 ≤ k ∧ k < 2 ^ 63 ∧ k ≠ leNat (arrived.take 4)

/-- The calls that a stream answers without waiting for more, `available()` with a wrong size. -/
def Answerable (s : Net) : Connection × SocketCall Bytes → Prop
  | (_, .available) => ∃ k, k ≤ s.arrived.flatten.length ∧ Missized s.arrived.flatten k
  | (_, .receive size) => 0 < size ∧ s.arrived.flatten ≠ []
  | _ => False

theorem tcp_answers (s : Net) (q : Connection × SocketCall Bytes) (h : Answerable s q) :
    ∃ r s', (net .tcp Missized).answer s q r s' := by
  obtain ⟨c, call⟩ := q
  cases call with
  | send => cases h
  | report => cases h
  | available =>
    obtain ⟨k, hk⟩ := h
    exact ⟨some k, s, rfl, hk⟩
  | receive size =>
    obtain ⟨hsize, hne⟩ := h
    have hpos := List.length_pos_iff.mpr hne
    refine ⟨some ⟨s.arrived.flatten.take size, ?_, List.length_take_le _ _⟩, _,
      s.arrived.flatten.drop size, (List.take_append_drop _ _).symm, rfl⟩
    rw [List.length_take]
    omega

theorem arrived_steps (h : ReflTransGen (net tr Answers).env s s') :
    ∃ more, s'.arrived.flatten = s.arrived.flatten ++ more := by
  induction h with
  | refl => exact ⟨[], (List.append_nil _).symm⟩
  | tail _ he ih =>
    obtain ⟨more, hm⟩ := ih
    obtain ⟨b, bs, _, rfl⟩ := he
    refine ⟨more ++ b, ?_⟩
    rw [List.flatten_append, hm, List.flatten_singleton, List.append_assoc]

theorem readImpl_takes {A : Bytes} (hk : k ≤ A.length) (hs : s.arrived.flatten = A)
    (hc : c.request.dataExtracted = 0) (hsize : c.request.pimpl.length = k) :
    (readWithoutSizeImpl k 0).Wp (net .tcp Missized) Answerable
      (fun r c' _ => r = .ok () ∧ ∃ q, q.Holds (A.take k) ∧ c' = { c with request := q }) c s := by
  apply readImpl_fills (J := fun got s' => ∃ more, got ++ s'.arrived.flatten = A ++ more)
  · intro got s₁ s₂ hI henv
    obtain ⟨more, he⟩ := hI
    obtain ⟨more', hm⟩ := arrived_steps (.single henv)
    exact ⟨more ++ more', by rw [hm, ← List.append_assoc, he, List.append_assoc]⟩
  · intro got q s₁ _ hlt hx
    obtain ⟨more, he⟩ := hx
    refine ⟨⟨by omega, ?_⟩, ?_⟩
    · intro hnil
      have hlen := congrArg List.length he
      rw [hnil, List.append_nil, List.length_append] at hlen
      omega
    · intro r s₂ ha
      cases r with
      | none => cases ha
      | some bs =>
        obtain ⟨rest, hr, rfl⟩ := ha
        refine ⟨more, ?_⟩
        rw [List.flatten_singleton, List.append_assoc, ← hr]
        exact he
  · intro got q s₁ hgot hq hspec
    obtain ⟨more, he⟩ := hspec
    have htake := congrArg (List.take k) he
    rw [List.take_left' hgot, List.take_append_of_le_length hk] at htake
    exact ⟨rfl, q, htake ▸ hq, rfl⟩
  · exact hc
  · exact hsize
  · exact ⟨[], by rw [hs, List.append_nil]; rfl⟩

theorem assertActualSize_missmatch (o : ByteOrder) {c : Connection} (hc : c.request.Holds bs)
    (h4 : 4 ≤ bs.length) (hne : size ≠ leNat (bs.take 4)) (read : Nat → ConnM U Unit) :
    ∃ c', (assertActualSize o (Connection.extractData read) size .plain).on c =
      .pure (.error (.logicError "Packet sizes missmatch"), c') := by
  have hlen : (bs.take 4).length = Num.unsignedInt.size := by
    rw [List.length_take, Nat.min_eq_left h4]
    rfl
  have hhead := doIstream_consume o .unsignedInt hlen (bs.drop 4)
  rw [List.take_append_drop, ← hc.unread] at hhead
  obtain ⟨c', hon, _⟩ := interp_consume read hc.cursor_le hhead
  have hlt : leNat (bs.take 4) < 2 ^ 32 := by
    have hlt := leNat_lt (bs.take 4)
    rw [hlen] at hlt
    exact hlt
  refine ⟨c', ?_⟩
  rw [assertActualSize, ObjM.on_bind_pure hon, BitVec.toNat_ofNat, if_pos]
  · rfl
  · rw [hc.unread]
    exact fun he => hne (he.trans (Nat.mod_eq_of_lt hlt))

/-- When `available()` answers anything else than the size of the frame, the check throws. -/
theorem readWithSize_missmatch (o : ByteOrder) (d : Nat) {c : Connection}
    (hu : c.request.unread = []) (hcur : c.request.dataExtracted ≤ c.request.pimpl.length)
    (hresp : c.response.pimpl = []) (hs : ∀ s', ReflTransGen (net .tcp Missized).env s s' →
      Answerable s' (c, .available)) :
    (readWithSize o [] .plain (writeWithSize o) (d + 1)).Wp (net .tcp Missized) Answerable
      (fun r _ _ => r = .error (.logicError "Packet sizes missmatch")) c s := by
  rw [readWithSize]
  apply ObjM.Wp.bind_pure (writeWithSize_empty o hresp)
  obtain ⟨q, hq, hp, hc⟩ := shrink_ok (U := Bytes) hcur
  apply ObjM.Wp.bind_pure hq
  apply available_bind
  intro s' hs'
  refine ⟨hs s' hs', ?_⟩
  intro r s'' ha
  cases r with
  | none => cases ha
  | some k =>
    obtain ⟨rfl, hk, h4, h63, hne⟩ := ha
    obtain ⟨q', hq', hp', hc'⟩ := resize_ok (U := Bytes) (c := { c with request := q }) h63
    have hsize : q'.pimpl.length = k := by
      rw [hp', hp, hu]
      simp
    rw [Answered]
    apply ObjM.Wp.bind_pure hq'
    apply ObjM.Wp.returns_bind (readImpl_takes hk rfl (hc'.trans hc) hsize)
    intro c' s₁ hr
    obtain ⟨q'', hq'', rfl⟩ := hr
    obtain ⟨c', hon⟩ := assertActualSize_missmatch o (c := { c with request := q'' }) hq''
      (by rw [List.length_take]; omega)
      (by rw [List.take_take, Nat.min_eq_left h4]; exact hne)
      (fun _ => readWithSize o [] .plain (writeWithSize o) d)
    exact ObjM.Wp.of_pure hon (fun _ _ => rfl)

theorem yielding_missmatch (o : ByteOrder) (d : Nat) {n : Nat} (hn : 0 < n) (hfit : n < 2 ^ 63)
    (k : Bytes → Extraction α) (hs : ∀ s' c, ReflTransGen (net .tcp Missized).env s s' →
      Answerable s' (c, .available)) :
    ((Transport.tcp.connection o (d + 1)).yielding (.call n k)).Wp (net .tcp Missized) Answerable
      (fun r _ _ => r = .error (.logicError "Packet sizes missmatch")) {} s := by
  rw [yielding_call, bind_assoc]
  apply ObjM.Wp.throws_bind
  apply extractData_refill (c := {}) (Nat.le_refl _) hfit hn
  rw [connection_read]
  apply ObjM.Wp.throws_bind
  exact readWithSize_missmatch o d rfl (Nat.le_refl _) rfl (fun s' h => hs s' _ h)

theorem net_steps (h : ReflTransGen (Prog.Step (net tr Answers)) x y) :
    ReflTransGen (Prog.Step (net tr fun _ _ => True)) x y := by
  induction h with
  | refl => exact .refl
  | tail _ hxy ih =>
    apply ih.tail
    cases hxy with
    | env he => exact .env he
    | @call s o r s' k ha =>
      obtain ⟨c, call⟩ := o
      apply Prog.Step.call
      cases call with
      | send => exact ha
      | receive =>
        cases r with
        | none => exact ha
        | some bs => exact ha
      | report => exact ha
      | available =>
        cases r with
        | none => exact ha
        | some k => exact ⟨ha.1, ha.2.1, trivial⟩

def coalescedFrames : Net := { coming := [frame [1, 0] ++ frame [2, 0]] }

/-- Two frames that arrive together are taken for one. -/
theorem coalesced_frames_throw : Transport.tcp.Carries [[1, 0], [2, 0]] coalescedFrames ∧
    ¬ ReadsPayloads (net .tcp fun _ _ => True) (Transport.tcp.connection .little 8)
      (readAll .little [.num .short, .num .short]) [[1, 0], [2, 0]] coalescedFrames := by
  refine ⟨by simp [Transport.Carries, coalescedFrames], ?_⟩
  intro h
  let arrived : Net := { arrived := [frame [1, 0] ++ frame [2, 0]] }
  have hquiet : ∀ s', ReflTransGen (net .tcp Missized).env arrived s' → s' = arrived := by
    intro s' hs
    induction hs with
    | refl => rfl
    | tail _ he ih =>
      subst ih
      obtain ⟨_, _, hc, _⟩ := he
      cases hc
  have hw : ((Transport.tcp.connection .little 8).yielding
      (readAll .little [.num .short, .num .short])).Wp (net .tcp Missized) Answerable
      (fun r _ _ => r = .error (.logicError "Packet sizes missmatch")) {} arrived := by
    apply yielding_missmatch .little 7 (by decide) (by decide)
    intro s' c hs
    rw [hquiet s' hs]
    exact ⟨12, by decide, by decide, by decide, by decide⟩
  obtain ⟨⟨r, c⟩, s', hrun, hr⟩ := Prog.Wp.exists_result hw tcp_answers
  obtain ⟨a, ha⟩ := h.returns r c s' (.head (.env ⟨_, _, rfl, rfl⟩) (net_steps hrun))
  rw [ha] at hr
  cases hr

end CppAlls
