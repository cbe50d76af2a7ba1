import CppAlls.Core.SizedReader

namespace CppAlls
set_option autoImplicit true

open LittleEndian Interaction Relation ConnM

/-- The bytes that a stream has still to give. -/
def Net.stream (s : Net) : Bytes := s.arrived.flatten ++ s.coming.flatten

/-- The user has extracted all that was unread. -/
def Connection.usedUp (c : Connection) : Connection :=
  { c with request := { c.request with dataExtracted := c.request.pimpl.length } }

/-- Each call of `read` returns, takes one frame from the stream and leaves its payload unread,
however the stream is cut up. The user extracts the payload before the next call. -/
def ReadsFrames (o : ByteOrder) (garbage : Bytes) (d : Nat) : List Bytes → Connection → Net → Prop
  | [], _, _ => True
  | p :: ps, c, s =>
    (((tcpSslConnection o garbage d : Virtual Bytes).read p.length).on c).Succeeds
      (net .tcp fun _ _ => True) (fun _ _ => True)
      (fun r s' => r.1 = .ok () ∧ r.2.request.unread = p ∧ s'.stream = (ps.map frame).flatten ∧
        ReadsFrames o garbage d ps r.2.usedUp s') s

/-- What the call for the size has left of the stream `bytes`: up to four bytes are gone, and
`size` is what they say only if there are four of them. -/
def Measured (bytes : Bytes) (size : Nat) (s : Net) : Prop :=
  ∃ head, bytes = head ++ s.stream ∧ head.length ≤ 4 ∧ size < 2 ^ 32 ∧
    (head.length = 4 → size = leNat head)

theorem stream_stable (A : Bytes) : (net tr Answers).Stable (fun s => A = s.stream) := by
  intro s s' h he
  obtain ⟨b, bs, hc, rfl⟩ := he
  rw [h, Net.stream, Net.stream, hc]
  simp

theorem stream_receives (h : Transport.tcp.Receives n s bs s') : s.stream = bs ++ s'.stream := by
  obtain ⟨rest, ha, rfl⟩ := h
  simp [Net.stream, ha]

theorem measured_stable (bytes : Bytes) (size : Nat) :
    (net tr Answers).Stable (Measured bytes size) := by
  intro s s' h he
  obtain ⟨head, hb, hx⟩ := h
  refine ⟨head, ?_, hx⟩
  rw [hb, stream_stable s.stream s s' rfl he]

theorem dataSize_measures (o : ByteOrder) (hg : garbage.length = Num.unsignedInt.size)
    (hs : bytes = s.stream) :
    (dataSize o garbage .ssl).Wp (net .tcp Answers) (fun _ _ => True)
      (fun r c' s' => ∃ size, r = .ok size ∧ c' = c ∧ Measured bytes size s') c s := by
  rw [dataSize]
  apply receive_bind
  intro s₁ h₁
  refine ⟨trivial, ?_⟩
  intro r s₂ ha
  cases r with
  | none => cases ha
  | some bs =>
    have hlen : (bs.1 ++ garbage.drop bs.1.length).length = Num.unsignedInt.size := by
      have hle := bs.2.2
      rw [List.length_append, List.length_drop, hg]
      omega
    have hsize := o.littleToNative_ofObjectBytes hlen
    rw [Answered]
    apply ObjM.Wp.of_pure (ObjM.on_pure _ _)
    intro s₃ h₃
    refine ⟨_, rfl, rfl, (measured_stable _ _).steps ?_ h₃⟩
    refine ⟨bs, ?_, bs.2.2, ?_, ?_⟩
    · rw [(stream_stable bytes).steps hs h₁, stream_receives (n := 4) ha]
    · rw [hsize]
      have hlt := leNat_lt (bs.1 ++ garbage.drop bs.1.length)
      rw [hlen] at hlt
      exact hlt
    · intro h4
      have hd : garbage.drop bs.1.length = [] := List.drop_eq_nil_of_le (by rw [hg, h4]; rfl)
      rw [hsize, hd, List.append_nil]

theorem readImpl_measured (hm : Measured bytes size s) (hcur : c.request.dataExtracted = 0)
    (hsize : c.request.pimpl.length = size) :
    (readWithoutSizeImpl size 0).Wp (net .tcp Answers) (fun _ _ => True)
      (fun r c' s' => r = .ok () ∧ ∃ head, bytes = head ++ c'.request.unread ++ s'.stream ∧
        (head.length = 4 → c'.request.unread.length = leNat head)) c s := by
  obtain ⟨head, hb, h4, hlt, hhead⟩ := hm
  apply readImpl_fills (J := fun got s' => s.stream = got ++ s'.stream)
  · intro got s₁ s₂ hI he
    rw [hI, stream_stable s₁.stream s₁ s₂ rfl he]
  · intro got q s₁ _ _ hI
    refine ⟨trivial, ?_⟩
    intro r s₂ ha
    cases r with
    | none => cases ha
    | some bs =>
      have hr := stream_receives (n := size - got.length) ha
      rw [hr, ← List.append_assoc] at hI
      exact hI
  · intro got q s₁ hgot hq hI
    refine ⟨rfl, head, ?_, ?_⟩
    · rw [hq.unread, List.append_assoc, ← hI]
      exact hb
    · intro h
      rw [hq.unread, hgot]
      exact hhead h
  · exact hcur
  · exact hsize
  · rfl

/-- A call that returns has taken up to four bytes for the size, and then as many bytes as the
size says. -/
theorem readWithSize_ssl (o : ByteOrder) (hg : garbage.length = Num.unsignedInt.size) (d : Nat)
    (hcur : c.request.dataExtracted ≤ c.request.pimpl.length) (hresp : c.response.pimpl = []) :
    (readWithSize o garbage .ssl (writeWithSize o) d).Wp (net .tcp Answers) (fun _ _ => True)
      (fun r c' s' => r = .ok () → ∃ head, s.stream = head ++ c'.request.unread ++ s'.stream ∧
        (head.length = 4 → c'.request.unread.length = leNat head)) c s := by
  cases d with
  | zero =>
    apply ObjM.Wp.of_pure rfl
    intro _ _ h
    cases h
  | succ d =>
    rw [readWithSize]
    apply ObjM.Wp.bind_pure (writeWithSize_empty o hresp)
    obtain ⟨q, hq, hp, hc⟩ := shrink_ok (U := Bytes) hcur
    apply ObjM.Wp.bind_pure hq
    apply (dataSize_measures o hg rfl).andThen
    · intro size c₁ s₁ h
      obtain ⟨_, he, rfl, hm⟩ := h
      cases he
      have hlt : size < 2 ^ 63 := by
        obtain ⟨_, _, _, hlt, _⟩ := hm
        omega
      obtain ⟨q', hq', hp', hc'⟩ := resize_ok (U := Bytes) (c := { c with request := q }) hlt
      apply ObjM.Wp.bind_pure hq'
      apply ObjM.Wp.returns_bind (readImpl_measured hm (hc'.trans hc) ?_)
      · intro c₂ s₂ h
        apply ObjM.Wp.of_pure rfl
        intro s₃ h₃ _
        obtain ⟨head, hb, hl⟩ := h
        refine ⟨head, ?_, hl⟩
        rw [hb, (stream_stable s₂.stream).steps rfl h₃]
      · rw [hp']
        simp only [List.length_append, List.length_take, List.length_replicate]
        omega
    · intro e c₁ s₁ s₂ h
      obtain ⟨_, he, _⟩ := h
      cases he

theorem frame_not_taken {rest head : Bytes} (hs : frame p ++ rest = head ++ p ++ rest)
    (hl : head.length = 4 → p.length = leNat head) : False := by
  have he := List.append_cancel_right hs
  rw [frame] at he
  have hhead := List.append_cancel_right he
  have h4 : head.length = 4 := by rw [← hhead, leBytes_length]
  have hp := hl h4
  rw [← hhead, leNat_leBytes] at hp
  omega

/-- No call takes one frame: the header is not taken off the size that it holds. -/
theorem not_readsFrames (o : ByteOrder) (hg : garbage.length = Num.unsignedInt.size) (d : Nat)
    (hcur : c.request.dataExtracted ≤ c.request.pimpl.length) (hresp : c.response.pimpl = [])
    (hs : Transport.tcp.Carries (p :: ps) s) : ¬ ReadsFrames o garbage d (p :: ps) c s := by
  intro h
  obtain ⟨⟨r, c'⟩, s', hrun⟩ := h.exists_result
  obtain ⟨hr, hu, hrest, _⟩ := h.result _ _ hrun
  obtain ⟨head, hb, hl⟩ := Prog.Wp.result (readWithSize_ssl o hg d hcur hresp) hrun hr
  have hstream : s.stream = frame p ++ (ps.map frame).flatten := by
    rw [Net.stream, hs.1, hs.2.2]
    rfl
  have hu' : c'.request.unread = p := hu
  rw [hstream, hrest, hu'] at hb
  rw [hu'] at hl
  exact frame_not_taken hb hl

/-- The sized reader of an SSL connection inverts the format of the frames on the empty stream
only. -/
theorem ssl_reads_frames (o : ByteOrder) (garbage : Bytes)
    (hg : garbage.length = Num.unsignedInt.size) (d : Nat) (payloads : List Bytes) (c : Connection)
    (hcur : c.request.dataExtracted ≤ c.request.pimpl.length) (hresp : c.response.pimpl = [])
    (s : Net) (hs : Transport.tcp.Carries payloads s) :
    ReadsFrames o garbage d payloads c s ↔ payloads = [] := by
  cases payloads with
  | nil => exact ⟨fun _ => rfl, fun _ => trivial⟩
  | cons p ps =>
    constructor
    · exact fun h => absurd h (not_readsFrames o hg d hcur hresp hs)
    · intro h
      cases h

def twoSslFrames : Net := { coming := [frame [1], frame [2]] }

theorem twoSslFrames_carries : Transport.tcp.Carries [[1], [2]] twoSslFrames := by
  simp [Transport.Carries, twoSslFrames]

/-- The empty stream is read back, and a stream of two frames is not. -/
theorem no_ssl_frames_read : (ReadsFrames .little [0, 0, 0, 0] 1 [] {} {} ↔ ([] : List Bytes) = []) ∧
    (ReadsFrames .little [0, 0, 0, 0] 1 [[1], [2]] {} twoSslFrames ↔
      ([[1], [2]] : List Bytes) = []) := by
  constructor
  · exact ssl_reads_frames .little [0, 0, 0, 0] rfl 1 [] {} (Nat.le_refl _) rfl {}
      (by simp [Transport.Carries])
  · exact ssl_reads_frames .little [0, 0, 0, 0] rfl 1 [[1], [2]] {} (Nat.le_refl _) rfl
      twoSslFrames twoSslFrames_carries

/-- The first call takes the header of the second frame along. -/
theorem ssl_frame_overread : Transport.tcp.Carries [[1], [2]] twoSslFrames ∧
    ¬ ReadsFrames .little [0, 0, 0, 0] 1 [[1], [2]] {} twoSslFrames :=
  ⟨twoSslFrames_carries, not_readsFrames .little rfl 1 (Nat.le_refl _) rfl twoSslFrames_carries⟩

end CppAlls
