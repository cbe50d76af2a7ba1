import CppAlls.Apps.EchoRounds

namespace CppAlls
set_option autoImplicit true

open LittleEndian Interaction Failing Relation ConnM Extraction EchoConnectionProcessorString

variable {o o' : ByteOrder} {s up down : Bytes} {c : Connection} {w w' : Served Callback}
variable {P : Served Callback → Connection × SocketCall (Bytes × Bytes) → Prop}

/-- Every call that is answered and shows nothing wrong satisfies `P`. -/
def Permits (o : ByteOrder) (P : Served Callback → Connection × SocketCall (Bytes × Bytes) → Prop) :
    Prop :=
  ∀ w x, (echoWorld o).Live w x → Echoed w x → P w x

theorem Permits.send (hP : Permits o' P) (hbs : bs ≠ []) : P w (c, .send bs) := by
  have hk : 0 < bs.length ∧ bs.length ≤ bs.length :=
    ⟨List.length_pos_of_ne_nil hbs, Nat.le_refl _⟩
  exact hP w _ (.inr ⟨some ⟨bs.length, hk⟩, _, rfl⟩) trivial

theorem Permits.receive (hP : Permits o' P) (h : Round s (message s) down w)
    (hdown : down.length < (message s).length) (hn : 0 < n) : P w (c, .receive n) := by
  refine hP w _ ?_ trivial
  rcases h.live (o := o') hdown with hst | hne
  · exact .inl hst
  · obtain ⟨b, rest, hout⟩ := List.exists_cons_of_ne_nil hne
    exact .inr ⟨some ⟨[b], Nat.one_pos, hn⟩, { w with outbound := rest }, hout, rfl⟩

/-- A flush puts the pending bytes on the stream, as far as their number fits 32 bits. -/
theorem writeWitoutSize_round (hP : Permits o' P) (hs : s.length < 2 ^ 32)
    (hup : up ++ c.response.pimpl <+: message s) (h : Round s up down w) :
    (writeWitoutSize : ConnM (Bytes × Bytes) Unit).Wp (echoWorld o') P
      (fun r c' w' => r = .ok () ∧ c' = { c with response := {} } ∧
        Round s (up ++ c.response.pimpl.take (c.response.pimpl.length % 2 ^ 32)) down w') c w := by
  have hpre (bs rest : Bytes) (he : c.response.pimpl.take (c.response.pimpl.length % 2 ^ 32) =
      bs ++ rest) : up ++ bs <+: message s := by
    apply List.IsPrefix.trans _ hup
    rw [← List.take_append_drop (c.response.pimpl.length % 2 ^ 32) c.response.pimpl, he,
      List.append_assoc, List.prefix_append_right_inj]
    exact List.prefix_append _ _
  apply writeWitoutSize_drains (J := fun bs w' => up ++ bs <+: message s ∧
    Round s (up ++ bs) down w')
  · intro bs w₁ w₂ hJ hst
    exact ⟨hJ.1, hJ.2.step hs hJ.1 hst⟩
  · intro bs rest w₁ he hne hJ
    refine ⟨hP.send hne, ?_⟩
    intro r w₂ hr
    cases r with
    | none => cases hr
    | some k =>
      have hw : w₂ = { w₁ with inbound := w₁.inbound ++ rest.take k } := hr
      have hk : rest.take k ≠ [] := by
        intro hnil
        rcases List.take_eq_nil_iff.mp hnil with h0 | h0
        · have := k.2.1
          omega
        · exact hne h0
      have hup' : up ++ (bs ++ rest.take k) <+: message s := by
        apply hpre _ (rest.drop k)
        rw [he, List.append_assoc, List.take_append_drop]
      refine ⟨hup', ?_⟩
      rw [hw, ← List.append_assoc]
      rw [← List.append_assoc] at hup'
      exact hJ.2.send hk hup'
  · exact fun w' hJ => ⟨rfl, rfl, hJ.2⟩
  · rw [List.append_nil]
    exact ⟨(List.prefix_append _ _).trans hup, h⟩

/-- A refill flushes the rest of the message, and takes the next bytes of the answer. -/
theorem readWithoutSize_round (hP : Permits o' P) (hs : s.length + 4 < 2 ^ 32)
    (hd : c.request.dataExtracted = c.request.pimpl.length)
    (hup : up ++ c.response.pimpl = message s) (hn : down.length + n ≤ (message s).length)
    (h : Round s up down w) :
    (readWithoutSize writeWitoutSize n : ConnM (Bytes × Bytes) Unit).Wp (echoWorld o') P
      (fun r c' w' => r = .ok () ∧ ∃ got q, got.length = n ∧ q.Holds got ∧
        c' = { c with request := q, response := {} } ∧ Round s (message s) (down ++ got) w')
      c w := by
  have hlen := message_length s
  have hresp : c.response.pimpl.length < 2 ^ 32 := by
    have hl := congrArg List.length hup
    rw [List.length_append] at hl
    omega
  have hstable (got : Bytes) : (echoWorld o').Stable (Round s (message s) (down ++ got)) :=
    Round.stable (by omega) (List.prefix_refl _)
  apply readWithoutSize_fills (J := fun got w' => Round s (message s) (down ++ got) w')
  · have hpre : up ++ c.response.pimpl <+: message s := hup ▸ List.prefix_refl _
    have hw := writeWitoutSize_round hP (by omega) hpre h
    rw [Nat.mod_eq_of_lt hresp, List.take_length, hup] at hw
    rw [List.append_nil]
    exact hw
  · exact Nat.le_of_eq hd
  · omega
  · exact hstable
  · intro got q w₂ _ hlt hJ
    refine ⟨hP.receive hJ (by rw [List.length_append]; omega) (by omega), ?_⟩
    intro r w₃ hr
    cases r with
    | none => cases hr
    | some bs =>
      obtain ⟨hout, hw₃⟩ : w₂.outbound = bs ++ w₃.outbound ∧
        w₃ = { w₂ with outbound := w₃.outbound } := hr
      have hround := hJ.receive hout (List.ne_nil_of_length_pos bs.2.1)
      rw [← hw₃, List.append_assoc] at hround
      exact hround
  · intro got q w₂ hgot hq hJ
    exact ⟨rfl, got, q, hgot, hq, rfl, hJ⟩

theorem extractData_round (hP : Permits o' P) (hs : s.length + 4 < 2 ^ 32)
    (hd : c.request.dataExtracted = c.request.pimpl.length)
    (hup : up ++ c.response.pimpl = message s) (hn : down.length + n ≤ (message s).length)
    (hpos : 0 < n ∨ c.response.pimpl = []) (h : Round s up down w) :
    (Connection.extractData (readWithoutSize writeWitoutSize) n).Wp (echoWorld o') P
      (fun r c' w' => (∃ bs, r = .ok bs ∧ bs.length = n ∧ Round s (message s) (down ++ bs) w') ∧
        c'.response.pimpl = [] ∧ c'.request.dataExtracted = c'.request.pimpl.length) c w := by
  have hlen := message_length s
  have hstable (got : Bytes) : (echoWorld o').Stable (Round s (message s) (down ++ got)) :=
    Round.stable (by omega) (List.prefix_refl _)
  have hu : c.request.unread = [] := by
    rw [StackRequest.unread, hd, List.drop_length]
  cases n with
  | zero =>
    have hnil := hpos.resolve_left (Nat.lt_irrefl 0)
    have hle : c.request.dataExtracted + 0 ≤ c.request.pimpl.length := Nat.le_of_eq hd
    rw [hnil, List.append_nil] at hup
    subst hup
    apply ObjM.Wp.of_pure (extractData_unread _ hle)
    intro w' he
    refine ⟨⟨_, rfl, by rw [List.take_zero, List.length_nil], ?_⟩, hnil, hd⟩
    rw [← List.append_nil down] at h
    exact (hstable []).steps h he
  | succ n =>
    apply extractData_refill (Nat.le_of_eq hd) (by omega) (by rw [hu]; exact Nat.succ_pos n)
    rw [hu]
    apply ObjM.Wp.returns_bind (readWithoutSize_round hP hs hd hup hn h)
    intro c' w₁ hr
    obtain ⟨got, q, hgot, hq, rfl, hw⟩ := hr
    have hle : q.dataExtracted + (n + 1) ≤ q.pimpl.length := by
      rw [hq.1, hq.2, hgot, Nat.zero_add]
    apply ObjM.Wp.of_pure (stackExtractData_ok hle)
    intro w' he
    refine ⟨⟨got, ?_, hgot, (hstable got).steps hw he⟩, rfl, ?_⟩
    · rw [hq.unread, ← hgot, List.take_length]
    · simp only [hq.1, hq.2, hgot, Nat.zero_add]

theorem operatorShr_round (hP : Permits o' P) (hs : s.length + 4 < 2 ^ 32)
    (hd : c.request.dataExtracted = c.request.pimpl.length)
    (hup : up ++ c.response.pimpl = message s) (h : Round s up [] w) :
    ((tcpConnectionRaw : Virtual (Bytes × Bytes)).operatorShr o .string).Wp (echoWorld o') P
      (fun r c' w' => r = .ok s ∧ Round s (message s) (message s) w' ∧
        c'.response.pimpl = [] ∧ c'.request.dataExtracted = c'.request.pimpl.length) c w := by
  have hlen := message_length s
  change (Connection.extractData (readWithoutSize writeWitoutSize) 4 >>= fun bs =>
    Virtual.run tcpConnectionRaw (extractData (BitVec.ofNat (8 * Num.unsignedInt.size)
      (o.littleToNative 4 (o.ofObjectBytes bs))).toNat)).Wp _ _ _ _ _
  apply ObjM.Wp.andThen (extractData_round hP hs hd hup (by rw [List.length_nil]; omega)
    (.inl (by decide)) h)
  · intro header c₁ w₁ hr
    obtain ⟨⟨_, he, hheader, hw₁⟩, hresp₁, hd₁⟩ := hr
    cases he
    rw [List.nil_append] at hw₁
    have hhead : header = leBytes 4 s.length := by
      obtain ⟨t, ht⟩ := hw₁.down_prefix
      exact (List.append_inj ht (hheader.trans (leBytes_length 4 _).symm)).1
    have hsize : (BitVec.ofNat (8 * Num.unsignedInt.size)
        (o.littleToNative 4 (o.ofObjectBytes header))).toNat = s.length := by
      rw [o.littleToNative_ofObjectBytes hheader, hhead,
        leNat_leBytes_of_lt (show s.length < 256 ^ 4 by omega)]
      exact Nat.mod_eq_of_lt (show s.length < 2 ^ 32 by omega)
    rw [hsize]
    change (Connection.extractData (readWithoutSize writeWitoutSize) s.length >>= fun bs =>
      (pure bs : ConnM (Bytes × Bytes) Bytes)).Wp _ _ _ _ _
    apply ObjM.Wp.andThen (extractData_round hP hs hd₁ (by rw [hresp₁, List.append_nil])
      (by omega) (.inr hresp₁) hw₁)
    · intro bs c₂ w₂ hI
      obtain ⟨⟨_, he, hbs, hw₂⟩, hresp₂, hd₂⟩ := hI
      cases he
      have hall : header ++ bs = message s := by
        apply hw₂.down_prefix.eq_of_length
        rw [List.length_append]
        omega
      have hbody : bs = s := by
        rw [hhead] at hall
        exact (List.append_right_inj _).mp hall
      rw [hall] at hw₂
      apply ObjM.Wp.of_pure (ObjM.on_pure bs c₂)
      intro w' he
      refine ⟨congrArg _ hbody, ?_, hresp₂, hd₂⟩
      exact (Round.stable (by omega) (List.prefix_refl _)).steps hw₂ he
    · intro _ _ _ _ hx
      obtain ⟨⟨_, he, _⟩, _⟩ := hx
      cases he
  · intro _ _ _ _ hq
    obtain ⟨⟨_, he, _⟩, _⟩ := hq
    cases he

theorem operatorShl_message (hs : s.length < 2 ^ 32) (hresp : c.response.pimpl = []) :
    (Connection.operatorShl o .string s : ConnM (Bytes × Bytes) Unit).on c =
      .pure (.ok (), { c with response := ⟨message s⟩ }) := by
  have ha := Ty.operatorShl_appends o .string s hs c.response
  rw [hresp, List.nil_append] at ha
  rw [Connection.operatorShl, onResponse_on, ha]

theorem round_bind (hP : Permits o' P) (hs : s.length + 4 < 2 ^ 32)
    {f : Bytes → ConnM (Bytes × Bytes) (List Bytes)}
    {Q : Except Exn (List Bytes) → Connection → Served Callback → Prop}
    (hresp : c.response.pimpl = []) (hd : c.request.dataExtracted = c.request.pimpl.length)
    (h : Round s [] [] w)
    (hf : ∀ c' w', c'.response.pimpl = [] →
      c'.request.dataExtracted = c'.request.pimpl.length → (∀ s', Round s' [] [] w') →
      (f s).Wp (echoWorld o') P Q c' w') :
    (do Connection.operatorShl o .string s
        let r ← tcpConnectionRaw.operatorShr o .string
        report (s, r)
        f r : ConnM (Bytes × Bytes) (List Bytes)).Wp (echoWorld o') P Q c w := by
  apply ObjM.Wp.bind_pure (operatorShl_message (by omega) hresp)
  apply ObjM.Wp.returns_bind (operatorShr_round (c := { c with response := ⟨message s⟩ }) hP hs hd
    (List.nil_append _) h)
  intro c₁ w₁ hr
  obtain ⟨hw₁, hresp₁, hd₁⟩ := hr
  apply ObjM.Wp.invoke_bind
  intro w₂ hsteps
  have hw₂ := (Round.stable (by omega) (List.prefix_refl _)).steps hw₁ hsteps
  obtain ⟨hin, hout, hidle, hnext⟩ := hw₂.done
  refine ⟨hP w₂ _ (.inr ⟨(), w₂, rfl⟩) ⟨rfl, hresp₁, ?_, hin, hout, hidle⟩, ?_⟩
  · rw [StackRequest.unread, hd₁, List.drop_length]
  · intro _ w₃ hw₃
    rw [show w₃ = w₂ from hw₃]
    exact hf c₁ w₂ hresp₁ hd₁ hnext

theorem echoClient_round (hP : Permits o' P) (hss : ∀ s ∈ ss, s.length + 4 < 2 ^ 32)
    (hresp : c.response.pimpl = []) (hd : c.request.dataExtracted = c.request.pimpl.length)
    (h : ∀ s, Round s [] [] w) :
    (echoClient o tcpConnectionRaw ss).Wp (echoWorld o') P (fun r _ _ => r = .ok ss) c w := by
  induction ss generalizing c w with
  | nil => exact ObjM.Wp.of_pure (ObjM.on_pure [] c) (fun _ _ => rfl)
  | cons s ss ih =>
    obtain ⟨hs, hss⟩ := List.forall_mem_cons.mp hss
    apply round_bind hP hs hresp hd (h s)
    intro c' w' hresp' hd' h'
    apply ObjM.Wp.andThen (ih hss hresp' hd' h')
    · intro rs c'' w'' he
      cases he
      exact ObjM.Wp.of_pure (ObjM.on_pure _ c'') (fun _ _ => rfl)
    · intro _ _ _ _ he
      cases he

/-- Of a message of `2 ^ 32` bytes or more fewer than four bytes are sent, and nothing comes. -/
theorem operatorShr_stuck (hs : s.length < 2 ^ 32) (hlong : 2 ^ 32 ≤ s.length + 4)
    (hd : c.request.dataExtracted = c.request.pimpl.length)
    (hresp : c.response.pimpl = message s) (h : Round s [] [] w) :
    ((tcpConnectionRaw : Virtual (Bytes × Bytes)).operatorShr o .string).Wp (echoWorld o')
      (fun _ _ => True) (fun _ _ _ => False) c w := by
  have hlen := message_length s
  have hfew : (c.response.pimpl.take (c.response.pimpl.length % 2 ^ 32)).length < 4 := by
    rw [List.length_take, hresp]
    omega
  have hu : c.request.unread = [] := by
    rw [StackRequest.unread, hd, List.drop_length]
  have hpre : c.response.pimpl.take (c.response.pimpl.length % 2 ^ 32) <+: message s := by
    rw [hresp]
    exact List.take_prefix _ _
  change (Connection.extractData (readWithoutSize writeWitoutSize) 4 >>= fun bs =>
    Virtual.run tcpConnectionRaw (extractData (BitVec.ofNat (8 * Num.unsignedInt.size)
      (o.littleToNative 4 (o.ofObjectBytes bs))).toNat)).Wp _ _ _ _ _
  apply ObjM.Wp.stuck_bind
  apply extractData_refill (Nat.le_of_eq hd) (by decide) (by rw [hu]; decide)
  rw [hu, List.length_nil, Nat.sub_zero]
  apply ObjM.Wp.stuck_bind
  apply readWithoutSize_fills (J := fun got w' => got = [] ∧
    Round s (c.response.pimpl.take (c.response.pimpl.length % 2 ^ 32)) [] w')
  · have hup : [] ++ c.response.pimpl <+: message s := hresp ▸ List.prefix_refl _
    apply (writeWitoutSize_round (fun _ _ _ _ => trivial) hs hup h).mono
    intro r c' w₁ hr
    exact ⟨hr.1, hr.2.1, rfl, hr.2.2⟩
  · exact Nat.le_of_eq hd
  · decide
  · intro got w₁ w₂ hJ hst
    exact ⟨hJ.1, hJ.2.step hs hpre hst⟩
  · intro got _ w₂ _ _ hJ
    refine ⟨trivial, ?_⟩
    intro r w₃ hr
    cases r with
    | none => cases hr
    | some bs =>
      obtain ⟨hout, _⟩ : w₂.outbound = bs ++ w₃.outbound ∧
        w₃ = { w₂ with outbound := w₃.outbound } := hr
      have hnil := (List.append_eq_nil_iff.mp (hout.symm.trans (hJ.2.outbound_nil hfew))).1
      exact absurd hnil (List.ne_nil_of_length_pos bs.2.1)
  · intro got _ _ hgot _ hJ
    rw [hJ.1] at hgot
    cases hgot

theorem echoClient_stuck (hss : ∀ s ∈ ss, s.length < 2 ^ 32)
    (hlong : ∃ s ∈ ss, 2 ^ 32 ≤ s.length + 4) (hresp : c.response.pimpl = [])
    (hd : c.request.dataExtracted = c.request.pimpl.length) (h : ∀ s, Round s [] [] w) :
    (echoClient o tcpConnectionRaw ss).Wp (echoWorld o') (fun _ _ => True)
      (fun _ _ _ => False) c w := by
  induction ss generalizing c w with
  | nil =>
    obtain ⟨_, hm, _⟩ := hlong
    cases hm
  | cons s ss ih =>
    obtain ⟨hs, hss⟩ := List.forall_mem_cons.mp hss
    by_cases hfit : s.length + 4 < 2 ^ 32
    · have hlong' : ∃ s ∈ ss, 2 ^ 32 ≤ s.length + 4 := by
        obtain ⟨t, hm, ht⟩ := hlong
        rcases List.mem_cons.mp hm with rfl | hm
        · exact absurd hfit (Nat.not_lt.mpr ht)
        · exact ⟨t, hm, ht⟩
      apply round_bind (fun _ _ _ _ => trivial) hfit hresp hd (h s)
      intro c' w' hresp' hd' h'
      exact ObjM.Wp.stuck_bind (ih hss hlong' hresp' hd' h')
    · apply ObjM.Wp.bind_pure (operatorShl_message hs hresp)
      exact ObjM.Wp.stuck_bind (operatorShr_stuck (c := { c with response := ⟨message s⟩ }) hs
        (Nat.le_of_not_lt hfit) hd rfl (h s))

theorem not_echoesAll (hss : ∀ s ∈ ss, s.length < 2 ^ 32)
    (hlong : ∃ s ∈ ss, 2 ^ 32 ≤ s.length + 4) : ¬ EchoesAll o o' ss := by
  intro h
  obtain ⟨r, w, hrun⟩ := h.exists_result
  exact (echoClient_stuck hss hlong rfl rfl
    (fun _ => .header started_awaiting rfl rfl rfl)).result hrun

/-- The client gets all its strings back, in every run, exactly when each of them fits 32 bits
together with its length. -/
theorem echoes_all_iff (o o' : ByteOrder) (ss : List Bytes) (hss : ∀ s ∈ ss, s.length < 2 ^ 32) :
    EchoesAll o o' ss ↔ ∀ s ∈ ss, s.length + 4 < 2 ^ 32 := by
  constructor
  · intro h s hm
    by_contra hlong
    exact not_echoesAll hss ⟨s, hm, Nat.le_of_not_lt hlong⟩ h
  · intro hfit
    exact Prog.Wp.succeeds (echoWorld_terminates o') (echoClient_round (fun _ _ hl he => ⟨hl, he⟩)
      hfit rfl rfl (fun _ => .header started_awaiting rfl rfl rfl))

theorem empty_and_short_echoed : EchoesAll .little .big [[], [104, 105]] :=
  (echoes_all_iff .little .big [[], [104, 105]] (by decide)).mpr (by decide)

/-- A string of `2 ^ 32 - 4` bytes: its message has a length of 0 modulo `2 ^ 32`. -/
theorem four_gigabytes_not_echoed :
    ¬ ∀ ss : List Bytes, (∀ s ∈ ss, s.length < 2 ^ 32) → EchoesAll .little .little ss := by
  intro h
  have hlen : (List.replicate (2 ^ 32 - 4) (0 : UInt8)).length = 2 ^ 32 - 4 :=
    List.length_replicate
  generalize List.replicate (2 ^ 32 - 4) (0 : UInt8) = s at hlen
  have hss : ∀ t ∈ [s], t.length < 2 ^ 32 := by
    intro t hm
    rw [List.mem_singleton.mp hm, hlen]
    decide
  refine not_echoesAll hss ⟨s, List.mem_singleton_self s, ?_⟩ (h [s] hss)
  rw [hlen]
  decide

end CppAlls
