import CppAlls.Core.SyncConnection

namespace CppAlls
set_option autoImplicit true

open LittleEndian Interaction Relation

abbrev ConnWorld (U S : Type) := Prog.World (Connection × SocketCall U) (fun o => o.2.Answer) S

namespace ConnM

theorem onRequest_ok {f : StackRequest → Except Exn (α × StackRequest)} {c : Connection}
    (h : f c.request = .ok (a, r)) :
    (onRequest f : ConnM U α).on c = .pure (.ok a, { c with request := r }) := by
  rw [onRequest, ObjM.on_bind_pure (ObjM.on_get c), h]
  rfl

theorem onRequest_error {f : StackRequest → Except Exn (α × StackRequest)} {c : Connection}
    (h : f c.request = .error e) : (onRequest f : ConnM U α).on c = .pure (.error e, c) := by
  rw [onRequest, ObjM.on_bind_pure (ObjM.on_get c), h]
  rfl

theorem resize_ok {c : Connection} (h : n < 2 ^ 63) : ∃ r,
    (resize n : ConnM U Unit).on c = .pure (.ok (), { c with request := r }) ∧
    r.pimpl = c.request.pimpl.take n ++ List.replicate (n - c.request.pimpl.length) 0 ∧
    r.dataExtracted = c.request.dataExtracted := by
  obtain ⟨r, hr, hp, hc⟩ := StackRequest.resize_ok (r := c.request) h
  refine ⟨r, onRequest_ok ?_, hp, hc⟩
  rw [hr]
  rfl

theorem shrink_ok {c : Connection} (h : c.request.dataExtracted ≤ c.request.pimpl.length) : ∃ r,
    (shrink : ConnM U Unit).on c = .pure (.ok (), { c with request := r }) ∧
    r.pimpl = c.request.unread ∧ r.dataExtracted = 0 := by
  obtain ⟨r, hr, hp, hc⟩ := StackRequest.shrink_ok h
  refine ⟨r, onRequest_ok ?_, hp, hc⟩
  rw [hr]
  rfl

theorem fill_ok {c : Connection}
    (h : c.request.dataExtracted + offset + bs.length ≤ c.request.pimpl.length) : ∃ r,
    (fill offset bs : ConnM U Unit).on c = .pure (.ok (), { c with request := r }) ∧
    r.dataExtracted = c.request.dataExtracted ∧
    r.pimpl = c.request.pimpl.take (c.request.dataExtracted + offset) ++ bs ++
      c.request.pimpl.drop (c.request.dataExtracted + offset + bs.length) := by
  obtain ⟨r, hr, hc, hp⟩ := StackRequest.fill_ok h
  refine ⟨r, onRequest_ok ?_, hc, hp⟩
  rw [hr]
  rfl

theorem onResponse_on (m : ResponseM α) (c : Connection) :
    (onResponse m : ConnM U α).on c =
      .pure ((m.on c.response).1, { c with response := (m.on c.response).2 }) := rfl

theorem clearResponse_on (c : Connection) :
    (clearResponse : ConnM U Unit).on c = .pure (.ok (), { c with response := {} }) := rfl

theorem stackExtractData_ok {c : Connection}
    (h : c.request.dataExtracted + n ≤ c.request.pimpl.length) :
    (Connection.stackExtractData n : ConnM U Bytes).on c =
      .pure (.ok (c.request.unread.take n),
        { request := { c.request with dataExtracted := c.request.dataExtracted + n }
          response := c.response
          extracted := c.extracted ++ c.request.unread.take n }) := by
  rw [Connection.stackExtractData,
    ObjM.on_bind_pure (onRequest_ok (StackRequest.extractData_ok h))]
  rfl

theorem extractData_enough {c : Connection} (read : Nat → ConnM U Unit)
    (h : c.request.dataExtracted + n ≤ c.request.pimpl.length) :
    (Connection.extractData read n).on c = (Connection.stackExtractData n : ConnM U Bytes).on c := by
  have hsize := c.request.size_lt
  rw [Connection.extractData, ObjM.on_bind_pure (ObjM.on_get c), addSize_eq (by omega),
    if_neg (by omega)]

/-- An extraction that needs more than the unread bytes asks for the shortfall first. -/
theorem extractData_shortfall {c : Connection} (read : Nat → ConnM U Unit)
    (hc : c.request.dataExtracted ≤ c.request.pimpl.length) (hn : n < 2 ^ 63)
    (hlt : c.request.unread.length < n) : (Connection.extractData read n).on c =
      (read (n - c.request.unread.length) >>= fun _ => Connection.stackExtractData n).on c := by
  have hsize := c.request.size_lt
  rw [StackRequest.unread_length] at hlt ⊢
  rw [Connection.extractData, ObjM.on_bind_pure (ObjM.on_get c), addSize_eq (by omega),
    if_pos (by omega), subSize_eq (by omega) (by omega),
    show n + c.request.dataExtracted - c.request.pimpl.length =
      n - (c.request.pimpl.length - c.request.dataExtracted) by omega]

theorem extractData_unread {c : Connection} (read : Nat → ConnM U Unit)
    (h : c.request.dataExtracted + n ≤ c.request.pimpl.length) :
    (Connection.extractData read n).on c =
      .pure (.ok (c.request.unread.take n),
        { request := { c.request with dataExtracted := c.request.dataExtracted + n }
          response := c.response
          extracted := c.extracted ++ c.request.unread.take n }) := by
  rw [extractData_enough read h]
  exact stackExtractData_ok h

/-- A reader that finds all its bytes in the request makes no call. -/
theorem interp_consume {t : Extraction α} {c : Connection} (read : Nat → ConnM U Unit)
    (hc : c.request.dataExtracted ≤ c.request.pimpl.length)
    (h : t.consume c.request.unread = some (a, rest)) :
    ∃ c', (t.interp (Connection.extractData read)).on c = .pure (.ok a, c') ∧
      c'.request.unread = rest ∧ c'.request.dataExtracted ≤ c'.request.pimpl.length ∧
      c'.response = c.response := by
  induction t generalizing c with
  | pure b =>
    cases h
    exact ⟨c, rfl, rfl, hc, rfl⟩
  | call n k ih =>
    simp only [Extraction.consume] at h
    split at h
    next hn =>
      rw [StackRequest.unread_length] at hn
      have hle : c.request.dataExtracted + n ≤ c.request.pimpl.length := by omega
      have he := c.request.unread_advance n
      obtain ⟨c', hon, hc'⟩ := ih (c.request.unread.take n)
        (c := { request := { c.request with dataExtracted := c.request.dataExtracted + n }
                response := c.response
                extracted := c.extracted ++ c.request.unread.take n }) hle (he ▸ h)
      refine ⟨c', ?_, hc'⟩
      change (Connection.extractData read n >>= fun bs =>
        (k bs).interp (Connection.extractData read)).on c = _
      rw [ObjM.on_bind_pure (extractData_unread read hle)]
      exact hon
    next => cases h

/-- One round of the sending loop. -/
theorem writeImpl_on_lt (h : off ≠ size) (c : Connection) :
    (writeWitoutSizeImpl bytes size off : ConnM U Unit).on c =
      .call (c, .send ((bytes.drop off).take (size - off))) fun r =>
        match r with
        | some k => (writeWitoutSizeImpl bytes size (off + k)).on c
        | none => .pure (.error .systemError, c) := by
  rw [writeWitoutSizeImpl, if_neg h]
  apply congrArg (Prog.call _)
  funext r
  cases r <;> rfl

/-- One round of the receiving loop. -/
theorem readImpl_on_lt (h : off ≠ size) (c : Connection) :
    (readWithoutSizeImpl size off : ConnM U Unit).on c = .call (c, .receive (size - off)) fun r =>
      match r with
      | some bs => (fill off bs >>= fun _ => readWithoutSizeImpl size (off + bs.1.length)).on c
      | none => .pure (.error .systemError, c) := by
  rw [readWithoutSizeImpl, if_neg h]
  apply congrArg (Prog.call _)
  funext r
  cases r <;> rfl

/-- The public functions of the connections without headers. -/
theorem functions_of_raw {V : Virtual U} (hV : V ∈ [tcpConnectionRaw, tcpSslConnectionRaw]) :
    V.read = readWithoutSize writeWitoutSize ∧ V.write = writeWitoutSize := by
  rcases List.mem_cons.mp hV with rfl | hV
  · exact ⟨rfl, rfl⟩
  · rw [List.mem_singleton.mp hV]
    exact ⟨rfl, rfl⟩

variable {W : ConnWorld U S} {P : S → Connection × SocketCall U → Prop}

/-- The calls of a member function go on with `k` when the socket answers, and end with the
exception of the socket when it fails. -/
def Answered (W : ConnWorld U S) (P : S → Connection × SocketCall U → Prop)
    (f : α → ConnM U β) (Q : Except Exn β → Connection → S → Prop) (c : Connection) (s : S) :
    Option α → Prop
  | some a => (f a).Wp W P Q c s
  | none => ∀ s', ReflTransGen W.env s s' → Q (.error .systemError) c s'

theorem ofOption_bind {f : α → ConnM U β} {Q : Except Exn β → Connection → S → Prop}
    (h : Answered W P f Q c s r) : (ofOption r >>= f).Wp W P Q c s := by
  cases r with
  | some a => exact h
  | none => exact h

theorem extractData_refill {read : Nat → ConnM U Unit} {Q : Except Exn Bytes → Connection → S → Prop}
    (hc : c.request.dataExtracted ≤ c.request.pimpl.length) (hn : n < 2 ^ 63)
    (hlt : c.request.unread.length < n)
    (h : (read (n - c.request.unread.length) >>= fun _ => Connection.stackExtractData n).Wp
      W P Q c s) : (Connection.extractData read n).Wp W P Q c s :=
  .of_on (extractData_shortfall read hc hn hlt) h

theorem send_bind {f : {k : Nat // 0 < k ∧ k ≤ bs.length} → ConnM U β}
    {Q : Except Exn β → Connection → S → Prop}
    (h : ∀ s', ReflTransGen W.env s s' → P s' (c, .send bs) ∧
      ∀ r s'', W.answer s' (c, .send bs) r s'' → Answered W P f Q c s'' r) :
    (send bs >>= f).Wp W P Q c s := by
  intro s' hs
  obtain ⟨hP, ha⟩ := h s' hs
  refine ⟨hP, ?_⟩
  intro r s'' hr
  exact ofOption_bind (ha r s'' hr)

theorem receive_bind {f : {bs : Bytes // 0 < bs.length ∧ bs.length ≤ n} → ConnM U β}
    {Q : Except Exn β → Connection → S → Prop}
    (h : ∀ s', ReflTransGen W.env s s' → P s' (c, .receive n) ∧
      ∀ r s'', W.answer s' (c, .receive n) r s'' → Answered W P f Q c s'' r) :
    (receive n >>= f).Wp W P Q c s := by
  intro s' hs
  obtain ⟨hP, ha⟩ := h s' hs
  refine ⟨hP, ?_⟩
  intro r s'' hr
  exact ofOption_bind (ha r s'' hr)

theorem available_bind {f : Nat → ConnM U β} {Q : Except Exn β → Connection → S → Prop}
    (h : ∀ s', ReflTransGen W.env s s' → P s' (c, .available) ∧
      ∀ r s'', W.answer s' (c, .available) r s'' → Answered W P f Q c s'' r) :
    (available >>= f).Wp W P Q c s := by
  intro s' hs
  obtain ⟨hP, ha⟩ := h s' hs
  refine ⟨hP, ?_⟩
  intro r s'' hr
  exact ofOption_bind (ha r s'' hr)

/-- The sending loop, with an invariant over the number of bytes sent so far. -/
theorem writeImpl_wp {I : Nat → S → Prop} {Q : Except Exn Unit → Connection → S → Prop}
    (hstable : ∀ off, W.Stable (I off))
    (hsend : ∀ off s, off < size → I off s →
      P s (c, .send ((bytes.drop off).take (size - off))) ∧
      ∀ r s', W.answer s (c, .send ((bytes.drop off).take (size - off))) r s' →
        match r with
        | some k => I (off + k) s'
        | none => ∀ s'', ReflTransGen W.env s' s'' → Q (.error .systemError) c s'')
    (hdone : ∀ s, I size s → Q (.ok ()) c s) (hoff : off ≤ size) (hI : I off s) :
    (writeWitoutSizeImpl bytes size off : ConnM U Unit).Wp W P Q c s := by
  generalize hn : size - off = n
  induction n using Nat.strongRecOn generalizing off s with
  | ind n ih =>
    rw [writeWitoutSizeImpl]
    split
    next he =>
      subst he
      exact ObjM.Wp.of_pure rfl (fun s' hs => hdone s' ((hstable _).steps hI hs))
    next he =>
      have hlt : off < size := by omega
      apply send_bind
      intro s' hs
      obtain ⟨hP, hr⟩ := hsend off s' hlt ((hstable _).steps hI hs)
      refine ⟨hP, ?_⟩
      intro r s'' ha
      have hk := hr r s'' ha
      cases r with
      | none => exact hk
      | some k =>
        have hpos := k.2.1
        have hle := k.2.2.trans (List.length_take_le _ _)
        exact ih (size - (off + k)) (by omega) (by omega) hk rfl

theorem readImpl_wp {I : Nat → Connection → S → Prop}
    {Q : Except Exn Unit → Connection → S → Prop}
    (hstable : ∀ off c, W.Stable (I off c))
    (hreceive : ∀ off c s, off < size → I off c s → P s (c, .receive (size - off)) ∧
      ∀ r s', W.answer s (c, .receive (size - off)) r s' →
        match r with
        | some bs => ∃ q, c.request.fill off bs = .ok q ∧
            I (off + bs.1.length) { c with request := q } s'
        | none => ∀ s'', ReflTransGen W.env s' s'' → Q (.error .systemError) c s'')
    (hdone : ∀ c s, I size c s → Q (.ok ()) c s) (hoff : off ≤ size) (hI : I off c s) :
    (readWithoutSizeImpl size off : ConnM U Unit).Wp W P Q c s := by
  generalize hn : size - off = n
  induction n using Nat.strongRecOn generalizing off c s with
  | ind n ih =>
    rw [readWithoutSizeImpl]
    split
    next he =>
      subst he
      exact ObjM.Wp.of_pure rfl (fun s' hs => hdone c s' ((hstable _ _).steps hI hs))
    next he =>
      have hlt : off < size := by omega
      apply receive_bind
      intro s' hs
      obtain ⟨hP, hr⟩ := hreceive off c s' hlt ((hstable _ _).steps hI hs)
      refine ⟨hP, ?_⟩
      intro r s'' ha
      have hk := hr r s'' ha
      cases r with
      | none => exact hk
      | some bs =>
        obtain ⟨q, hq, hI'⟩ := hk
        have hfill : (fill off bs : ConnM U Unit).on c =
            .pure (.ok (), { c with request := q }) := by
          apply onRequest_ok
          rw [hq]
          rfl
        have hb := bs.2
        exact ObjM.Wp.bind_pure hfill
          (ih (size - (off + bs.1.length)) (by omega) (by omega) hI' rfl)

/-- The rule of the sending loop in terms of the bytes that are gone and those that are left. -/
theorem writeImpl_drains {J : Bytes → S → Prop} {Q : Except Exn Unit → Connection → S → Prop}
    (hstable : ∀ done, W.Stable (J done))
    (hsend : ∀ done rest s, bytes.take size = done ++ rest → rest ≠ [] → J done s →
      P s (c, .send rest) ∧ ∀ r s', W.answer s (c, .send rest) r s' →
        match r with
        | some k => J (done ++ rest.take k) s'
        | none => ∀ s'', ReflTransGen W.env s' s'' → Q (.error .systemError) c s'')
    (hdone : ∀ s, J (bytes.take size) s → Q (.ok ()) c s)
    (hsize : size ≤ bytes.length) (hJ : J [] s) :
    (writeWitoutSizeImpl bytes size 0 : ConnM U Unit).Wp W P Q c s := by
  apply writeImpl_wp (I := fun off s => J (bytes.take off) s)
  · exact fun off => hstable _
  · intro off s hlt hI
    have hsplit : bytes.take size = bytes.take off ++ (bytes.drop off).take (size - off) := by
      rw [← List.take_add, Nat.add_sub_cancel' (Nat.le_of_lt hlt)]
    have hne : (bytes.drop off).take (size - off) ≠ [] := by
      apply List.ne_nil_of_length_pos
      rw [List.length_take, List.length_drop]
      omega
    obtain ⟨hP, hr⟩ := hsend _ _ s hsplit hne hI
    refine ⟨hP, ?_⟩
    intro r s' ha
    have hk := hr r s' ha
    cases r with
    | none => exact hk
    | some k =>
      have hle := k.2.2.trans (List.length_take_le _ _)
      simp only [List.take_take, Nat.min_eq_left hle, ← List.take_add] at hk
      exact hk
  · exact hdone
  · exact Nat.zero_le _
  · exact hJ

/-- A request of the given size with the cursor at its start, in front of the bytes `got`. -/
structure Filling (size : Nat) (got : Bytes) (q : StackRequest) : Prop where
  cursor : q.dataExtracted = 0
  size : q.pimpl.length = size
  got : q.pimpl.take got.length = got

/-- The rule of the receiving loop for a request whose size was just set: at its end the request
holds what was received, whatever it held before. -/
theorem readImpl_fills {J : Bytes → S → Prop} {Q : Except Exn Unit → Connection → S → Prop}
    (hstable : ∀ got, W.Stable (J got))
    (hreceive : ∀ got q s, Filling size got q → got.length < size → J got s →
      P s ({ c with request := q }, .receive (size - got.length)) ∧
      ∀ r s', W.answer s ({ c with request := q }, .receive (size - got.length)) r s' →
        match r with
        | some bs => J (got ++ bs) s'
        | none => ∀ s'', ReflTransGen W.env s' s'' →
            Q (.error .systemError) { c with request := q } s'')
    (hdone : ∀ got q s, got.length = size → q.Holds got → J got s →
      Q (.ok ()) { c with request := q } s)
    (hcursor : c.request.dataExtracted = 0) (hsize : c.request.pimpl.length = size)
    (hJ : J [] s) : (readWithoutSizeImpl size 0 : ConnM U Unit).Wp W P Q c s := by
  apply readImpl_wp (I := fun off c' s => ∃ got q, got.length = off ∧ J got s ∧
    c' = { c with request := q } ∧ q.dataExtracted = 0 ∧ q.pimpl.length = size ∧
    q.pimpl.take off = got)
  · intro off c' s s' hI he
    obtain ⟨got, q, hgot, hJ, hq⟩ := hI
    exact ⟨got, q, hgot, hstable got s s' hJ he, hq⟩
  · intro off c' s hlt hx
    obtain ⟨got, q, rfl, hJ, rfl, hq, hlen, htake⟩ := hx
    obtain ⟨hP, hr⟩ := hreceive got q s ⟨hq, hlen, htake⟩ hlt hJ
    refine ⟨hP, ?_⟩
    intro r s' ha
    have hbs := hr r s' ha
    cases r with
    | none => exact hbs
    | some bs =>
      have hle := bs.2.2
      have hfit : q.dataExtracted + got.length + bs.1.length ≤ q.pimpl.length := by omega
      obtain ⟨q', hf, hc, hp⟩ := StackRequest.fill_ok hfit
      refine ⟨q', hf, got ++ bs, q', List.length_append, hbs, rfl, hc.trans hq, ?_, ?_⟩
      · rw [hp, hq]
        simp only [List.length_append, List.length_take, List.length_drop]
        omega
      · rw [hp, hq, Nat.zero_add, htake]
        exact List.take_left' List.length_append
  · intro c' s hs
    obtain ⟨got, q, hgot, hJ, rfl, hq, hlen, htake⟩ := hs
    refine hdone got q s hgot ⟨?_, hq⟩ hJ
    rw [← htake, ← hlen, List.take_length]
  · exact Nat.zero_le _
  · exact ⟨[], c.request, rfl, hJ, rfl, hcursor, hsize, rfl⟩

/-- The rule of the part of a flush behind its header: when all is sent the response is cleared, and
when the socket fails it stays. -/
theorem flush_drains {J : Bytes → S → Prop} {Q : Except Exn Unit → Connection → S → Prop}
    (hstable : ∀ done, W.Stable (J done))
    (hsend : ∀ done rest s, bytes.take size = done ++ rest → rest ≠ [] → J done s →
      P s (c, .send rest) ∧ ∀ r s', W.answer s (c, .send rest) r s' →
        match r with
        | some k => J (done ++ rest.take k) s'
        | none => ∀ s'', ReflTransGen W.env s' s'' → Q (.error .systemError) c s'')
    (hdone : ∀ s, J (bytes.take size) s → Q (.ok ()) { c with response := {} } s)
    (hsize : size ≤ bytes.length) (hJ : J [] s) :
    (writeWitoutSizeImpl bytes size 0 >>= fun _ => clearResponse : ConnM U Unit).Wp W P Q c s := by
  apply ObjM.Wp.andThen (R := fun r c' s' =>
    match r with
    | .ok _ => c' = c ∧ J (bytes.take size) s'
    | .error e => ∀ s'', ReflTransGen W.env s' s'' → Q (.error e) c' s'')
  · apply writeImpl_drains hstable
    · intro done rest s he hne hJ
      obtain ⟨hP, hr⟩ := hsend done rest s he hne hJ
      refine ⟨hP, ?_⟩
      intro r s' ha
      have hk := hr r s' ha
      cases r with
      | none => exact fun t ht u hu => hk u (ht.trans hu)
      | some k => exact hk
    · exact fun s hJ => ⟨rfl, hJ⟩
    · exact hsize
    · exact hJ
  · intro _ c' s' hr
    obtain ⟨rfl, hJ'⟩ := hr
    apply ObjM.Wp.of_pure (clearResponse_on _)
    exact fun t ht => hdone t ((hstable _).steps hJ' ht)
  · exact fun e c' s' t hr ht => hr t ht

/-- A flush without a size stops where the number of pending bytes, cut to 32 bits, ends. -/
theorem writeWitoutSize_on (c : Connection) : (writeWitoutSize : ConnM U Unit).on c =
    (writeWitoutSizeImpl c.response.pimpl (c.response.pimpl.length % 2 ^ 32) 0 >>= fun _ =>
      clearResponse).on c := by
  rw [writeWitoutSize, ObjM.on_bind_pure (ObjM.on_get c), toUnsignedInt_toNat]

/-- The rule of a flush without a size. -/
theorem writeWitoutSize_drains {J : Bytes → S → Prop}
    {Q : Except Exn Unit → Connection → S → Prop} (hstable : ∀ done, W.Stable (J done))
    (hsend : ∀ done rest s,
      c.response.pimpl.take (c.response.pimpl.length % 2 ^ 32) = done ++ rest → rest ≠ [] →
      J done s → P s (c, .send rest) ∧ ∀ r s', W.answer s (c, .send rest) r s' →
        match r with
        | some k => J (done ++ rest.take k) s'
        | none => ∀ s'', ReflTransGen W.env s' s'' → Q (.error .systemError) c s'')
    (hdone : ∀ s, J (c.response.pimpl.take (c.response.pimpl.length % 2 ^ 32)) s →
      Q (.ok ()) { c with response := {} } s)
    (hJ : J [] s) : (writeWitoutSize : ConnM U Unit).Wp W P Q c s :=
  .of_on (writeWitoutSize_on c) (flush_drains hstable hsend hdone (Nat.mod_le _ _) hJ)

theorem writeWithSize_empty (o : ByteOrder) {c : Connection} (h : c.response.pimpl = []) :
    (writeWithSize o : ConnM U Unit).on c = .pure (.ok (), c) := by
  rw [writeWithSize, ObjM.on_bind_pure (ObjM.on_get c), h]
  rfl

theorem writeWithSize_short (o : ByteOrder) {c : Connection} (h : c.response.pimpl ≠ [])
    (hlt : c.response.pimpl.length < 4) :
    (writeWithSize o : ConnM U Unit).on c = .pure (.error .undefined, c) := by
  have hpos := List.length_pos_iff.mpr h
  rw [writeWithSize, ObjM.on_bind_pure (ObjM.on_get c), if_neg (by omega)]
  apply ObjM.on_bind_throw
  rw [o.objectBytes_nativeToLittle, onResponse_on, ResponseM.on_putData,
    StackResponse.putData_insert hpos (by omega), if_neg]
  rw [leBytes_length]
  exact Nat.not_le.mpr hlt

/-- A message with its header between two of its bytes. -/
def frameAt (p : Bytes) (i : Nat) : Bytes := p.take i ++ leBytes 4 (p.length + 4) ++ p.drop i

theorem frameAt_length (p : Bytes) (i : Nat) : (frameAt p i).length = p.length + 4 := by
  simp only [frameAt, List.length_append, List.length_take, List.length_drop, leBytes_length]
  omega

/-- The header goes in behind the first four bytes, not in front of them. -/
theorem putHeader_on (o : ByteOrder) {c : Connection} (h : 4 ≤ c.response.pimpl.length) :
    ∃ i, (c.response.pimpl.length < 2 ^ 64 → i = 4) ∧
      (onResponse (ResponseM.putData (o.objectBytes 4 (o.nativeToLittle 4
        ((c.response.pimpl.length + 4) % 2 ^ 32))) 0) : ConnM U Unit).on c =
          .pure (.ok (), { c with response := ⟨frameAt c.response.pimpl i⟩ }) := by
  refine ⟨if 0 ≥ c.response.pimpl.length % 2 ^ 64 then c.response.pimpl.length else 4, ?_, ?_⟩
  · intro hlt
    rw [Nat.mod_eq_of_lt hlt]
    exact if_neg (by omega)
  · have hfit : (if 0 ≥ c.response.pimpl.length % 2 ^ 64 then c.response.pimpl.length else 4) ≤
        c.response.pimpl.length := by
      split
      · exact Nat.le_refl _
      · exact h
    have hmod : leBytes 4 ((c.response.pimpl.length + 4) % 2 ^ 32) =
        leBytes 4 (c.response.pimpl.length + 4) := leBytes_mod 4 _
    rw [o.objectBytes_nativeToLittle, hmod, onResponse_on, ResponseM.on_putData,
      StackResponse.putData, leBytes_length]
    simp only [if_pos hfit, frameAt]

/-- A flush with a size of four bytes or more. Its loop too stops at a number cut to 32 bits. -/
theorem writeWithSize_on (o : ByteOrder) {c : Connection} (h : 4 ≤ c.response.pimpl.length) :
    ∃ i, (c.response.pimpl.length < 2 ^ 64 → i = 4) ∧ (writeWithSize o : ConnM U Unit).on c =
      (writeWitoutSizeImpl (frameAt c.response.pimpl i) ((c.response.pimpl.length + 4) % 2 ^ 32) 0
        >>= fun _ => clearResponse).on
          { c with response := ⟨frameAt c.response.pimpl i⟩ } := by
  have hsize : (toUnsignedInt (c.response.pimpl.length + Num.unsignedInt.size)).toNat =
      (c.response.pimpl.length + 4) % 2 ^ 32 := toUnsignedInt_toNat _
  obtain ⟨i, hi, hput⟩ := putHeader_on (U := U) o h
  refine ⟨i, hi, ?_⟩
  rw [writeWithSize, ObjM.on_bind_pure (ObjM.on_get c), if_neg (by omega), hsize]
  exact (ObjM.on_bind_pure hput).trans (ObjM.on_bind_pure (ObjM.on_get _))

/-- The part of a refill behind its flush: it drops what was read already, and if nothing throws
leaves exactly the bytes that it receives. -/
theorem refill_fills {J : Bytes → S → Prop} {Q : Except Exn Unit → Connection → S → Prop}
    (hd : c.request.dataExtracted ≤ c.request.pimpl.length) (hn : n < 2 ^ 63)
    (hstable : ∀ got, W.Stable (J got))
    (hreceive : ∀ got q s, Filling n got q → got.length < n → J got s →
      P s ({ c with request := q }, .receive (n - got.length)) ∧
      ∀ r s', W.answer s ({ c with request := q }, .receive (n - got.length)) r s' →
        match r with
        | some bs => J (got ++ bs) s'
        | none => ∀ s'', ReflTransGen W.env s' s'' →
            Q (.error .systemError) { c with request := q } s'')
    (hdone : ∀ got q s, got.length = n → q.Holds got → J got s →
      Q (.ok ()) { c with request := q } s)
    (hJ : J [] s) :
    (shrink >>= fun _ => resize n >>= fun _ => readWithoutSizeImpl n 0 : ConnM U Unit).Wp
      W P Q c s := by
  obtain ⟨q, hq, hp, hc⟩ := shrink_ok (U := U) hd
  apply ObjM.Wp.bind_pure hq
  obtain ⟨q', hq', hp', hc'⟩ := resize_ok (U := U) (c := { c with request := q }) hn
  apply ObjM.Wp.bind_pure hq'
  apply readImpl_fills hstable
  · intro got q'' s hfill hlt hJ
    obtain ⟨hP, hr⟩ := hreceive got q'' s hfill hlt hJ
    refine ⟨hP, ?_⟩
    intro r s' ha
    have hbs := hr r s' ha
    cases r <;> exact hbs
  · exact hdone
  · exact hc'.trans hc
  · simp only [hp', List.length_append, List.length_take, List.length_replicate]
    omega
  · exact hJ

/-- A refill without a size whose flush returns. -/
theorem readWithoutSize_fills {write : ConnM U Unit} {J : Bytes → S → Prop}
    {Q : Except Exn Unit → Connection → S → Prop}
    (hwrite : write.Wp W P
      (fun r c' s' => r = .ok () ∧ c' = { c with response := {} } ∧ J [] s') c s)
    (hd : c.request.dataExtracted ≤ c.request.pimpl.length) (hn : n < 2 ^ 63)
    (hstable : ∀ got, W.Stable (J got))
    (hreceive : ∀ got q s, Filling n got q → got.length < n → J got s →
      P s ({ c with request := q, response := {} }, .receive (n - got.length)) ∧
      ∀ r s', W.answer s ({ c with request := q, response := {} }, .receive (n - got.length)) r s' →
        match r with
        | some bs => J (got ++ bs) s'
        | none => ∀ s'', ReflTransGen W.env s' s'' →
            Q (.error .systemError) { c with request := q, response := {} } s'')
    (hdone : ∀ got q s, got.length = n → q.Holds got → J got s →
      Q (.ok ()) { c with request := q, response := {} } s) :
    (readWithoutSize write n).Wp W P Q c s := by
  rw [readWithoutSize]
  apply ObjM.Wp.returns_bind hwrite
  intro c' s₁ hr
  obtain ⟨rfl, hJ⟩ := hr
  apply refill_fills (c := { c with response := {} }) hd hn hstable
  · intro got q s hfill hlt hJ
    obtain ⟨hP, hr⟩ := hreceive got q s hfill hlt hJ
    refine ⟨hP, ?_⟩
    intro r s' ha
    have hbs := hr r s' ha
    cases r <;> exact hbs
  · exact hdone
  · exact hJ

end ConnM

end CppAlls
