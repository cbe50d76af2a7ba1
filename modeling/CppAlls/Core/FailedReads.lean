import CppAlls.Core.Refills

namespace CppAlls
set_option autoImplicit true

open LittleEndian Interaction Relation ConnM Extraction

/-- The leading unread bytes that the socket put there. -/
def receivedUnread (c : Connection) (s : Delivered) : Bytes :=
  c.request.unread.take (s.filled - c.request.dataExtracted)

/-- What was handed out came from the socket, and so do the leading unread bytes. -/
structure HandedOut (c : Connection) (s : Delivered) : Prop where
  cursor_le : c.request.dataExtracted ≤ s.filled
  filled_le : s.filled ≤ c.request.pimpl.length
  handed : (c.extracted ++ receivedUnread c s).Sublist s.received

/-- An extraction that needs no refill stays within the bytes that the socket put there; no
`operator>>` asks for `2 ^ 63` bytes at once. -/
def ReadsReceived (c : Connection) (s : Delivered) (n : Nat) : Prop :=
  n < 2 ^ 63 ∧ (n ≤ c.request.unread.length → c.request.dataExtracted + n ≤ s.filled)

theorem HandedOut.cursor_le_length (h : HandedOut c s) :
    c.request.dataExtracted ≤ c.request.pimpl.length :=
  Nat.le_trans h.cursor_le h.filled_le

theorem stackExtractData_handedOut (h : HandedOut c s) (hn : ReadsReceived c s n) :
    (Connection.stackExtractData n : ConnM Empty Bytes).Wp (sourceSocket True) Asks
      (fun _ c' s' => HandedOut c' s') c s := by
  have hcursor := h.cursor_le_length
  by_cases hle : c.request.dataExtracted + n ≤ c.request.pimpl.length
  · have hfit : c.request.dataExtracted + n ≤ s.filled := by
      apply hn.2
      rw [StackRequest.unread_length]
      omega
    apply ObjM.Wp.of_pure (stackExtractData_ok hle)
    intro t ht
    rw [sourceSocket_quiet.steps ht]
    refine ⟨hfit, h.filled_le, ?_⟩
    have hsplit : receivedUnread c s = c.request.unread.take n ++
        (c.request.unread.drop n).take (s.filled - (c.request.dataExtracted + n)) := by
      rw [receivedUnread, ← List.take_add,
        show n + (s.filled - (c.request.dataExtracted + n)) =
          s.filled - c.request.dataExtracted by omega]
    have hhanded := h.handed
    rw [hsplit, ← List.append_assoc] at hhanded
    rw [receivedUnread, StackRequest.unread_advance]
    exact hhanded
  · have hshort := StackRequest.extractData_short hn.1 hcursor (Nat.lt_of_not_le hle)
    have hthrow : (Connection.stackExtractData n : ConnM Empty Bytes).on c = .pure
        (.error (.rangeError "request::extract_data: no data remain"), c) :=
      ObjM.on_bind_throw (onRequest_error hshort)
    apply ObjM.Wp.of_pure hthrow
    intro t ht
    rw [sourceSocket_quiet.steps ht]
    exact h

/-- A refill starts over with what it receives, however it ends. -/
theorem RefillEnds.handedOut (hends : RefillEnds True c s k r c' s') (hk : 0 < k)
    (h : HandedOut c s) :
    HandedOut c' s' ∧ (r = .ok () → s'.filled = c'.request.pimpl.length) := by
  have hfront : c.extracted.Sublist s.received :=
    (List.sublist_append_left _ _).trans h.handed
  cases hends with
  | @filled f q got hgot hq hf =>
    have hlen : f = q.pimpl.length := by rw [hf hk, hq.1, hgot]
    refine ⟨⟨?_, Nat.le_of_eq hlen, ?_⟩, fun _ => hlen⟩
    · change q.dataExtracted ≤ f
      rw [hq.2]
      exact Nat.zero_le f
    · change (c.extracted ++ q.unread.take (f - q.dataExtracted)).Sublist (s.received ++ got)
      rw [hq.unread]
      exact hfront.append (List.take_sublist _ _)
  | unsent => exact ⟨h, nofun⟩
  | @short got q _ hfill hlt =>
    refine ⟨⟨?_, ?_, ?_⟩, nofun⟩
    · change q.dataExtracted ≤ got.length
      rw [hfill.cursor]
      exact Nat.zero_le _
    · change got.length ≤ q.pimpl.length
      rw [hfill.size]
      exact Nat.le_of_lt hlt
    · change (c.extracted ++ q.unread.take (got.length - q.dataExtracted)).Sublist
        (s.received ++ got)
      rw [StackRequest.unread, hfill.cursor, List.drop_zero, Nat.sub_zero, hfill.got]
      exact hfront.append (List.Sublist.refl got)

theorem extractData_handedOut (h : HandedOut c s) (hn : ReadsReceived c s n) :
    (Connection.extractData (readWithoutSize writeWitoutSize) n).Wp (sourceSocket True) Asks
      (fun _ c' s' => HandedOut c' s') c s := by
  have hcursor := h.cursor_le_length
  by_cases hle : n ≤ c.request.unread.length
  · have hfit : c.request.dataExtracted + n ≤ c.request.pimpl.length := by
      rw [StackRequest.unread_length] at hle
      omega
    exact .of_on (extractData_enough _ hfit) (stackExtractData_handedOut h hn)
  · have hlt := Nat.lt_of_not_le hle
    have hk : n - c.request.unread.length < 2 ^ 63 := Nat.lt_of_le_of_lt (Nat.sub_le _ _) hn.1
    apply extractData_refill hcursor hn.1 hlt
    apply (read_refillEnds _ hcursor hk s).andThen
    · intro _ c' s' hr
      obtain ⟨h', hfilled⟩ := hr.handedOut (Nat.sub_pos_of_lt hlt) h
      apply stackExtractData_handedOut h'
      refine ⟨hn.1, ?_⟩
      intro hle'
      have hcursor' := h'.cursor_le_length
      rw [StackRequest.unread_length] at hle'
      rw [hfilled rfl]
      omega
    · intro _ c' s' t hr ht
      rw [sourceSocket_quiet.steps ht]
      exact (hr.handedOut (Nat.sub_pos_of_lt hlt) h).1

/-- Whatever throws, in a run of extractions that stay within what the socket put into the request
all that is handed out was received. -/
theorem failed_read_invents_nothing (V : Virtual Empty)
    (hV : V ∈ [tcpConnectionRaw, tcpSslConnectionRaw])
    (h : ObjM.Calls (sourceSocket True) (Connection.extractData V.read) ReadsReceived {} {} ns c s) :
    c.extracted.Sublist s.received := by
  rw [(functions_of_raw hV).1] at h
  have hs : HandedOut c s := by
    apply h.invariant (I := fun _ c s => HandedOut c s)
    · exact ⟨Nat.le_refl _, Nat.le_refl _, List.Sublist.refl _⟩
    · intro _ c s n hs hn
      exact extractData_handedOut hs hn
  exact (List.sublist_append_left _ _).trans hs.handed

/-- On surroundings that act only when they are called, what a reader does is a run of
extractions. -/
theorem run_extracts {W : ConnWorld U S} (hW : W.Quiet) {V : Virtual U} {t : Extraction α}
    (ht : t.SizesFit)
    (hrun : ReflTransGen (Prog.Step W) ((V.run t).on c, s) (.pure (r, c'), s')) :
    ∃ ns, ObjM.Calls W (Connection.extractData V.read) (fun _ _ n => n < 2 ^ 63) c s ns c' s' := by
  induction t generalizing c s with
  | pure a =>
    obtain ⟨he, rfl⟩ := hW.result hrun
    cases he
    exact ⟨[], .none⟩
  | call n k ih =>
    have hon : (V.run (.call n k)).on c = (Connection.extractData V.read n).on c >>=
        ObjM.andThen fun bs => V.run (k bs) := ObjM.on_bind _ _ c
    rw [hon] at hrun
    obtain ⟨⟨r₁, c₁⟩, s₁, hfirst, hrest⟩ := Prog.Step.bind_result hrun
    have hone : ObjM.Calls W (Connection.extractData V.read) (fun _ _ n => n < 2 ^ 63) c s [n]
        c₁ s₁ := .next .none ht.1 hfirst
    cases r₁ with
    | ok bs =>
      obtain ⟨ns, hns⟩ := ih bs (ht.2 bs) hrest
      exact ⟨n :: ns, hone.append hns⟩
    | error e =>
      obtain ⟨he, rfl⟩ := hW.result hrest
      cases he
      exact ⟨[n], hone⟩

/-- A run of `>>`, whose caller catches what it throws, is a run of extractions. -/
theorem get_extracts {W : ConnWorld U S} (hW : W.Quiet) (o : ByteOrder) {V : Virtual U}
    (h : ObjM.Calls W (fun T => (StreamOp.get T).run o V) (fun _ _ _ => True) c₀ s₀ Ts c s) :
    ∃ ns, ObjM.Calls W (Connection.extractData V.read) (fun _ _ n => n < 2 ^ 63) c₀ s₀ ns c s := by
  induction h with
  | none => exact ⟨[], .none⟩
  | @next _ _ _ T _ _ _ _ _ hrun ih =>
    obtain ⟨ns, hns⟩ := ih
    simp only [StreamOp.run, ObjM.on_catchAll] at hrun
    obtain ⟨⟨r₁, c₁⟩, s₁, hfirst, hrest⟩ := Prog.Step.bind_result hrun
    obtain ⟨he, rfl⟩ := hW.result hrest
    cases he
    obtain ⟨ms, hms⟩ := run_extracts hW (T.operatorShr_sizesFit o) hfirst
    exact ⟨ns ++ ms, hns.append hms⟩

theorem writeWitoutSize_nothing {c : Connection} (h : c.response = {}) :
    (writeWitoutSize : ConnM U Unit).on c = .pure (.ok (), c) := by
  obtain ⟨request, response, extracted⟩ := c
  subst h
  have hloop : (writeWitoutSizeImpl [] 0 0 : ConnM U Unit) = pure () := by
    rw [writeWitoutSizeImpl, if_pos rfl]
  rw [writeWitoutSize_on]
  change (writeWitoutSizeImpl [] 0 0 >>= fun _ => clearResponse).on _ = _
  rw [hloop]
  rfl

/-- A refill by two bytes got one. -/
def halfFilled : Connection := { request := { pimpl := [5, 0] } }

def oneDelivered : Delivered := { received := [5], filled := 1 }

theorem refill_cut_short : ReflTransGen (Prog.Step (sourceSocket True))
    ((readWithoutSize writeWitoutSize 2).on {}, {})
    (.pure (.error .systemError, halfFilled), oneDelivered) := by
  have hfirst : (sourceSocket True).answer {} ({ request := { pimpl := [0, 0] } }, .receive 2)
      (some ⟨[5], by decide⟩) oneDelivered := rfl
  have hsecond : (sourceSocket True).answer oneDelivered (halfFilled, .receive 1) none
      oneDelivered := ⟨trivial, rfl⟩
  have hshrink : (shrink : ConnM Empty Unit).on {} = .pure (.ok (), {}) := rfl
  have hresize : (resize 2 : ConnM Empty Unit).on {} =
      .pure (.ok (), { request := { pimpl := [0, 0] } }) := rfl
  have hfill : (fill 0 [5] : ConnM Empty Unit).on { request := { pimpl := [0, 0] } } =
      .pure (.ok (), halfFilled) := rfl
  rw [readWithoutSize, ObjM.on_bind_pure (writeWitoutSize_nothing rfl),
    ObjM.on_bind_pure hshrink, ObjM.on_bind_pure hresize, readImpl_on_lt (by decide)]
  apply ReflTransGen.head (.call hfirst)
  simp only [ObjM.on_bind_pure hfill]
  rw [readImpl_on_lt (by decide)]
  exact .single (.call hsecond)

theorem extraction_cut_short : ReflTransGen (Prog.Step (sourceSocket True))
    ((Connection.extractData tcpConnectionRaw.read 2).on {}, {})
    (.pure (.error .systemError, halfFilled), oneDelivered) := by
  rw [extractData_shortfall _ (Nat.le_refl _) (by decide) (by decide), ObjM.on_bind]
  exact Prog.Step.bind_steps refill_cut_short .refl

theorem cut_short_hands_out_nothing : halfFilled.extracted.Sublist oneDelivered.received :=
  failed_read_invents_nothing tcpConnectionRaw (.head _)
    (.next .none ⟨by decide, fun h => absurd h (by decide)⟩ extraction_cut_short)

/-- The next extraction hands out the zero that `resize` put behind the one byte that came. -/
theorem unfilled_zero_handed_out : ¬ ∀ Ts c s, ObjM.Calls (sourceSocket True)
    (fun T => (StreamOp.get T).run .little tcpConnectionRaw) (fun _ _ _ => True) {} {} Ts c s →
    c.extracted.Sublist s.received := by
  intro h
  have hfirst : ReflTransGen (Prog.Step (sourceSocket True))
      (((StreamOp.get (.num .short)).run .little tcpConnectionRaw).on {}, {})
      (.pure (.ok (), halfFilled), oneDelivered) :=
    Prog.Step.bind_steps (Prog.Step.bind_steps extraction_cut_short .refl) .refl
  have hsecond : ((StreamOp.get (.num .short)).run .little tcpConnectionRaw :
      ConnM Empty Unit).on halfFilled = .pure (.ok (), {
        request := { pimpl := [5, 0], dataExtracted := 2 }
        extracted := [5, 0] }) := rfl
  have hsub := h _ _ oneDelivered (.next (i := .num .short)
    (.next (i := .num .short) .none trivial hfirst) trivial (by rw [hsecond]))
  exact absurd hsub (by decide)

end CppAlls
