import CppAlls.Core.Canonical

namespace CppAlls
set_option autoImplicit true

open LittleEndian Interaction Extraction Failing

variable {o : ByteOrder} {T : Ty} {v : T.Val}

/-- No reader accepts the encoding of a value cut short: what it would make of it encodes as a
prefix of the value, and the reader would make the same of the whole encoding. -/
theorem Ty.consume_truncated (hT : T.isWide = true) (hs : T.Sized v) (hp : bs <+: T.encode v)
    (hne : bs ≠ T.encode v) : (T.operatorShr o).consume bs = none := by
  cases hc : (T.operatorShr o).consume bs with
  | none => rfl
  | some p =>
    obtain ⟨w, rest⟩ := p
    obtain ⟨t, ht⟩ := hp
    have hbs := Ty.encode_consume hT hc
    have hsw := (Ty.consume_eq_some hc).1
    have hv := Ty.operatorShr_encode o T v (T.byteLeaves_of_isWide hT v) hs []
    have hw := Ty.operatorShr_encode o T w (T.byteLeaves_of_isWide hT w) hsw (rest ++ t)
    rw [List.append_nil, ← ht, hbs, List.append_assoc, hw] at hv
    have hboth := Prod.mk.inj (Option.some.inj hv)
    have hnil := (List.append_eq_nil_iff.mp hboth.2).2
    rw [hnil, List.append_nil] at ht
    exact absurd ht hne

/-- Where a truncated message breaks off: all values before are in it, and the next one is not. -/
structure BreaksOff (msg : List Value) (bs : Bytes) (before : List Value) (v : Value)
    (behind : List Value) (cut : Bytes) : Prop where
  message : msg = before ++ v :: behind
  bytes : bs = encodeAll before ++ cut
  short : cut <+: v.1.encode v.2
  strict : cut ≠ v.1.encode v.2

theorem exists_breaksOff {msg : List Value} (hp : bs <+: encodeAll msg) (hne : bs ≠ encodeAll msg) :
    ∃ before v behind cut, BreaksOff msg bs before v behind cut := by
  induction msg generalizing bs with
  | nil => exact absurd (List.prefix_nil.mp hp) hne
  | cons v msg ih =>
    rw [encodeAll_cons] at hp hne
    by_cases hv : v.1.encode v.2 <+: bs
    · obtain ⟨bs', rfl⟩ := hv
      have hp' := (List.prefix_append_right_inj _).mp hp
      obtain ⟨before, w, behind, cut, h⟩ := ih hp' fun he => hne (congrArg _ he)
      refine ⟨v :: before, w, behind, cut, ?_, ?_, h.short, h.strict⟩
      · rw [List.cons_append, ← h.message]
      · rw [encodeAll_cons, List.append_assoc, ← h.bytes]
    · have hshort : bs <+: v.1.encode v.2 :=
        (List.prefix_or_prefix_of_prefix hp (List.prefix_append _ _)).resolve_right hv
      refine ⟨[], v, msg, bs, rfl, rfl, hshort, ?_⟩
      intro he
      exact hv (he ▸ List.prefix_refl _)

theorem readAll_append (o : ByteOrder) (Ts Ts' : List Ty) :
    readAll o (Ts ++ Ts') = readAll o Ts >>= fun vs => readAll o Ts' >>= fun vs' =>
      pure (vs ++ vs') := by
  induction Ts with
  | nil =>
    rw [List.nil_append, readAll, pure_bind]
    exact (bind_pure _).symm
  | cons T Ts ih =>
    rw [List.cons_append, readAll, ih, readAll, bind_assoc]
    simp only [bind_assoc, pure_bind, List.cons_append]

/-- Reading a truncated message gives the values that are whole in it, and then a `range_error` for
the one in which it breaks off. The whole read ends with that exception. -/
theorem truncated_message_rejected (o : ByteOrder) (msg : List Value)
    (hw : ∀ v ∈ msg, v.1.isWide = true) (hs : ∀ v ∈ msg, v.1.Sized v.2) (bs : Bytes)
    (hp : bs <+: encodeAll msg) (hne : bs ≠ encodeAll msg) (req : StackRequest)
    (hreq : req.Holds bs) :
    (∃ before v behind req' req'', msg = before ++ v :: behind ∧
      (readAll o (before.map (·.1))).fromRequest.on req = (.ok before, req') ∧
      (v.1.operatorShr o).fromRequest.on req' =
        (.error (.rangeError "request::extract_data: no data remain"), req'')) ∧
    ∃ req'', (readAll o (msg.map (·.1))).fromRequest.on req =
      (.error (.rangeError "request::extract_data: no data remain"), req'') := by
  obtain ⟨before, v, behind, cut, h⟩ := exists_breaksOff hp hne
  have hbefore : ∀ w ∈ before, w ∈ msg := by
    intro w hm
    rw [h.message]
    exact List.mem_append_left _ hm
  have hv : v ∈ msg := by
    rw [h.message]
    exact List.mem_append_right _ List.mem_cons_self
  have hfirst := readAll_consume o (fun w hm => w.1.byteLeaves_of_isWide (hw w (hbefore w hm)) w.2)
    (fun w hm => hs w (hbefore w hm)) cut
  have hcut : (v.1.operatorShr o).consume cut = none :=
    Ty.consume_truncated (hw v hv) (hs v hv) h.short h.strict
  have hu : req.unread = encodeAll before ++ cut := hreq.unread.trans h.bytes
  constructor
  · obtain ⟨req', hon, _, hu', hcur⟩ := fromRequest_consume (readAll_sizesFit o _) hreq.cursor_le
      (hu ▸ hfirst)
    obtain ⟨req'', hon', _⟩ := fromRequest_short (v.1.operatorShr_sizesFit o) hcur (hu' ▸ hcut)
    exact ⟨before, v, behind, req', req'', h.message, hon, hon'⟩
  · have hnone : (readAll o (msg.map (·.1))).consume req.unread = none := by
      rw [h.message, List.map_append, readAll_append, hu, consume_bind_some hfirst, List.map_cons,
        readAll, consume_bind, consume_bind, hcut]
      rfl
    obtain ⟨req'', hon, _⟩ := fromRequest_short (readAll_sizesFit o _) hreq.cursor_le hnone
    exact ⟨req'', hon⟩

/-- The last byte of the short is missing. -/
theorem cut_short_rejected :
    (∃ before v behind req' req'',
      [(⟨.string, [104, 105]⟩ : Value), ⟨.num .short, 7⟩] = before ++ v :: behind ∧
      (readAll .big (before.map (·.1))).fromRequest.on { pimpl := [2, 0, 0, 0, 104, 105, 7] } =
        (.ok before, req') ∧
      (v.1.operatorShr .big).fromRequest.on req' =
        (.error (.rangeError "request::extract_data: no data remain"), req'')) ∧
    ∃ req'', (readAll .big ([(⟨.string, [104, 105]⟩ : Value), ⟨.num .short, 7⟩].map
        (·.1))).fromRequest.on { pimpl := [2, 0, 0, 0, 104, 105, 7] } =
      (.error (.rangeError "request::extract_data: no data remain"), req'') :=
  truncated_message_rejected .big [⟨.string, [104, 105]⟩, ⟨.num .short, 7⟩] (by decide)
    (by simp [Ty.Sized]) [2, 0, 0, 0, 104, 105, 7] ⟨[0], rfl⟩ (by decide) _ ⟨rfl, rfl⟩

end CppAlls
