import CppAlls.Core.Decoding

namespace CppAlls
set_option autoImplicit true

open LittleEndian Interaction Extraction

/-- The bytes were copied into the request and nothing was read yet. -/
def StackRequest.Holds (r : StackRequest) (bs : Bytes) : Prop :=
  r.pimpl = bs ∧ r.dataExtracted = 0

theorem StackRequest.Holds.unread {r : StackRequest} (h : r.Holds bs) : r.unread = bs := by
  rw [StackRequest.unread, h.1, h.2, List.drop_zero]

theorem StackRequest.Holds.cursor_le {r : StackRequest} (h : r.Holds bs) :
    r.dataExtracted ≤ r.pimpl.length := by
  rw [h.2]
  exact Nat.zero_le _

def encodeAll (msg : List Value) : Bytes := msg.flatMap fun v => v.1.encode v.2

@[simp] theorem encodeAll_cons (v : Value) (msg : List Value) :
    encodeAll (v :: msg) = v.1.encode v.2 ++ encodeAll msg := List.flatMap_cons

theorem writeAll_appends (o : ByteOrder) {msg : List Value} (h : ∀ v ∈ msg, v.1.Sized v.2) :
    (writeAll o msg).Appends (.ok ()) (encodeAll msg) := by
  induction msg with
  | nil => exact .pure ()
  | cons v msg ih =>
    exact (Ty.operatorShl_appends o v.1 v.2 (h v List.mem_cons_self)).seq
      (ih (fun w hw => h w (List.mem_cons_of_mem _ hw)))

theorem readAll_consume (o : ByteOrder) {msg : List Value}
    (hb : ∀ v ∈ msg, v.1.byteLeaves v.2 = 0) (hs : ∀ v ∈ msg, v.1.Sized v.2) (rest : Bytes) :
    (readAll o (msg.map (·.1))).consume (encodeAll msg ++ rest) = some (msg, rest) := by
  induction msg with
  | nil => rfl
  | cons v msg ih =>
    have hv := Ty.operatorShr_encode o v.1 v.2 (hb v List.mem_cons_self) (hs v List.mem_cons_self)
      (encodeAll msg ++ rest)
    have hl := ih (fun w hm => hb w (List.mem_cons_of_mem _ hm))
      (fun w hm => hs w (List.mem_cons_of_mem _ hm))
    rw [encodeAll_cons, List.append_assoc, List.map_cons, readAll, consume_bind_some hv,
      consume_bind_some hl]
    rfl

theorem doIstream_sizesFit (o : ByteOrder) (k : Num) : (doIstream o k).SizesFit := by
  have hk := k.size_le
  exact Prog.Calls.bind ⟨by omega, fun _ => trivial⟩ (fun _ => trivial)

theorem readTimes_sizesFit {read : Extraction α} (h : read.SizesFit) (n : Nat) :
    (readTimes read n).SizesFit := by
  induction n with
  | zero => trivial
  | succ n ih => exact h.bind (fun _ => ih.bind (fun _ => trivial))

theorem Ty.operatorShr_sizesFit (o : ByteOrder) (T : Ty) : (T.operatorShr o).SizesFit := by
  induction T with
  | bool => exact (doIstream_sizesFit o _).bind (fun _ => trivial)
  | num k => exact doIstream_sizesFit o k
  | string =>
    refine (doIstream_sizesFit o .unsignedInt).bind (fun size => ⟨?_, fun _ => trivial⟩)
    have h : size.toNat < 2 ^ 32 := size.isLt
    omega
  | vector T ih => exact (doIstream_sizesFit o _).bind (fun _ => readTimes_sizesFit ih _)

theorem readAll_sizesFit (o : ByteOrder) (Ts : List Ty) : (readAll o Ts).SizesFit := by
  induction Ts with
  | nil => trivial
  | cons T Ts ih => exact (T.operatorShr_sizesFit o).bind (fun _ => ih.bind (fun _ => trivial))

/-- Writing a message of multi-byte types and reading it back on any host gives the message, and
leaves the bytes that follow it. -/
theorem message_round_trip (o o' : ByteOrder) (msg : List Value)
    (hw : ∀ v ∈ msg, v.1.isWide = true) (hs : ∀ v ∈ msg, v.1.Sized v.2) (rest : Bytes) :
    ∃ resp, (writeAll o msg).on {} = (.ok (), resp) ∧
      ∀ req : StackRequest, req.Holds (resp.pimpl ++ rest) →
        ∃ req', (readAll o' (msg.map (·.1))).fromRequest.on req = (.ok msg, req') ∧
          req'.unread = rest := by
  refine ⟨_, writeAll_appends o hs {}, ?_⟩
  intro req hreq
  have hb := fun v hv => Ty.byteLeaves_of_isWide v.1 (hw v hv) v.2
  have hc := readAll_consume o' hb hs rest
  rw [show encodeAll msg ++ rest = req.unread from hreq.unread.symm] at hc
  obtain ⟨req', hon, _, hu, _⟩ :=
    fromRequest_consume (readAll_sizesFit o' _) hreq.cursor_le hc
  exact ⟨req', hon, hu⟩

theorem strings_then_short_round_trip : ∃ resp,
    (writeAll .big [⟨.vector .string, [[104, 105], []]⟩, ⟨.num .short, 0xfffe⟩]).on {} =
      (.ok (), resp) ∧
    ∀ req : StackRequest, req.Holds (resp.pimpl ++ [9]) →
      ∃ req', (readAll .little [.vector .string, .num .short]).fromRequest.on req =
          (.ok [⟨.vector .string, [[104, 105], []]⟩, ⟨.num .short, 0xfffe⟩], req') ∧
        req'.unread = [9] :=
  message_round_trip .big .little [⟨.vector .string, [[104, 105], []]⟩, ⟨.num .short, 0xfffe⟩]
    (by decide) (by simp [Ty.Sized]) [9]

theorem readTimes_consume_eq_some {T : Ty} {o : ByteOrder} {bs rest : Bytes} {vs : List T.Val}
    (h : ∀ {bs v rest}, (T.operatorShr o).consume bs = some (v, rest) →
      T.Sized v ∧ bs.length = T.readLength v + rest.length)
    (hc : (readTimes (T.operatorShr o) n).consume bs = some (vs, rest)) :
    vs.length = n ∧ (∀ v ∈ vs, T.Sized v) ∧
      bs.length = (vs.map T.readLength).sum + rest.length := by
  induction n generalizing bs vs with
  | zero =>
    cases hc
    simp
  | succ n ih =>
    obtain ⟨v, mid, hv, hm⟩ := consume_bind_eq_some hc
    obtain ⟨ws, end', hw, he⟩ := consume_bind_eq_some hm
    cases he
    obtain ⟨hs, hl⟩ := h hv
    obtain ⟨hn, hall, hl'⟩ := ih hw
    refine ⟨by rw [List.length_cons, hn], ?_, ?_⟩
    · intro w hmem
      cases hmem with
      | head => exact hs
      | tail _ hmem => exact hall w hmem
    · rw [List.map_cons, List.sum_cons]
      omega

/-- What a reader returns is sized, and it took the bytes that its value accounts for. -/
theorem Ty.consume_eq_some {o : ByteOrder} {T : Ty} {v : T.Val}
    (h : (T.operatorShr o).consume bs = some (v, rest)) :
    T.Sized v ∧ bs.length = T.readLength v + rest.length := by
  induction T generalizing bs rest with
  | bool =>
    obtain ⟨c, mid, hc, he⟩ := consume_bind_eq_some h
    cases he
    obtain ⟨used, rfl, hu⟩ := doIstream_consume_eq_some hc
    exact ⟨trivial, by rw [List.length_append, hu]; rfl⟩
  | num k =>
    obtain ⟨used, rfl, hu⟩ := doIstream_consume_eq_some h
    exact ⟨trivial, by rw [List.length_append, hu]; rfl⟩
  | string =>
    obtain ⟨size, mid, hc, he⟩ := consume_bind_eq_some h
    obtain ⟨used, rfl, hu⟩ := doIstream_consume_eq_some hc
    have hlt : size.toNat < 2 ^ 32 := size.isLt
    obtain ⟨rfl, hlen⟩ := extractData_consume_eq_some he
    have hu4 : used.length = 4 := hu
    refine ⟨by rw [Ty.Sized, hlen]; exact hlt, ?_⟩
    rw [Ty.readLength, hlen, List.length_append, List.length_append]
    omega
  | vector T ih =>
    obtain ⟨size, mid, hc, he⟩ := consume_bind_eq_some h
    obtain ⟨used, rfl, hu⟩ := doIstream_consume_eq_some hc
    have hlt : size.toNat < 2 ^ 32 := size.isLt
    obtain ⟨hn, hall, hl⟩ := readTimes_consume_eq_some ih he
    have hu4 : used.length = 4 := hu
    refine ⟨⟨by omega, hall⟩, ?_⟩
    rw [Ty.readLength, List.length_append]
    omega

theorem readAll_consume_eq_some {o : ByteOrder} {msg : List Value}
    (h : (readAll o (msg.map (·.1))).consume bs = some (msg, rest)) :
    (∀ v ∈ msg, v.1.Sized v.2) ∧
      bs.length = (msg.map fun v => v.1.readLength v.2).sum + rest.length := by
  induction msg generalizing bs with
  | nil =>
    cases h
    simp
  | cons v msg ih =>
    obtain ⟨T, v⟩ := v
    obtain ⟨w, mid, hw, hm⟩ := consume_bind_eq_some h
    obtain ⟨ws, end', hws, he⟩ := consume_bind_eq_some hm
    cases he
    obtain ⟨hs, hl⟩ := Ty.consume_eq_some hw
    obtain ⟨hall, hl'⟩ := ih hws
    constructor
    · intro u hmem
      cases hmem with
      | head => exact hs
      | tail _ hmem => exact hall u hmem
    · have hT : bs.length = T.readLength v + mid.length := hl
      simp only [List.map_cons, List.sum_cons]
      omega

theorem encodeAll_length (msg : List Value) : (encodeAll msg).length =
    (msg.map fun v => v.1.readLength v.2).sum + 3 * (msg.map fun v => v.1.byteLeaves v.2).sum := by
  induction msg with
  | nil => rfl
  | cons v msg ih =>
    simp only [encodeAll_cons, List.length_append, Ty.encode_length, ih, List.map_cons,
      List.sum_cons]
    omega

/-- The bytes that a message leaves in an empty response, also when writing it throws. -/
def written (o : ByteOrder) (msg : List Value) : Bytes := ((writeAll o msg).on {}).2.pimpl

/-- `operator>>` consumes exactly the bytes that `operator<<` appends for the value. -/
def Ty.StaysInStep (o : ByteOrder) (T : Ty) (v : T.Val) : Prop :=
  ∀ rest, ∃ w, (T.operatorShr o).consume (((T.operatorShl o v).on {}).2.pimpl ++ rest) =
    some (w, rest)

/-- Each value of the message stays in step, and the request that holds the written message gives
back all its values and has no byte unread then. -/
def MessageStaysInStep (o : ByteOrder) (msg : List Value) (req : StackRequest) : Prop :=
  (∀ v ∈ msg, v.1.StaysInStep o v.2) ∧
    ((writeAll o msg).on {}).1 = .ok () ∧
    ∃ req', (readAll o (msg.map (·.1))).fromRequest.on req = (.ok msg, req') ∧ req'.unread = []

theorem Ty.staysInStep (o : ByteOrder) (T : Ty) (v : T.Val) (hb : T.byteLeaves v = 0)
    (hs : T.Sized v) : T.StaysInStep o v := by
  intro rest
  rw [Ty.operatorShl_appends o T v hs]
  exact ⟨v, Ty.operatorShr_encode o T v hb hs rest⟩

theorem written_of_sized (o : ByteOrder) {msg : List Value} (h : ∀ v ∈ msg, v.1.Sized v.2) :
    written o msg = encodeAll msg := by
  rw [written, writeAll_appends o h]
  rfl

theorem Extraction.consume_of_fromRequest {t : Extraction α} (ht : t.SizesFit)
    {r : StackRequest} (hr : r.dataExtracted ≤ r.pimpl.length)
    (h : t.fromRequest.on r = (.ok a, r')) : t.consume r.unread = some (a, r'.unread) := by
  cases hc : t.consume r.unread with
  | none =>
    obtain ⟨r'', he, _⟩ := fromRequest_short ht hr hc
    rw [he] at h
    cases h
  | some p =>
    obtain ⟨b, rest⟩ := p
    obtain ⟨r'', he, _, hu, _⟩ := fromRequest_consume ht hr hc
    rw [he] at h
    cases h
    rw [hu]

/-- Encoder and decoder stay in step on a message exactly when it has no `bool`, `char` or
`unsigned char` in it and its strings and vectors are sized. -/
theorem message_stays_in_step (o : ByteOrder) (msg : List Value) (req : StackRequest)
    (hreq : req.Holds (written o msg)) :
    MessageStaysInStep o msg req ↔ ∀ v ∈ msg, v.1.Sized v.2 ∧ v.1.byteLeaves v.2 = 0 := by
  have hfit := readAll_sizesFit o (msg.map (·.1))
  constructor
  · intro ha
    obtain ⟨_, _, req', hon, hu⟩ := ha
    have hc := consume_of_fromRequest hfit hreq.cursor_le hon
    rw [hu, hreq.unread] at hc
    obtain ⟨hs, hl⟩ := readAll_consume_eq_some hc
    rw [written_of_sized o hs, encodeAll_length, List.length_nil] at hl
    have hz : (msg.map fun v => v.1.byteLeaves v.2).sum = 0 := by omega
    intro v hv
    exact ⟨hs v hv,
      List.sum_eq_zero_iff_forall_eq_nat.mp hz _ (List.mem_map_of_mem hv)⟩
  · intro h
    have hs := fun v hv => (h v hv).1
    have hb := fun v hv => (h v hv).2
    refine ⟨fun v hv => v.1.staysInStep o v.2 (hb v hv) (hs v hv), ?_, ?_⟩
    · rw [writeAll_appends o hs]
    · have hc := readAll_consume o hb hs []
      rw [List.append_nil, ← written_of_sized o hs, ← hreq.unread] at hc
      obtain ⟨req', hon, _, hu, _⟩ := fromRequest_consume hfit hreq.cursor_le hc
      exact ⟨req', hon, hu⟩

def intThenString : List Value := [⟨.num .int, 7⟩, ⟨.string, [104, 105]⟩]

theorem int_then_string_in_step :
    (⟨[7, 0, 0, 0, 2, 0, 0, 0, 104, 105], 0, by decide⟩ : StackRequest).Holds
      (written .little intThenString) ∧
    (MessageStaysInStep .little intThenString
        ⟨[7, 0, 0, 0, 2, 0, 0, 0, 104, 105], 0, by decide⟩ ↔
      ∀ v ∈ intThenString, v.1.Sized v.2 ∧ v.1.byteLeaves v.2 = 0) :=
  ⟨⟨rfl, rfl⟩, message_stays_in_step .little intThenString _ ⟨rfl, rfl⟩⟩

def charThenInt : List Value := [⟨.num .char, 97⟩, ⟨.num .int, 7⟩]

/-- The character takes four bytes and its reader one: the integer behind it is misread. -/
theorem char_then_int_drifts :
    (⟨[97, 0, 0, 0, 7, 0, 0, 0], 0, by decide⟩ : StackRequest).Holds
      (written .little charThenInt) ∧
    ¬ MessageStaysInStep .little charThenInt ⟨[97, 0, 0, 0, 7, 0, 0, 0], 0, by decide⟩ := by
  refine ⟨⟨rfl, rfl⟩, ?_⟩
  intro h
  obtain ⟨_, _, req', hon, hu⟩ := h
  have hc := consume_of_fromRequest (readAll_sizesFit .little [.num .char, .num .int])
    (Nat.zero_le _) hon
  rw [hu] at hc
  have hd : (readAll .little [.num .char, .num .int]).consume [97, 0, 0, 0, 7, 0, 0, 0] =
      some ([⟨.num .char, 97⟩, ⟨.num .int, 0x07000000⟩], [0, 0, 0]) := rfl
  have hrest := congrArg (Option.map Prod.snd) (hd.symm.trans hc)
  cases hrest

end CppAlls
