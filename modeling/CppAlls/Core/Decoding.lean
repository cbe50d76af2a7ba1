import CppAlls.Core.Encoding

namespace CppAlls
set_option autoImplicit true

open LittleEndian Interaction Failing

namespace Extraction

/-- What a reader makes of a string of bytes, and the bytes it leaves. -/
def consume : Extraction α → Bytes → Option (α × Bytes)
  | .pure a, bs => some (a, bs)
  | .call n k, bs =>
    if n ≤ bs.length then consume (k (bs.take n)) (bs.drop n) else none

theorem consume_bind (t : Extraction α) (f : α → Extraction β) (bs : Bytes) :
    (t >>= f).consume bs = (t.consume bs).bind (fun r => (f r.1).consume r.2) := by
  induction t generalizing bs with
  | pure a => rfl
  | call n k ih =>
    simp only [Prog.call_bind, consume, ih]
    split <;> rfl

theorem consume_bind_some {t : Extraction α} {f : α → Extraction β}
    (h : t.consume bs = some (a, rest)) : (t >>= f).consume bs = (f a).consume rest := by
  rw [consume_bind, h]
  rfl

theorem consume_bind_eq_some {t : Extraction α} {f : α → Extraction β}
    (h : (t >>= f).consume bs = some (b, rest)) :
    ∃ a mid, t.consume bs = some (a, mid) ∧ (f a).consume mid = some (b, rest) := by
  rw [consume_bind, Option.bind_eq_some_iff] at h
  obtain ⟨⟨a, mid⟩, ha, hb⟩ := h
  exact ⟨a, mid, ha, hb⟩

/-- No single extraction of the reader asks for `2 ^ 63` bytes or more. -/
def SizesFit (t : Extraction α) : Prop := t.Calls (· < 2 ^ 63)

theorem extractData_consume (h : bs.length = n) (rest : Bytes) :
    (extractData n).consume (bs ++ rest) = some (bs, rest) := by
  subst h
  simp [extractData, consume]

theorem extractData_consume_eq_some (h : (extractData n).consume bs = some (b, rest)) :
    bs = b ++ rest ∧ b.length = n := by
  simp only [extractData, consume] at h
  split at h
  next hn =>
    cases h
    exact ⟨(List.take_append_drop n bs).symm, List.length_take.trans (Nat.min_eq_left hn)⟩
  next => cases h

theorem fromRequest_call (n : Nat) (k : Bytes → Extraction α) (r : StackRequest) :
    (fromRequest (.call n k)).on r =
      match r.extractData n with
      | .ok (bs, r') => (k bs).fromRequest.on r'
      | .error e => (.error e, r) := by
  change (RequestM.extractData n >>= fun bs => (k bs).fromRequest).on r = _
  rw [FailM.on_bind, show (RequestM.extractData n).on r = (match r.extractData n with
    | .ok (bs, r') => (.ok bs, r')
    | .error e => (.error e, r)) from rfl]
  cases r.extractData n <;> rfl

/-- On a request with its cursor inside the buffer a reader sees the unread bytes. -/
theorem fromRequest_consume {t : Extraction α} (ht : t.SizesFit) {r : StackRequest}
    (hr : r.dataExtracted ≤ r.pimpl.length) (h : t.consume r.unread = some (a, rest)) :
    ∃ r', t.fromRequest.on r = (.ok a, r') ∧ r'.pimpl = r.pimpl ∧ r'.unread = rest ∧
      r'.dataExtracted ≤ r'.pimpl.length := by
  induction t generalizing r with
  | pure b =>
    cases h
    exact ⟨r, rfl, rfl, rfl, hr⟩
  | call n k ih =>
    simp only [consume] at h
    split at h
    next hn =>
      rw [StackRequest.unread_length] at hn
      have hle : r.dataExtracted + n ≤ r.pimpl.length := by omega
      have he := r.unread_advance n
      obtain ⟨r', hon, hp, hu, hc⟩ := ih (r.unread.take n) (ht.2 _) (r := { r with
        dataExtracted := r.dataExtracted + n }) hle (by rw [he]; exact h)
      refine ⟨r', ?_, hp, hu, hc⟩
      rw [fromRequest_call, StackRequest.extractData_ok hle]
      exact hon
    next => cases h

/-- When the bytes do not suffice the reader ends with the exception of `extract_data`. -/
theorem fromRequest_short {t : Extraction α} (ht : t.SizesFit) {r : StackRequest}
    (hr : r.dataExtracted ≤ r.pimpl.length) (h : t.consume r.unread = none) :
    ∃ r', t.fromRequest.on r =
        (.error (.rangeError "request::extract_data: no data remain"), r') ∧
      r'.pimpl = r.pimpl ∧ r'.dataExtracted ≤ r'.pimpl.length := by
  induction t generalizing r with
  | pure b => cases h
  | call n k ih =>
    rw [fromRequest_call]
    by_cases hle : r.dataExtracted + n ≤ r.pimpl.length
    · have he := r.unread_advance n
      have hn : n ≤ r.unread.length := by
        rw [StackRequest.unread_length]
        omega
      simp only [consume, if_pos hn] at h
      rw [StackRequest.extractData_ok hle]
      exact ih _ (ht.2 _) (r := { r with dataExtracted := r.dataExtracted + n }) hle
        (by rw [he]; exact h)
    · rw [StackRequest.extractData_short ht.1 hr (Nat.lt_of_not_le hle)]
      exact ⟨r, rfl, rfl, hr⟩

end Extraction

open Extraction

theorem doIstream_consume (o : ByteOrder) (k : Num) (h : bs.length = k.size) (rest : Bytes) :
    (doIstream o k).consume (bs ++ rest) = some (BitVec.ofNat (8 * k.size) (leNat bs), rest) := by
  rw [doIstream, consume_bind_some (extractData_consume h rest),
    o.littleToNative_ofObjectBytes h]
  rfl

theorem doIstream_leBytes (o : ByteOrder) (k : Num) (v : BitVec (8 * k.size)) (rest : Bytes) :
    (doIstream o k).consume (leBytes k.size v.toNat ++ rest) = some (v, rest) := by
  have hv : v.toNat < 256 ^ k.size := by
    rw [← pow_width]
    exact v.isLt
  rw [doIstream_consume o k (leBytes_length _ _), leNat_leBytes_of_lt hv, BitVec.ofNat_toNat,
    BitVec.setWidth_eq]

theorem doIstream_consume_eq_some {o : ByteOrder} {k : Num} {v : BitVec (8 * k.size)}
    (h : (doIstream o k).consume bs = some (v, rest)) :
    ∃ used, bs = used ++ rest ∧ used.length = k.size := by
  obtain ⟨b, mid, hb, he⟩ := consume_bind_eq_some h
  cases he
  exact ⟨b, extractData_consume_eq_some hb⟩

theorem doIstream_length (o : ByteOrder) (h : n < 2 ^ 32) (rest : Bytes) :
    (doIstream o .unsignedInt).consume (leBytes 4 n ++ rest) = some (toUnsignedInt n, rest) := by
  have hc := doIstream_leBytes o .unsignedInt (toUnsignedInt n) rest
  rwa [toUnsignedInt_toNat, Nat.mod_eq_of_lt h] at hc

theorem readTimes_consume {read : Extraction α} {enc : α → Bytes} {l : List α}
    (h : ∀ a ∈ l, ∀ rest, read.consume (enc a ++ rest) = some (a, rest)) (rest : Bytes) :
    (readTimes read l.length).consume (l.flatMap enc ++ rest) = some (l, rest) := by
  induction l with
  | nil => rfl
  | cons a l ih =>
    have ha := h a List.mem_cons_self (l.flatMap enc ++ rest)
    have hl := ih (fun b hb => h b (List.mem_cons_of_mem _ hb))
    rw [List.flatMap_cons, List.append_assoc, List.length_cons, readTimes,
      consume_bind_some ha, consume_bind_some hl]
    rfl

/-- The reader inverts the writer, and leaves what follows, on values with no single byte value
inside. -/
theorem Ty.operatorShr_encode (o : ByteOrder) (T : Ty) (v : T.Val) (hb : T.byteLeaves v = 0)
    (hs : T.Sized v) (rest : Bytes) :
    (T.operatorShr o).consume (T.encode v ++ rest) = some (v, rest) := by
  induction T generalizing rest with
  | bool => cases hb
  | num k =>
    have hw : k.isWide = true := by
      cases k <;> first | rfl | cases hb
    rw [Ty.encode, Num.argument_of_wide hw, Num.overload_of_wide hw]
    exact doIstream_leBytes o k v rest
  | string =>
    simp only [Ty.encode, Ty.operatorShr, List.append_assoc]
    rw [consume_bind_some (doIstream_length o hs _), toUnsignedInt_toNat, Nat.mod_eq_of_lt hs]
    exact extractData_consume rfl rest
  | vector T ih =>
    have hb' : ∀ w ∈ (v : List T.Val), T.byteLeaves w = 0 := fun w hm =>
      List.sum_eq_zero_iff_forall_eq_nat.mp hb _ (List.mem_map_of_mem hm)
    simp only [Ty.encode, Ty.operatorShr, List.append_assoc]
    rw [consume_bind_some (doIstream_length o hs.1 _), toUnsignedInt_toNat, Nat.mod_eq_of_lt hs.1]
    exact readTimes_consume (fun w hm rest => ih w (hb' w hm) (hs.2 w hm) rest) rest

end CppAlls
