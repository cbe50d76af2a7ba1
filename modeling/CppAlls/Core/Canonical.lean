import CppAlls.Core.RoundTrip
import Mathlib.Algebra.Order.BigOperators.Group.List

namespace CppAlls
set_option autoImplicit true

open LittleEndian Interaction Extraction Failing

/-- `bs` is what `response << v` appends. -/
def Ty.Encodes (o : ByteOrder) (T : Ty) (v : T.Val) (bs : Bytes) : Prop :=
  (T.operatorShl o v).on {} = (.ok (), ⟨bs⟩)

/-- The element reads that the loop of the vector overload attempts for an announced count. -/
def elementReads (read : Extraction α) : Nat → StackRequest → Nat
  | 0, _ => 0
  | n + 1, r =>
    match read.fromRequest.on r with
    | (.ok _, r') => elementReads read n r' + 1
    | (.error _, _) => 1

/-- `request >> v` of type `T`, called on `r`, comes to the vector loop for `n` elements of type
`T'` with the request `r'`, at any depth. -/
inductive EntersLoop (o : ByteOrder) : Ty → StackRequest → Ty → Nat → StackRequest → Prop where
  | outer {T : Ty} : (doIstream o .unsignedInt).fromRequest.on r = (.ok size, r') →
      EntersLoop o (.vector T) r T size.toNat r'
  | inner {T : Ty} {vs : List T.Val} :
      (doIstream o .unsignedInt).fromRequest.on r = (.ok size, r') → k < size.toNat →
      (readTimes (T.operatorShr o) k).fromRequest.on r' = (.ok vs, r'') →
      EntersLoop o T r'' T' n r₁ → EntersLoop o (.vector T) r T' n r₁

/-- On this request the reader of `T` accepts exactly the encodings of values, canonically. -/
structure DecodesImage (o : ByteOrder) (T : Ty) (r : StackRequest) : Prop where
  accepts : (∃ v r', (T.operatorShr o).fromRequest.on r = (.ok v, r')) ↔
    ∃ v bs, T.Encodes o v bs ∧ bs <+: r.unread
  unique : ∀ v bs v' bs', T.Encodes o v bs → bs <+: r.unread → T.Encodes o v' bs' →
    bs' <+: r.unread → v' = v
  returned : ∀ v r', (T.operatorShr o).fromRequest.on r = (.ok v, r') →
    ∃ bs, T.Encodes o v bs ∧ r.unread = bs ++ r'.unread ∧ r'.pimpl = r.pimpl ∧
      r'.dataExtracted = r.dataExtracted + bs.length
  rejects : (¬ ∃ v bs, T.Encodes o v bs ∧ bs <+: r.unread) →
    ∃ r', (T.operatorShr o).fromRequest.on r =
        (.error (.rangeError "request::extract_data: no data remain"), r') ∧
      r'.pimpl = r.pimpl ∧ r'.dataExtracted ≤ r'.pimpl.length
  loops : ∀ T' n r', EntersLoop o T r T' n r' →
    elementReads (T'.operatorShr o) n r' ≤ r'.unread.length + 1

theorem Ty.Encodes.eq_encode {o : ByteOrder} {T : Ty} {v : T.Val} (h : T.Encodes o v bs) :
    bs = T.encode v := by
  rw [Ty.Encodes] at h
  rcases Ty.operatorShl_appends_or_error o T v with ha | ⟨e, bs', ha⟩
  · rw [ha] at h
    cases h
    rfl
  · rw [ha] at h
    cases h

theorem Ty.Sized.encodes {T : Ty} {v : T.Val} (h : T.Sized v) (o : ByteOrder) :
    T.Encodes o v (T.encode v) :=
  Ty.operatorShl_appends o T v h {}

theorem Num.encode_consume {o : ByteOrder} {k : Num} {v : BitVec (8 * k.size)}
    (h : (doIstream o k).consume bs = some (v, rest)) : bs = leBytes k.size v.toNat ++ rest := by
  obtain ⟨used, rfl, hu⟩ := doIstream_consume_eq_some h
  rw [doIstream_consume o k hu] at h
  cases h
  have hlt := leNat_lt used
  rw [hu, ← pow_width] at hlt
  rw [BitVec.toNat_ofNat, Nat.mod_eq_of_lt hlt, ← hu, leBytes_leNat]

theorem readTimes_encode {read : Extraction α} (enc : α → Bytes)
    (h : ∀ {bs v rest}, read.consume bs = some (v, rest) → bs = enc v ++ rest)
    (hc : (readTimes read n).consume bs = some (vs, rest)) :
    vs.length = n ∧ bs = vs.flatMap enc ++ rest := by
  induction n generalizing bs vs with
  | zero =>
    cases hc
    exact ⟨rfl, rfl⟩
  | succ n ih =>
    obtain ⟨v, mid, hv, hm⟩ := consume_bind_eq_some hc
    obtain ⟨ws, _, hw, he⟩ := consume_bind_eq_some hm
    cases he
    obtain ⟨hn, hmid⟩ := ih hw
    refine ⟨by rw [List.length_cons, hn], ?_⟩
    rw [h hv, hmid, List.flatMap_cons, List.append_assoc]

/-- Writing what was read gives the bytes that were consumed. -/
theorem Ty.encode_consume {o : ByteOrder} {T : Ty} {v : T.Val} (hT : T.isWide = true)
    (h : (T.operatorShr o).consume bs = some (v, rest)) : bs = T.encode v ++ rest := by
  induction T generalizing bs rest with
  | bool => cases hT
  | num k =>
    rw [Ty.encode, Num.argument_of_wide hT, Num.overload_of_wide hT]
    exact Num.encode_consume h
  | string =>
    obtain ⟨size, mid, hc, he⟩ := consume_bind_eq_some h
    obtain ⟨rfl, hlen⟩ := extractData_consume_eq_some he
    rw [Num.encode_consume hc, Ty.encode, hlen, List.append_assoc]
    rfl
  | vector T ih =>
    obtain ⟨size, mid, hc, he⟩ := consume_bind_eq_some h
    obtain ⟨hn, hmid⟩ := readTimes_encode T.encode (ih hT) he
    rw [Num.encode_consume hc, hmid, Ty.encode, hn, List.append_assoc]
    rfl

theorem Ty.readLength_pos {T : Ty} (hT : T.isWide = true) (v : T.Val) : 0 < T.readLength v := by
  cases T with
  | bool => cases hT
  | num k =>
    change 0 < k.size
    cases k <;> decide
  | string => exact Nat.lt_of_lt_of_le (by decide) (Nat.le_add_right 4 _)
  | vector T => exact Nat.lt_of_lt_of_le (by decide) (Nat.le_add_right 4 _)

/-- A vector of `2 ^ 32` elements takes more than `2 ^ 32` bytes. -/
theorem Ty.sized_of_readLength {T : Ty} {v : T.Val} (hT : T.isWide = true)
    (h : T.readLength v < 2 ^ 32) : T.Sized v := by
  induction T with
  | bool => trivial
  | num k => trivial
  | string => exact Nat.lt_of_le_of_lt (Nat.le_add_left _ 4) h
  | vector T ih =>
    have hsum : (List.map T.readLength v).sum < 2 ^ 32 := Nat.lt_of_le_of_lt (Nat.le_add_left _ 4) h
    constructor
    · have hone : ∀ n ∈ List.map T.readLength v, 1 ≤ n := by
        intro n hn
        obtain ⟨w, _, rfl⟩ := List.mem_map.mp hn
        exact Ty.readLength_pos (T := T) hT w
      have hle := List.length_le_sum_of_one_le _ hone
      rw [List.length_map] at hle
      exact Nat.lt_of_le_of_lt hle hsum
    · intro w hw
      have hle := List.le_sum_of_mem (List.mem_map_of_mem (f := T.readLength) hw)
      exact ih hT (Nat.lt_of_le_of_lt hle hsum)

/-- On fewer than `2 ^ 32` bytes there is no encoding of such a vector. -/
theorem Ty.Encodes.sized {o : ByteOrder} {T : Ty} {v : T.Val} (h : T.Encodes o v bs)
    (hT : T.isWide = true) (hp : bs <+: unread) (hlt : unread.length < 2 ^ 32) : T.Sized v := by
  apply Ty.sized_of_readLength hT
  have hle := hp.length_le
  rw [h.eq_encode, Ty.encode_length, T.byteLeaves_of_isWide hT v] at hle
  omega

/-- Each element read that succeeds takes at least one byte. -/
theorem elementReads_le {o : ByteOrder} {T : Ty} (hT : T.isWide = true) (n : Nat)
    {r : StackRequest} (hr : r.dataExtracted ≤ r.pimpl.length) :
    elementReads (T.operatorShr o) n r ≤ r.unread.length + 1 := by
  have hfit := T.operatorShr_sizesFit o
  induction n generalizing r with
  | zero => exact Nat.zero_le _
  | succ n ih =>
    rw [elementReads]
    cases hc : (T.operatorShr o).consume r.unread with
    | none =>
      obtain ⟨r', hon, _⟩ := fromRequest_short hfit hr hc
      rw [hon]
      exact Nat.le_add_left 1 _
    | some p =>
      obtain ⟨v, rest⟩ := p
      obtain ⟨r', hon, _, hu, hr'⟩ := fromRequest_consume hfit hr hc
      have hlen := (Ty.consume_eq_some hc).2
      have hpos := Ty.readLength_pos hT v
      have hle := ih hr'
      rw [hu] at hle
      simp only [hon]
      omega

theorem Extraction.cursor_le {t : Extraction α} (ht : t.SizesFit) {r : StackRequest}
    (hr : r.dataExtracted ≤ r.pimpl.length) (h : t.fromRequest.on r = (.ok a, r')) :
    r'.pimpl = r.pimpl ∧ r'.dataExtracted ≤ r'.pimpl.length := by
  obtain ⟨r'', hon, hp, _, hcur⟩ := fromRequest_consume ht hr (consume_of_fromRequest ht hr h)
  rw [h] at hon
  cases hon
  exact ⟨hp, hcur⟩

theorem EntersLoop.reads_le {o : ByteOrder} (h : EntersLoop o T r T' n r') (hT : T.isWide = true)
    (hr : r.dataExtracted ≤ r.pimpl.length) :
    elementReads (T'.operatorShr o) n r' ≤ r'.unread.length + 1 := by
  have hsize := doIstream_sizesFit o .unsignedInt
  induction h with
  | @outer _ _ _ T hon =>
    have hT' : T.isWide = true := hT
    exact elementReads_le hT' _ (cursor_le hsize hr hon).2
  | inner hon _ hvs _ ih =>
    have hr' := (cursor_le hsize hr hon).2
    exact ih hT (cursor_le (readTimes_sizesFit (Ty.operatorShr_sizesFit o _) _) hr' hvs).2

/-- What the reader returns is sized, and encodes as the bytes it took. -/
theorem operatorShr_returns {o : ByteOrder} {T : Ty} {v : T.Val} (hT : T.isWide = true)
    {r r' : StackRequest} (hr : r.dataExtracted ≤ r.pimpl.length)
    (h : (T.operatorShr o).fromRequest.on r = (.ok v, r')) :
    T.Sized v ∧ r.unread = T.encode v ++ r'.unread ∧ r'.pimpl = r.pimpl ∧
      r'.dataExtracted = r.dataExtracted + (T.encode v).length := by
  have hfit := T.operatorShr_sizesFit o
  have hc := consume_of_fromRequest hfit hr h
  have hu := Ty.encode_consume hT hc
  obtain ⟨hp, hr'⟩ := cursor_le hfit hr h
  refine ⟨(Ty.consume_eq_some hc).1, hu, hp, ?_⟩
  have hlen := congrArg List.length hu
  rw [List.length_append, StackRequest.unread_length, StackRequest.unread_length, hp] at hlen
  rw [hp] at hr'
  omega

/-- A sized value whose encoding comes first is the one that is read. -/
theorem operatorShr_reads {o : ByteOrder} {T : Ty} {v : T.Val} (hT : T.isWide = true)
    {r : StackRequest} (hr : r.dataExtracted ≤ r.pimpl.length) (hs : T.Sized v)
    (h : T.encode v <+: r.unread) : ∃ r', (T.operatorShr o).fromRequest.on r = (.ok v, r') := by
  obtain ⟨rest, hrest⟩ := h
  have hc := Ty.operatorShr_encode o T v (T.byteLeaves_of_isWide hT v) hs rest
  rw [hrest] at hc
  obtain ⟨r', hon, _⟩ := fromRequest_consume (T.operatorShr_sizesFit o) hr hc
  exact ⟨r', hon⟩

/-- The decoder accepts exactly the encoder's image, canonically, on a request that does not begin
with the encoding of a value with a vector of `2 ^ 32` elements or more. -/
theorem decodes_image (o : ByteOrder) (T : Ty) (hT : T.isWide = true) (r : StackRequest)
    (hr : r.dataExtracted ≤ r.pimpl.length) :
    DecodesImage o T r ↔ ∀ v bs, T.Encodes o v bs → bs <+: r.unread → T.Sized v := by
  constructor
  · intro h v bs hv hp
    obtain ⟨w, r', hon⟩ := h.accepts.mpr ⟨v, bs, hv, hp⟩
    obtain ⟨bs', hw, hu, _⟩ := h.returned w r' hon
    rw [← h.unique v bs w bs' hv hp hw ⟨_, hu.symm⟩]
    exact (operatorShr_returns hT hr hon).1
  · intro hsized
    have hreads : ∀ v bs, T.Encodes o v bs → bs <+: r.unread →
        ∃ r', (T.operatorShr o).fromRequest.on r = (.ok v, r') := by
      intro v bs hv hp
      rw [hv.eq_encode] at hp
      exact operatorShr_reads hT hr (hsized v _ (hv.eq_encode ▸ hv) hp) hp
    have hreturned : ∀ v r', (T.operatorShr o).fromRequest.on r = (.ok v, r') →
        ∃ bs, T.Encodes o v bs ∧ r.unread = bs ++ r'.unread ∧ r'.pimpl = r.pimpl ∧
          r'.dataExtracted = r.dataExtracted + bs.length := by
      intro v r' hon
      obtain ⟨hs, hu⟩ := operatorShr_returns hT hr hon
      exact ⟨_, hs.encodes o, hu⟩
    constructor
    · constructor
      · intro h
        obtain ⟨v, r', hon⟩ := h
        obtain ⟨bs, hv, hu, _⟩ := hreturned v r' hon
        exact ⟨v, bs, hv, _, hu.symm⟩
      · intro h
        obtain ⟨v, bs, hv, hp⟩ := h
        exact ⟨v, hreads v bs hv hp⟩
    · intro v bs v' bs' hv hp hv' hp'
      obtain ⟨r', hon⟩ := hreads v bs hv hp
      obtain ⟨r'', hon'⟩ := hreads v' bs' hv' hp'
      rw [hon] at hon'
      cases hon'
      rfl
    · exact hreturned
    · intro hno
      apply fromRequest_short (T.operatorShr_sizesFit o) hr
      cases hc : (T.operatorShr o).consume r.unread with
      | none => rfl
      | some p =>
        have hu := Ty.encode_consume (v := p.1) hT hc
        exact absurd ⟨p.1, _, (Ty.consume_eq_some hc).1.encodes o, _, hu.symm⟩ hno
    · exact fun T' n r' h => h.reads_le hT hr

def truncatedStrings : StackRequest := { pimpl := [2, 0, 0, 0, 1, 0, 0, 0, 104, 9, 0] }

theorem truncated_strings_rejected : DecodesImage .little (.vector .string) truncatedStrings :=
  (decodes_image .little (.vector .string) rfl truncatedStrings (Nat.zero_le _)).mpr
    (fun _ _ hv hp => hv.sized rfl hp (by decide))

/-- A vector has no check of its length, unlike a string: it goes out cut to 32 bits. -/
theorem vector_encodes (o : ByteOrder) (k : Num) (v : (Ty.vector (.num k)).Val) :
    (Ty.vector (.num k)).Encodes o v ((Ty.vector (.num k)).encode v) :=
  ((operatorShl_length_appends o _).seq
    (.forM (fun w _ => operatorShl_num_appends o k w))) {}

theorem shorts_fit (n : Nat) (h : n ≤ 2 ^ 32) :
    ((Ty.vector (.num .short)).encode (List.replicate n 0)).length < 2 ^ 63 := by
  have hs : Ty.readLength (.num .short) 0 = 2 := rfl
  rw [Ty.encode_length, Ty.byteLeaves_of_isWide _ rfl, Ty.readLength, List.map_replicate, hs,
    List.sum_replicate_nat]
  omega

/-- A vector whose length is a multiple of `2 ^ 32` begins like the empty one. -/
theorem wrapped_not_unique (o : ByteOrder) (k : Num) {v : (Ty.vector (.num k)).Val} (hv : v ≠ [])
    (hlen : leBytes 4 (List.length v) = leBytes 4 0) {r : StackRequest}
    (hr : r.Holds ((Ty.vector (.num k)).encode v)) : ¬ DecodesImage o (.vector (.num k)) r := by
  intro h
  have hp : (Ty.vector (.num k)).encode [] <+: r.unread := by
    rw [hr.unread, Ty.encode, Ty.encode, hlen]
    exact ⟨_, List.append_assoc _ _ _⟩
  have hp' : (Ty.vector (.num k)).encode v <+: r.unread := by
    refine ⟨[], ?_⟩
    rw [List.append_nil, hr.unread]
  exact hv (h.unique _ _ _ _ (vector_encodes o k []) hp (vector_encodes o k v) hp')

/-- `2 ^ 32` zeros and no element at all have encodings that begin with the same four bytes. -/
theorem wrapped_vector_ambiguous : ¬ DecodesImage .little (.vector (.num .short))
    { pimpl := (Ty.vector (.num .short)).encode (List.replicate (2 ^ 32) 0)
      size_lt := shorts_fit (2 ^ 32) (Nat.le_refl _) } := by
  apply wrapped_not_unique .little .short (v := List.replicate (2 ^ 32) 0) ?_ ?_ ⟨rfl, rfl⟩
  · apply List.ne_nil_of_length_pos
    rw [List.length_replicate]
    exact Nat.two_pow_pos 32
  · rw [List.length_replicate]
    exact (leBytes_mod 4 (2 ^ 32)).symm

/-- Either `response << v` throws and appends nothing, or `request >> w` makes the elements of `v`
of what it appends, taking all of it and nothing of what follows. -/
def VectorKept (o o' : ByteOrder) (T : Ty) (v : (Ty.vector T).Val) : Prop :=
  (∃ e, ((Ty.vector T).operatorShl o v).Appends (.error e) []) ∨
    ∃ bs, ((Ty.vector T).operatorShl o v).Appends (.ok ()) bs ∧
      ∀ rest, ((Ty.vector T).operatorShr o').consume (bs ++ rest) = some (v, rest)

/-- The prefix goes out before anything can throw. -/
theorem vector_appends_prefix (o : ByteOrder) (T : Ty) (v : (Ty.vector T).Val) :
    ∃ res bs, ((Ty.vector T).operatorShl o v).Appends res (leBytes 4 (List.length v) ++ bs) := by
  have hlen := operatorShl_length_appends o (List.length v)
  rcases ResponseM.Appends.forM_or_error (f := T.operatorShl o) v
    (Ty.operatorShl_appends_or_error o T) with hl | ⟨e, bs, hl⟩
  · exact ⟨_, _, hlen.seq hl⟩
  · exact ⟨_, _, hlen.seq hl⟩

theorem VectorKept.sized {o o' : ByteOrder} {T : Ty} {v : (Ty.vector T).Val}
    (h : VectorKept o o' T v) : (Ty.vector T).Sized v := by
  rcases h with ⟨e, he⟩ | ⟨bs, _, hread⟩
  · obtain ⟨res, bs, ha⟩ := vector_appends_prefix o T v
    have hon := (ha {}).symm.trans (he {})
    have hbs := congrArg (fun x => x.2.pimpl.length) hon
    simp only [List.length_append, leBytes_length, List.length_nil] at hbs
    omega
  · exact (Ty.consume_eq_some (T := .vector T) (hread [])).1

/-- A vector is kept exactly when it and the strings and vectors in it have fewer than `2 ^ 32`
elements. -/
theorem vector_kept_iff (o o' : ByteOrder) (T : Ty) (hT : T.isWide = true)
    (v : (Ty.vector T).Val) : VectorKept o o' T v ↔ (Ty.vector T).Sized v := by
  constructor
  · exact VectorKept.sized
  · intro h
    have hb := Ty.byteLeaves_of_isWide (.vector T) hT v
    exact .inr ⟨_, Ty.operatorShl_appends o _ v h, Ty.operatorShr_encode o' _ v hb h⟩

theorem two_shorts_kept : VectorKept .little .big (.num .short) [5, 6] ↔
    (Ty.vector (.num .short)).Sized [5, 6] :=
  vector_kept_iff .little .big (.num .short) rfl [5, 6]

/-- `2 ^ 32` shorts go out behind the prefix of an empty vector. -/
theorem wrapped_vector_not_kept :
    ¬ VectorKept .little .little (.num .short) (List.replicate (2 ^ 32) 0) := by
  intro h
  have hlen := h.sized.1
  rw [List.length_replicate] at hlen
  exact Nat.lt_irrefl _ hlen

end CppAlls
