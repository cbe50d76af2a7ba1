import CppAlls.Core.Cursors

namespace CppAlls
set_option autoImplicit true

open Interaction Failing

namespace Ty

def isScalar : Ty → Bool
  | .bool => true
  | .num _ => true
  | .string => false
  | .vector _ => false

/-- A local variable in front of its extraction; nothing reads the value of an arithmetic one. -/
def fresh : (T : Ty) → T.Val
  | .bool => false
  | .num _ => 0
  | .string => []
  | .vector _ => []

end Ty

/-- What `operator>>` does to the request and to its argument `val`. -/
abbrev IntoM (α β : Type) := FailM Exn (StackRequest × α) β

namespace IntoM

def extractData (size : Nat) : IntoM α Bytes :=
  (RequestM.extractData size).part Prod.fst (fun s r => (r, s.2))

def assign (f : α → α) : IntoM α Unit := modify fun s => (s.1, f s.2)

/-- An extraction into a local variable. -/
def intoLocal (m : IntoM γ Unit) (v : γ) : IntoM α γ :=
  ExceptT.mk fun s =>
    match m.on (s.1, v) with
    | (.ok _, t) => (.ok t.2, (t.1, s.2))
    | (.error e, t) => (.error e, (t.1, s.2))

def forTimes (body : IntoM α Unit) : Nat → IntoM α Unit
  | 0 => return
  | n + 1 => do
    body
    forTimes body n

end IntoM

open IntoM

def doIstreamTo (o : ByteOrder) (k : Num) : IntoM (BitVec (8 * k.size)) Unit := do
  let bytes ← IntoM.extractData k.size
  assign fun _ => BitVec.ofNat _ (o.littleToNative k.size (o.ofObjectBytes bytes))

/-- `operator>>` with its argument; `Ty.operatorShr` gives only the value that it leaves there. -/
def Ty.operatorShrTo (o : ByteOrder) : (T : Ty) → IntoM T.Val Unit
  | .bool => do
    let c ← intoLocal (doIstreamTo o .unsignedChar) 0
    assign fun _ => c != 0
  | .num k => doIstreamTo o k
  | .string => do
    let size ← intoLocal (doIstreamTo o .unsignedInt) 0
    assign fun val => val.take size.toNat ++ List.replicate (size.toNat - val.length) 0
    let bytes ← IntoM.extractData size.toNat
    assign fun _ => bytes
  | .vector T => do
    let size ← intoLocal (doIstreamTo o .unsignedInt) 0
    assign fun _ => []
    forTimes (do
      let v ← intoLocal (T.operatorShrTo o) T.fresh
      assign fun val => val ++ [v]) size.toNat

namespace StackRequest

theorem extractData_eq_ok {r : StackRequest} (h : r.extractData n = .ok (bs, r')) :
    bs = r.unread.take n ∧ r' = { r with dataExtracted := r.dataExtracted + n } ∧
      r.dataExtracted + n ≤ r.pimpl.length := by
  rw [extractData] at h
  split at h
  · cases h
  · split at h
    · cases h
    next hle =>
      cases h
      exact ⟨rfl, rfl, Nat.le_of_not_lt hle⟩

theorem extractData_eq_rangeError {r : StackRequest}
    (h : r.extractData n = .error (.rangeError what)) : r.pimpl.length < r.dataExtracted + n := by
  rw [extractData] at h
  split at h
  next hlt =>
    have hsum : addSize n r.dataExtracted ≤ n + r.dataExtracted := Nat.mod_le _ _
    omega
  · split at h <;> cases h

end StackRequest

namespace IntoM

variable {Q : Except Exn β → StackRequest × α → Prop}

theorem extractData_on (n : Nat) (s : StackRequest × α) :
    (IntoM.extractData n).on s =
      match s.1.extractData n with
      | .ok (bs, r') => (.ok bs, (r', s.2))
      | .error e => (.error e, s) := by
  rw [IntoM.extractData, FailM.on_part, RequestM.extractData_on]
  cases s.1.extractData n <;> rfl

theorem intoLocal_on (m : IntoM γ Unit) (v : γ) (s : StackRequest × α) :
    (intoLocal m v : IntoM α γ).on s =
      match m.on (s.1, v) with
      | (.ok _, t) => (.ok t.2, (t.1, s.2))
      | (.error e, t) => (.error e, (t.1, s.2)) := rfl

end IntoM

theorem doIstreamTo_on (o : ByteOrder) (k : Num) (s : StackRequest × BitVec (8 * k.size)) :
    (doIstreamTo o k).on s =
      match s.1.extractData k.size with
      | .ok (bs, r') =>
        (.ok (), (r', BitVec.ofNat _ (o.littleToNative k.size (o.ofObjectBytes bs))))
      | .error e => (.error e, s) := by
  rw [doIstreamTo, FailM.on_bind, IntoM.extractData_on]
  cases s.1.extractData k.size <;> rfl

/-- The extraction of an arithmetic local variable, which leaves `val` alone. -/
theorem header_on (o : ByteOrder) (k : Num) (v : BitVec (8 * k.size)) (s : StackRequest × α) :
    (intoLocal (doIstreamTo o k) v : IntoM α _).on s =
      match s.1.extractData k.size with
      | .ok (bs, r') =>
        (.ok (BitVec.ofNat _ (o.littleToNative k.size (o.ofObjectBytes bs))), (r', s.2))
      | .error e => (.error e, s) := by
  rw [intoLocal_on, doIstreamTo_on]
  cases s.1.extractData k.size <;> rfl

namespace Extraction

theorem fromRequest_bind (t : Extraction α) (f : α → Extraction β) (r : StackRequest) :
    (t >>= f).fromRequest.on r =
      match t.fromRequest.on r with
      | (.ok a, r') => (f a).fromRequest.on r'
      | (.error e, r') => (.error e, r') := by
  induction t generalizing r with
  | pure a => rfl
  | call n k ih =>
    rw [Prog.call_bind, fromRequest_call, fromRequest_call]
    cases r.extractData n with
    | ok p => exact ih p.1 p.2
    | error e => rfl

theorem fromRequest_extractData (n : Nat) (r : StackRequest) :
    (CppAlls.extractData n).fromRequest.on r =
      match r.extractData n with
      | .ok (bs, r') => (.ok bs, r')
      | .error e => (.error e, r) := fromRequest_call n _ r

end Extraction

section Agreement

/-- The action treats the request as the reader does, and if it returns has left in its argument what
`g` makes of the value that the reader returns. -/
def Stores (m : IntoM β Unit) (t : Extraction α) (g : β → α → β) : Prop :=
  ∀ r val, match t.fromRequest.on r with
    | (.ok v, r') => m.on (r, val) = (.ok (), (r', g val v))
    | (.error e, r') => ∃ val', m.on (r, val) = (.error e, (r', val'))

theorem Stores.intoLocal_bind {m : IntoM γ Unit} {t : Extraction γ} {f : γ → IntoM β Unit}
    {k : γ → Extraction α} {g : β → α → β} (hm : Stores m t (fun _ v => v))
    (hf : ∀ v, Stores (f v) (k v) g) (v₀ : γ) : Stores (intoLocal m v₀ >>= f) (t >>= k) g := by
  intro r val
  have hr := hm r v₀
  rw [Extraction.fromRequest_bind]
  generalize t.fromRequest.on r = p at hr
  obtain ⟨x, r'⟩ := p
  cases x with
  | ok v =>
    have hlocal : (intoLocal m v₀ : IntoM β γ).on (r, val) = (.ok v, (r', val)) := by
      rw [intoLocal_on, hr]
    rw [FailM.on_bind_ok hlocal]
    exact hf v r' val
  | error e =>
    obtain ⟨v', hr⟩ := hr
    have hlocal : (intoLocal m v₀ : IntoM β γ).on (r, val) = (.error e, (r', val)) := by
      rw [intoLocal_on, hr]
    exact ⟨val, FailM.on_bind_error hlocal⟩

theorem Stores.extractData_bind {n : Nat} {f : Bytes → IntoM β Unit} {k : Bytes → Extraction α}
    {g : β → α → β} (hf : ∀ bs, Stores (f bs) (k bs) g) :
    Stores (IntoM.extractData n >>= f) (CppAlls.extractData n >>= k) g := by
  intro r val
  rw [Extraction.fromRequest_bind, Extraction.fromRequest_extractData, FailM.on_bind,
    IntoM.extractData_on]
  cases r.extractData n with
  | ok p => exact hf p.1 p.2 val
  | error e => exact ⟨val, rfl⟩

theorem Stores.assign_bind {f : IntoM β Unit} {k : Extraction α} {g : β → α → β} (h : β → β)
    (hf : Stores f k (fun val v => g val v)) :
    Stores (assign h >>= fun _ => f) k (fun val v => g (h val) v) := by
  intro r val
  exact hf r (h val)

theorem stores_pure (g : β → α → β) (a : α) :
    Stores (assign fun val => g val a) (pure a) g := fun _ _ => rfl

theorem doIstreamTo_stores (o : ByteOrder) (k : Num) :
    Stores (doIstreamTo o k) (doIstream o k) (fun _ v => v) :=
  Stores.extractData_bind fun _ => stores_pure _ _

theorem forTimes_stores {m : IntoM γ Unit} {t : Extraction γ} (hm : Stores m t (fun _ v => v))
    (v₀ : γ) (n : Nat) :
    Stores (forTimes (do
      let v ← intoLocal m v₀
      assign fun val => val ++ [v]) n) (readTimes t n) (fun val vs => val ++ vs) := by
  induction n with
  | zero =>
    intro r val
    exact congrArg (fun l => (Except.ok (), (r, l))) (List.append_nil val).symm
  | succ n ih =>
    rw [forTimes, readTimes, bind_assoc]
    apply hm.intoLocal_bind
    intro v r val
    have hr := ih r (val ++ [v])
    rw [Extraction.fromRequest_bind]
    generalize (readTimes t n).fromRequest.on r = p at hr
    obtain ⟨x, r'⟩ := p
    cases x with
    | ok vs =>
      exact Eq.trans hr (congrArg (fun l => (Except.ok (), (r', l))) (List.append_assoc val [v] vs))
    | error e => exact hr

/-- The two models of `operator>>` agree. -/
theorem Ty.operatorShrTo_stores (o : ByteOrder) (T : Ty) :
    Stores (T.operatorShrTo o) (T.operatorShr o) (fun _ v => v) := by
  induction T with
  | bool =>
    exact (doIstreamTo_stores o .unsignedChar).intoLocal_bind
      (fun c => stores_pure (fun _ v => v) (c != 0)) 0
  | num k => exact doIstreamTo_stores o k
  | string =>
    apply (doIstreamTo_stores o _).intoLocal_bind
    intro size
    have hbytes : Stores (IntoM.extractData size.toNat >>= fun bs => assign fun _ => bs)
        (CppAlls.extractData size.toNat >>= pure) (fun _ v => v) :=
      Stores.extractData_bind fun bs => stores_pure (fun _ v => v) bs
    rw [bind_pure] at hbytes
    exact hbytes.assign_bind _
  | vector T ih =>
    apply (doIstreamTo_stores o _).intoLocal_bind
    intro size
    exact (forTimes_stores ih T.fresh size.toNat).assign_bind (fun _ => [])

end Agreement

section Cursor

/-- The action does not move the cursor back, whether or not it throws. -/
def Forward (m : IntoM α β) : Prop :=
  ∀ s, (m.on s).2.1.dataExtracted ≥ s.1.dataExtracted

theorem Forward.le {m : IntoM α β} (hm : Forward m) (h : m.on s = (x, s')) :
    s.1.dataExtracted ≤ s'.1.dataExtracted := by
  have hs := hm s
  rwa [h] at hs

theorem Forward.bind {m : IntoM α β} {f : β → IntoM α γ} (hm : Forward m)
    (hf : ∀ b, Forward (f b)) : Forward (m >>= f) := by
  intro s
  have hs := hm s
  rw [FailM.on_bind]
  generalize m.on s = p at hs
  obtain ⟨r, s'⟩ := p
  cases r with
  | ok b => exact Nat.le_trans hs (hf b s')
  | error e => exact hs

theorem forward_assign (f : α → α) : Forward (assign f) := fun _ => Nat.le_refl _

theorem forward_extractData (n : Nat) : Forward (IntoM.extractData n : IntoM α Bytes) := by
  intro s
  rw [IntoM.extractData_on]
  cases h : s.1.extractData n with
  | ok p =>
    obtain ⟨_, hr, _⟩ := StackRequest.extractData_eq_ok h
    change s.1.dataExtracted ≤ p.2.dataExtracted
    rw [hr]
    exact Nat.le_add_right _ _
  | error e => exact Nat.le_refl _

theorem Forward.intoLocal {m : IntoM γ Unit} (hm : Forward m) (v : γ) :
    Forward (IntoM.intoLocal m v : IntoM α γ) := by
  intro s
  have hs := hm (s.1, v)
  rw [intoLocal_on]
  generalize m.on (s.1, v) = p at hs
  obtain ⟨r, t⟩ := p
  cases r <;> exact hs

theorem Forward.forTimes {m : IntoM α Unit} (hm : Forward m) (n : Nat) :
    Forward (forTimes m n) := by
  induction n with
  | zero => exact fun _ => Nat.le_refl _
  | succ n ih => exact hm.bind fun _ => ih

theorem forward_doIstreamTo (o : ByteOrder) (k : Num) : Forward (doIstreamTo o k) :=
  (forward_extractData k.size).bind fun _ => forward_assign _

/-- A string behind its size. -/
theorem forward_bytes (f : Bytes → Bytes) (n : Nat) : Forward (do
    assign f
    let bytes ← IntoM.extractData n
    assign fun _ => bytes) := by
  apply (forward_assign f).bind
  intro _
  exact (forward_extractData n).bind fun _ => forward_assign _

/-- The elements behind the size of a vector. -/
theorem forward_elements {m : IntoM γ Unit} (hm : Forward m) (v₀ : γ) (f : List γ → List γ)
    (n : Nat) : Forward (do
    assign f
    forTimes (do
      let v ← IntoM.intoLocal m v₀
      assign fun val => val ++ [v]) n) := by
  apply (forward_assign f).bind
  intro _
  apply Forward.forTimes
  exact (hm.intoLocal v₀).bind fun _ => forward_assign _

theorem Ty.operatorShrTo_forward (o : ByteOrder) (T : Ty) : Forward (T.operatorShrTo o) := by
  induction T with
  | bool => exact ((forward_doIstreamTo o _).intoLocal 0).bind fun _ => forward_assign _
  | num k => exact forward_doIstreamTo o k
  | string =>
    apply ((forward_doIstreamTo o _).intoLocal 0).bind
    exact fun size => forward_bytes _ size.toNat
  | vector T ih =>
    apply ((forward_doIstreamTo o _).intoLocal 0).bind
    exact fun size => forward_elements ih T.fresh _ size.toNat

end Cursor

/-- With the size in front missing nothing has happened yet; behind it the cursor has moved. -/
theorem sized_failure_iff {o : ByteOrder} {f : BitVec (8 * Num.unsignedInt.size) → IntoM α Unit}
    {r : StackRequest} (hf : ∀ size, Forward (f size))
    (h : (intoLocal (doIstreamTo o .unsignedInt) 0 >>= f).on (r, val) =
      (.error (.rangeError what), s)) : s = (r, val) ↔ r.unread.length < 4 := by
  have hheader := header_on (α := α) o .unsignedInt 0 (r, val)
  rw [StackRequest.unread_length]
  cases he : r.extractData Num.unsignedInt.size with
  | ok p =>
    obtain ⟨bs, r'⟩ := p
    obtain ⟨-, hr', hle⟩ := StackRequest.extractData_eq_ok he
    rw [Num.size] at hr' hle
    rw [he] at hheader
    rw [FailM.on_bind_ok hheader] at h
    rw [hr'] at h
    have hs : r.dataExtracted + 4 ≤ s.1.dataExtracted := (hf _).le h
    refine iff_of_false ?_ (by omega)
    intro heq
    have hcursor : s.1.dataExtracted = r.dataExtracted := congrArg (fun t => t.1.dataExtracted) heq
    omega
  | error e =>
    rw [he] at hheader
    rw [FailM.on_bind_error hheader] at h
    cases h
    have hlt := StackRequest.extractData_eq_rangeError he
    rw [Num.size] at hlt
    exact iff_of_true rfl (by omega)

theorem scalar_failure {k : Num} {s s' : StackRequest × BitVec (8 * k.size)} {e : Exn}
    (h : (doIstreamTo o k).on s = (.error e, s')) : s' = s := by
  rw [doIstreamTo_on] at h
  split at h <;> cases h
  rfl

/-- An extraction that runs out of bytes leaves the request and its argument as they were exactly
when the type is scalar or the size in front is missing already. -/
theorem failed_extraction_atomic_iff (o : ByteOrder) (T : Ty) {r : StackRequest} {val : T.Val}
    {s : StackRequest × T.Val} {what : String}
    (h : (T.operatorShrTo o).on (r, val) = (.error (.rangeError what), s)) :
    s = (r, val) ↔ T.isScalar = true ∨ r.unread.length < 4 := by
  cases T with
  | bool =>
    refine iff_of_true ?_ (.inl rfl)
    rw [Ty.operatorShrTo, FailM.on_bind, header_on] at h
    cases he : r.extractData Num.unsignedChar.size with
    | ok p =>
      rw [he] at h
      cases h
    | error e =>
      rw [he] at h
      cases h
      rfl
  | num k => exact iff_of_true (scalar_failure h) (.inl rfl)
  | string =>
    refine (sized_failure_iff ?_ h).trans (or_iff_right Bool.false_ne_true).symm
    exact fun size => forward_bytes _ size.toNat
  | vector T =>
    refine (sized_failure_iff ?_ h).trans (or_iff_right Bool.false_ne_true).symm
    exact fun size => forward_elements (T.operatorShrTo_forward o) T.fresh _ size.toNat

theorem missing_size_changes_nothing :
    ((⟨[1, 2], 0, by decide⟩, [9]) : StackRequest × Ty.string.Val) = (⟨[1, 2], 0, by decide⟩, [9]) ↔
      Ty.string.isScalar = true ∨ (⟨[1, 2], 0, by decide⟩ : StackRequest).unread.length < 4 :=
  failed_extraction_atomic_iff .little .string rfl

/-- The header announces three bytes, none follows: the string has three new bytes and the header is
gone. -/
theorem announced_string_resized :
    ¬ ∀ what s, (Ty.string.operatorShrTo .little).on (⟨[3, 0, 0, 0], 0, by decide⟩, []) =
      (.error (.rangeError what), s) → s = (⟨[3, 0, 0, 0], 0, by decide⟩, []) := by
  intro h
  have he := h _ (⟨[3, 0, 0, 0], 4, by decide⟩, [0, 0, 0]) rfl
  cases he

end CppAlls
