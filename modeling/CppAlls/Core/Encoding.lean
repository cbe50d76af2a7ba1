import CppAlls.Core.Wire

namespace CppAlls
set_option autoImplicit true

open LittleEndian Interaction Failing

/-- Whatever the response holds, the action ends with `res` and appends `bs`. -/
def ResponseM.Appends (m : ResponseM α) (res : Except Exn α) (bs : Bytes) : Prop :=
  ∀ r, m.on r = (res, ⟨r.pimpl ++ bs⟩)

namespace ResponseM

theorem Appends.pure (a : α) : (Pure.pure a : ResponseM α).Appends (.ok a) [] := by
  intro r
  rw [List.append_nil]
  rfl

theorem Appends.throw (e : Exn) : (MonadExcept.throw e : ResponseM α).Appends (.error e) [] := by
  intro r
  rw [List.append_nil]
  rfl

theorem Appends.bind {m : ResponseM α} {f : α → ResponseM β} (hm : m.Appends (.ok a) bs)
    (hf : (f a).Appends res bs') : (m >>= f).Appends res (bs ++ bs') := by
  intro r
  rw [FailM.on_bind, hm]
  change (f a).on _ = _
  rw [hf, List.append_assoc]

theorem Appends.seq {m : ResponseM Unit} {m' : ResponseM β} (hm : m.Appends (.ok ()) bs)
    (hm' : m'.Appends res bs') : (m >>= fun _ => m').Appends res (bs ++ bs') :=
  hm.bind hm'

theorem Appends.bind_error {m : ResponseM α} {f : α → ResponseM β}
    (hm : m.Appends (.error e) bs) : (m >>= f).Appends (.error e) bs := by
  intro r
  rw [FailM.on_bind, hm]

theorem on_putData (data : Bytes) (pos : Nat) (r : StackResponse) :
    (putData data pos).on r =
      match r.putData data pos with
      | .ok r' => (.ok (), r')
      | .error e => (.error e, r) := rfl

theorem Appends.putData (data : Bytes) :
    (putData data StackResponse.npos).Appends (.ok ()) data := by
  intro r
  rw [on_putData, StackResponse.putData_append]

theorem Appends.forM {f : α → ResponseM Unit} {enc : α → Bytes} {l : List α}
    (h : ∀ a ∈ l, (f a).Appends (.ok ()) (enc a)) :
    (l.forM f).Appends (.ok ()) (l.flatMap enc) := by
  induction l with
  | nil => exact .pure ()
  | cons a l ih =>
    rw [List.forM_eq_forM, List.forM_cons, List.flatMap_cons]
    exact (h a List.mem_cons_self).seq (ih (fun b hb => h b (List.mem_cons_of_mem _ hb)))

theorem Appends.forM_or_error {f : α → ResponseM Unit} {enc : α → Bytes} (l : List α)
    (h : ∀ a, (f a).Appends (.ok ()) (enc a) ∨ ∃ e bs, (f a).Appends (.error e) bs) :
    (l.forM f).Appends (.ok ()) (l.flatMap enc) ∨ ∃ e bs, (l.forM f).Appends (.error e) bs := by
  induction l with
  | nil => exact .inl (.pure ())
  | cons a l ih =>
    rw [List.forM_eq_forM, List.forM_cons, List.flatMap_cons]
    rcases h a with ha | ⟨e, bs, ha⟩
    · rcases ih with hl | ⟨e, bs, hl⟩
      · exact .inl (ha.seq hl)
      · exact .inr ⟨e, _, ha.seq hl⟩
    · exact .inr ⟨e, bs, ha.bind_error⟩

end ResponseM

/-- The bytes of a value on the wire; the type decides the overload of `operator<<`. -/
def Ty.encode : (T : Ty) → T.Val → Bytes
  | .bool, val => leBytes 4 (Bool.toNat val)
  | .num k, val => leBytes k.overload.size (k.argument val).toNat
  | .string, val => leBytes 4 (List.length val) ++ val
  | .vector T, val => leBytes 4 (List.length val) ++ List.flatMap T.encode val

/-- Strings and vectors have fewer than `2 ^ 32` elements, at every depth. -/
def Ty.Sized : (T : Ty) → T.Val → Prop
  | .bool, _ => True
  | .num _, _ => True
  | .string, val => List.length val < 2 ^ 32
  | .vector T, val => List.length val < 2 ^ 32 ∧ ∀ v ∈ (val : List T.Val), T.Sized v

def Ty.isWide : Ty → Bool
  | .bool => false
  | .num k => k.isWide
  | .string => true
  | .vector T => T.isWide

theorem operatorShl_num_appends (o : ByteOrder) (k : Num) (v : BitVec (8 * k.size)) :
    (k.operatorShl o v).Appends (.ok ()) (leBytes k.overload.size (k.argument v).toNat) := by
  rw [← o.objectBytes_nativeToLittle]
  exact .putData _

theorem operatorShl_length_appends (o : ByteOrder) (n : Nat) :
    (Num.unsignedInt.operatorShl o (toUnsignedInt n)).Appends (.ok ()) (leBytes 4 n) := by
  have h := operatorShl_num_appends o .unsignedInt (toUnsignedInt n)
  rw [Num.argument_of_wide rfl, toUnsignedInt_toNat] at h
  rw [← leBytes_mod 4 n]
  exact h

theorem Ty.operatorShl_appends (o : ByteOrder) (T : Ty) (v : T.Val) (h : T.Sized v) :
    (T.operatorShl o v).Appends (.ok ()) (T.encode v) := by
  induction T with
  | bool =>
    have hb := operatorShl_num_appends o .unsignedChar ((BitVec.ofBool v).setWidth 8)
    cases v <;> exact hb
  | num k => exact operatorShl_num_appends o k v
  | string =>
    have hn : ¬ List.length v ≥ 2 ^ 32 := Nat.not_le.mpr h
    simp only [Ty.operatorShl, if_neg hn]
    exact (operatorShl_length_appends o _).seq (.putData v)
  | vector T ih =>
    exact (operatorShl_length_appends o _).seq (.forM (fun w hw => ih w (h.2 w hw)))

theorem Ty.operatorShl_appends_or_error (o : ByteOrder) (T : Ty) (v : T.Val) :
    (T.operatorShl o v).Appends (.ok ()) (T.encode v) ∨
      ∃ e bs, (T.operatorShl o v).Appends (.error e) bs := by
  induction T with
  | bool => exact .inl (Ty.operatorShl_appends o .bool v trivial)
  | num k => exact .inl (operatorShl_num_appends o k v)
  | string =>
    by_cases hn : List.length v ≥ 2 ^ 32
    · refine .inr ⟨.badNumericCast, [], ?_⟩
      simp only [Ty.operatorShl, if_pos hn]
      exact (ResponseM.Appends.throw _).bind_error
    · exact .inl (Ty.operatorShl_appends o .string v (Nat.lt_of_not_le hn))
  | vector T ih =>
    rcases ResponseM.Appends.forM_or_error (f := T.operatorShl o) v ih with hl | ⟨e, bs, hl⟩
    · exact .inl ((operatorShl_length_appends o _).seq hl)
    · exact .inr ⟨e, _, (operatorShl_length_appends o _).seq hl⟩

def Ty.byteLeaves : (T : Ty) → T.Val → Nat
  | .bool, _ => 1
  | .num k, _ => if k.isWide then 0 else 1
  | .string, _ => 0
  | .vector T, val => (List.map T.byteLeaves val).sum

def Ty.readLength : (T : Ty) → T.Val → Nat
  | .bool, _ => 1
  | .num k, _ => k.size
  | .string, val => 4 + List.length val
  | .vector T, val => 4 + (List.map T.readLength val).sum

theorem Num.encode_length (k : Num) (v : BitVec (8 * k.size)) :
    (Ty.encode (.num k) v).length = k.size + 3 * Ty.byteLeaves (.num k) v := by
  rw [Ty.encode, leBytes_length, Ty.byteLeaves]
  cases k <;> rfl

/-- Every single byte value takes three bytes more on the wire than its reader consumes. -/
theorem Ty.encode_length (T : Ty) (v : T.Val) :
    (T.encode v).length = T.readLength v + 3 * T.byteLeaves v := by
  induction T with
  | bool => rfl
  | num k => exact k.encode_length v
  | string => simp [Ty.encode, Ty.readLength, Ty.byteLeaves]
  | vector T ih =>
    have hl (l : List T.Val) : (l.flatMap T.encode).length =
        (l.map T.readLength).sum + 3 * (l.map T.byteLeaves).sum := by
      induction l with
      | nil => rfl
      | cons w l ihl =>
        simp only [List.flatMap_cons, List.length_append, ihl, ih, List.map_cons, List.sum_cons]
        omega
    simp only [Ty.encode, Ty.readLength, Ty.byteLeaves, List.length_append, leBytes_length, hl]
    omega

theorem Ty.byteLeaves_of_isWide (T : Ty) (h : T.isWide = true) (v : T.Val) :
    T.byteLeaves v = 0 := by
  induction T with
  | bool => cases h
  | num k => exact if_pos h
  | string => rfl
  | vector T ih =>
    apply List.sum_eq_zero_iff_forall_eq_nat.mpr
    intro n hn
    obtain ⟨w, _, rfl⟩ := List.mem_map.mp hn
    exact ih h w

end CppAlls
