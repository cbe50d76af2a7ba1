import CppAlls.Core.SyncRules

namespace CppAlls
set_option autoImplicit true

open Interaction Failing

theorem RequestM.extractData_on (n : Nat) (r : StackRequest) :
    (RequestM.extractData n).on r =
      match r.extractData n with
      | .ok (bs, r') => (.ok bs, r')
      | .error e => (.error e, r) := rfl

namespace StackRequest

/-- The sum of the check comes out below the cursor, and the copy goes on past the buffer. -/
theorem extractData_wrapped {r : StackRequest} (hc : r.dataExtracted ≤ r.pimpl.length)
    (hn : n < 2 ^ 64) (hwrap : 2 ^ 64 ≤ n + r.dataExtracted) :
    r.extractData n = .error .undefined := by
  have hr := r.size_lt
  have hsum : addSize n r.dataExtracted = n + r.dataExtracted - 2 ^ 64 := by
    rw [addSize]
    omega
  rw [extractData, hsum, if_neg (by omega), if_pos (by omega)]

theorem extractData_throws {r : StackRequest} (hsum : n + r.dataExtracted < 2 ^ 64)
    (h : r.pimpl.length < n + r.dataExtracted) :
    r.extractData n = .error (.rangeError "request::extract_data: no data remain") := by
  rw [extractData, addSize_eq hsum, if_pos h]

/-- `extract_data` takes exactly the next unread bytes, or throws because they are too few. -/
def ExtractsExactly (r : StackRequest) (size : UInt64) : Prop :=
  (RequestM.extractData size.toNat).on r =
    if size.toNat ≤ r.pimpl.length - r.dataExtracted then
      (.ok (r.unread.take size.toNat), { r with dataExtracted := r.dataExtracted + size.toNat })
    else
      (.error (.rangeError "request::extract_data: no data remain"), r)

theorem extractsExactly_of_sum {r : StackRequest} {size : UInt64}
    (hc : r.dataExtracted ≤ r.pimpl.length) (h : size.toNat + r.dataExtracted < 2 ^ 64) :
    r.ExtractsExactly size := by
  rw [ExtractsExactly, RequestM.extractData_on]
  by_cases hle : size.toNat ≤ r.pimpl.length - r.dataExtracted
  · rw [extractData_ok (by omega), if_pos hle]
  · rw [extractData_throws h (by omega), if_neg hle]

theorem not_extractsExactly {r : StackRequest} {size : UInt64}
    (hc : r.dataExtracted ≤ r.pimpl.length) (h : 2 ^ 64 ≤ size.toNat + r.dataExtracted) :
    ¬ r.ExtractsExactly size := by
  have hr := r.size_lt
  have hsize := size.toNat_lt
  intro he
  rw [ExtractsExactly, RequestM.extractData_on, extractData_wrapped hc hsize h,
    if_neg (by omega)] at he
  cases he

end StackRequest

namespace Connection

/-- `extract_data` calls `read` for the bytes that are missing, if any are. -/
def AsksShortfall (U : Type) (c : Connection) (size : UInt64) : Prop :=
  ∀ read : Nat → ConnM U Unit, (extractData read size.toNat).on c =
    if size.toNat ≤ c.request.pimpl.length - c.request.dataExtracted then
      (stackExtractData size.toNat).on c
    else
      (read (size.toNat - (c.request.pimpl.length - c.request.dataExtracted)) >>= fun _ =>
        stackExtractData size.toNat).on c

theorem asksShortfall_of_sum {c : Connection} {size : UInt64}
    (hc : c.request.dataExtracted ≤ c.request.pimpl.length)
    (h : size.toNat + c.request.dataExtracted < 2 ^ 64) : c.AsksShortfall U size := by
  intro read
  split
  next hle => exact ConnM.extractData_enough read (by omega)
  next hle =>
    rw [extractData, ObjM.on_bind_pure (ObjM.on_get c), addSize_eq h, if_pos (by omega),
      subSize_eq (by omega) h, Nat.sub_sub_right _ hc]

/-- A `read` that throws is not called. -/
theorem not_asksShortfall {c : Connection} {size : UInt64}
    (hc : c.request.dataExtracted ≤ c.request.pimpl.length)
    (h : 2 ^ 64 ≤ size.toNat + c.request.dataExtracted) : ¬ c.AsksShortfall U size := by
  have hr := c.request.size_lt
  have hsize := size.toNat_lt
  have hsum : addSize size.toNat c.request.dataExtracted =
      size.toNat + c.request.dataExtracted - 2 ^ 64 := by
    rw [addSize]
    omega
  intro ha
  have he := ha (fun _ => throw .systemError)
  have hcopy : (stackExtractData size.toNat : ConnM U Bytes).on c =
      .pure (.error .undefined, c) :=
    ObjM.on_bind_throw (ConnM.onRequest_error (StackRequest.extractData_wrapped hc hsize h))
  rw [if_neg (by omega), ObjM.on_bind_throw (ObjM.on_throw _ c), extractData,
    ObjM.on_bind_pure (ObjM.on_get c), hsum, if_neg (by omega)] at he
  have hne := hcopy.symm.trans he
  cases hne

/-- Both checks are exact as long as the requested size and the cursor add up below `2 ^ 64`. -/
theorem extracts_exactly_iff (c : Connection) (size : UInt64)
    (hc : c.request.dataExtracted ≤ c.request.pimpl.length) :
    (c.request.ExtractsExactly size ↔ size.toNat + c.request.dataExtracted < 2 ^ 64) ∧
    (c.AsksShortfall U size ↔ size.toNat + c.request.dataExtracted < 2 ^ 64) := by
  refine ⟨⟨?_, StackRequest.extractsExactly_of_sum hc⟩, ⟨?_, asksShortfall_of_sum hc⟩⟩
  · intro he
    apply Nat.lt_of_not_le
    intro hle
    exact StackRequest.not_extractsExactly hc hle he
  · intro ha
    apply Nat.lt_of_not_le
    intro hle
    exact not_asksShortfall hc hle ha

theorem extracts_one_exactly :
    ((⟨⟨[7], 0, by decide⟩, {}, []⟩ : Connection).request.ExtractsExactly 1 ↔
      (1 : UInt64).toNat + 0 < 2 ^ 64) ∧
    ((⟨⟨[7], 0, by decide⟩, {}, []⟩ : Connection).AsksShortfall Empty 1 ↔
      (1 : UInt64).toNat + 0 < 2 ^ 64) :=
  extracts_exactly_iff ⟨⟨[7], 0, by decide⟩, {}, []⟩ 1 (by decide)

/-- With one byte read and none left the largest size passes both checks. -/
theorem largest_size_passes :
    ¬ (⟨⟨[7], 1, by decide⟩, {}, []⟩ : Connection).request.ExtractsExactly 0xFFFFFFFFFFFFFFFF ∧
    ¬ (⟨⟨[7], 1, by decide⟩, {}, []⟩ : Connection).AsksShortfall Empty 0xFFFFFFFFFFFFFFFF :=
  ⟨StackRequest.not_extractsExactly (by decide) (by decide), not_asksShortfall (by decide) (by decide)⟩

end Connection

/-- The public operations that change a request. -/
inductive RequestCall where
  | resize (size : UInt64)
  | extractData (size : UInt64)
  | shrink
  | clear
deriving DecidableEq, Repr

namespace RequestCall

def run : RequestCall → StackRequest → Except Exn StackRequest
  | .resize size, r => r.resize size.toNat
  | .extractData size, r => Prod.snd <$> r.extractData size.toNat
  | .shrink, r => r.shrink
  | .clear, r => .ok r.clear

/-- A call that throws leaves the request as it was; after undefined behaviour there is none. -/
def after (call : RequestCall) (r : StackRequest) : Option StackRequest :=
  match call.run r with
  | .ok r' => some r'
  | .error .undefined => none
  | .error _ => some r

/-- The call leaves the cursor inside the buffer, and if it is `shrink` the unread bytes as well. -/
def Keeps (call : RequestCall) (r r' : StackRequest) : Prop :=
  r'.dataExtracted ≤ r'.pimpl.length ∧ (call = .shrink → r'.unread = r.unread)

/-- No resize goes below the cursor, and no requested size wraps when the cursor is added. -/
def Bounded : RequestCall → StackRequest → Prop
  | .resize size, r => r.dataExtracted ≤ size.toNat
  | .extractData size, r => size.toNat + r.dataExtracted < 2 ^ 64
  | .shrink, _ => True
  | .clear, _ => True

theorem resize_keeps_iff {r : StackRequest} (size : UInt64)
    (hc : r.dataExtracted ≤ r.pimpl.length) :
    (∃ r', (resize size).after r = some r' ∧ (resize size).Keeps r r') ↔
      r.dataExtracted ≤ size.toNat := by
  have hr := r.size_lt
  by_cases hsize : size.toNat < 2 ^ 63
  · obtain ⟨r', hr', hp, hd⟩ := StackRequest.resize_ok (r := r) hsize
    have hafter : (resize size).after r = some r' := by
      rw [after, run, hr']
    have hlen : r'.pimpl.length = size.toNat := by
      rw [hp, List.length_append, List.length_take, List.length_replicate]
      omega
    rw [hafter]
    constructor
    · intro h
      obtain ⟨_, he, hk, _⟩ := h
      cases he
      omega
    · intro hle
      refine ⟨r', rfl, ?_, ?_⟩
      · omega
      · intro he
        cases he
  · have hafter : (resize size).after r = some r := by
      rw [after, run, StackRequest.resize, dif_neg hsize]
    refine iff_of_true ⟨r, hafter, hc, ?_⟩ (by omega)
    intro he
    cases he

theorem extractData_keeps_iff {r : StackRequest} (size : UInt64)
    (hc : r.dataExtracted ≤ r.pimpl.length) :
    (∃ r', (extractData size).after r = some r' ∧ (extractData size).Keeps r r') ↔
      size.toNat + r.dataExtracted < 2 ^ 64 := by
  have hne : extractData size ≠ .shrink := by
    intro he
    cases he
  by_cases hsum : size.toNat + r.dataExtracted < 2 ^ 64
  · refine iff_of_true ?_ hsum
    by_cases hle : r.dataExtracted + size.toNat ≤ r.pimpl.length
    · refine ⟨{ r with dataExtracted := r.dataExtracted + size.toNat }, ?_, hle, fun h => (hne h).elim⟩
      rw [after, run, StackRequest.extractData_ok hle]
      rfl
    · refine ⟨r, ?_, hc, fun h => (hne h).elim⟩
      rw [after, run, StackRequest.extractData_throws hsum (by omega)]
      rfl
  · refine iff_of_false ?_ hsum
    intro h
    obtain ⟨r', he, _⟩ := h
    rw [after, run, StackRequest.extractData_wrapped hc size.toNat_lt (by omega)] at he
    cases he

/-- What one operation preserves. -/
theorem keeps_iff (call : RequestCall) {r : StackRequest}
    (hc : r.dataExtracted ≤ r.pimpl.length) :
    (∃ r', call.after r = some r' ∧ call.Keeps r r') ↔ call.Bounded r := by
  cases call with
  | resize size => exact resize_keeps_iff size hc
  | extractData size => exact extractData_keeps_iff size hc
  | shrink =>
    refine iff_of_true ?_ trivial
    obtain ⟨r', hr', hp, hd⟩ := StackRequest.shrink_ok hc
    refine ⟨r', ?_, ?_, ?_⟩
    · rw [after, run, hr']
    · rw [hd]
      exact Nat.zero_le _
    · intro _
      rw [StackRequest.unread, hd, hp]
      rfl
  | clear =>
    refine iff_of_true ⟨{}, rfl, Nat.le_refl 0, ?_⟩ trivial
    intro he
    cases he

end RequestCall

/-- After each of the operations the cursor is inside the buffer, so that `begin() <= end()`, and no
`shrink` changed the unread bytes. -/
def CursorKept : StackRequest → List RequestCall → Prop
  | _, [] => True
  | r, call :: calls => ∃ r', call.after r = some r' ∧ call.Keeps r r' ∧ CursorKept r' calls

/-- Each of the operations is within its bounds on the request on which it is called. -/
def CallsBounded : StackRequest → List RequestCall → Prop
  | _, [] => True
  | r, call :: calls => call.Bounded r ∧ ∀ r', call.after r = some r' → CallsBounded r' calls

theorem cursorKept_iff (calls : List RequestCall) {r : StackRequest}
    (hc : r.dataExtracted ≤ r.pimpl.length) : CursorKept r calls ↔ CallsBounded r calls := by
  induction calls generalizing r with
  | nil => exact Iff.rfl
  | cons call calls ih =>
    rw [CursorKept, CallsBounded, ← call.keeps_iff hc]
    constructor
    · intro h
      obtain ⟨r', he, hk, hrest⟩ := h
      refine ⟨⟨r', he, hk⟩, ?_⟩
      intro r'' he'
      cases he.symm.trans he'
      exact (ih hk.1).mp hrest
    · intro h
      obtain ⟨⟨r', he, hk⟩, hrest⟩ := h
      exact ⟨r', he, hk, (ih hk.1).mpr (hrest r' he)⟩

/-- From a fresh request on. -/
theorem cursor_invariant_iff (calls : List RequestCall) :
    CursorKept {} calls ↔ CallsBounded {} calls :=
  cursorKept_iff calls (Nat.le_refl 0)

/-- Four bytes are read and the buffer is cut to two. -/
theorem cut_below_cursor :
    ¬ CursorKept {} [.resize 4, .extractData 4, .resize 2] := by
  rw [cursorKept_iff _ (Nat.le_refl 0)]
  intro h
  have h₂ := h.2 _ rfl
  have hcut : 4 ≤ 2 := (h₂.2 _ rfl).1
  omega

end CppAlls
