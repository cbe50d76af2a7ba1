import CppAlls.Lib.LittleEndian

namespace CppAlls
set_option autoImplicit true

abbrev Bytes := List UInt8

/-- The ways a call can end other than by returning; `undefined` is undefined behaviour. -/
inductive Exn where
  | rangeError (what : String)
  | logicError (what : String)
  | lengthError
  | badNumericCast
  | systemError
  | stackOverflow
  | undefined
deriving DecidableEq, Repr

/-- Addition on the 64 bits of `std::size_t`. -/
def addSize (a b : Nat) : Nat := (a + b) % 2 ^ 64

def subSize (a b : Nat) : Nat := (a + (2 ^ 64 - b % 2 ^ 64)) % 2 ^ 64

theorem addSize_eq (h : a + b < 2 ^ 64) : addSize a b = a + b := Nat.mod_eq_of_lt h

theorem subSize_eq (hb : b ≤ a) (ha : a < 2 ^ 64) : subSize a b = a - b := by
  rw [subSize, Nat.mod_eq_of_lt (Nat.lt_of_le_of_lt hb ha)]
  omega

theorem nil_size_lt : ([] : Bytes).length < 2 ^ 63 := by decide

/-- The buffer of a request and its read cursor. Pointers into a buffer differ by a
`std::ptrdiff_t`, so no buffer reaches `2 ^ 63` bytes. -/
@[ext] structure StackRequest where
  pimpl : Bytes := []
  dataExtracted : Nat := 0
  size_lt : pimpl.length < 2 ^ 63 := by first | exact nil_size_lt | decide
deriving DecidableEq

namespace StackRequest

/-- The bytes of `[begin(), end())`. -/
def unread (r : StackRequest) : Bytes := r.pimpl.drop r.dataExtracted

/-- The first test is the code's own; past it, a copy beyond the end is undefined. -/
def extractData (r : StackRequest) (size : Nat) : Except Exn (Bytes × StackRequest) :=
  if r.pimpl.length < addSize size r.dataExtracted then
    .error (.rangeError "request::extract_data: no data remain")
  else if r.pimpl.length < r.dataExtracted + size then
    .error .undefined
  else
    .ok (r.unread.take size, { r with dataExtracted := r.dataExtracted + size })

def clear (_ : StackRequest) : StackRequest := {}

/-- New bytes are zero; beyond the largest size of the container nothing changes. -/
def resize (r : StackRequest) (size : Nat) : Except Exn StackRequest :=
  if h : size < 2 ^ 63 then
    .ok { r with
      pimpl := r.pimpl.take size ++ List.replicate (size - r.pimpl.length) 0
      size_lt := by simp only [List.length_append, List.length_take, List.length_replicate]; omega }
  else
    .error .lengthError

def shrink (r : StackRequest) : Except Exn StackRequest :=
  if r.dataExtracted ≤ r.pimpl.length then
    .ok { pimpl := r.unread
          size_lt := by
            have h := r.size_lt
            simp only [unread, List.length_drop]
            omega }
  else
    .error .undefined

/-- A socket writes bytes into the buffer behind `begin() + offset`. -/
def fill (r : StackRequest) (offset : Nat) (bs : Bytes) : Except Exn StackRequest :=
  if h : r.dataExtracted + offset + bs.length ≤ r.pimpl.length then
    .ok { r with
      pimpl := r.pimpl.take (r.dataExtracted + offset) ++ bs ++
        r.pimpl.drop (r.dataExtracted + offset + bs.length)
      size_lt := by
        have hr := r.size_lt
        simp only [List.length_append, List.length_take, List.length_drop]
        omega }
  else
    .error .undefined

theorem unread_length (r : StackRequest) : r.unread.length = r.pimpl.length - r.dataExtracted :=
  List.length_drop

theorem unread_advance (r : StackRequest) (n : Nat) :
    ({ r with dataExtracted := r.dataExtracted + n } : StackRequest).unread = r.unread.drop n := by
  rw [unread, unread, List.drop_drop]

theorem extractData_ok {r : StackRequest} (h : r.dataExtracted + n ≤ r.pimpl.length) :
    r.extractData n = .ok (r.unread.take n, { r with dataExtracted := r.dataExtracted + n }) := by
  have hr := r.size_lt
  rw [extractData, addSize_eq (by omega), if_neg (by omega), if_neg (by omega)]

theorem extractData_short {r : StackRequest} (hn : n < 2 ^ 63)
    (hc : r.dataExtracted ≤ r.pimpl.length) (h : r.pimpl.length < r.dataExtracted + n) :
    r.extractData n = .error (.rangeError "request::extract_data: no data remain") := by
  have hr := r.size_lt
  rw [extractData, addSize_eq (by omega), if_pos (by omega)]

theorem resize_ok {r : StackRequest} (h : n < 2 ^ 63) : ∃ r', r.resize n = .ok r' ∧
    r'.pimpl = r.pimpl.take n ++ List.replicate (n - r.pimpl.length) 0 ∧
    r'.dataExtracted = r.dataExtracted := by
  rw [resize, dif_pos h]
  exact ⟨_, rfl, rfl, rfl⟩

theorem shrink_ok {r : StackRequest} (h : r.dataExtracted ≤ r.pimpl.length) :
    ∃ r', r.shrink = .ok r' ∧ r'.pimpl = r.unread ∧ r'.dataExtracted = 0 := by
  rw [shrink, if_pos h]
  exact ⟨_, rfl, rfl, rfl⟩

theorem fill_ok {r : StackRequest} (h : r.dataExtracted + offset + bs.length ≤ r.pimpl.length) :
    ∃ r', r.fill offset bs = .ok r' ∧ r'.dataExtracted = r.dataExtracted ∧
      r'.pimpl = r.pimpl.take (r.dataExtracted + offset) ++ bs ++
        r.pimpl.drop (r.dataExtracted + offset + bs.length) := by
  rw [fill, dif_pos h]
  exact ⟨_, rfl, rfl, rfl⟩

end StackRequest

/-- The buffer of a response. Its allocations are assumed to succeed. -/
@[ext] structure StackResponse where
  pimpl : Bytes := []
deriving DecidableEq

namespace StackResponse

def npos : Nat := 2 ^ 64 - 1

/-- The insertion point is behind the contents or, as the code has it, `size` bytes behind
their start; a point outside the contents is undefined. -/
def putData (r : StackResponse) (data : Bytes) (pos : Nat) : Except Exn StackResponse :=
  let size := data.length
  let oldSize := r.pimpl.length % 2 ^ 64
  let it := if pos ≥ oldSize then r.pimpl.length else size
  if it ≤ r.pimpl.length then
    .ok { pimpl := r.pimpl.take it ++ data ++ r.pimpl.drop it }
  else
    .error .undefined

def clear (_ : StackResponse) : StackResponse := {}

theorem putData_append (r : StackResponse) (data : Bytes) :
    r.putData data npos = .ok ⟨r.pimpl ++ data⟩ := by
  have h : npos ≥ r.pimpl.length % 2 ^ 64 := by
    have hlt := Nat.mod_lt r.pimpl.length (Nat.two_pow_pos 64)
    simp only [npos]
    omega
  simp only [putData, if_pos h, Nat.le_refl, ↓reduceIte, List.take_length, List.drop_length,
    List.append_nil]

/-- Inserting before the end places the block behind as many bytes as the block has. -/
theorem putData_insert {r : StackResponse} (h : pos < r.pimpl.length)
    (hr : r.pimpl.length < 2 ^ 64) (data : Bytes) :
    r.putData data pos =
      if data.length ≤ r.pimpl.length then
        .ok ⟨r.pimpl.take data.length ++ data ++ r.pimpl.drop data.length⟩
      else .error .undefined := by
  simp only [putData, Nat.mod_eq_of_lt hr, if_neg (Nat.not_le.mpr h)]

/-- `put_data` succeeds, with an insertion point inside the contents, and the block goes in at `pos`,
or at the end when `pos` is past it. -/
def InsertsAt (r : StackResponse) (data : Bytes) (pos : Nat) : Prop :=
  r.putData data pos = .ok
    ⟨r.pimpl.take (min pos r.pimpl.length) ++ data ++ r.pimpl.drop (min pos r.pimpl.length)⟩

/-- The contents between the first `i` and the first `j` bytes. -/
def between (r : StackResponse) (i j : Nat) : Bytes := (r.pimpl.drop i).take (j - i)

/-- A block can go in at either end of what it commutes with. -/
theorem insert_eq_iff (r : StackResponse) (data : Bytes) (h : i ≤ j) :
    r.pimpl.take i ++ data ++ r.pimpl.drop i = r.pimpl.take j ++ data ++ r.pimpl.drop j ↔
      data ++ r.between i j = r.between i j ++ data := by
  have htake : r.pimpl.take j = r.pimpl.take i ++ r.between i j := by
    rw [between, ← List.take_add, Nat.add_sub_cancel' h]
  have hdrop : r.pimpl.drop i = r.between i j ++ r.pimpl.drop j := by
    have hj : r.pimpl.drop j = (r.pimpl.drop i).drop (j - i) := by
      rw [List.drop_drop, Nat.add_sub_cancel' h]
    rw [between, hj, List.take_append_drop]
  rw [htake, hdrop]
  constructor
  · intro he
    have hl : r.pimpl.take i ++ ((data ++ r.between i j) ++ r.pimpl.drop j) =
        r.pimpl.take i ++ ((r.between i j ++ data) ++ r.pimpl.drop j) := by
      simpa only [List.append_assoc] using he
    exact List.append_cancel_right (List.append_cancel_left hl)
  · intro hc
    have hl : r.pimpl.take i ++ (data ++ r.between i j) ++ r.pimpl.drop j =
        r.pimpl.take i ++ (r.between i j ++ data) ++ r.pimpl.drop j := by rw [hc]
    simpa only [List.append_assoc] using hl

/-- The code inserts at `pos` exactly when that is at the end or past it, or when the contents reach
as far as the block is long and the block commutes with what lies between its own length and
`pos`. -/
theorem insertsAt_iff (r : StackResponse) (hr : r.pimpl.length < 2 ^ 64) (data : Bytes)
    (pos : Nat) : r.InsertsAt data pos ↔ r.pimpl.length ≤ pos ∨ data.length ≤ r.pimpl.length ∧
      data ++ r.between (min data.length pos) (max data.length pos) =
        r.between (min data.length pos) (max data.length pos) ++ data := by
  by_cases hpos : r.pimpl.length ≤ pos
  · refine iff_of_true ?_ (.inl hpos)
    have hge : pos ≥ r.pimpl.length % 2 ^ 64 := Nat.le_trans (Nat.mod_le _ _) hpos
    simp only [InsertsAt, putData, if_pos hge, Nat.le_refl, ↓reduceIte, Nat.min_eq_right hpos]
  · have hlt : pos < r.pimpl.length := Nat.lt_of_not_le hpos
    rw [InsertsAt, putData_insert hlt hr, Nat.min_eq_left (Nat.le_of_lt hlt), or_iff_right hpos]
    by_cases hfit : data.length ≤ r.pimpl.length
    · rw [if_pos hfit, Except.ok.injEq, StackResponse.mk.injEq, and_iff_right hfit]
      rcases Nat.le_total data.length pos with hle | hle
      · rw [Nat.min_eq_left hle, Nat.max_eq_right hle]
        exact r.insert_eq_iff data hle
      · rw [Nat.min_eq_right hle, Nat.max_eq_left hle, ← r.insert_eq_iff data hle]
        exact eq_comm
    · rw [if_neg hfit]
      refine iff_of_false ?_ (fun h => hfit h.1)
      intro he
      cases he

/-- A header goes in at the end, and a block anywhere in what it commutes with. -/
theorem header_at_end_inserted : (StackResponse.mk [1, 2]).InsertsAt [6, 0, 0, 0] npos ∧
    (StackResponse.mk [7, 7, 7, 7, 1]).InsertsAt [7, 7] 1 := by
  constructor
  · exact (insertsAt_iff ⟨[1, 2]⟩ (by decide) [6, 0, 0, 0] npos).mpr (.inl (by decide))
  · exact (insertsAt_iff ⟨[7, 7, 7, 7, 1]⟩ (by decide) [7, 7] 1).mpr (.inr (by decide))

/-- A header for position 0 goes in behind the first four bytes. -/
theorem header_not_in_front : ¬ (StackResponse.mk [1, 2, 3, 4, 5]).InsertsAt [9, 0, 0, 0] 0 := by
  rw [InsertsAt]
  decide

end StackResponse

end CppAlls
