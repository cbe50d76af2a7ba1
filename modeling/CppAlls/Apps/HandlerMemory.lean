import CppAlls.Apps.Turns
import CppAlls.Core.Fragmentation

namespace CppAlls
set_option autoImplicit true

open Relation InUse Failing AsyncConnectionFast

/-- `storages_count_`. -/
def storagesCount : Nat := 4

/-- The hooks of a `custom_alloc_handler`, with the allocator that it refers to. -/
def asioHandlerAllocate (a : SlabState n) (size address : Nat) : Option (SlabState n) :=
  (SlabOp.allocate size address).apply a

def asioHandlerDeallocate (a : SlabState n) (pointer : Pointer) : Option (SlabState n) :=
  (SlabOp.deallocate pointer).apply a

/-- What asio takes for handlers of these sizes. -/
inductive Allocates : List Nat → SlabState n → SlabState n → Prop where
  | none : Allocates [] a a
  | next : (SlabOp.allocate size address).Allowed a →
      asioHandlerAllocate a size address = some a₁ → Allocates sizes a₁ a₂ →
      Allocates (size :: sizes) a a₂

def Small (blocks : Nat) (sizes : List Nat) : Prop := ∀ size ∈ sizes, blocksRequired size ≤ blocks

instance decidableSmall (blocks : Nat) (sizes : List Nat) : Decidable (Small blocks sizes) :=
  inferInstanceAs (Decidable (∀ size ∈ sizes, blocksRequired size ≤ blocks))

/-- An allocator with `count` allocations, all in the slab and none of more than `blocks` blocks. -/
structure Holds (blocks count : Nat) (a : SlabState n) : Prop where
  consistent : Consistent a
  length : a.live.length = count
  slab : ∀ x ∈ a.live, ∃ i, x.1 = .slab i
  small : ∀ x ∈ a.live, blocksRequired x.2 ≤ blocks

/-- Beside `count` allocations of up to `blocks` blocks, wherever they lie, `n` slots have room for
one more. -/
def Room (n blocks count : Nat) : Prop := count * blocks + (count + 1) * (blocks - 1) < n

theorem Room.mono (h : Room n blocks count) (hle : count' ≤ count) : Room n blocks count' := by
  rw [Room] at h ⊢
  have hoccupied := Nat.mul_le_mul_right blocks hle
  have hgaps := Nat.mul_le_mul_right (blocks - 1) (Nat.succ_le_succ hle)
  simp only [Nat.succ_eq_add_one] at hgaps
  omega

theorem Apart.pointer_ne (h : Apart x y) : x.1 ≠ y.1 := by
  obtain ⟨p, size⟩ := x
  obtain ⟨q, size'⟩ := y
  intro he
  cases he
  cases p with
  | heap address => exact h rfl
  | slab i =>
    have hpos := blocksRequired_pos size
    have hpos' := blocksRequired_pos size'
    rcases h with h | h
    · omega
    · omega

namespace Holds

variable {n : Nat} {a a' : SlabState n}

theorem fresh (n blocks : Nat) : Holds blocks 0 { inUse := InUse.fresh n } where
  consistent := .fresh n
  length := rfl
  slab _ hx := by cases hx
  small _ hx := by cases hx

theorem occupied_le (h : Holds blocks count a) :
    a.extents.length ≤ count ∧ a.occupied ≤ count * blocks := by
  have hlength : a.extents.length ≤ count := by
    rw [← h.length]
    exact List.length_filterMap_le _ _
  have hsmall : ∀ k ∈ a.extents.map Prod.snd, k ≤ blocks := by
    intro k hk
    obtain ⟨x, hx, rfl⟩ := List.mem_map.mp hk
    obtain ⟨size, hm, hk⟩ := SlabState.mem_extents.mp hx
    rw [hk]
    exact h.small _ hm
  have hsum := List.sum_le_card_nsmul _ blocks hsmall
  rw [List.length_map, Nat.nsmul_eq_mul] at hsum
  exact ⟨hlength, hsum.trans (Nat.mul_le_mul_right _ hlength)⟩

theorem allowed (h : Holds blocks count a) (size address : Nat) :
    (SlabOp.allocate size address).Allowed a := by
  intro x hx he
  obtain ⟨i, hi⟩ := h.slab x hx
  cases hi.symm.trans he

/-- With room for one more handler the next one gets its memory from the slab. -/
theorem allocate (h : Holds blocks count a) (hn : n < 254) (hroom : Room n blocks count)
    (hsize : blocksRequired size ≤ blocks) (address : Nat) :
    ∃ a', asioHandlerAllocate a size address = some a' ∧ Holds blocks (count + 1) a' := by
  have hpos := blocksRequired_pos size
  have hfit : blocksRequired size ≤ n := by
    have hone : blocks - 1 ≤ (count + 1) * (blocks - 1) :=
      Nat.le_mul_of_pos_left _ (Nat.succ_pos count)
    rw [Room] at hroom
    omega
  obtain ⟨a', ha', hconsistent⟩ := SlabOp.apply_consistent (.allocate size address) hn
    h.consistent hfit (h.allowed size address)
  cases hab : a.inUse.allocate size address with
  | none =>
    rw [SlabOp.apply, hab] at ha'
    cases ha'
  | some r =>
    obtain ⟨p, inUse⟩ := r
    have hp : ∃ i, p = .slab i := by
      cases p with
      | slab i => exact ⟨i, rfl⟩
      | heap address' =>
        obtain ⟨hlength, hoccupied⟩ := h.occupied_le
        have hbound := h.consistent.heap_bound hn hfit hab
        have hmul : (a.extents.length + 1) * (blocksRequired size - 1) ≤
            (count + 1) * (blocks - 1) :=
          Nat.mul_le_mul (Nat.succ_le_succ hlength) (Nat.sub_le_sub_right hsize 1)
        rw [Room] at hroom
        omega
    have happly := ha'
    rw [SlabOp.apply, hab] at happly
    cases happly
    refine ⟨_, ha', hconsistent, congrArg Nat.succ h.length, ?_, ?_⟩
    · intro x hx
      rcases List.mem_cons.mp hx with rfl | hx
      · exact hp
      · exact h.slab x hx
    · intro x hx
      rcases List.mem_cons.mp hx with rfl | hx
      · exact hsize
      · exact h.small x hx

theorem deallocate (h : Holds blocks (count + 1) a) (hn : n < 254)
    (hp : (SlabOp.deallocate p).Allowed a) :
    ∃ a', asioHandlerDeallocate a p = some a' ∧ Holds blocks count a' := by
  obtain ⟨a', ha', hconsistent⟩ := SlabOp.apply_consistent (.deallocate p) hn h.consistent
    trivial hp
  have hlive : a'.live = a.live.filter (·.1 ≠ p) := by
    rw [SlabOp.apply] at ha'
    cases hd : a.inUse.deallocate p 0 with
    | none =>
      rw [hd] at ha'
      cases ha'
    | some inUse =>
      rw [hd] at ha'
      cases ha'
      rfl
  refine ⟨a', ha', hconsistent, ?_, ?_, ?_⟩
  · obtain ⟨size, hm⟩ := hp
    have hcount : a.live.countP (·.1 = p) = 1 := by
      have hnodup : (a.live.map Prod.fst).Nodup :=
        List.pairwise_map.mpr (h.consistent.apart.imp Apart.pointer_ne)
      have hone := List.count_eq_one_of_mem hnodup (List.mem_map_of_mem hm)
      rw [List.count, List.countP_map] at hone
      exact hone
    have hsplit := List.length_eq_countP_add_countP (fun x : Pointer × Nat => x.1 = p) (l := a.live)
    have hlength := h.length
    rw [hlive, ← List.countP_eq_length_filter]
    simp only [decide_not, Bool.decide_eq_true] at hsplit ⊢
    omega
  · intro x hx
    rw [hlive] at hx
    exact h.slab x (List.mem_of_mem_filter hx)
  · intro x hx
    rw [hlive] at hx
    exact h.small x (List.mem_of_mem_filter hx)

theorem allocates (h : Holds blocks count a) (hn : n < 254) (hroom : Room n blocks others)
    (hsmall : Small blocks sizes) (hle : count + sizes.length ≤ others + 1)
    (ha : Allocates sizes a a') : Holds blocks (count + sizes.length) a' := by
  induction ha generalizing count with
  | none => exact h
  | @next size address a a₁ sizes a₂ _ hsome _ ih =>
    rw [List.length_cons] at hle ⊢
    obtain ⟨hsize, hsizes⟩ := List.forall_mem_cons.mp hsmall
    obtain ⟨a₁', ha₁', hholds⟩ := h.allocate hn (hroom.mono (by omega)) hsize address
    cases hsome.symm.trans ha₁'
    have hlength : count + (sizes.length + 1) = count + 1 + sizes.length := by omega
    rw [hlength]
    exact ih hholds hsizes (by omega)

theorem exists_allocates (h : Holds blocks count a) (hn : n < 254) (hroom : Room n blocks others)
    (hsmall : Small blocks sizes) (hle : count + sizes.length ≤ others + 1) :
    ∃ a', Allocates sizes a a' := by
  induction sizes generalizing count a with
  | nil => exact ⟨a, .none⟩
  | cons size sizes ih =>
    rw [List.length_cons] at hle
    obtain ⟨hsize, hsizes⟩ := List.forall_mem_cons.mp hsmall
    obtain ⟨a₁, ha₁, hholds⟩ := h.allocate hn (hroom.mono (by omega)) hsize 0
    obtain ⟨a', ha'⟩ := ih hholds hsizes (by omega)
    exact ⟨a', .next (h.allowed size 0) ha₁ ha'⟩

end Holds

/-- A connection and its `allocator_`. -/
structure HandlerMemory (K : Type) where
  served : Served K
  allocator : SlabState storagesCount

namespace HandlerMemory

variable {K : Type}

def underWay (x : HandlerMemory K) : Nat := x.served.connection.outstanding.length

/-- The handlers of the operations that a new connection begins with have these sizes. -/
def Begins (sizes : List Nat) (x : HandlerMemory K) : Prop :=
  Allocates sizes { inUse := fresh storagesCount } x.allocator ∧ sizes.length = x.underWay

/-- Asio gives the memory of a handler back before it goes on with the operation or calls the
callback, and then takes some for each operation that begins. -/
def Reuses (sizes : List Nat) (x x' : HandlerMemory K) : Prop :=
  ∃ pointer a, (SlabOp.deallocate pointer).Allowed x.allocator ∧
    asioHandlerDeallocate x.allocator pointer = some a ∧ Allocates sizes a x'.allocator ∧
    x.underWay + sizes.length = x'.underWay + 1

/-- A handler that asio calls with an error. -/
def failed [DecidableEq K] (call : K → Bool → AsyncM K Unit) (s : Served K) :
    AsyncOperation K → Served K
  | .read cb size got => { s with
      connection := ((callbackReadWrapped call cb true).on { s.connection with
        outstanding := s.connection.outstanding.erase (.read cb size got) }).2 }
  | .write cb rest => { s with
      connection := ((callbackWriteWrapped call cb true).on { s.connection with
        outstanding := s.connection.outstanding.erase (.write cb rest) }).2 }

inductive Handled [DecidableEq K] (call : K → Bool → AsyncM K Unit) (s : Served K) :
    Served K → Prop where
  | step : Served.Step call s s' → Handled call s s'
  | failed : op ∈ s.connection.outstanding → Handled call s (failed call s op)

inductive Step [DecidableEq K] (call : K → Bool → AsyncM K Unit) (blocks : Nat)
    (x : HandlerMemory K) : HandlerMemory K → Prop where
  | handler : Handled call x.served s → Small blocks sizes → x.Reuses sizes ⟨s, a⟩ →
      Step call blocks x ⟨s, a⟩
  | client (inbound outbound : Bytes) :
      Step call blocks x { x with
        served := { x.served with inbound := inbound, outbound := outbound } }

/-- Every handler has its memory in the slab, which is free when nothing is under way, and whatever
the next one does there is memory in it for up to `most` operations. -/
structure Supplied [DecidableEq K] (call : K → Bool → AsyncM K Unit) (blocks most : Nat)
    (x : HandlerMemory K) : Prop where
  slab : ∀ allocation ∈ x.allocator.live, ∃ i, allocation.1 = .slab i
  each : x.allocator.live.length = x.underWay
  free : x.underWay = 0 → x.allocator.inUse = fresh storagesCount
  next : ∀ s sizes, Handled call x.served s → Small blocks sizes →
    s.connection.outstanding.length ≤ most →
    x.underWay + sizes.length = s.connection.outstanding.length + 1 →
    ∃ a, x.Reuses sizes ⟨s, a⟩

theorem Handled.event [DecidableEq K] {call : K → Bool → AsyncM K Unit} {s s' : Served K}
    (h : Handled call s s') : Served.Event call s s' := by
  cases h with
  | step hs => exact .step hs
  | @failed op hop =>
    cases op with
    | read cb size got => exact .readFailed hop
    | write cb rest => exact .writeFailed hop

theorem Handled.underWay_pos [DecidableEq K] {call : K → Bool → AsyncM K Unit}
    {x : HandlerMemory K} (h : Handled call x.served s) : 0 < x.underWay := by
  cases h with
  | step hs =>
    cases hs with
    | receive hop _ _ _ _ => exact List.length_pos_of_mem hop
    | transmit hop _ => exact List.length_pos_of_mem hop
    | readDone hop => exact List.length_pos_of_mem hop
    | writeDone hop => exact List.length_pos_of_mem hop
  | failed hop => exact List.length_pos_of_mem hop

theorem Reuses.holds {x x' : HandlerMemory K} (h : x.Reuses sizes x') (hsmall : Small blocks sizes)
    (hroom : Room storagesCount blocks others) (hmost : x'.underWay ≤ others + 1)
    (hx : Holds blocks x.underWay x.allocator) : Holds blocks x'.underWay x'.allocator := by
  obtain ⟨pointer, a, hallowed, ha, hallocates, hlength⟩ := h
  have hpos : 0 < x.underWay := by
    obtain ⟨size, hm⟩ := hallowed
    rw [← hx.length]
    exact List.length_pos_of_mem hm
  obtain ⟨count, hcount⟩ := Nat.exists_eq_add_of_lt hpos
  rw [Nat.zero_add] at hcount
  rw [hcount] at hx hlength
  obtain ⟨a', ha', hholds⟩ := hx.deallocate (by decide) hallowed
  cases ha.symm.trans ha'
  have hunder : count + sizes.length = x'.underWay := by omega
  rw [← hunder] at hmost ⊢
  exact hholds.allocates (by decide) hroom hsmall hmost hallocates

theorem supplied_of_holds [DecidableEq K] (call : K → Bool → AsyncM K Unit) {x : HandlerMemory K}
    (hroom : Room storagesCount blocks others) (hx : Holds blocks x.underWay x.allocator) :
    Supplied call blocks (others + 1) x where
  slab := hx.slab
  each := hx.length
  free hnone := by
    apply ext_getElem?
    intro j hj
    rw [hx.consistent.free j hj]
    · simp [fresh, hj]
    · intro allocation hm
      have hlength := hx.length
      rw [hnone] at hlength
      rw [List.eq_nil_of_length_eq_zero hlength] at hm
      cases hm
  next s sizes hs hsmall hmost hlength := by
    obtain ⟨count, hcount⟩ := Nat.exists_eq_add_of_lt hs.underWay_pos
    rw [Nat.zero_add] at hcount
    rw [hcount] at hx
    have hlive : x.allocator.live ≠ [] := by
      intro hnil
      have hlive := hx.length
      rw [hnil] at hlive
      cases hlive
    obtain ⟨allocation, hm⟩ := List.exists_mem_of_ne_nil _ hlive
    have hallowed : (SlabOp.deallocate allocation.1).Allowed x.allocator := ⟨_, hm⟩
    obtain ⟨a, ha, hholds⟩ := hx.deallocate (by decide) hallowed
    obtain ⟨a', hallocates⟩ := hholds.exists_allocates (by decide) hroom hsmall (by omega)
    exact ⟨a', _, a, hallowed, ha, hallocates, hlength⟩

theorem Begins.holds {x : HandlerMemory K} (h : x.Begins sizes) (hsmall : Small blocks sizes)
    (hroom : Room storagesCount blocks others) (hmost : x.underWay ≤ others + 1) :
    Holds blocks x.underWay x.allocator := by
  obtain ⟨hallocates, hlength⟩ := h
  rw [← hlength] at hmost ⊢
  have hholds := (Holds.fresh storagesCount blocks).allocates (by decide) hroom hsmall
    (by omega) hallocates
  rw [Nat.zero_add] at hholds
  exact hholds

theorem Step.holds [DecidableEq K] {call : K → Bool → AsyncM K Unit} {x x' : HandlerMemory K}
    (h : Step call blocks x x') (hroom : Room storagesCount blocks others)
    (hmost : x'.underWay ≤ others + 1) (hx : Holds blocks x.underWay x.allocator) :
    Holds blocks x'.underWay x'.allocator := by
  cases h with
  | handler _ hsmall hreuses => exact hreuses.holds hsmall hroom hmost hx
  | client inbound outbound => exact hx

theorem Step.takesTurns [DecidableEq K] {call : K → Bool → AsyncM K Unit} (hcall : CallsInTurn call)
    {x x' : HandlerMemory K} (h : Step call blocks x x') (hx : x.served.connection.TakesTurns) :
    x'.served.connection.TakesTurns := by
  cases h with
  | handler hs _ _ => exact hs.event.takesTurns hcall hx
  | client inbound outbound => exact hx

/-- A connection never takes memory for its handlers from the heap as long as the slab has room for
one more beside those under way; one whose processor calls in turn never does at all for handlers
of up to the four blocks of the slab. -/
theorem handlers_in_slab [DecidableEq K] {call : K → Bool → AsyncM K Unit} {x₀ x : HandlerMemory K}
    (hbegins : x₀.Begins sizes) (hsmall : Small blocks sizes) :
    (∀ others, Room storagesCount blocks others → x₀.underWay ≤ others + 1 →
      ReflTransGen (fun y y' => Step call blocks y y' ∧ y'.underWay ≤ others + 1) x₀ x →
      Supplied call blocks (others + 1) x) ∧
    (CallsInTurn call → blocks ≤ storagesCount → x₀.served.connection.TakesTurns →
      ReflTransGen (Step call blocks) x₀ x → Supplied call blocks 1 x ∧ x.underWay ≤ 1) := by
  constructor
  · intro others hroom hmost hrun
    apply supplied_of_holds call hroom
    induction hrun with
    | refl => exact hbegins.holds hsmall hroom hmost
    | tail _ hs ih => exact hs.1.holds hroom hs.2 ih
  · intro hcall hblocks hturns hrun
    have hroom : Room storagesCount blocks 0 := by
      rw [Room]
      rw [storagesCount] at hblocks ⊢
      omega
    have hinv : x.served.connection.TakesTurns ∧ Holds blocks x.underWay x.allocator := by
      induction hrun with
      | refl => exact ⟨hturns, hbegins.holds hsmall hroom hturns.one⟩
      | tail _ hs ih =>
        have hturns' := hs.takesTurns hcall ih.1
        exact ⟨hturns', hs.holds hroom hturns'.one ih.2⟩
    exact ⟨supplied_of_holds call hroom hinv.2, hinv.1.one⟩

open EchoConnectionProcessorString in
/-- A new connection of the string echo, with a handler of 100 bytes. -/
def echoBegun : HandlerMemory Callback where
  served := { connection := started }
  allocator := { inUse := #v[1, 0, 0, 0], live := [(.slab 0, 100)] }

open EchoConnectionProcessorString in
/-- The same connection when the length of a string has arrived, with a handler of 300 bytes. -/
def echoLength : HandlerMemory Callback where
  served := { connection := {
    request := { pimpl := [1, 0, 0, 0] }
    outstanding := [.read (some .onRead1) 4 4] } }
  allocator := twoSlotsUsed

open EchoConnectionProcessorString in
theorem echoLength_run (o : ByteOrder) :
    ReflTransGen (fun y y' => Step (call o false) 2 y y' ∧ y'.underWay ≤ 1) echoBegun
      echoLength := by
  have hreceive : Handled (call o false)
      { echoBegun.served with inbound := [1, 0, 0, 0] } echoLength.served := by
    have hinbound : [1, 0, 0, 0] = [1, 0, 0, 0] ++ ([] : Bytes) := rfl
    have hsome : [1, 0, 0, 0] ≠ ([] : Bytes) := by decide
    exact .step (.receive (List.mem_singleton_self _) hinbound hsome (Nat.le_refl 4) rfl)
  have hreuses : Reuses [300]
      { echoBegun with served := { echoBegun.served with inbound := [1, 0, 0, 0] } }
      ⟨echoLength.served, twoSlotsUsed⟩ := by
    have hfree : asioHandlerDeallocate echoBegun.allocator (.slab 0) =
        some { inUse := fresh 4 } := by
      rw [asioHandlerDeallocate, SlabOp.apply, echoBegun, deallocate_of_slab _ (by decide)
        (by decide)]
      rfl
    have htake : asioHandlerAllocate { inUse := fresh 4 } 300 0 = some twoSlotsUsed := by
      rw [asioHandlerAllocate, SlabOp.apply, allocate, if_neg (by decide), allocateMultiple]
      rfl
    exact ⟨.slab 0, _, ⟨100, List.mem_singleton_self _⟩, hfree,
      .next (fun _ hx => by cases hx) htake .none, rfl⟩
  apply ReflTransGen.head
  · exact ⟨.client [1, 0, 0, 0] [], Nat.le_refl 1⟩
  · exact .single ⟨.handler hreceive (by decide) hreuses, Nat.le_refl 1⟩

open EchoConnectionProcessorString in
theorem echo_length_in_slab : Supplied (call .little false) 2 1 echoLength ∧
    Supplied (call .little false) 2 1 echoLength ∧ echoLength.underWay ≤ 1 := by
  have htake : asioHandlerAllocate { inUse := fresh 4 } 100 0 = some echoBegun.allocator := by
    rw [asioHandlerAllocate, SlabOp.apply, allocate, if_pos (by decide), allocateSingle]
    rfl
  have hbegins : echoBegun.Begins [100] := ⟨.next (fun _ hx => by cases hx) htake .none, rfl⟩
  have hsmall : Small 2 [100] := by decide
  have hroom : Room storagesCount 2 0 := by
    rw [Room]
    decide
  have hturns : echoBegun.served.connection.TakesTurns :=
    (Free.asyncRead ⟨rfl, rfl⟩ _ _).toTakesTurns
  have hrun : ReflTransGen (Step (call .little false) 2) echoBegun echoLength :=
    (echoLength_run .little).lift id fun _ _ h => h.1
  exact ⟨(handlers_in_slab hbegins hsmall).1 0 hroom (Nat.le_refl 1) (echoLength_run .little),
    (handlers_in_slab hbegins hsmall).2 (callsInTurn .little false) (by decide) hturns hrun⟩

end HandlerMemory

end CppAlls
