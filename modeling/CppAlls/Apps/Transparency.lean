import CppAlls.Apps.EchoRounds
import CppAlls.Apps.Streaming

namespace CppAlls
set_option autoImplicit true

open LittleEndian Interaction Failing Relation Extraction AsyncConnectionFast

/-- The connection waits for bytes, with some that were handed over already, or writes them. -/
inductive Relayed (Waits : K → Nat → Bytes → Prop) (Writes : K → Prop) (pending : Bytes)
    (c : AsyncConnectionFast K) : Prop where
  | waits : c.outstanding = [.read (some k) size 0] → Waits k size pending →
      c.response.pimpl = [] → Relayed Waits Writes pending c
  | writes : c.outstanding = [.write (some k) pending] → Writes k →
      Relayed Waits Writes pending c

/-- A processor that relays what it reads: a callback of a read takes the bytes that are pending
with those of its request into the next wait or into a write, and that of a write waits anew. -/
structure Relays (call : K → Bool → AsyncM K Unit) (Waits : K → Nat → Bytes → Prop)
    (Writes : K → Prop) : Prop where
  read : ∀ k size pending c, Waits k size pending → c.outstanding = [] → c.response.pimpl = [] →
    c.request.dataExtracted = 0 → c.request.pimpl.length = size →
      Relayed Waits Writes (pending ++ c.request.pimpl) ((call k false).on c).2
  write : ∀ k c, Writes k → c.outstanding = [] → c.response.pimpl = [] →
    Relayed Waits Writes [] ((call k false).on c).2

/-- The responses given to writes are the requests handed over, but for the pending bytes. -/
inductive Relaying (Waits : K → Nat → Bytes → Prop) (Writes : K → Prop) (x : Streamed K) :
    Prop where
  | reading : x.served.connection.outstanding = [.read (some k) size got] →
      Waits k size pending → x.served.connection.response.pimpl = [] →
      x.given.flatten ++ pending = x.handed.flatten → Relaying Waits Writes x
  | writing : x.served.connection.outstanding = [.write (some k) rest] → Writes k →
      x.given.flatten = x.handed.flatten → Relaying Waits Writes x

section Relaying

variable {K : Type} {call : K → Bool → AsyncM K Unit} {Waits : K → Nat → Bytes → Prop}
  {Writes : K → Prop} {x x' : Streamed K}

theorem Relayed.relaying (h : Relayed Waits Writes pending x.served.connection) (bs : Bytes)
    (hgiven : x.given.flatten = bs ++ x.served.connection.toTransmit.flatten)
    (hhanded : x.handed.flatten = bs ++ pending) : Relaying Waits Writes x := by
  cases h with
  | waits he hw hr =>
    rw [toTransmit_reading he, List.flatten_nil, List.append_nil] at hgiven
    exact .reading he hw hr (by rw [hgiven, hhanded])
  | writes he hw =>
    rw [toTransmit_writing he, List.flatten_singleton] at hgiven
    exact .writing he hw (hgiven.trans hhanded.symm)

theorem Relaying.step [DecidableEq K] (hrelays : Relays call Waits Writes)
    (hT : x.served.connection.TakesTurns) (h : Relaying Waits Writes x)
    (hst : Streamed.Step call x x') : Relaying Waits Writes x' := by
  cases hst with
  | send bs =>
    cases h with
    | reading he hw hr hp => exact .reading he hw hr hp
    | writing he hw hp => exact .writing he hw hp
  | take hout =>
    cases h with
    | reading he hw hr hp => exact .reading he hw hr hp
    | writing he hw hp => exact .writing he hw hp
  | moved hst hc =>
    cases hst.moved hT hc with
    | received he₀ _ _ he' _ hr' =>
      cases h with
      | reading he hw hr hp =>
        cases he.symm.trans he₀
        exact .reading he' hw (hr' ▸ hr) hp
      | writing he => cases he.symm.trans he₀
    | transmitted he₀ _ _ he' =>
      cases h with
      | reading he => cases he.symm.trans he₀
      | writing he hw hp =>
        cases he.symm.trans he₀
        exact .writing he' hw hp
  | @readDone cb n hop =>
    obtain ⟨he₀, _⟩ := hT.outstanding_eq hop
    obtain ⟨hlen, hcur, _⟩ := hT.reading cb n n hop
    cases h with
    | @reading k size got pending he hw hr hp =>
      cases he.symm.trans he₀
      have hnext := hrelays.read k n pending { x.served.connection with outstanding := [] } hw
        rfl hr hcur hlen
      rw [Streamed.readDone_eq he₀]
      apply hnext.relaying x.given.flatten
      · exact List.flatten_append
      · simp only [Option.toList_some, List.map_cons, List.map_nil, List.flatten_append,
          List.flatten_singleton]
        rw [← hp, List.append_assoc]
    | writing he => cases he.symm.trans he₀
  | @writeDone cb hop =>
    obtain ⟨he₀, _⟩ := hT.outstanding_eq hop
    cases h with
    | reading he => cases he.symm.trans he₀
    | @writing k rest he hw hp =>
      cases he.symm.trans he₀
      have hnext := hrelays.write k { x.served.connection with
        response := x.served.connection.response.clear, outstanding := [] } hw rfl rfl
      rw [Streamed.writeDone_eq he₀]
      apply hnext.relaying x.given.flatten
      · exact List.flatten_append
      · rw [List.append_nil]
        exact hp.symm

theorem Relaying.run [DecidableEq K] (hcall : CallsInTurn call)
    (hrelays : Relays call Waits Writes) {c : AsyncConnectionFast K} (hc : c.Begun)
    (h₀ : Relayed Waits Writes [] c)
    (hx : ReflTransGen (Streamed.Step call) (Streamed.begun c) x) : Relaying Waits Writes x := by
  induction hx with
  | refl => exact h₀.relaying [] rfl rfl
  | tail hx hst ih => exact ih.step hrelays (Streamed.run hcall hc hx).1 hst

/-- Asio has nothing to do. -/
def Streamed.Resting [DecidableEq K] (call : K → Bool → AsyncM K Unit) (x : Streamed K) : Prop :=
  ∀ s', ¬ Served.Step call x.served s'

theorem Streamed.Resting.reading [DecidableEq K] (h : x.Resting call)
    (hT : x.served.connection.TakesTurns)
    (he : x.served.connection.outstanding = [.read cb size got]) :
    x.served.inbound = [] ∧ got < size := by
  have hop : .read cb size got ∈ x.served.connection.outstanding :=
    he ▸ List.mem_singleton_self _
  obtain ⟨hlen, hcur, hle⟩ := hT.reading cb size got hop
  have hlt : got < size := by
    apply Nat.lt_of_le_of_ne hle
    rintro rfl
    exact h _ (.readDone hop)
  refine ⟨?_, hlt⟩
  cases hin : x.served.inbound with
  | nil => rfl
  | cons b bs =>
    have hfit : x.served.connection.request.dataExtracted + got + [b].length ≤
        x.served.connection.request.pimpl.length := by
      rw [hcur, hlen, Nat.zero_add]
      exact hlt
    obtain ⟨r, hr, _⟩ := StackRequest.fill_ok hfit
    have hone : x.served.inbound = [b] ++ bs := hin
    exact absurd (.receive hop hone nofun hlt hr) (h _)

theorem Streamed.Resting.not_writing [DecidableEq K] (h : x.Resting call) :
    x.served.connection.outstanding ≠ [.write cb rest] := by
  intro he
  have hop : .write cb rest ∈ x.served.connection.outstanding := he ▸ List.mem_singleton_self _
  cases rest with
  | nil => exact h _ (.writeDone hop)
  | cons b bs =>
    have hone : .write cb ([b] ++ bs) ∈ x.served.connection.outstanding := hop
    exact h _ (.transmit hone nofun)

end Relaying

/-- What a client gets back is what it has sent, and what it misses when asio has nothing to do is
an incomplete message. -/
def Transparent [DecidableEq K] (call : K → Bool → AsyncM K Unit) (c : AsyncConnectionFast K)
    (Incomplete : Bytes → Prop) : Prop :=
  ∀ x, ReflTransGen (Streamed.Step call) (Streamed.begun c) x →
    ∃ rest, x.taken ++ x.served.outbound ++ rest = x.sent ∧ (x.Resting call → Incomplete rest)

theorem Relays.transparent [DecidableEq K] {call : K → Bool → AsyncM K Unit}
    (hrelays : Relays call Waits Writes) (hcall : CallsInTurn call)
    {c : AsyncConnectionFast K} (hc : c.Begun) (h₀ : Relayed Waits Writes [] c) :
    Transparent call c fun rest => ∃ k size pending bs, Waits k size pending ∧
      rest = pending ++ bs ∧ bs.length < size := by
  intro x hx
  obtain ⟨hT, hk⟩ := Streamed.run hcall hc hx
  have hreading := hk.reading
  have hwriting := hk.writing
  cases Relaying.run hcall hrelays hc h₀ hx with
  | @reading k size got pending he hw _ hp =>
    rw [buffered_reading he, hk.unclaimed_eq (he ▸ List.mem_singleton_self _), List.flatten_nil,
      List.append_nil, ← hp] at hreading
    rw [toTransmit_reading he, List.flatten_nil, List.append_nil] at hwriting
    refine ⟨pending ++ x.served.connection.request.pimpl.take got ++ x.served.inbound, ?_, ?_⟩
    · rw [hwriting, ← hreading]
      simp only [List.append_assoc]
    · intro hrest
      obtain ⟨hin, hlt⟩ := hrest.reading hT he
      rw [hin, List.append_nil]
      refine ⟨k, size, pending, _, hw, rfl, ?_⟩
      rw [List.length_take]
      exact Nat.lt_of_le_of_lt (Nat.min_le_left _ _) hlt
  | @writing k rest he _ hp =>
    rw [buffered_writing he, hk.unclaimed_eq (he ▸ List.mem_singleton_self _), List.flatten_nil,
      List.append_nil, List.append_nil, ← hp] at hreading
    rw [toTransmit_writing he, List.flatten_singleton] at hwriting
    refine ⟨rest ++ x.served.inbound, ?_, fun hrest => absurd he hrest.not_writing⟩
    rw [← hreading, ← hwriting]
    simp only [List.append_assoc]

theorem AsyncConnectionFast.asyncRead_relayed {c : AsyncConnectionFast K} (hn : n < 2 ^ 63)
    (hc : c.outstanding = []) (hr : c.response.pimpl = []) (hw : Waits k n pending) :
    Relayed Waits Writes pending ((asyncRead (some k) n).on c).2 := by
  obtain ⟨r, hon, _⟩ := asyncRead_on (some k) hn c
  rw [hon, hc]
  exact .waits rfl hw hr

theorem EchoConnectionProcessor.relays (o : ByteOrder) {T : Num} (h : T.isWide = true) :
    Relays (call o T false) (fun k n pending => k = .onRead ∧ n = T.size ∧ pending = [])
      (fun k => k = .onWrite) where
  read k size pending c hw hc hr hcur hlen := by
    obtain ⟨rfl, rfl, rfl⟩ := hw
    have hh : c.request.Holds c.request.pimpl := ⟨rfl, hcur⟩
    have hconsume := doIstream_consume o T hlen []
    rw [List.append_nil, ← hh.unread] at hconsume
    obtain ⟨q, hon, _⟩ := fromRequest_consume (doIstream_sizesFit o T) hh.cursor_le hconsume
    have hread : (AsyncM.onRequest (Ty.operatorShr o (.num T)).fromRequest).on c =
        (.ok (BitVec.ofNat _ (leNat c.request.unread)), { c with request := q }) := by
      rw [AsyncM.onRequest, FailM.on_part]
      simp only [Ty.operatorShr, hon]
    have hbytes : leBytes T.size (leNat c.request.unread % 2 ^ (8 * T.size)) = c.request.pimpl := by
      have hlt := leNat_lt c.request.pimpl
      rw [hlen, ← pow_width] at hlt
      rw [hh.unread, Nat.mod_eq_of_lt hlt, ← hlen, leBytes_leNat]
    have happend := operatorShl_num_appends o T (BitVec.ofNat _ (leNat c.request.unread)) c.response
    rw [Num.argument_of_wide h, Num.overload_of_wide h, BitVec.toNat_ofNat, hbytes, hr] at happend
    have hwrite : (AsyncM.onResponse (Ty.operatorShl o (.num T)
        (BitVec.ofNat _ (leNat c.request.unread)))).on { c with request := q } =
        (.ok (), { c with request := q, response := ⟨c.request.pimpl⟩ }) := by
      rw [AsyncM.onResponse, FailM.on_part]
      simp only [Ty.operatorShl, happend, List.nil_append]
    simp only [call, onRead, Bool.false_eq_true, ↓reduceIte]
    rw [FailM.on_bind_ok hread, FailM.on_bind_ok hwrite, asyncWrite, FailM.on_modify]
    refine .writes (k := .onWrite) ?_ rfl
    rw [hc]
    rfl
  write k c hk hc hr := by
    subst hk
    exact asyncRead_relayed (Nat.lt_of_le_of_lt T.size_le (by decide)) hc hr ⟨rfl, rfl, rfl⟩

/-- The wait for the length of a string, and the wait for the string behind its length. -/
inductive StringWaits : EchoConnectionProcessorString.Callback → Nat → Bytes → Prop where
  | length : StringWaits .onRead1 4 []
  | string : n < 2 ^ 32 → StringWaits .onRead2 n (leBytes 4 n)

open EchoConnectionProcessorString in
theorem EchoConnectionProcessorString.relays (o : ByteOrder) :
    Relays (call o false) StringWaits (fun k => k = .onWrite) where
  read k size pending c hw hc hr hcur hlen := by
    obtain ⟨request, response, closed, outstanding⟩ := c
    obtain rfl : outstanding = [] := hc
    cases hw with
    | length =>
      have hlt := leNat_lt request.pimpl
      have hheader := leBytes_leNat request.pimpl
      rw [hlen] at hlt hheader
      have hawait : Awaiting .onRead1 4 (leBytes 4 (leNat request.pimpl))
          ⟨request, response, closed, [.read (some .onRead1) 4 4]⟩ := by
        rw [hheader]
        exact ⟨by rw [hlen], hr, hcur, hlen, List.take_length⟩
      have hnext := onRead1_awaiting (o := o) hawait hlt
      have hwait := StringWaits.string hlt
      rw [hheader] at hwait
      exact .waits hnext.outstanding hwait hnext.response
    | string hn =>
      have hawait : Awaiting .onRead2 request.pimpl.length request.pimpl
          ⟨request, response, closed, [.read (some .onRead2) size size]⟩ :=
        ⟨by rw [hlen], hr, hcur, rfl, List.take_length⟩
      have hnext := onRead2_answering (o := o) hawait (hlen ▸ hn)
      rw [Answering, message, Ty.encode, hlen] at hnext
      exact .writes hnext rfl
  write k c hk hc hr := by
    subst hk
    exact asyncRead_relayed (by decide) hc hr .length

theorem Transparent.mono [DecidableEq K] {call : K → Bool → AsyncM K Unit}
    {c : AsyncConnectionFast K} {P Q : Bytes → Prop} (h : Transparent call c P)
    (hPQ : ∀ rest, P rest → Q rest) : Transparent call c Q := by
  intro x hx
  obtain ⟨rest, he, hrest⟩ := h x hx
  exact ⟨rest, he, fun hr => hPQ rest (hrest hr)⟩

/-- A part of the length of a string, or a length with a part of the string. -/
def IncompleteString (bs : Bytes) : Prop :=
  bs.length < 4 ∨ ∃ n part, n < 2 ^ 32 ∧ bs = leBytes 4 n ++ part ∧ part.length < n

/-- The echo processors that do not close are transparent to clients that send anything at all and
take what comes back whenever they like: a client gets what it has sent, byte for byte, and nothing
is withheld but a value or a string that has not arrived in full. -/
theorem echo_transparent (o : ByteOrder) (T : Num) (h : T.isWide = true) :
    Transparent (EchoConnectionProcessor.call o T false)
        ((EchoConnectionProcessor.operatorCall T).on {}).2 (fun rest => rest.length < T.size) ∧
      Transparent (EchoConnectionProcessorString.call o false)
        EchoConnectionProcessorString.started IncompleteString := by
  constructor
  · have hbegun : ((EchoConnectionProcessor.operatorCall T).on {}).2.Begun :=
      Free.asyncRead ⟨rfl, rfl⟩ _ _
    apply ((EchoConnectionProcessor.relays o h).transparent
      (EchoConnectionProcessor.callsInTurn o T false) hbegun ?_).mono
    · intro rest hrest
      obtain ⟨k, size, pending, bs, ⟨_, rfl, rfl⟩, rfl, hlt⟩ := hrest
      exact hlt
    · exact asyncRead_relayed (Nat.lt_of_le_of_lt T.size_le (by decide)) rfl rfl ⟨rfl, rfl, rfl⟩
  · have hbegun : EchoConnectionProcessorString.started.Begun := Free.asyncRead ⟨rfl, rfl⟩ _ _
    apply ((EchoConnectionProcessorString.relays o).transparent
      (EchoConnectionProcessorString.callsInTurn o false) hbegun ?_).mono
    · intro rest hrest
      obtain ⟨k, size, pending, bs, hw, rfl, hlt⟩ := hrest
      cases hw with
      | length => exact .inl hlt
      | string hn => exact .inr ⟨size, bs, hn, rfl, hlt⟩
    · exact asyncRead_relayed (by decide) rfl rfl .length

theorem short_echo_transparent :
    Transparent (EchoConnectionProcessor.call .little .short false)
        ((EchoConnectionProcessor.operatorCall .short).on {}).2 (fun rest => rest.length < 2) ∧
      Transparent (EchoConnectionProcessorString.call .little false)
        EchoConnectionProcessorString.started IncompleteString :=
  echo_transparent .little .short rfl

end CppAlls
