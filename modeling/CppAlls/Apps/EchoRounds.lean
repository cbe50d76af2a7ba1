import CppAlls.Apps.Echo

namespace CppAlls
set_option autoImplicit true

open LittleEndian Interaction Failing Relation ConnM Extraction EchoConnectionProcessorString

abbrev message (s : Bytes) : Bytes := Ty.encode .string s

theorem message_length (s : Bytes) : (message s).length = 4 + s.length := by
  rw [message, Ty.encode, List.length_append, leBytes_length]

/-- The server waits for `n` bytes in a fresh buffer, and has received `got`. -/
structure Awaiting (k : Callback) (n : Nat) (got : Bytes) (c : AsyncConnectionFast Callback) :
    Prop where
  outstanding : c.outstanding = [.read (some k) n got.length]
  response : c.response.pimpl = []
  cursor : c.request.dataExtracted = 0
  length : c.request.pimpl.length = n
  received : c.request.pimpl.take got.length = got

theorem Awaiting.length_le (h : Awaiting k n got c) : got.length ≤ n := by
  have hlen := congrArg List.length h.received
  rw [List.length_take, h.length] at hlen
  omega

theorem Awaiting.holds (h : Awaiting k n got c) (hn : got.length = n) : c.request.Holds got := by
  have ht := h.received
  rw [hn, ← h.length, List.take_length] at ht
  exact ⟨ht, h.cursor⟩

/-- The server has the bytes `rest` of its answer still to transmit. -/
def Answering (rest : Bytes) (c : AsyncConnectionFast Callback) : Prop :=
  c.outstanding = [.write (some .onWrite) rest]

/-- A round for the string `s`: the client has put `up` on the stream and got `down` back. -/
inductive Round (s up down : Bytes) (w : Served Callback) : Prop where
  | rearming : Answering [] w.connection → w.inbound = up → w.outbound = [] → down = [] →
      Round s up down w
  | header : Awaiting .onRead1 4 got w.connection → got ++ w.inbound = up → w.outbound = [] →
      down = [] → Round s up down w
  | body : Awaiting .onRead2 s.length got w.connection →
      leBytes 4 s.length ++ got ++ w.inbound = up → w.outbound = [] → down = [] →
      Round s up down w
  | reply : Answering rest w.connection → w.inbound = [] → up = message s →
      down ++ w.outbound ++ rest = message s → Round s up down w
  | replied : Awaiting .onRead1 4 [] w.connection → w.inbound = [] → up = message s →
      down ++ w.outbound = message s → Round s up down w

variable {o : ByteOrder} {s : Bytes} {w w' : Served Callback}

theorem Awaiting.step (h : Awaiting k n got w.connection) (hst : Served.Step (call o false) w w') :
    (∃ bs, bs ≠ [] ∧ w.inbound = bs ++ w'.inbound ∧ w'.outbound = w.outbound ∧
      Awaiting k n (got ++ bs) w'.connection) ∨
    (got.length = n ∧ w' = { w with
      connection := ((call o false k false).on { w.connection with outstanding := [] }).2 }) := by
  have hop := h.outstanding
  cases hst with
  | @receive bs rest m size r cb hm hin hbs hle hf =>
    rw [hop] at hm
    cases List.mem_singleton.mp hm
    have hfit : w.connection.request.dataExtracted + got.length + bs.length ≤
        w.connection.request.pimpl.length := by
      rw [h.cursor, h.length, Nat.zero_add]
      exact hle
    obtain ⟨r', hr', hc, hp⟩ := StackRequest.fill_ok hfit
    cases hf.symm.trans hr'
    rw [h.cursor, Nat.zero_add, h.received] at hp
    refine .inl ⟨bs, hbs, hin, rfl, ⟨?_, h.response, hc.trans h.cursor, ?_, ?_⟩⟩
    · simp only [hop, List.erase_cons_head, List.length_append]
    · rw [hp, List.length_append, List.length_append, List.length_drop, h.length]
      omega
    · rw [hp]
      exact List.take_left' rfl
  | transmit hm =>
    rw [hop] at hm
    cases List.mem_singleton.mp hm
  | @readDone cb m hm =>
    rw [hop] at hm
    cases List.mem_singleton.mp hm
    refine .inr ⟨rfl, ?_⟩
    rw [hop, List.erase_cons_head]
    rfl
  | writeDone hm =>
    rw [hop] at hm
    cases List.mem_singleton.mp hm

theorem started_awaiting : Awaiting .onRead1 4 [] started := ⟨rfl, rfl, rfl, rfl, rfl⟩

theorem onWrite_awaiting (c : AsyncConnectionFast Callback) : Awaiting .onRead1 4 []
    ((AsyncConnectionFast.callbackWriteWrapped (call o false) (some .onWrite) false).on
      { c with outstanding := [] }).2 := by
  obtain ⟨r, hr, hlen, hcur⟩ := AsyncConnectionFast.asyncRead_on (some Callback.onRead1)
    (show Num.unsignedInt.size < 2 ^ 63 by decide) { c with response := {}, outstanding := [] }
  rw [AsyncConnectionFast.callbackWriteWrapped, FailM.on_bind_ok (FailM.on_modify _ _)]
  simp only [call, onWrite, Bool.false_eq_true, ↓reduceIte, operatorCall, StackResponse.clear, hr]
  exact ⟨rfl, rfl, hcur, hlen, rfl⟩

theorem Answering.step (h : Answering rest w.connection) (hst : Served.Step (call o false) w w') :
    (∃ bs rest', bs ≠ [] ∧ rest = bs ++ rest' ∧ w'.inbound = w.inbound ∧
      w'.outbound = w.outbound ++ bs ∧ Answering rest' w'.connection) ∨
    (rest = [] ∧ w'.inbound = w.inbound ∧ w'.outbound = w.outbound ∧
      Awaiting .onRead1 4 [] w'.connection) := by
  have hop : w.connection.outstanding = [.write (some .onWrite) rest] := h
  cases hst with
  | receive hm =>
    rw [hop] at hm
    cases List.mem_singleton.mp hm
  | @transmit bs cb rest' hm hbs =>
    rw [hop] at hm
    cases List.mem_singleton.mp hm
    refine .inl ⟨bs, rest', hbs, rfl, rfl, rfl, ?_⟩
    change _ :: _ = _
    rw [hop, List.erase_cons_head]
  | readDone hm =>
    rw [hop] at hm
    cases List.mem_singleton.mp hm
  | @writeDone cb hm =>
    rw [hop] at hm
    cases List.mem_singleton.mp hm
    refine .inr ⟨rfl, rfl, rfl, ?_⟩
    rw [hop, List.erase_cons_head]
    exact onWrite_awaiting (o := o) _

/-- The first callback takes the length of the string, and waits for as many bytes. -/
theorem onRead1_awaiting (h : Awaiting .onRead1 4 (leBytes 4 n) c) (hn : n < 2 ^ 32) :
    Awaiting .onRead2 n [] ((call o false .onRead1 false).on { c with outstanding := [] }).2 := by
  have hh := h.holds (leBytes_length 4 n)
  have hc := doIstream_length o hn []
  rw [List.append_nil, ← hh.unread] at hc
  obtain ⟨q, hon, _⟩ := fromRequest_consume (doIstream_sizesFit o .unsignedInt) hh.cursor_le hc
  have hn' : (toUnsignedInt n).toNat = n := by
    rw [toUnsignedInt_toNat, Nat.mod_eq_of_lt hn]
  obtain ⟨r, hr, hlen, hcur⟩ := AsyncConnectionFast.asyncRead_on (some Callback.onRead2)
    (show n < 2 ^ 63 by omega) { c with request := q, outstanding := [] }
  have hread : (AsyncM.onRequest (Ty.operatorShr o (.num .unsignedInt)).fromRequest).on
      ({ c with outstanding := [] } : AsyncConnectionFast Callback) =
      (.ok (toUnsignedInt n), { c with request := q, outstanding := [] }) := by
    rw [AsyncM.onRequest, FailM.on_part]
    simp only [Ty.operatorShr, hon]
  simp only [call, onRead1, Bool.false_eq_true, ↓reduceIte]
  rw [FailM.on_bind_ok hread, hn', hr]
  exact ⟨rfl, h.response, hcur, hlen, rfl⟩

/-- The second callback answers with the message that it received. -/
theorem onRead2_answering (h : Awaiting .onRead2 s.length s c) (hs : s.length < 2 ^ 32) :
    Answering (message s) ((call o false .onRead2 false).on { c with outstanding := [] }).2 := by
  have hu := (h.holds rfl).unread
  have ha := Ty.operatorShl_appends o .string s hs c.response
  rw [h.response, List.nil_append] at ha
  simp only [call, onRead2, Bool.false_eq_true, ↓reduceIte]
  rw [FailM.on_bind_ok (FailM.on_get _)]
  simp only [hu, AsyncM.onResponse]
  rw [FailM.on_bind, FailM.on_part, ha]
  rfl

namespace Round

variable {up down : Bytes}

theorem step (h : Round s up down w) (hs : s.length < 2 ^ 32) (hup : up <+: message s)
    (hst : Served.Step (call o false) w w') : Round s up down w' := by
  obtain ⟨t, ht⟩ := hup
  cases h with
  | rearming hw hin hout hdown =>
    rcases hw.step hst with ⟨bs, rest, hbs, he, _⟩ | ⟨_, hin', hout', hr⟩
    · exact absurd (List.append_eq_nil_iff.mp he.symm).1 hbs
    · exact .header hr (hin'.trans hin) (hout'.trans hout) hdown
  | @header got hr hin hout hdown =>
    rcases hr.step hst with ⟨bs, _, hin', hout', hr'⟩ | ⟨hlen, rfl⟩
    · rw [hin', ← List.append_assoc] at hin
      exact .header hr' hin (hout'.trans hout) hdown
    · have hgot : got = leBytes 4 s.length := by
        rw [← hin, List.append_assoc] at ht
        exact (List.append_inj ht (hlen.trans (leBytes_length 4 _).symm)).1
      subst hgot
      rw [← List.append_nil (leBytes 4 s.length)] at hin
      exact .body (onRead1_awaiting hr hs) hin hout hdown
  | @body got hr hin hout hdown =>
    rcases hr.step hst with ⟨bs, _, hin', hout', hr'⟩ | ⟨hlen, rfl⟩
    · rw [hin', ← List.append_assoc, List.append_assoc _ got bs] at hin
      exact .body hr' hin (hout'.trans hout) hdown
    · rw [← hin, List.append_assoc, List.append_assoc] at ht
      obtain ⟨rfl, hnil⟩ := List.append_inj (((List.append_right_inj _).mp ht).trans
        (List.append_nil s).symm) hlen
      rw [(List.append_eq_nil_iff.mp hnil).1, List.append_nil] at hin
      refine .reply (onRead2_answering hr hs) (List.append_eq_nil_iff.mp hnil).1 hin.symm ?_
      rw [hdown, hout]
      rfl
  | @reply rest hw hin hup' hd =>
    rcases hw.step hst with ⟨bs, rest', _, rfl, hin', hout', hw'⟩ | ⟨rfl, hin', hout', hr⟩
    · refine .reply hw' (hin'.trans hin) hup' ?_
      rw [hout', ← hd]
      simp only [List.append_assoc]
    · rw [List.append_nil] at hd
      exact .replied hr (hin'.trans hin) hup' (by rw [hout', hd])
  | replied hr hin hup' hd =>
    rcases hr.step hst with ⟨bs, hbs, hin', _⟩ | ⟨hlen, _⟩
    · rw [hin] at hin'
      exact absurd (List.append_eq_nil_iff.mp hin'.symm).1 hbs
    · cases hlen

theorem stable (hs : s.length < 2 ^ 32) (hup : up <+: message s) :
    (echoWorld o).Stable (Round s up down) :=
  fun _ _ h hst => h.step hs hup hst

theorem send (h : Round s up down w) (hbs : bs ≠ []) (hup : up ++ bs <+: message s) :
    Round s (up ++ bs) down { w with inbound := w.inbound ++ bs } := by
  have hfull : up ≠ message s := by
    intro he
    have hlen := hup.length_le
    have hpos := List.length_pos_of_ne_nil hbs
    rw [he, List.length_append] at hlen
    omega
  cases h with
  | rearming hw hin hout hdown => exact .rearming hw (by rw [hin]) hout hdown
  | header hr hin hout hdown =>
    exact .header hr (by rw [← hin, List.append_assoc]) hout hdown
  | body hr hin hout hdown =>
    exact .body hr (by rw [← hin, List.append_assoc _ w.inbound]) hout hdown
  | reply _ _ hup' _ => exact absurd hup' hfull
  | replied _ _ hup' _ => exact absurd hup' hfull

theorem receive (h : Round s up down w) (hout : w.outbound = bs ++ rest) (hbs : bs ≠ []) :
    Round s up (down ++ bs) { w with outbound := rest } := by
  have hne : w.outbound ≠ [] := by
    intro hnil
    exact hbs (List.append_eq_nil_iff.mp (hout.symm.trans hnil)).1
  cases h with
  | rearming _ _ hnil _ => exact absurd hnil hne
  | header _ _ hnil _ => exact absurd hnil hne
  | body _ _ hnil _ => exact absurd hnil hne
  | reply hw hin hup hd =>
    rw [hout, ← List.append_assoc] at hd
    exact .reply hw hin hup hd
  | replied hr hin hup hd =>
    rw [hout, ← List.append_assoc] at hd
    exact .replied hr hin hup hd

theorem down_prefix (h : Round s up down w) : down <+: message s := by
  cases h with
  | rearming _ _ _ hdown => exact hdown ▸ List.nil_prefix
  | header _ _ _ hdown => exact hdown ▸ List.nil_prefix
  | body _ _ _ hdown => exact hdown ▸ List.nil_prefix
  | @reply rest _ _ _ hd => exact ⟨w.outbound ++ rest, by rw [← List.append_assoc, hd]⟩
  | replied _ _ _ hd => exact ⟨w.outbound, hd⟩

/-- Nothing comes back before the message has its first four bytes. -/
theorem outbound_nil (h : Round s up down w) (hup : up.length < 4) : w.outbound = [] := by
  have hfull : up ≠ message s := by
    intro he
    rw [he, message_length] at hup
    omega
  cases h with
  | rearming _ _ hout _ => exact hout
  | header _ _ hout _ => exact hout
  | body _ _ hout _ => exact hout
  | reply _ _ hup' _ => exact absurd hup' hfull
  | replied _ _ hup' _ => exact absurd hup' hfull

end Round

theorem Awaiting.live (h : Awaiting k n got w.connection)
    (hready : got.length < n → w.inbound ≠ []) : ∃ w', Served.Step (call o false) w w' := by
  have hmem : .read (some k) n got.length ∈ w.connection.outstanding := by
    rw [h.outstanding]
    exact List.mem_singleton_self _
  rcases Nat.lt_or_eq_of_le h.length_le with hlt | heq
  · cases hin : w.inbound with
    | nil => exact absurd hin (hready hlt)
    | cons b rest =>
      have hfit : w.connection.request.dataExtracted + got.length + [b].length ≤
          w.connection.request.pimpl.length := by
        rw [h.cursor, h.length, Nat.zero_add]
        exact hlt
      obtain ⟨r, hf, _⟩ := StackRequest.fill_ok hfit
      exact ⟨_, .receive hmem hin (List.cons_ne_nil b []) hlt hf⟩
  · rw [heq] at hmem
    exact ⟨_, .readDone hmem⟩

theorem Answering.live (h : Answering rest w.connection) :
    ∃ w', Served.Step (call o false) w w' := by
  have hmem : .write (some .onWrite) rest ∈ w.connection.outstanding := by
    rw [show w.connection.outstanding = _ from h]
    exact List.mem_singleton_self _
  cases rest with
  | nil => exact ⟨_, .writeDone hmem⟩
  | cons b rest =>
    have hmem' : .write (some .onWrite) ([b] ++ rest) ∈ w.connection.outstanding := hmem
    exact ⟨_, .transmit hmem' (List.cons_ne_nil b [])⟩

namespace Round

/-- Once the client has sent the message the server works on it until all of it is back. -/
theorem live (h : Round s (message s) down w) (hdown : down.length < (message s).length) :
    (∃ w', Served.Step (call o false) w w') ∨ w.outbound ≠ [] := by
  have hlen := message_length s
  cases h with
  | rearming hw _ _ _ => exact .inl hw.live
  | header hr hin _ _ =>
    left
    apply hr.live
    intro hlt hnil
    rw [hnil, List.append_nil] at hin
    rw [hin] at hlt
    omega
  | body hr hin _ _ =>
    left
    apply hr.live
    intro hlt hnil
    have hl := congrArg List.length hin
    rw [hnil, List.append_nil, List.length_append, leBytes_length] at hl
    omega
  | reply hw _ _ _ => exact .inl hw.live
  | replied _ _ _ hd =>
    right
    intro hnil
    rw [hnil, List.append_nil] at hd
    rw [hd] at hdown
    exact Nat.lt_irrefl _ hdown

/-- When the message is back nothing of the round is left, and the next one can begin. -/
theorem done (h : Round s (message s) (message s) w) :
    w.inbound = [] ∧ w.outbound = [] ∧ w.connection.Idle ∧ ∀ s', Round s' [] [] w := by
  have hne : message s ≠ [] := by
    intro hnil
    have hlen := message_length s
    rw [hnil, List.length_nil] at hlen
    omega
  cases h with
  | rearming _ _ _ hd => exact absurd hd hne
  | header _ _ _ hd => exact absurd hd hne
  | body _ _ _ hd => exact absurd hd hne
  | reply hw hin _ hd =>
    rw [List.append_assoc] at hd
    have hnil := List.append_eq_nil_iff.mp (List.append_right_eq_self.mp hd)
    obtain ⟨hout, rfl⟩ := hnil
    exact ⟨hin, hout, .inl hw, fun _ => .rearming hw hin hout rfl⟩
  | replied hr hin _ hd =>
    have hout := List.append_right_eq_self.mp hd
    exact ⟨hin, hout, .inr ⟨hr.outstanding, hr.response⟩, fun _ => .header hr hin hout rfl⟩

end Round

end CppAlls
