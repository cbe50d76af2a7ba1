import CppAlls.Core.Frames

namespace CppAlls
set_option autoImplicit true

open LittleEndian Interaction Relation ConnM

/-- What the code that owns a connection tells its socket. -/
inductive SocketNote where
  | begin
  | shutdown
deriving DecidableEq, Repr

/-- The bytes that a socket has taken, and those among them that it took since the operation under
way began. -/
structure Taken where
  all : Bytes := []
  current : Bytes := []
  closed : Bool := false

namespace Taken

def take (s : Taken) (bs : Bytes) : Taken :=
  { s with all := s.all ++ bs, current := s.current ++ bs }

theorem take_take (s : Taken) (bs bs' : Bytes) : (s.take bs).take bs' = s.take (bs ++ bs') := by
  rw [take, take, take, ← List.append_assoc, ← List.append_assoc]

@[simp] theorem take_nil (s : Taken) : s.take [] = s := by
  rw [take, List.append_nil, List.append_nil]

end Taken

/-- A socket that takes any positive part of what it is given, or throws where it may. -/
def flakySocket (Throws : Taken → Prop) : ConnWorld SocketNote Taken where
  env _ _ := False
  answer
    | s, (_, .send bs), some k, s' => s.closed = false ∧ s' = s.take (bs.take k)
    | s, (_, .send _), none, s' => Throws s ∧ s' = s
    | s, (_, .report .begin), _, s' => s' = { s with current := [] }
    | s, (_, .report .shutdown), _, s' => s' = { s with closed := true }
    | _, _, _, _ => False

variable {Throws : Taken → Prop} {P : Taken → Connection × SocketCall SocketNote → Prop}

theorem flakySocket_quiet : (flakySocket Throws).Quiet := fun _ _ h => h

theorem flakySocket_mono {Throws' : Taken → Prop} (h : ∀ s, Throws s → Throws' s)
    {x y : Prog (Connection × SocketCall SocketNote) (fun o => o.2.Answer) α × Taken}
    (hst : Prog.Step (flakySocket Throws) x y) : Prog.Step (flakySocket Throws') x y := by
  apply hst.mono
  · exact fun _ _ he => he
  intro s o r s' ha
  obtain ⟨c, call⟩ := o
  cases call with
  | send bs =>
    cases r with
    | none => exact ⟨h s ha.1, ha.2⟩
    | some k => exact ha
  | receive size => exact ha
  | available => exact ha
  | report note => cases note <;> exact ha

/-- How the sending loop ends: all the bytes are taken, or the socket throws before that. -/
inductive SendEnds (Throws : Taken → Prop) (bytes : Bytes) (s : Taken) :
    Except Exn Unit → Taken → Prop where
  | sent : SendEnds Throws bytes s (.ok ()) (s.take bytes)
  | thrown (done rest : Bytes) : bytes = done ++ rest → Throws (s.take done) →
      SendEnds Throws bytes s (.error .systemError) (s.take done)

/-- An exception leaves `response_` as the loop found it. -/
theorem flush_ends (hsize : size ≤ bytes.length) (c : Connection) (s : Taken)
    (hP : ∀ done rest, rest ≠ [] → P (s.take done) (c, .send rest)) :
    (writeWitoutSizeImpl bytes size 0 >>= fun _ => clearResponse : ConnM SocketNote Unit).Wp
      (flakySocket Throws) P
      (fun r c' s' => SendEnds Throws (bytes.take size) s r s' ∧
        c' = if r = .ok () then { c with response := {} } else c) c s := by
  apply flush_drains (J := fun done s' => s' = s.take done)
  · exact fun done => flakySocket_quiet.stable _
  · intro done rest s' he hne hJ
    subst hJ
    refine ⟨hP done rest hne, ?_⟩
    intro r s'' ha
    cases r with
    | none =>
      obtain ⟨hthrow, rfl⟩ : Throws (s.take done) ∧ s'' = s.take done := ha
      intro t ht
      rw [flakySocket_quiet.steps ht]
      exact ⟨.thrown done rest he hthrow, rfl⟩
    | some k =>
      obtain ⟨_, rfl⟩ : s.closed = false ∧ s'' = (s.take done).take (rest.take k) := ha
      exact s.take_take done (rest.take k)
  · intro s' hJ
    subst hJ
    exact ⟨.sent, rfl⟩
  · exact hsize
  · exact s.take_nil.symm

theorem writeWitoutSize_ends (c : Connection) (s : Taken)
    (hP : ∀ done rest, rest ≠ [] → P (s.take done) (c, .send rest)) :
    (writeWitoutSize : ConnM SocketNote Unit).Wp (flakySocket Throws) P
      (fun r c' s' =>
        SendEnds Throws (c.response.pimpl.take (c.response.pimpl.length % 2 ^ 32)) s r s' ∧
        c' = if r = .ok () then { c with response := {} } else c) c s :=
  .of_on (writeWitoutSize_on c) (flush_ends (Nat.mod_le _ _) c s hP)

variable (Throws P) in
/-- An exception leaves the header in `response_`. -/
theorem writeWithSize_ends (o : ByteOrder) {c : Connection} (h : 4 ≤ c.response.pimpl.length)
    (s : Taken) (hP : ∀ c done rest, rest ≠ [] → P (s.take done) (c, .send rest)) :
    ∃ i, (c.response.pimpl.length < 2 ^ 64 → i = 4) ∧
      (writeWithSize o : ConnM SocketNote Unit).Wp (flakySocket Throws) P
        (fun r c' s' => SendEnds Throws
            ((frameAt c.response.pimpl i).take ((c.response.pimpl.length + 4) % 2 ^ 32)) s r s' ∧
          c' = if r = .ok () then { c with response := {} }
            else { c with response := ⟨frameAt c.response.pimpl i⟩ }) c s := by
  obtain ⟨i, hi, hon⟩ := writeWithSize_on (U := SocketNote) o h
  refine ⟨i, hi, ?_⟩
  have hle : (c.response.pimpl.length + 4) % 2 ^ 32 ≤ (frameAt c.response.pimpl i).length := by
    rw [frameAt_length]
    exact Nat.mod_le _ _
  exact .of_on hon (flush_ends hle _ s (hP _))

/-- On an open socket some run of sends throws nowhere. -/
def Sendable (s : Taken) : Connection × SocketCall SocketNote → Prop
  | (_, .send bs) => s.closed = false ∧ bs ≠ []
  | _ => False

theorem exists_unfailing_run {m : ConnM SocketNote Unit}
    {Q : Except Exn Unit → Connection → Taken → Prop}
    (h : m.Wp (flakySocket fun _ => False) Sendable Q c s) : ∃ r c' s',
      ReflTransGen (Prog.Step (flakySocket fun _ => True)) (m.on c, s) (.pure (r, c'), s') ∧
        Q r c' s' := by
  have hW (s : Taken) (o : Connection × SocketCall SocketNote) (ho : Sendable s o) :
      ∃ r s', (flakySocket fun _ => False).answer s o r s' := by
    obtain ⟨c, call⟩ := o
    cases call with
    | send bs =>
      exact ⟨some ⟨bs.length, List.length_pos_iff.mpr ho.2, Nat.le_refl _⟩, _, ho.1, rfl⟩
    | receive => cases ho
    | available => cases ho
    | report => cases ho
  obtain ⟨⟨r, c'⟩, s', hrun, hQ⟩ := Prog.Wp.exists_result h hW
  refine ⟨r, c', s', ?_, hQ⟩
  exact ReflTransGen.mono (fun _ _ => flakySocket_mono (fun _ hf => hf.elim)) _ _ hrun

/-- A flush of `p` ends in every run. Either it returns and the socket has taken `Whole`, or it
throws and `response_` is `Kept`. -/
def Flushes (write : ConnM SocketNote Unit) (p : Bytes) (Whole Kept : Bytes → Prop) : Prop :=
  ∀ c : Connection, c.response.pimpl = p →
    Prog.Succeeds (flakySocket fun _ => True) (fun _ _ => True) (write.on c) (fun x s =>
      match x.1 with
      | .ok _ => Whole s.all ∧ x.2.response.pimpl = []
      | .error e => e ≠ .undefined ∧ Kept x.2.response.pimpl) {}

/-- Every byte of the message in order, with one header of the right value. -/
def Carries (p sent : Bytes) : Prop :=
  if p = [] then sent = [] else ∃ a b, p = a ++ b ∧ sent = a ++ leBytes 4 (p.length + 4) ++ b

/-- The header and then the message. -/
def Heads (p sent : Bytes) : Prop :=
  if p = [] then sent = [] else sent = leBytes 4 (p.length + 4) ++ p

theorem flakySocket_terminates : (flakySocket Throws).Terminates := by
  intro s
  constructor
  intro t ht
  cases ht

/-- A socket that may throw leaves no run stuck. -/
def Throwable (s : Taken) (o : Connection × SocketCall SocketNote) : Prop :=
  (flakySocket fun _ => True).Live s o ∧ True

theorem send_throwable (c : Connection) (s : Taken) (bs : Bytes) : Throwable s (c, .send bs) :=
  ⟨.inr ⟨none, s, trivial, rfl⟩, trivial⟩

theorem Flushes.of_wp {write : ConnM SocketNote Unit} {Whole Kept : Bytes → Prop}
    (h : ∀ c : Connection, c.response.pimpl = p →
      write.Wp (flakySocket fun _ => True) Throwable (fun r c' s =>
        match r with
        | .ok _ => Whole s.all ∧ c'.response.pimpl = []
        | .error e => e ≠ .undefined ∧ Kept c'.response.pimpl) c {}) :
    Flushes write p Whole Kept :=
  fun c hc => Prog.Wp.succeeds flakySocket_terminates (h c hc)

theorem writeWitoutSize_flushes (h : p.length < 2 ^ 32) :
    Flushes writeWitoutSize p (· = p) (· = p) := by
  apply Flushes.of_wp
  rintro c rfl
  apply (writeWitoutSize_ends c {} (fun done rest _ => send_throwable c _ rest)).mono
  intro r c' s' hr
  obtain ⟨hends, rfl⟩ := hr
  rw [Nat.mod_eq_of_lt h, List.take_length] at hends
  cases hends with
  | sent => exact ⟨rfl, rfl⟩
  | thrown done rest _ _ => exact ⟨nofun, rfl⟩

/-- A flush on a socket that does not fail. -/
theorem writeWitoutSize_unfailing (c : Connection) : ∃ c' s',
    ReflTransGen (Prog.Step (flakySocket fun _ => True))
      ((writeWitoutSize : ConnM SocketNote Unit).on c, {}) (.pure (.ok (), c'), s') ∧
    s'.all = c.response.pimpl.take (c.response.pimpl.length % 2 ^ 32) := by
  obtain ⟨r, c', s', hrun, hends, _⟩ := exists_unfailing_run
    (writeWitoutSize_ends c {} (fun _ _ hne => ⟨rfl, hne⟩))
  cases hends with
  | sent => exact ⟨c', _, hrun, rfl⟩
  | thrown _ _ _ hf => cases hf

theorem truncated_length (h : 2 ^ 32 ≤ n) : n % 2 ^ 32 < n :=
  Nat.lt_of_lt_of_le (Nat.mod_lt n (Nat.two_pow_pos 32)) h

/-- At `2 ^ 32` bytes and beyond some are dropped. -/
theorem writeWitoutSize_truncates (h : 2 ^ 32 ≤ p.length) :
    ¬ Flushes writeWitoutSize p (· = p) (· = p) := by
  intro hf
  obtain ⟨c', s', hrun, hall⟩ := writeWitoutSize_unfailing { response := ⟨p⟩ }
  obtain ⟨hp, _⟩ := (hf { response := ⟨p⟩ } rfl).result _ _ hrun
  rw [hall] at hp
  have hlen := congrArg List.length hp
  have hlt := truncated_length h
  simp only [List.length_take] at hlen
  omega

theorem frameAt_four (p : Bytes) :
    frameAt p 4 = p.take 4 ++ leBytes 4 (p.length + 4) ++ p.drop 4 := rfl

theorem frameAt_carries (hp : p ≠ []) (i : Nat) : Carries p (frameAt p i) := by
  rw [Carries, if_neg hp]
  exact ⟨p.take i, p.drop i, (List.take_append_drop i p).symm, rfl⟩

theorem sublist_frameAt (p : Bytes) (i : Nat) : p.Sublist (frameAt p i) := by
  have hs : (p.take i ++ p.drop i).Sublist (p.take i ++ leBytes 4 (p.length + 4) ++ p.drop i) :=
    (List.sublist_append_left _ _).append_right _
  rwa [List.take_append_drop] at hs

/-- What a sized flush transmits when nothing is cut off, and what it keeps when the socket
throws. -/
theorem writeWithSize_flushes (o : ByteOrder) {Whole : Bytes → Prop} (h : 4 ≤ p.length)
    (hlt : p.length + 4 < 2 ^ 32) (hw : Whole (frameAt p 4)) :
    Flushes (writeWithSize o) p Whole p.Sublist := by
  apply Flushes.of_wp
  rintro c rfl
  obtain ⟨i, hi, hends⟩ := writeWithSize_ends (fun _ => True) Throwable o h {}
    (fun c done rest _ => send_throwable c _ rest)
  have hi4 : i = 4 := hi (by omega)
  subst hi4
  apply hends.mono
  intro r c' s' hr
  obtain ⟨hends, rfl⟩ := hr
  rw [Nat.mod_eq_of_lt hlt, ← frameAt_length c.response.pimpl 4, List.take_length] at hends
  cases hends with
  | sent => exact ⟨hw, rfl⟩
  | thrown done rest _ _ => exact ⟨nofun, sublist_frameAt _ 4⟩

theorem writeWithSize_flushes_empty (o : ByteOrder) {Whole : Bytes → Prop} (hw : Whole []) :
    Flushes (writeWithSize o) [] Whole (List.Sublist []) := by
  apply Flushes.of_wp
  intro c hc
  apply ObjM.Wp.of_pure (writeWithSize_empty o hc)
  intro t ht
  rw [flakySocket_quiet.steps ht]
  exact ⟨hw, hc⟩

/-- A sized flush of one to three bytes is undefined. -/
theorem Flushes.four_le {o : ByteOrder} {Whole Kept : Bytes → Prop}
    (h : Flushes (writeWithSize o) p Whole Kept) (hp : p ≠ []) : 4 ≤ p.length := by
  by_contra hlt
  have hs := h { response := ⟨p⟩ } rfl
  rw [writeWithSize_short o (c := { response := ⟨p⟩ }) hp (Nat.lt_of_not_le hlt)] at hs
  exact (hs.result _ _ .refl).1 rfl

/-- A flush that returns has transmitted as many bytes as the number in its header. -/
theorem Flushes.exists_whole {o : ByteOrder} {Whole Kept : Bytes → Prop}
    (h : Flushes (writeWithSize o) p Whole Kept) (h4 : 4 ≤ p.length) :
    ∃ i, (p.length < 2 ^ 64 → i = 4) ∧ Whole ((frameAt p i).take ((p.length + 4) % 2 ^ 32)) := by
  obtain ⟨i, hi, hends⟩ := writeWithSize_ends (fun _ => False) Sendable o
    (c := { response := ⟨p⟩ }) h4 {} (fun _ _ _ hne => ⟨rfl, hne⟩)
  refine ⟨i, hi, ?_⟩
  obtain ⟨r, c', s', hrun, hends, _⟩ := exists_unfailing_run hends
  cases hends with
  | sent => exact ((h { response := ⟨p⟩ } rfl).result _ _ hrun).1
  | thrown _ _ _ hf => cases hf

theorem Carries.length (h : Carries p sent) (hp : p ≠ []) : sent.length = p.length + 4 := by
  rw [Carries, if_neg hp] at h
  obtain ⟨a, b, rfl, rfl⟩ := h
  simp only [List.length_append, leBytes_length]
  omega

theorem Heads.length (h : Heads p sent) (hp : p ≠ []) : sent.length = p.length + 4 := by
  rw [Heads, if_neg hp] at h
  rw [h, List.length_append, leBytes_length, Nat.add_comm]

theorem Flushes.length_lt {o : ByteOrder} {Whole Kept : Bytes → Prop}
    (h : Flushes (writeWithSize o) p Whole Kept) (h4 : 4 ≤ p.length)
    (hlen : ∀ sent, Whole sent → sent.length = p.length + 4) : p.length + 4 < 2 ^ 32 := by
  obtain ⟨i, _, hw⟩ := h.exists_whole h4
  have ht := hlen _ hw
  rw [List.length_take, frameAt_length] at ht
  by_contra hge
  have hlt := truncated_length (Nat.le_of_not_lt hge)
  omega

/-- The header stands in front exactly when the message begins with it already. -/
theorem heads_frameAt_iff (h : 4 ≤ p.length) :
    Heads p (frameAt p 4) ↔ p.take 4 = leBytes 4 (p.length + 4) := by
  have hp : p ≠ [] := by
    apply List.ne_nil_of_length_pos
    omega
  rw [Heads, if_neg hp, frameAt_four, List.append_assoc]
  constructor
  · intro he
    apply List.append_inj_left he
    rw [leBytes_length, List.length_take, Nat.min_eq_left h]
  · intro he
    rw [he, List.append_cancel_left_eq, ← he, List.take_append_drop]

/-- A sized flush of a message is defined, cuts nothing off, and transmits the frame. -/
theorem writeWithSize_flushes_iff (o : ByteOrder) {Whole : Bytes → Prop} (hp : p ≠ [])
    (hlen : ∀ sent, Whole sent → sent.length = p.length + 4) :
    Flushes (writeWithSize o) p Whole p.Sublist ↔
      4 ≤ p.length ∧ p.length + 4 < 2 ^ 32 ∧ Whole (frameAt p 4) := by
  constructor
  · intro h
    have h4 := h.four_le hp
    have hlt := h.length_lt h4 hlen
    obtain ⟨i, hi, hw⟩ := h.exists_whole h4
    rw [hi (by omega), Nat.mod_eq_of_lt hlt, ← frameAt_length p 4, List.take_length] at hw
    exact ⟨h4, hlt, hw⟩
  · intro h
    exact writeWithSize_flushes o h.1 h.2.1 h.2.2

/-- What a flush needs in order to transmit all of `response_` or keep it: without a size fewer than
`2 ^ 32` bytes, and with one no bytes or from four to `2 ^ 32 - 5`. The header then stands in front
only if the message begins with it. -/
theorem flush_never_truncates_iff (o : ByteOrder) (p : Bytes) :
    (Flushes writeWitoutSize p (· = p) (· = p) ↔ p.length < 2 ^ 32) ∧
    (Flushes (writeWithSize o) p (Carries p) p.Sublist ↔
      p = [] ∨ 4 ≤ p.length ∧ p.length + 4 < 2 ^ 32) ∧
    (Flushes (writeWithSize o) p (Heads p) p.Sublist ↔
      p = [] ∨ p.length + 4 < 2 ^ 32 ∧ p.take 4 = leBytes 4 (p.length + 4)) := by
  refine ⟨⟨?_, writeWitoutSize_flushes⟩, ?_, ?_⟩
  · intro h
    exact Nat.lt_of_not_le fun hle => writeWitoutSize_truncates hle h
  · by_cases hp : p = []
    · subst hp
      exact iff_of_true (writeWithSize_flushes_empty o rfl) (.inl rfl)
    · rw [or_iff_right hp, writeWithSize_flushes_iff o hp fun sent hs => hs.length hp]
      constructor
      · exact fun h => ⟨h.1, h.2.1⟩
      · exact fun h => ⟨h.1, h.2, frameAt_carries hp 4⟩
  · by_cases hp : p = []
    · subst hp
      exact iff_of_true (writeWithSize_flushes_empty o rfl) (.inl rfl)
    · rw [or_iff_right hp, writeWithSize_flushes_iff o hp fun sent hs => hs.length hp]
      constructor
      · intro h
        exact ⟨h.2.1, (heads_frameAt_iff h.1).mp h.2.2⟩
      · intro h
        have h4 : 4 ≤ p.length := le_length_of_take_eq h.2
        exact ⟨h4, h.1, (heads_frameAt_iff h4).mpr h.2⟩

/-- `2 ^ 32` bytes without a size, and `2 ^ 32 - 4` with one: nothing is sent, and all is cleared. -/
theorem four_gigabytes_truncated :
    ¬ Flushes writeWitoutSize (List.replicate (2 ^ 32) 0) (· = List.replicate (2 ^ 32) 0)
      (· = List.replicate (2 ^ 32) 0) ∧
    ¬ Flushes (writeWithSize .little) (List.replicate (2 ^ 32 - 4) 0)
      (Carries (List.replicate (2 ^ 32 - 4) 0)) (List.replicate (2 ^ 32 - 4) 0).Sublist := by
  constructor
  · apply writeWitoutSize_truncates
    rw [List.length_replicate]
  · intro h
    have h4 : 4 ≤ (List.replicate (2 ^ 32 - 4) (0 : UInt8)).length := by
      rw [List.length_replicate]
      decide
    have hp : List.replicate (2 ^ 32 - 4) (0 : UInt8) ≠ [] :=
      List.ne_nil_of_length_pos (Nat.lt_of_lt_of_le (by decide) h4)
    have hlt := h.length_lt h4 (fun sent hs => hs.length hp)
    rw [List.length_replicate] at hlt
    exact absurd hlt (by decide)

end CppAlls
