import CppAlls.Core.SyncRules
import CppAlls.Apps.UdpDatagram

namespace CppAlls
set_option autoImplicit true

open LittleEndian Interaction Relation ConnM

/-- A socket that takes any positive part of what it is given and keeps the pieces. -/
def sendingSocket (U : Type) : ConnWorld U (List Bytes) where
  env _ _ := False
  answer
    | pieces, (_, .send bs), some k, pieces' => pieces' = pieces ++ [bs.take k]
    | _, _, _, _ => False

def IsSend (_ : List Bytes) (o : Connection × SocketCall U) : Prop :=
  match o.2 with
  | .send bs => bs ≠ []
  | _ => False

theorem sendingSocket_answers (pieces : List Bytes) (o : Connection × SocketCall U)
    (h : IsSend pieces o) : ∃ r pieces', (sendingSocket U).answer pieces o r pieces' := by
  obtain ⟨c, call⟩ := o
  cases call with
  | send bs => exact ⟨some ⟨bs.length, List.length_pos_iff.mpr h, Nat.le_refl _⟩, _, rfl⟩
  | receive => cases h
  | available => cases h
  | report => cases h

theorem sendingSocket_quiet : (sendingSocket U).Quiet := fun _ _ h => h

theorem writeWithSize_sends (o : ByteOrder) {c : Connection} (h : 4 ≤ c.response.pimpl.length)
    (hlt : c.response.pimpl.length + 4 < 2 ^ 32) :
    (writeWithSize o : ConnM U Unit).Wp (sendingSocket U) IsSend
      (fun r c' pieces => r = .ok () ∧ c'.response.pimpl = [] ∧ pieces.flatten =
        c.response.pimpl.take 4 ++ leBytes 4 (c.response.pimpl.length + 4) ++
          c.response.pimpl.drop 4) c [] := by
  obtain ⟨i, hi, hon⟩ := writeWithSize_on (U := U) o h
  have hi4 : i = 4 := hi (by omega)
  subst hi4
  have hall : (frameAt c.response.pimpl 4).take ((c.response.pimpl.length + 4) % 2 ^ 32) =
      frameAt c.response.pimpl 4 := by
    rw [Nat.mod_eq_of_lt hlt, ← frameAt_length c.response.pimpl 4, List.take_length]
  apply ObjM.Wp.of_on hon
  apply flush_drains (J := fun done pieces => pieces.flatten = done)
  · exact fun done => sendingSocket_quiet.stable _
  · intro done rest s _ hne hJ
    refine ⟨hne, ?_⟩
    intro r s' hr
    cases r with
    | none => cases hr
    | some k =>
      have he : s' = s ++ [rest.take k] := hr
      simp only
      rw [he, List.flatten_append, hJ, List.flatten_singleton]
  · exact fun s hJ => ⟨rfl, rfl, hJ.trans hall⟩
  · rw [frameAt_length]
    exact Nat.mod_le _ _
  · rfl

/-- A run of a sized flush of `p` on a socket that answers every send. -/
def FlushRun (o : ByteOrder) (p : Bytes) (r : Except Exn Unit) (c' : Connection)
    (pieces : List Bytes) : Prop :=
  ∃ c : Connection, c.response.pimpl = p ∧
    ReflTransGen (Prog.Step (sendingSocket Empty))
      ((writeWithSize o).on c, []) (.pure (r, c'), pieces)

theorem exists_flushRun (o : ByteOrder) {p : Bytes} (h : 4 ≤ p.length)
    (hlt : p.length + 4 < 2 ^ 32) : ∃ r c' pieces, FlushRun o p r c' pieces ∧
      pieces.flatten = p.take 4 ++ leBytes 4 (p.length + 4) ++ p.drop 4 := by
  obtain ⟨⟨r, c'⟩, pieces, hrun, _, _, hsent⟩ :=
    (writeWithSize_sends (U := Empty) o (c := { response := ⟨p⟩ }) h hlt).exists_result
      sendingSocket_answers
  exact ⟨r, c', pieces, ⟨_, rfl, hrun⟩, hsent⟩

/-- The frame format: a flush hands over the size of the frame and then the payload, and as one
datagram this is dispatched with the payload unread. -/
structure Framed (o o' : ByteOrder) (p : Bytes) : Prop where
  ends : ∃ r c' pieces, FlushRun o p r c' pieces
  sent : ∀ r c' pieces, FlushRun o p r c' pieces →
    r = .ok () ∧ pieces.flatten = leBytes 4 (p.length + 4) ++ p ∧ c'.response.pimpl = []
  dispatched : ∀ r c' d, FlushRun o p r c' [d] →
    ∃ q, udpOnAccpet o' d = .processed q {} ∧ q.unread = p

theorem Framed.take_eq (h : Framed o o' p) (h4 : 4 ≤ p.length) (hlt : p.length + 4 < 2 ^ 32) :
    p.take 4 = leBytes 4 (p.length + 4) := by
  obtain ⟨r, c', pieces, hrun, hsent⟩ := exists_flushRun o h4 hlt
  have hflat := (h.sent r c' pieces hrun).2.1
  rw [hsent, List.append_assoc] at hflat
  apply List.append_inj_left hflat
  rw [leBytes_length, List.length_take, Nat.min_eq_left h4]

/-- A payload is framed as intended exactly when it happens to start with its own header. -/
theorem framed_iff (o o' : ByteOrder) (p : Bytes) (hp : p ≠ []) (hlt : p.length + 4 < 2 ^ 32) :
    Framed o o' p ↔ p.take 4 = leBytes 4 (p.length + 4) := by
  constructor
  · intro h
    by_cases h4 : 4 ≤ p.length
    · exact h.take_eq h4 hlt
    · have hrun := writeWithSize_short (U := Empty) o (c := { response := ⟨p⟩ }) hp
        (Nat.lt_of_not_le h4)
      obtain ⟨hr, _⟩ := h.sent _ _ [] ⟨_, rfl, by rw [hrun]⟩
      cases hr
  · intro h
    have h4 : 4 ≤ p.length := le_length_of_take_eq h
    have hsent : ∀ r c' pieces, FlushRun o p r c' pieces →
        r = .ok () ∧ pieces.flatten = leBytes 4 (p.length + 4) ++ p ∧ c'.response.pimpl = [] := by
      intro r c' pieces hI
      obtain ⟨c, rfl, hrun⟩ := hI
      obtain ⟨hr, hc, hflat⟩ := Prog.Wp.result (writeWithSize_sends o h4 hlt) hrun
      refine ⟨hr, ?_, hc⟩
      rw [hflat, List.append_assoc, ← h, List.take_append_drop, h]
    obtain ⟨r, c', pieces, hrun, _⟩ := exists_flushRun o h4 hlt
    refine ⟨⟨r, c', pieces, hrun⟩, hsent, ?_⟩
    intro r c' d hrun
    have hd := (hsent r c' [d] hrun).2.1
    rw [List.flatten_singleton] at hd
    rw [hd]
    exact udpOnAccpet_framed o' hlt

theorem self_headed_payload_framed : ([8, 0, 0, 0] : Bytes) ≠ [] ∧
    (Framed .little .big [8, 0, 0, 0] ↔ ([8, 0, 0, 0] : Bytes).take 4 = leBytes 4 8) :=
  ⟨by decide, framed_iff .little .big [8, 0, 0, 0] (by decide) (by decide)⟩

theorem five_bytes_misframed : ¬ Framed .little .little [1, 2, 3, 4, 5] := by
  intro h
  have he := h.take_eq (by decide) (by decide)
  revert he
  decide

end CppAlls
