import CppAlls.Apps.Workers

namespace CppAlls
set_option autoImplicit true

open Failing Machines BoostIoService

namespace BoostIoService

/-- `stop` waits in `join_all`: nothing but the threads is left of the service. -/
structure Joining (s : BoostIoService) : Prop where
  call : s.call = .joining
  work : s.work = false
  stopped : s.stopped = true
  required : s.requiredThreadsCount = 0

variable {s : BoostIoService}

/-- A thread of a stopped service leaves, whether it evaluates its condition or runs a task. -/
theorem Joining.thread_leaves (h : s.Joining) (i : Nat) :
    (checkCondition i).on s = (.ok (), { s with threads := s.threads.erase i }) ∧
      (runOne i).on s = (.ok (), { s with threads := s.threads.erase i }) := by
  constructor
  · have hcount : ¬ s.requiredThreadsCount > i := by
      rw [h.required]
      exact Nat.not_lt_zero i
    rw [checkCondition, FailM.on_bind_ok (FailM.on_get s), if_pos hcount]
    rfl
  · rw [runOne, FailM.on_bind_ok (FailM.on_get s), if_pos h.stopped]
    rfl

theorem Joining.left (h : s.Joining) (i : Nat) :
    Joining { s with threads := s.threads.erase i } :=
  ⟨h.call, h.work, h.stopped, h.required⟩

/-- Only the threads act on a service that is being joined, until none is left. -/
theorem Joining.enabled (h : s.Joining) {i : IoServiceInput} (he : i.Enabled s) :
    (i = .joined ∧ s.threads = []) ∨ ∃ j ∈ s.threads, i = .runOne j ∨ i = .checkCondition j := by
  have hcall := h.call
  cases i with
  | start conf => exact absurd (hcall.symm.trans he) IoServiceCall.noConfusion
  | reload conf => exact absurd (hcall.symm.trans he) IoServiceCall.noConfusion
  | createThread => exact absurd hcall he.2
  | checkCondition j => exact .inr ⟨j, he, .inr rfl⟩
  | runOne j => exact .inr ⟨j, he, .inl rfl⟩
  | stop => exact absurd (hcall.symm.trans he) IoServiceCall.noConfusion
  | joined => exact .inl ⟨rfl, he.2⟩

theorem Joining.thread_next (h : s.Joining) (hi : i = .runOne j ∨ i = .checkCondition j) :
    (ioServiceMachine hardwareConcurrency).next s i = { s with threads := s.threads.erase j } := by
  rcases hi with rfl | rfl
  · exact congrArg Prod.snd (h.thread_leaves j).2
  · exact congrArg Prod.snd (h.thread_leaves j).1

theorem Joining.joined_next (h : s.Joining) (hnil : s.threads = []) :
    (ioServiceMachine hardwareConcurrency).next s .joined =
      (ioServiceMachine hardwareConcurrency).init := by
  obtain ⟨work, stopped, required, threads, call⟩ := s
  obtain ⟨_, rfl, _, rfl⟩ := h
  cases hnil
  rfl

theorem stop_joining (s : BoostIoService) : Joining (stop.on s).2 := ⟨rfl, rfl, rfl, rfl⟩

end BoostIoService

/-- The state after `stop` was called in `s` and these inputs came. -/
def stoppedThen (hardwareConcurrency : Nat) (s : BoostIoService) (is : List IoServiceInput) :
    BoostIoService :=
  is.foldl (ioServiceMachine hardwareConcurrency).next
    ((ioServiceMachine hardwareConcurrency).next s .stop)

/-- `stop` returns in every order in which the threads get on: each of their steps ends one of
them, so that there are as many steps as threads, and `join_all` then returns and leaves the service
as it was constructed. Until then some thread has a step, and nothing else has one. -/
theorem stop_returns (hardwareConcurrency : Nat) (s : BoostIoService) (is : List IoServiceInput)
    (hf : (ioServiceMachine hardwareConcurrency).Follows (fun _ i => i ≠ .joined)
      ((ioServiceMachine hardwareConcurrency).next s .stop) is) :
    is.length ≤ s.threads.length ∧
      (is.length < s.threads.length →
        (∃ i, IoServiceInput.Enabled (stoppedThen hardwareConcurrency s is) (.runOne i)) ∧
        ∀ i : IoServiceInput, i.Enabled (stoppedThen hardwareConcurrency s is) →
          ∃ j, i = .runOne j ∨ i = .checkCondition j) ∧
      (is.length = s.threads.length →
        (∀ i : IoServiceInput,
          i.Enabled (stoppedThen hardwareConcurrency s is) ↔ i = .joined) ∧
        (ioServiceMachine hardwareConcurrency).next (stoppedThen hardwareConcurrency s is) .joined =
          (ioServiceMachine hardwareConcurrency).init) := by
  have hstep : ∀ s i, s.Joining → (ioServiceMachine hardwareConcurrency).Enabled s i →
      i ≠ .joined → ((ioServiceMachine hardwareConcurrency).next s i).Joining ∧
        ((ioServiceMachine hardwareConcurrency).next s i).threads.length + 1 =
          s.threads.length := by
    intro s i h he hne
    rcases h.enabled he with ⟨hi, _⟩ | ⟨j, hj, hi⟩
    · exact absurd hi hne
    · rw [h.thread_next hi]
      refine ⟨h.left j, ?_⟩
      rw [List.length_erase_of_mem hj]
      exact Nat.sub_add_cancel (List.length_pos_of_mem hj)
  obtain ⟨hend, hlength⟩ :=
    Machine.Follows.measured (fun s => s.threads.length) hstep (stop_joining s) hf
  change (stoppedThen hardwareConcurrency s is).Joining at hend
  change is.length + (stoppedThen hardwareConcurrency s is).threads.length = s.threads.length
    at hlength
  refine ⟨?_, ?_, ?_⟩
  · exact hlength ▸ Nat.le_add_right _ _
  · intro hlt
    obtain ⟨i, hi⟩ := List.exists_mem_of_length_pos
      (show 0 < (stoppedThen hardwareConcurrency s is).threads.length by omega)
    refine ⟨⟨i, hi⟩, ?_⟩
    intro i he
    rcases hend.enabled he with ⟨_, hnil⟩ | ⟨j, _, hij⟩
    · rw [hnil] at hi
      cases hi
    · exact ⟨j, hij⟩
  · intro heq
    have hnil : (stoppedThen hardwareConcurrency s is).threads = [] := by
      apply List.eq_nil_of_length_eq_zero
      omega
    refine ⟨?_, hend.joined_next hnil⟩
    intro i
    constructor
    · intro he
      rcases hend.enabled he with ⟨hi, _⟩ | ⟨j, hj, _⟩
      · exact hi
      · rw [hnil] at hj
        cases hj
    · rintro rfl
      exact ⟨hend.call, hnil⟩

/-- The count went from 2 to 1, and the thread 1 is still in `run`. -/
def loweredToOne : BoostIoService :=
  { work := true, requiredThreadsCount := 1, threads := [0, 1] }

theorem loweredToOne_stop_returns :
    2 ≤ loweredToOne.threads.length ∧
      (2 < loweredToOne.threads.length →
        (∃ i, IoServiceInput.Enabled (stoppedThen 4 loweredToOne [.runOne 1, .checkCondition 0])
          (.runOne i)) ∧
        ∀ i : IoServiceInput,
          i.Enabled (stoppedThen 4 loweredToOne [.runOne 1, .checkCondition 0]) →
          ∃ j, i = .runOne j ∨ i = .checkCondition j) ∧
      (2 = loweredToOne.threads.length →
        (∀ i : IoServiceInput,
          i.Enabled (stoppedThen 4 loweredToOne [.runOne 1, .checkCondition 0]) ↔ i = .joined) ∧
        (ioServiceMachine 4).next (stoppedThen 4 loweredToOne [.runOne 1, .checkCondition 0])
          .joined = (ioServiceMachine 4).init) :=
  stop_returns 4 loweredToOne [.runOne 1, .checkCondition 0] (by decide)

end CppAlls
