import CppAlls.Apps.BoostIoService

namespace CppAlls
set_option autoImplicit true

open Failing Machines

/-- In every run of allowed inputs no two threads have one index, and there are as many as are
required once no call creates more and those with higher indices have left. -/
def NoDuplicateWorkers (hardwareConcurrency : Nat)
    (Allowed : BoostIoService → IoServiceInput → Prop) : Prop :=
  ∀ s, (ioServiceMachine hardwareConcurrency).Reachable Allowed s → s.threads.Nodup ∧
    ((∀ i n, s.call ≠ .creating i n) → (∀ i ∈ s.threads, i < s.requiredThreadsCount) →
      s.threads.length = s.requiredThreadsCount)

/-- The indices below this one have a thread each: all that are required, less those of the threads
that `reload` has still to create. -/
def IoServiceCall.filled (required : Nat) : IoServiceCall → Nat
  | .idle => required
  | .creating i _ => i
  | .joining => required

namespace BoostIoService

variable {s s' : BoostIoService}

/-- What every run keeps, however late the threads leave. -/
structure Staffed (s : BoostIoService) : Prop where
  filled : ∀ i < s.call.filled s.requiredThreadsCount, i ∈ s.threads
  creating : ∀ i n, s.call = .creating i n → i < n ∧ s.requiredThreadsCount = n
  joining : s.call = .joining → s.requiredThreadsCount = 0
  stopped : s.stopped = true → s.call = .joining

/-- No thread has the index of another, or one that `reload` has still to create. -/
structure Distinct (s : BoostIoService) : Prop where
  nodup : s.threads.Nodup
  vacant : ∀ i ∈ s.threads,
    i < s.call.filled s.requiredThreadsCount ∨ s.requiredThreadsCount ≤ i

theorem Staffed.filled_le (h : s.Staffed) :
    s.call.filled s.requiredThreadsCount ≤ s.requiredThreadsCount := by
  cases hcall : s.call with
  | idle => exact Nat.le_refl _
  | creating i n =>
    obtain ⟨hlt, hn⟩ := h.creating i n hcall
    rw [hn]
    exact Nat.le_of_lt hlt
  | joining => exact Nat.le_refl _

/-- What `reload` leaves to the loop that creates the threads. -/
inductive Reloads (hardwareConcurrency : Nat) (conf : IoServiceConf) (s : BoostIoService) :
    BoostIoService → Prop where
  | thrown : conf.logger = false → Reloads hardwareConcurrency conf s { s with work := true }
  | lowered : getThreadsCount hardwareConcurrency conf.threads ≤ s.requiredThreadsCount →
      Reloads hardwareConcurrency conf s { s with
        work := true
        requiredThreadsCount := getThreadsCount hardwareConcurrency conf.threads }
  | raised : conf.logger = true →
      s.requiredThreadsCount < getThreadsCount hardwareConcurrency conf.threads →
      Reloads hardwareConcurrency conf s { s with
        work := true
        requiredThreadsCount := getThreadsCount hardwareConcurrency conf.threads
        call := .creating s.requiredThreadsCount
          (getThreadsCount hardwareConcurrency conf.threads) }

/-- A `reload` that finds its logger sets the count, and creates threads when it goes up. -/
theorem reload_found (hardwareConcurrency threads : Nat) (s : BoostIoService) :
    (reload hardwareConcurrency ⟨threads, true⟩).on s =
      (if s.requiredThreadsCount < getThreadsCount hardwareConcurrency threads then
        modify fun t => { t with
          call := .creating s.requiredThreadsCount (getThreadsCount hardwareConcurrency threads) }
      else pure () : IoServiceM Unit).on { s with
        work := true
        requiredThreadsCount := getThreadsCount hardwareConcurrency threads } := rfl

theorem reload_reloads (hardwareConcurrency : Nat) (conf : IoServiceConf) (s : BoostIoService) :
    Reloads hardwareConcurrency conf s ((reload hardwareConcurrency conf).on s).2 := by
  obtain ⟨threads, logger⟩ := conf
  cases logger with
  | false => exact .thrown rfl
  | true =>
    rw [reload_found]
    by_cases hlt : s.requiredThreadsCount < getThreadsCount hardwareConcurrency threads
    · rw [if_pos hlt]
      exact .raised rfl hlt
    · rw [if_neg hlt]
      exact .lowered (Nat.le_of_not_lt hlt)

theorem Staffed.reloaded (h : s.Staffed) (hidle : s.call = .idle)
    (hr : Reloads hardwareConcurrency conf s s') : s'.Staffed := by
  have hfilled := h.filled
  rw [hidle] at hfilled
  have hstopped : s.stopped ≠ true := by
    intro hs
    have hj := h.stopped hs
    rw [hidle] at hj
    cases hj
  cases hr with
  | thrown _ => exact ⟨h.filled, h.creating, h.joining, h.stopped⟩
  | lowered hle =>
    refine ⟨?_, ?_, ?_, fun hs => absurd hs hstopped⟩
    · rw [hidle]
      intro i hi
      exact hfilled i (Nat.lt_of_lt_of_le hi hle)
    · intro i n hc
      rw [hidle] at hc
      cases hc
    · intro hj
      rw [hidle] at hj
      cases hj
  | raised _ hlt =>
    refine ⟨hfilled, ?_, ?_, fun hs => absurd hs hstopped⟩
    · intro i n hc
      cases hc
      exact ⟨hlt, rfl⟩
    · intro hj
      cases hj

/-- No thread has an index that `reload` counts as vacant. -/
def Vacates (hardwareConcurrency : Nat) (conf : IoServiceConf) (s : BoostIoService) : Prop :=
  conf.logger = true → ∀ i ∈ s.threads,
    i < s.requiredThreadsCount ∨ getThreadsCount hardwareConcurrency conf.threads ≤ i

theorem Distinct.reloaded (h : s.Distinct) (hidle : s.call = .idle)
    (hv : Vacates hardwareConcurrency conf s) (hr : Reloads hardwareConcurrency conf s s') :
    s'.Distinct := by
  cases hr with
  | thrown _ => exact ⟨h.nodup, h.vacant⟩
  | lowered _ =>
    refine ⟨h.nodup, ?_⟩
    rw [hidle]
    intro i _
    exact Nat.lt_or_ge i _
  | raised hl _ => exact ⟨h.nodup, hv hl⟩

def threadCreated (s : BoostIoService) (i n : Nat) : BoostIoService :=
  { s with
    threads := s.threads ++ [i]
    call := if i + 1 < n then .creating (i + 1) n else .idle }

theorem createThread_on (h : s.call = .creating i n) :
    createThread.on s = (.ok (), s.threadCreated i n) := by
  rw [createThread, FailM.on_modify, h]
  rfl

theorem filled_threadCreated (hlt : i < n) (hn : s.requiredThreadsCount = n) :
    (s.threadCreated i n).call.filled s.requiredThreadsCount = i + 1 := by
  rw [threadCreated]
  by_cases hmore : i + 1 < n
  · rw [if_pos hmore]
    rfl
  · rw [if_neg hmore, hn]
    exact Nat.le_antisymm (Nat.le_of_not_lt hmore) hlt

theorem Staffed.threadCreated (h : s.Staffed) (hc : s.call = .creating i n) :
    (s.threadCreated i n).Staffed := by
  obtain ⟨hlt, hn⟩ := h.creating i n hc
  have hfilled := h.filled
  rw [hc] at hfilled
  constructor
  · intro j hj
    rw [show (s.threadCreated i n).requiredThreadsCount = s.requiredThreadsCount from rfl,
      filled_threadCreated hlt hn] at hj
    rcases Nat.lt_succ_iff_lt_or_eq.mp hj with hj | rfl
    · exact List.mem_append_left _ (hfilled j hj)
    · exact List.mem_append_right _ (.head [])
  · intro j m hcall
    rw [BoostIoService.threadCreated] at hcall
    by_cases hmore : i + 1 < n
    · rw [if_pos hmore] at hcall
      cases hcall
      exact ⟨hmore, hn⟩
    · rw [if_neg hmore] at hcall
      cases hcall
  · intro hcall
    rw [BoostIoService.threadCreated] at hcall
    split at hcall
    · cases hcall
    · cases hcall
  · intro hs
    have hj := h.stopped hs
    rw [hc] at hj
    cases hj

theorem Distinct.threadCreated (h : s.Distinct) (hc : s.call = .creating i n) (hlt : i < n)
    (hn : s.requiredThreadsCount = n) : (s.threadCreated i n).Distinct := by
  have hvacant := h.vacant
  rw [hc, hn] at hvacant
  have hnew : i ∉ s.threads := by
    intro hi
    rcases hvacant i hi with hii | hni
    · exact Nat.lt_irrefl i hii
    · exact Nat.lt_irrefl i (Nat.lt_of_lt_of_le hlt hni)
  constructor
  · apply List.nodup_append.mpr
    refine ⟨h.nodup, List.pairwise_singleton _ i, ?_⟩
    intro j hj k hk
    cases List.mem_singleton.mp hk
    rintro rfl
    exact hnew hj
  · intro j hj
    rw [show (s.threadCreated i n).requiredThreadsCount = s.requiredThreadsCount from rfl,
      filled_threadCreated hlt hn, hn]
    rcases List.mem_append.mp hj with hj | hj
    · rcases hvacant j hj with hji | hnj
      · exact .inl (Nat.lt_succ_of_lt hji)
      · exact .inr hnj
    · cases List.mem_singleton.mp hj
      exact .inl (Nat.lt_succ_self i)

/-- A thread may leave when its index is not among those that are required. -/
theorem Staffed.left (h : s.Staffed) (hi : s.requiredThreadsCount ≤ i) :
    Staffed { s with threads := s.threads.erase i } := by
  refine ⟨?_, h.creating, h.joining, h.stopped⟩
  intro j hj
  have hne : j ≠ i := Nat.ne_of_lt (Nat.lt_of_lt_of_le hj (Nat.le_trans h.filled_le hi))
  exact (List.mem_erase_of_ne hne).mpr (h.filled j hj)

theorem Distinct.left (h : s.Distinct) (i : Nat) :
    Distinct { s with threads := s.threads.erase i } := by
  refine ⟨h.nodup.erase i, ?_⟩
  intro j hj
  exact h.vacant j (List.mem_of_mem_erase hj)

/-- What evaluating the condition or the body of the loop does to the thread. -/
inductive Leaves (s : BoostIoService) (i : Nat) : BoostIoService → Prop where
  | stayed : Leaves s i s
  | left : s.requiredThreadsCount ≤ i → Leaves s i { s with threads := s.threads.erase i }

theorem checkCondition_leaves (i : Nat) (s : BoostIoService) :
    Leaves s i ((checkCondition i).on s).2 := by
  rw [checkCondition, FailM.on_bind_ok (FailM.on_get s)]
  by_cases hi : s.requiredThreadsCount > i
  · rw [if_neg (fun h => h hi)]
    exact .stayed
  · rw [if_pos hi]
    exact .left (Nat.le_of_not_gt hi)

theorem runOne_leaves (h : s.Staffed) (i : Nat) : Leaves s i ((runOne i).on s).2 := by
  rw [runOne, FailM.on_bind_ok (FailM.on_get s)]
  cases hs : s.stopped with
  | false => exact .stayed
  | true =>
    have hr := h.joining (h.stopped hs)
    apply Leaves.left
    rw [hr]
    exact Nat.zero_le i

theorem Staffed.leaves (h : s.Staffed) (hl : Leaves s i s') : s'.Staffed := by
  cases hl with
  | stayed => exact h
  | left hi => exact h.left hi

theorem Distinct.leaves (h : s.Distinct) (hl : Leaves s i s') : s'.Distinct := by
  cases hl with
  | stayed => exact h
  | left _ => exact h.left i

/-- As many threads run as indices are filled, once those that must leave have left. -/
theorem Distinct.length (h : s.Distinct) (hs : s.Staffed) (hcall : ∀ i n, s.call ≠ .creating i n)
    (hleft : ∀ i ∈ s.threads, i < s.requiredThreadsCount) :
    s.threads.length = s.requiredThreadsCount := by
  have hfilled : s.call.filled s.requiredThreadsCount = s.requiredThreadsCount := by
    cases hc : s.call with
    | idle => rfl
    | creating i n => exact absurd hc (hcall i n)
    | joining => rfl
  have hmem (i : Nat) : i ∈ s.threads ↔ i ∈ List.range s.requiredThreadsCount := by
    rw [List.mem_range]
    constructor
    · intro hi
      exact hleft i hi
    · intro hi
      exact hs.filled i (by rwa [hfilled])
  have hperm := (List.perm_ext_iff_of_nodup h.nodup List.nodup_range).mpr hmem
  exact hperm.length_eq.trans List.length_range

end BoostIoService

/-- A reload finds no thread with an index that it is about to give to a new one. -/
def IoServiceInput.Vacates (hardwareConcurrency : Nat) (s : BoostIoService) : IoServiceInput → Prop
  | .start conf => s.Vacates hardwareConcurrency conf
  | .reload conf => s.Vacates hardwareConcurrency conf
  | .createThread => True
  | .checkCondition _ => True
  | .runOne _ => True
  | .stop => True
  | .joined => True

open BoostIoService

theorem IoServiceInput.perform_staffed {s : BoostIoService} (hardwareConcurrency : Nat)
    (i : IoServiceInput) (h : s.Staffed) (he : i.Enabled s) :
    ((ioServiceMachine hardwareConcurrency).next s i).Staffed := by
  cases i with
  | start conf => exact h.reloaded he (reload_reloads hardwareConcurrency conf s)
  | reload conf => exact h.reloaded he (reload_reloads hardwareConcurrency conf s)
  | createThread =>
    cases hc : s.call with
    | idle => exact absurd hc he.1
    | creating i n =>
      change (BoostIoService.createThread.on s).2.Staffed
      rw [createThread_on hc]
      exact h.threadCreated hc
    | joining => exact absurd hc he.2
  | checkCondition i => exact h.leaves (checkCondition_leaves i s)
  | runOne i => exact h.leaves (runOne_leaves h i)
  | stop =>
    refine ⟨?_, ?_, fun _ => rfl, fun _ => rfl⟩
    · intro i hi
      cases hi
    · intro _ _ hc
      cases hc
  | joined =>
    have hr := h.joining he.1
    constructor
    · intro i hi
      change i < s.requiredThreadsCount at hi
      rw [hr] at hi
      cases hi
    · intro _ _ hc
      cases hc
    · intro hc
      cases hc
    · intro hs
      cases hs

theorem IoServiceInput.perform_distinct {s : BoostIoService} (hardwareConcurrency : Nat)
    (i : IoServiceInput) (h : s.Distinct) (hs : s.Staffed) (he : i.Enabled s)
    (hv : i.Vacates hardwareConcurrency s) :
    ((ioServiceMachine hardwareConcurrency).next s i).Distinct := by
  cases i with
  | start conf => exact h.reloaded he hv (reload_reloads hardwareConcurrency conf s)
  | reload conf => exact h.reloaded he hv (reload_reloads hardwareConcurrency conf s)
  | createThread =>
    cases hc : s.call with
    | idle => exact absurd hc he.1
    | creating i n =>
      obtain ⟨hlt, hn⟩ := hs.creating i n hc
      change (BoostIoService.createThread.on s).2.Distinct
      rw [createThread_on hc]
      exact h.threadCreated hc hlt hn
    | joining => exact absurd hc he.2
  | checkCondition i => exact h.leaves (checkCondition_leaves i s)
  | runOne i => exact h.leaves (runOne_leaves hs i)
  | stop => exact ⟨h.nodup, fun i _ => .inr (Nat.zero_le i)⟩
  | joined =>
    refine ⟨h.nodup, ?_⟩
    intro i _
    exact Nat.lt_or_ge i _

theorem init_staffed : Staffed {} := by
  constructor
  · intro i hi
    cases hi
  · intro _ _ hc
    cases hc
  · intro hc
    cases hc
  · intro hs
    cases hs

/-- In every run whose reloads give no index to a thread that a live thread still has, no two
threads have one index. -/
theorem no_duplicate_workers (hardwareConcurrency : Nat) :
    NoDuplicateWorkers hardwareConcurrency (IoServiceInput.Vacates hardwareConcurrency) := by
  intro s hr
  have hinv : s.Distinct ∧ s.Staffed := by
    apply hr.invariant
    · refine ⟨⟨List.nodup_nil, ?_⟩, init_staffed⟩
      intro i hi
      cases hi
    · intro s i h he hv
      exact ⟨i.perform_distinct hardwareConcurrency h.1 h.2 he hv,
        i.perform_staffed hardwareConcurrency h.2 he⟩
  exact ⟨hinv.1.nodup, hinv.1.length hinv.2⟩

/-- The count goes from 3 to 1 and back to 3 before the threads 1 and 2 evaluate their condition. -/
theorem duplicate_workers : ¬ NoDuplicateWorkers 4 (fun _ _ => True) := by
  intro h
  have hrun : (ioServiceMachine 4).Follows (fun _ _ => True) (ioServiceMachine 4).init
      [.start ⟨3, true⟩, .createThread, .createThread, .createThread, .reload ⟨1, true⟩,
        .reload ⟨3, true⟩, .createThread, .createThread] := by
    decide
  obtain ⟨hnodup, _⟩ := h _ (Machine.Reachable.init.follow hrun)
  exact absurd hnodup (by decide)

/-- The value of `threads` that the service runs on: the one of the last `start` or `reload` that
did not throw, unless `stop` was called since. -/
def IoServiceInput.noteThreads (_ : BoostIoService) :
    IoServiceInput → Option Nat → Option Nat
  | .start conf, requested => if conf.logger then some conf.threads else requested
  | .reload conf, requested => if conf.logger then some conf.threads else requested
  | .createThread, requested => requested
  | .checkCondition _, requested => requested
  | .runOne _, requested => requested
  | .stop, _ => none
  | .joined, requested => requested

def requestedMachine (hardwareConcurrency : Nat) :
    Machine (BoostIoService × Option Nat) IoServiceInput :=
  (ioServiceMachine hardwareConcurrency).withHistory none IoServiceInput.noteThreads

instance requestedMachine.decidableEnabled (hardwareConcurrency : Nat)
    (x : BoostIoService × Option Nat) (i : IoServiceInput) :
    Decidable ((requestedMachine hardwareConcurrency).Enabled x i) :=
  inferInstanceAs (Decidable (i.Enabled x.1))

theorem getThreadsCount_pos (hardwareConcurrency threads : Nat) :
    1 ≤ getThreadsCount hardwareConcurrency threads := by
  have hclamp (n : Nat) (hn : 1 ≤ n) : 1 ≤ if n > threadsCountMax then threadsCountMax else n := by
    split
    · decide
    · exact hn
  have hdefault (n : Nat) : 1 ≤ if n = 0 then 2 else n := by
    split
    · decide
    next hne => exact Nat.pos_of_ne_zero hne
  exact hclamp _ (hdefault _)

theorem getThreadsCount_le (hardwareConcurrency threads : Nat) :
    getThreadsCount hardwareConcurrency threads ≤ 65535 := by
  have hclamp (n : Nat) : (if n > threadsCountMax then threadsCountMax else n) ≤ 65535 := by
    split
    · exact Nat.le_refl _
    next hle => exact Nat.le_of_not_gt hle
  exact hclamp _

/-- The count is the clamped one of the request that is in force. -/
def Requested (hardwareConcurrency : Nat) (x : BoostIoService × Option Nat) : Prop :=
  ∀ threads, x.2 = some threads →
    x.1.requiredThreadsCount = getThreadsCount hardwareConcurrency threads

theorem reload_requested {x : BoostIoService × Option Nat} (conf : IoServiceConf)
    (h : Requested hardwareConcurrency x) :
    Requested hardwareConcurrency (((reload hardwareConcurrency conf).on x.1).2,
      if conf.logger then some conf.threads else x.2) := by
  obtain ⟨threads, logger⟩ := conf
  cases logger with
  | false => exact h
  | true =>
    intro requested he
    cases he
    rw [reload_found]
    split
    · rfl
    · rfl

theorem createThread_required (s : BoostIoService) :
    (BoostIoService.createThread.on s).2.requiredThreadsCount = s.requiredThreadsCount := by
  rw [BoostIoService.createThread, FailM.on_modify]
  cases s.call <;> rfl

theorem BoostIoService.Leaves.required {s s' : BoostIoService} (h : s.Leaves i s') :
    s'.requiredThreadsCount = s.requiredThreadsCount := by
  cases h with
  | stayed => rfl
  | left _ => rfl

theorem IoServiceInput.perform_requested {x : BoostIoService × Option Nat}
    (hardwareConcurrency : Nat) (i : IoServiceInput) (hs : x.1.Staffed)
    (h : Requested hardwareConcurrency x) :
    Requested hardwareConcurrency ((requestedMachine hardwareConcurrency).next x i) := by
  cases i with
  | start conf => exact reload_requested conf h
  | reload conf => exact reload_requested conf h
  | createThread =>
    intro threads he
    exact (createThread_required x.1).trans (h threads he)
  | checkCondition i =>
    intro threads he
    exact (checkCondition_leaves i x.1).required.trans (h threads he)
  | runOne i =>
    intro threads he
    exact (runOne_leaves hs i).required.trans (h threads he)
  | stop =>
    intro threads he
    cases he
  | joined => exact h

/-- In every run a started service with no call under way has a thread for each index below the
count, which is the last requested one after clamping. A thread counts until it has seen that it
must leave. -/
theorem no_worker_slot_empty (hardwareConcurrency : Nat) {s : BoostIoService} {threads : Nat}
    (hr : (requestedMachine hardwareConcurrency).Reachable (fun _ _ => True) (s, some threads))
    (hidle : s.call = .idle) :
    (∀ i < s.requiredThreadsCount, i ∈ s.threads) ∧
      1 ≤ s.requiredThreadsCount ∧ s.requiredThreadsCount ≤ 65535 ∧
      s.requiredThreadsCount = getThreadsCount hardwareConcurrency threads := by
  have hinv : s.Staffed ∧ Requested hardwareConcurrency (s, some threads) := by
    apply hr.invariant (I := fun x => x.1.Staffed ∧ Requested hardwareConcurrency x)
    · refine ⟨init_staffed, ?_⟩
      intro threads he
      cases he
    · intro x i h he _
      exact ⟨i.perform_staffed hardwareConcurrency h.1 he,
        i.perform_requested hardwareConcurrency h.1 h.2⟩
  have hcount := hinv.2 threads rfl
  have hfilled := hinv.1.filled
  rw [hidle] at hfilled
  rw [hcount] at hfilled ⊢
  exact ⟨hfilled, getThreadsCount_pos _ _, getThreadsCount_le _ _, rfl⟩

/-- The count went from 3 to 1 and back to 3 before the old threads 1 and 2 evaluated their
condition. -/
def raisedAgain : BoostIoService :=
  { work := true, requiredThreadsCount := 3, threads := [0, 1, 2, 1, 2] }

theorem raised_again_filled :
    (∀ i < raisedAgain.requiredThreadsCount, i ∈ raisedAgain.threads) ∧
      1 ≤ raisedAgain.requiredThreadsCount ∧ raisedAgain.requiredThreadsCount ≤ 65535 ∧
      raisedAgain.requiredThreadsCount = getThreadsCount 4 3 := by
  have hrun : (requestedMachine 4).Follows (fun _ _ => True) (requestedMachine 4).init
      [.start ⟨3, true⟩, .createThread, .createThread, .createThread, .reload ⟨1, true⟩,
        .reload ⟨3, true⟩, .createThread, .createThread] := by
    decide
  exact no_worker_slot_empty 4 (Machine.Reachable.init.follow hrun) rfl

end CppAlls
