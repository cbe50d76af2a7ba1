import CppAlls.Server.Running

namespace CppAlls
set_option autoImplicit true

open Failing Tables Interaction Machines

/-- Whether an application is live after the record, given whether it was before: its `start` has
returned, and it has not received `stop` since. -/
def LifecycleRecord.after (app : Nat) (live : Bool) (c : LifecycleRecord) : Bool :=
  if c.application = app then
    match c.call with
    | .start => live || c.returned
    | .reload => live
    | .stop => false
  else live

namespace Server

variable {Y : YamlCpp} {E : Surroundings Y} {s s' : Server} {known : Instances} {m : AppToPath}

def Live (s : Server) (app : Nat) : Prop :=
  s.calls.foldl (LifecycleRecord.after app) false = true

instance (s : Server) (app : Nat) : Decidable (s.Live app) := by
  unfold Live
  infer_instance

def NoOrphans (s : Server) : Prop :=
  ∀ app, s.Live app → ∃ name, s.instances.lookup name = some app

theorem live_of_calls (h : s'.calls = s.calls) : s'.Live app ↔ s.Live app := by
  rw [Live, Live, h]

theorem live_append {c : LifecycleRecord} (h : s'.calls = s.calls ++ [c]) :
    s'.Live app ↔ c.after app (s.calls.foldl (LifecycleRecord.after app) false) = true := by
  rw [Live, h, List.foldl_append]
  rfl

theorem live_started (h : s'.calls = s.calls ++ [⟨app, .start, returned⟩]) (hlive : s'.Live app') :
    s.Live app' ∨ (app' = app ∧ returned = true) := by
  rw [live_append h, LifecycleRecord.after] at hlive
  split at hlive
  next he =>
    rcases Bool.or_eq_true_iff.mp hlive with hlive | hret
    · exact .inl hlive
    · exact .inr ⟨he.symm, hret⟩
  next => exact .inl hlive

/-- The name under which `start_instance` registers the application of a node. -/
def StartName (appNode : Y.Node) (name : String) : Prop :=
  ∃ appType, typeOf appNode = .ok appType ∧ instanceNameOr appNode appType = .ok name

/-- When its name is not in use, an application that `start_instance` has started is its result. -/
theorem Launch.live {appNode : Y.Node} (h : Launch E appNode m known s r s')
    (hfresh : ∀ name, StartName appNode name → name ∉ known) (hlive : s'.Live app) :
    s.Live app ∨ ∃ is, r = .ok (is, app) := by
  cases h with
  | missing => exact .inl hlive
  | unnamed => exact .inl hlive
  | threw h he =>
    rcases live_started (s := s) rfl hlive with hlive | ⟨_, hret⟩
    · exact .inl hlive
    · rw [show (s.created _).instances = s.instances from rfl, he] at hret
      cases hret
  | duplicate h _ hin => exact absurd hin (hfresh _ ⟨_, h.typed, h.named⟩)
  | started =>
    rcases live_started (s := s) rfl hlive with hlive | ⟨rfl, _⟩
    · exact .inl hlive
    · exact .inr ⟨_, rfl⟩

theorem Launch.refused {appNode : Y.Node} (h : Launch E appNode m known s (.error e) s')
    (hfresh : ∀ name, StartName appNode name → name ∉ known) (hs : NoOrphans s) :
    NoOrphans s' := by
  intro app hlive
  rw [h.appsRun.instances]
  rcases h.live hfresh hlive with hlive | ⟨is, he⟩
  · exact hs app hlive
  · cases he

theorem Launch.registered {appNode : Y.Node} (h : Launch E appNode m known s (.ok (is, app)) s')
    (hfresh : ∀ name, StartName appNode name → name ∉ known) (hs : NoOrphans s)
    (hsub : Sub s.instances s''.instances) (hin : s''.instances.lookup name = some app)
    (hcalls : s''.calls = s'.calls) : NoOrphans s'' := by
  intro app' hlive
  rcases h.live hfresh ((live_of_calls hcalls).mp hlive) with hlive | ⟨is', he⟩
  · obtain ⟨name', hin'⟩ := hs app' hlive
    exact ⟨name', hsub name' app' hin'⟩
  · cases he
    exact ⟨name, hin⟩

end Server

namespace Server

end Server

end CppAlls
