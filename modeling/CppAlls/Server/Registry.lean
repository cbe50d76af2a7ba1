import CppAlls.Server.Outcomes

namespace CppAlls
set_option autoImplicit true

open Failing Tables Interaction Machines

namespace Server

variable {Y : YamlCpp} {E : Surroundings Y} {s s' : Server}

/-- Applications were constructed and called, but none was stopped, and nothing else changed. -/
def AppsRun (s s' : Server) : Prop :=
  ∃ objs new res, s' = { s with
    objects := s.objects ++ objs, calls := s.calls ++ new, resolved := res } ∧
    ∀ c ∈ new, c.call ≠ .stop

theorem AppsRun.refl (s : Server) : AppsRun s s := by
  refine ⟨[], [], s.resolved, ?_, ?_⟩
  · rw [List.append_nil, List.append_nil]
  · intro c hc
    cases hc

theorem AppsRun.trans (h : AppsRun s s') (h' : AppsRun s' s'') : AppsRun s s'' := by
  obtain ⟨objs, new, res, rfl, hnew⟩ := h
  obtain ⟨objs', new', res', rfl, hnew'⟩ := h'
  refine ⟨objs ++ objs', new ++ new', res', ?_, ?_⟩
  · simp only [List.append_assoc]
  · intro c hc
    rcases List.mem_append.mp hc with hc | hc
    · exact hnew c hc
    · exact hnew' c hc

theorem appsRun_ran {call : LifecycleCall} (h : call ≠ .stop) (self : Nat) (body : AppBody)
    (s : Server) : AppsRun s (s.ran self call body) := by
  refine ⟨[], [⟨self, call, (body.outcome s.instances).isNone⟩],
    s.resolved ++ (body.resolutions s.instances).map (Prod.mk self), ?_, ?_⟩
  · rw [List.append_nil]
    rfl
  · intro c hc
    rw [List.mem_singleton.mp hc]
    exact h

theorem appsRun_created (s : Server) (appType : String) : AppsRun s (s.created appType) := by
  refine ⟨[appType], [], s.resolved, ?_, ?_⟩
  · rw [List.append_nil]
    rfl
  · intro c hc
    cases hc

theorem appsRun_launched (s : Server) (appType : String) (appNode : Y.Node) :
    AppsRun s (launched E s appType appNode) :=
  (appsRun_created s appType).trans (appsRun_ran (by decide) _ _ _)

theorem Launch.appsRun {appNode : Y.Node} {m : AppToPath} {known : Instances}
    (h : Launch E appNode m known s r s') : AppsRun s s' := by
  cases h with
  | missing => exact .refl s
  | unnamed => exact appsRun_created s _
  | threw => exact appsRun_launched s _ appNode
  | duplicate => exact appsRun_launched s _ appNode
  | started => exact appsRun_launched s _ appNode

/-- The instances are objects that exist, and no object has two names. -/
structure Registered (s : Server) : Prop where
  fresh : ∀ name app, s.instances.lookup name = some app → app < s.objects.length
  unique : ∀ name name' app, s.instances.lookup name = some app →
    s.instances.lookup name' = some app → name = name'

theorem Registered.of_empty (h : s.instances = ∅) : Registered s where
  fresh name app hn := by
    rw [h] at hn
    cases hn
  unique name name' app hn _ := by
    rw [h] at hn
    cases hn

def Sub (is is' : Instances) : Prop :=
  ∀ name app, is.lookup name = some app → is'.lookup name = some app

theorem sub_emplace {is : Instances} : Sub is (is.emplace name app) :=
  fun _ _ hn => Table.lookup_emplace_of_lookup hn

theorem Sub.emplace {known is : Instances} (h : Sub known is) (hin : is.lookup name = some app) :
    Sub (known.emplace name app) is := by
  intro n a hn
  rcases Table.lookup_of_emplace hn with hn | ⟨rfl, rfl⟩
  · exact h n a hn
  · exact hin

/-- An entry that is found after an insertion and was not there before is the one inserted. -/
theorem Sub.lookup_emplace {known is : Instances} (h : Sub known is) (hin : is.lookup name = none)
    (hnew : (known.emplace name' a).lookup name = some app) : name' = name ∧ app = a := by
  rcases Table.lookup_of_emplace hnew with hold | ⟨rfl, rfl⟩
  · cases hin.symm.trans (h name app hold)
  · exact ⟨rfl, rfl⟩

theorem Sub.lookup_none {known is : Instances} (h : Sub known is) (hin : is.lookup name = none) :
    known.lookup name = none := by
  cases hk : known.lookup name with
  | none => rfl
  | some app => cases hin.symm.trans (h name app hk)

theorem Registered.of_sub (h : Registered s) (hsub : Sub s'.instances s.instances)
    (hobj : s.objects.length ≤ s'.objects.length) : Registered s' where
  fresh name app hn := Nat.lt_of_lt_of_le (h.fresh name app (hsub name app hn)) hobj
  unique name name' app hn hn' := h.unique name name' app (hsub _ _ hn) (hsub _ _ hn')

theorem Registered.emplace (h : Registered s)
    (hs' : s'.instances = s.instances.emplace name s.objects.length)
    (hobj : s.objects.length < s'.objects.length) : Registered s' where
  fresh n app hn := by
    rw [hs'] at hn
    rcases Table.lookup_of_emplace hn with hn | ⟨_, rfl⟩
    · exact Nat.lt_trans (h.fresh n app hn) hobj
    · exact hobj
  unique n n' app hn hn' := by
    rw [hs'] at hn hn'
    rcases Table.lookup_of_emplace hn with hold | ⟨hname, hnew⟩
    · rcases Table.lookup_of_emplace hn' with hold' | ⟨_, hnew'⟩
      · exact h.unique n n' app hold hold'
      · exact absurd (h.fresh n app hold) (hnew' ▸ Nat.lt_irrefl _)
    · rcases Table.lookup_of_emplace hn' with hold' | ⟨hname', _⟩
      · exact absurd (h.fresh n' app hold') (hnew ▸ Nat.lt_irrefl _)
      · exact hname.trans hname'.symm

theorem Registered.added (h : Registered s) (appType name : String) (appNode : Y.Node) :
    Registered (added E s appType name appNode) := by
  apply h.emplace rfl
  have hlen : (s.objects ++ [appType]).length = s.objects.length + 1 := List.length_append
  exact hlen ▸ Nat.lt_succ_self _

theorem AppsRun.registered (h : AppsRun s s') (hs : Registered s) : Registered s' := by
  obtain ⟨objs, new, res, rfl, _⟩ := h
  refine hs.of_sub (fun _ _ hn => hn) ?_
  rw [List.length_append]
  exact Nat.le_add_right _ _

theorem AppsRun.calls (h : AppsRun s s') :
    ∃ new, s'.calls = s.calls ++ new ∧ ∀ c ∈ new, c.call ≠ .stop := by
  obtain ⟨_, new, _, rfl, hnew⟩ := h
  exact ⟨new, rfl, hnew⟩

theorem AppsRun.instances (h : AppsRun s s') : s'.instances = s.instances := by
  obtain ⟨_, _, _, rfl, _⟩ := h
  rfl

end Server

end CppAlls
