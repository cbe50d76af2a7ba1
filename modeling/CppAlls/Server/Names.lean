import CppAlls.Server.Running
import Mathlib.Data.List.TakeWhile
import Mathlib.Logic.Function.Basic

namespace CppAlls
set_option autoImplicit true

open Failing Tables Machines

/-- The instances by their full names. -/
abbrev Names := String → Option Nat

def Server.names (s : Server) : Names := fun name => s.instances.lookup name

/-- The calls of `app` with a `std::string`. -/
inductive AppCall (Y : YamlCpp) where
  | construct (E : Surroundings Y) (config : String)
  | free (instanceName : String)
  | get (instanceName : String)

namespace AppCall

variable {Y : YamlCpp} {s : Server} {names : Names}

def next (s : Server) : AppCall Y → Server
  | .construct E config => ((Server.instanceConstruct E config).on s).2
  | .free name => ((Server.instanceFree name).on s).2
  | .get name => ((Server.getInstance name).on s).2

/-- The name that a configuration gives to its instance. -/
def constructName (E : Surroundings Y) (config : String) : Except ServerExn String := do
  let appNode ← E.load (cStr config)
  let appType ← Server.typeOf appNode
  Server.instanceNameOr appNode appType

/-- What was constructed under each name and not freed since. -/
def namesAfter (s : Server) (c : AppCall Y) (names : Names) : Names :=
  match c with
  | .construct E config =>
    match ((Server.instanceConstruct E config).on s).1 with
    | .error _ => names
    | .ok app =>
      match constructName E config with
      | .error _ => names
      | .ok name => Function.update names name (some app)
  | .free name => Function.update names name none
  | .get _ => names

/-- The call does what it should with the instances under their full names. -/
def Respects (x : Server × Names) : AppCall Y → Prop
  | .construct E config => ∀ name, constructName E config = .ok name → x.2 name ≠ none →
      ∃ e s', (Server.instanceConstruct E config).on x.1 = (.error e, s') ∧ s'.names = x.1.names
  | .free name => ((Server.instanceFree name).on x.1).2.names = Function.update x.1.names name none
  | .get name =>
    match x.2 name with
    | some app => (Server.getInstance name).on x.1 = (.ok app, x.1)
    | none => ∃ message, (Server.getInstance name).on x.1 = (.error (.errorRuntime message), x.1)

/-- The name is read to its end, or nothing has the name or its part up to the first NUL. -/
def Whole (s : Server) (name : String) : Prop :=
  '\x00' ∉ name.toList ∨ s.names name = none ∧ s.names (cStr name) = none

def NamesWhole (x : Server × Names) : AppCall Y → Prop
  | .construct _ _ => True
  | .free name => Whole x.1 name
  | .get name => Whole x.1 name

end AppCall

/-- Runs of the calls from a state of the server, with the instances that were constructed and not
freed beside it. -/
def appMachine (Y : YamlCpp) (s : Server) : Machine (Server × Names) (AppCall Y) :=
  Machine.withHistory { init := s, Enabled := fun _ _ => True, next := AppCall.next } s.names
    AppCall.namesAfter

theorem cStr_eq_self_iff : cStr name = name ↔ '\x00' ∉ name.toList := by
  have hlist : (cStr name).toList = name.toList.takeWhile (· ≠ '\x00') := String.toList_ofList
  constructor
  · intro h hin
    rw [h] at hlist
    have htrue := List.takeWhile_eq_self_iff.mp hlist.symm _ hin
    exact absurd rfl (of_decide_eq_true htrue)
  · intro h
    have hself : name.toList.takeWhile (· ≠ '\x00') = name.toList := by
      apply List.takeWhile_eq_self_iff.mpr
      intro c hc
      exact decide_eq_true fun he => h (he ▸ hc)
    rw [cStr, hself, String.ofList_toList]

namespace AppCall

variable {Y : YamlCpp} {s : Server} {names : Names}

/-- The full name and its part are found alike. -/
theorem whole_iff (hs : Server.Registered s) :
    s.names (cStr name) = s.names name ↔ Whole s name := by
  constructor
  · intro h
    by_cases hnul : '\x00' ∈ name.toList
    · cases hname : s.names name with
      | none => exact .inr ⟨hname, h.trans hname⟩
      | some app =>
        have hcut := hs.unique _ _ app (h.trans hname) hname
        exact absurd hnul (cStr_eq_self_iff.mp hcut)
    · exact .inl hnul
  · intro h
    rcases h with hnul | ⟨hname, hcut⟩
    · rw [cStr_eq_self_iff.mpr hnul]
    · rw [hname, hcut]

theorem Respects.found {x : Server × Names} (h : Respects (Y := Y) x (.get name))
    (hname : x.2 name = some app) : (Server.getInstance name).on x.1 = (.ok app, x.1) := by
  rw [Respects, hname] at h
  exact h

theorem get_respects_iff (s : Server) (name : String) :
    Respects (Y := Y) (s, s.names) (.get name) ↔ s.names (cStr name) = s.names name := by
  have hfind : s.find name = s.names (cStr name) := rfl
  simp only [Respects, Server.getInstance_on, hfind]
  cases s.names name with
  | some app =>
    cases s.names (cStr name) with
    | some app' => simp
    | none => simp
  | none =>
    cases s.names (cStr name) with
    | some app => simp
    | none => simp

theorem free_names (s : Server) (name : String) :
    ((Server.instanceFree name).on s).2.names = Function.update s.names (cStr name) none := by
  funext name'
  by_cases hname : name' = cStr name
  · rw [hname, Function.update_self]
    exact AList.lookup_erase _ _
  · rw [Function.update_of_ne hname]
    exact AList.lookup_erase_ne hname

theorem free_respects_iff (s : Server) (names : Names) (name : String) :
    Respects (Y := Y) (s, names) (.free name) ↔ Whole s name := by
  rw [Respects, free_names]
  constructor
  · intro h
    by_cases hnul : '\x00' ∈ name.toList
    · have hne : cStr name ≠ name := fun he => cStr_eq_self_iff.mp he hnul
      have hfull := congrFun h name
      rw [Function.update_of_ne hne.symm, Function.update_self] at hfull
      have hcut := congrFun h (cStr name)
      rw [Function.update_self, Function.update_of_ne hne] at hcut
      exact .inr ⟨hfull, hcut.symm⟩
    · exact .inl hnul
  · intro h
    rcases h with hnul | ⟨hname, hcut⟩
    · rw [cStr_eq_self_iff.mpr hnul]
    · rw [Function.update_eq_self_iff.mpr hcut.symm, Function.update_eq_self_iff.mpr hname.symm]

/-- An instance is registered under its name, which was free, or nothing is. -/
theorem construct_names (E : Surroundings Y) (config : String) (s : Server) :
    (Server.instanceConstruct E config).Wp (fun r s' =>
      (∃ name app, constructName E config = .ok name ∧ r = .ok app ∧ s.names name = none ∧
        s'.names = Function.update s.names name (some app)) ∨
      ∃ e, r = .error e ∧ s'.names = s.names) s := by
  apply Server.instanceConstruct_wp
  · intro appNode appType name hload hstarts
    refine .inl ⟨name, s.objects.length, ?_, rfl, ?_, ?_⟩
    · rw [constructName, hload]
      change (Server.typeOf appNode >>= _) = _
      rw [hstarts.typed]
      exact hstarts.named
    · exact hstarts.lookup_none
    · funext name'
      by_cases hname : name' = name
      · rw [hname, Function.update_self]
        exact Table.lookup_emplace_self hstarts.lookup_none
      · rw [Function.update_of_ne hname]
        exact Table.lookup_emplace_ne hname
  · intro appNode e s' _ hlaunch
    refine .inr ⟨e, rfl, ?_⟩
    funext name
    exact congrArg (AList.lookup name) hlaunch.appsRun.instances
  · exact fun e _ => .inr ⟨e, rfl, rfl⟩

theorem construct_respects (E : Surroundings Y) (config : String) (s : Server) :
    Respects (s, s.names) (.construct E config) := by
  intro name hname hused
  obtain ⟨r, s', hon, hout⟩ := (construct_names E config s).exists_on
  rcases hout with ⟨name', app, hname', _, hfree, _⟩ | ⟨e, rfl, hsame⟩
  · cases hname.symm.trans hname'
    exact absurd hfree hused
  · exact ⟨e, s', hon, hsame⟩

/-- What the runs keep that meet the condition: the entries are what was constructed and not freed. -/
structure Agrees (x : Server × Names) : Prop where
  registered : Server.Registered x.1
  names_eq : x.2 = x.1.names

theorem respects_iff (x : Server × Names) (c : AppCall Y) (h : Agrees x) :
    Respects x c ↔ NamesWhole x c := by
  obtain ⟨s, names⟩ := x
  have hs : Server.Registered s := h.registered
  obtain rfl : names = s.names := h.names_eq
  cases c with
  | construct E config => exact iff_of_true (construct_respects E config s) trivial
  | free name => exact free_respects_iff s _ name
  | get name => exact (get_respects_iff s name).trans (whole_iff hs)

theorem agrees_next (x : Server × Names) (c : AppCall Y) (h : Agrees x) (hc : NamesWhole x c) :
    Agrees (c.next x.1, c.namesAfter x.1 x.2) := by
  obtain ⟨s, names⟩ := x
  have hs : Server.Registered s := h.registered
  obtain rfl : names = s.names := h.names_eq
  cases c with
  | construct E config =>
    refine ⟨Server.instanceConstruct_registered config hs, ?_⟩
    obtain ⟨r, s', hon, hout⟩ := (construct_names E config s).exists_on
    simp only [namesAfter, next, hon]
    rcases hout with ⟨name, app, hname, rfl, _, hnames⟩ | ⟨e, rfl, hsame⟩
    · rw [hname]
      exact hnames.symm
    · exact hsame.symm
  | free name =>
    refine ⟨Server.registered_next (Y := Y) (.free name) hs, ?_⟩
    exact ((free_respects_iff (Y := Y) s s.names name).mpr hc).symm
  | get name =>
    simp only [namesAfter, next, Server.getInstance_on]
    exact ⟨hs, rfl⟩

end AppCall

/-- In a run from any state that the server can reach, the calls respect the full names exactly when
each name that is looked up or freed is read to its end, or stands for nothing. -/
theorem names_respected_iff (hs : (serverMachine Y).Reachable (fun _ _ => True) s)
    (calls : List (AppCall Y)) :
    (appMachine Y s).Follows AppCall.Respects (s, s.names) calls ↔
      (appMachine Y s).Follows AppCall.NamesWhole (s, s.names) calls := by
  apply Machine.follows_congr AppCall.respects_iff
  · exact fun x c h _ hc => AppCall.agrees_next x c h hc
  · exact ⟨Server.reachable_registered hs, rfl⟩

theorem logger_names_respected :
    (appMachine plainYaml Server.loggerStarted).Follows AppCall.Respects
        (Server.loggerStarted, Server.loggerStarted.names) [.get "cpp_logger", .free "cpp_logger"] ↔
      (appMachine plainYaml Server.loggerStarted).Follows AppCall.NamesWhole
        (Server.loggerStarted, Server.loggerStarted.names) [.get "cpp_logger", .free "cpp_logger"] :=
  names_respected_iff Server.loggerStarted_reachable [.get "cpp_logger", .free "cpp_logger"]

/-- A logger under a name with a NUL, as the escapes of a quoted scalar allow it. -/
def nulNode : PlainNode := .map [("type", .scalar "cpp_logger"), ("instance-name", .scalar "a\x00b")]

/-- It is constructed and cannot be found. -/
theorem nul_name_not_found :
    ¬ ∀ (Y : YamlCpp) (s : Server) (calls : List (AppCall Y)),
      (serverMachine Y).Reachable (fun _ _ => True) s →
        (appMachine Y s).Follows AppCall.Respects (s, s.names) calls := by
  intro h
  obtain ⟨_, ⟨_, hget⟩, _⟩ := h plainYaml Server.loggerStarted
    [.construct (plainSurroundings nulNode) "", .get "a\x00b"] Server.loggerStarted_reachable
  have hname : AppCall.namesAfter Server.loggerStarted (.construct (plainSurroundings nulNode) "")
      Server.loggerStarted.names "a\x00b" = some 1 := by decide +kernel
  have hthrown : ((Server.getInstance "a\x00b").on (AppCall.next Server.loggerStarted
      (.construct (plainSurroundings nulNode) ""))).1 ≠ .ok 1 := by decide +kernel
  exact hthrown (congrArg Prod.fst (hget.found hname))

end CppAlls
