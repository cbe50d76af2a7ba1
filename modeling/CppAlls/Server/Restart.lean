import CppAlls.Server.Startup

namespace CppAlls
set_option autoImplicit true

open Failing Tables Interaction Machines

namespace Server

variable {Y : YamlCpp} {E : Surroundings Y} {s s' : Server}

/-- A `stop` that returned: each registered application received one `stop`, and the maps are as
they were at first. -/
structure Stopped (s s' : Server) : Prop where
  instances : s'.instances = ∅
  appToPath : s'.appToPath = ∅
  objects : s'.objects = s.objects
  registered : ∀ name app, s.instances.lookup name = some app → s'.stops app = s.stops app + 1
  others : ∀ app, (∀ name, s.instances.lookup name ≠ some app) → s'.stops app = s.stops app

theorem stops_of_calls {apps : List Nat} (hnodup : apps.Nodup)
    (h : s'.calls = s.calls ++ apps.map (⟨·, .stop, true⟩)) (app : Nat) :
    s'.stops app = s.stops app + if app ∈ apps then 1 else 0 := by
  have hone : (apps.map fun app => (⟨app, .stop, true⟩ : LifecycleRecord)).countP
      (fun c => c.application = app ∧ c.call = .stop) = apps.count app := by
    rw [List.countP_map]
    apply List.countP_congr
    intro a _
    simp
  rw [stops, stops, h, List.countP_append, hone, hnodup.count]

theorem stop_outcome (hs : Registered s) :
    (stop E).Wp (fun r s' => r = .ok () → Stopped s s') s := by
  have hnodup := (E.order_perm _).nodup_iff.mpr (Table.nodup_values hs.unique)
  apply FailM.Wp.get_bind
  apply FailM.Wp.andThen (stopApps_outcome _ s)
  · rintro _ _ ⟨new, res, rfl, hnew⟩
    cases hnew rfl
    intro _
    refine ⟨rfl, rfl, rfl, ?_, ?_⟩
    · intro name app hn
      rw [stops_of_calls hnodup rfl, if_pos (E.mem_order.mpr ⟨name, hn⟩)]
    · intro app hno
      rw [stops_of_calls hnodup rfl, if_neg]
      · rfl
      · intro hin
        obtain ⟨name, hn⟩ := E.mem_order.mp hin
        exact hno name hn
  · exact fun _ _ _ hr => by cases hr

/-- After any run, a `stop` that returns leaves a server that starts as a new one does, with
applications that resolve the names of their nodes and loggers that do not throw: a `start` returns
exactly when it returns on a new server, and registers the same names in the same order, for
applications that are all constructed after the stop. Each application that was registered has
received one `stop`, and no other one has. -/
theorem restart_as_new (E E' : Surroundings Y) (L : Loggers Y) (names : Y.Node → List String)
    (last : Y.Node → Option ServerExn) (hE : StartsResolving E names last) (hL : L.Accepts)
    (path : String) {x x' : Server × Journal}
    (hx : (loggedMachine Y).Reachable (fun _ _ => True) x)
    (hstop : (Recording.beside (stop E') : Logged.LoggedM Unit).on x = (.ok (), x')) :
    Stopped x.1 x'.1 ∧
      (((Logged.start E L path).on x').1 = .ok () ↔
        ((Logged.start E L path).on ({}, {})).1 = .ok ()) ∧
      ∀ y y', (Logged.start E L path).on x' = (.ok (), y) →
        (Logged.start E L path).on ({}, {}) = (.ok (), y') →
        ∀ name app, y.1.instances.lookup name = some app ↔
          ∃ i, y'.1.instances.lookup name = some i ∧ app = x.1.objects.length + i := by
  have hstopped : Stopped x.1 x'.1 := by
    have h := (Recording.Erases.beside (stop E')).wp
      (stop_outcome (E := E') (reachable_registered (reachable_server hx)))
    rw [FailM.Wp, hstop] at h
    exact h rfl
  obtain ⟨hiff, hreg⟩ := start_logged (L := L) hE path hstopped.instances fun _ => hL
  obtain ⟨hiff', hreg'⟩ := start_logged (L := L) (x := ({}, {})) hE path rfl fun _ => hL
  refine ⟨hstopped, ?_, ?_⟩
  · rw [hiff, hiff', hstopped.appToPath]
  · intro y y' hy hy' name app
    rw [hy] at hreg
    rw [hy'] at hreg'
    obtain ⟨appNodes, happs, hlookup⟩ := hreg rfl
    obtain ⟨appNodes', happs', hlookup'⟩ := hreg' rfl
    cases happs.symm.trans happs'
    rw [hlookup, hstopped.objects]
    constructor
    · rintro ⟨i, n, hi, hn, rfl⟩
      exact ⟨i, (hlookup' name i).mpr ⟨i, n, hi, hn, (Nat.zero_add i).symm⟩, rfl⟩
    · rintro ⟨i, hi, rfl⟩
      obtain ⟨j, n, hj, hn, rfl⟩ := (hlookup' name i).mp hi
      exact ⟨j, n, hj, hn, congrArg _ (Nat.zero_add j)⟩

def chosenStopped : Server × Journal :=
  ((Recording.beside (stop (plainSurroundings chosenLogger)) : Logged.LoggedM Unit).on
    chosenStarted).2

def restarted : Logged.LoggedM Unit :=
  Logged.start (loggingSurroundings (loggerConfig [loggerNode, echoNode])) (plainLoggers none)
    "config.yaml"

theorem logger_restarted :
    Stopped chosenStarted.1 chosenStopped.1 ∧
      ((restarted.on chosenStopped).1 = .ok () ↔ (restarted.on ({}, {})).1 = .ok ()) ∧
      ∀ y y', restarted.on chosenStopped = (.ok (), y) → restarted.on ({}, {}) = (.ok (), y') →
        ∀ name app, y.1.instances.lookup name = some app ↔
          ∃ i, y'.1.instances.lookup name = some i ∧
            app = chosenStarted.1.objects.length + i :=
  restart_as_new (loggingSurroundings (loggerConfig [loggerNode, echoNode]))
    (plainSurroundings chosenLogger) (plainLoggers none) plainNames (fun _ => none)
    ⟨fun _ _ _ => rfl⟩ (fun _ _ _ => rfl) "config.yaml"
    (.step (i := startChosen none) .init trivial trivial) (Prod.ext (by decide +kernel) rfl)

end Server

end CppAlls
