import CppAlls.Server.Lifecycle

namespace CppAlls
set_option autoImplicit true

open Failing Machines

/-- `severity_level`, which the source compares as numbers. -/
inductive SeverityLevel where
  | trace
  | debug
  | info
  | warning
  | error
  | fatal
deriving DecidableEq, Repr

def SeverityLevel.value : SeverityLevel → Nat
  | .trace => 0
  | .debug => 1
  | .info => 2
  | .warning => 3
  | .error => 4
  | .fatal => 5

abbrev LogRecord := SeverityLevel × String

inductive Sink where
  | given
  | cerr
  | cout
deriving DecidableEq, Repr

/-- `cpp_logger`, with what it has written. -/
structure CppLogger where
  logger : Sink := .cerr
  lvl : SeverityLevel := .trace
  written : List (Sink × String) := []

abbrev CppLoggerM := FailM ServerExn CppLogger

namespace CppLogger

def severityText : SeverityLevel → String
  | .trace => "TRACE: "
  | .debug => "DEBUG: "
  | .info => "INFO:  "
  | .warning => "WARN:  "
  | .error => "ERROR: "
  | .fatal => "FATAL: "

def line (r : LogRecord) : String := severityText r.1 ++ cStr r.2 ++ "\n"

def log (r : LogRecord) : CppLoggerM Unit :=
  modify fun c => if c.lvl.value ≤ r.1.value then
    { c with written := c.written ++ [(c.logger, line r)] } else c

def severity (sev : String) : CppLoggerM SeverityLevel := do
  if sev = "TRACE" ∨ sev = "trace" then return .trace
  else if sev = "DEBUG" ∨ sev = "debug" then return .debug
  else if sev = "INFO" ∨ sev = "info" then return .info
  else if sev = "WARN" ∨ sev = "warn" then return .warning
  else if sev = "ERROR" ∨ sev = "error" then return .error
  -- the words of the second branch again
  else if sev = "DEBUG" ∨ sev = "debug" then return .fatal
  else do
    log (.error, "Unsupported severity level '" ++ sev ++ "'")
    return .trace

variable {Y : YamlCpp}

def chooseSink (sink : String) : CppLoggerM Unit :=
  if sink = "cerr" then modify fun c => { c with logger := .cerr }
  else if sink = "cout" then modify fun c => { c with logger := .cout }
  else log (.error, "Unknown sink type '" ++ sink ++ "', using std::cerr as fallback")

def start (config : Y.Node) : CppLoggerM Unit := do
  let node ← FailM.ofExcept (Y.index config "sink")
  let sink ← FailM.ofExcept (Y.asStringOr node "cerr")
  chooseSink sink
  let node ← FailM.ofExcept (Y.index config "severity")
  let sev ← FailM.ofExcept (Y.asStringOr node "trace")
  let lvl ← severity sev
  modify fun c => { c with lvl := lvl }

def stop : CppLoggerM Unit := return

def reload (config : Y.Node) : CppLoggerM Unit := do
  stop
  start config

end CppLogger

inductive CppLoggerInput (Y : YamlCpp) where
  | start (config : Y.Node)
  | stop
  | reload (config : Y.Node)
  | log (lvl : SeverityLevel) (msg : String)

def CppLoggerInput.next (c : CppLogger) : CppLoggerInput Y → CppLogger
  | .start config => ((CppLogger.start config).on c).2
  | .stop => (CppLogger.stop.on c).2
  | .reload config => ((CppLogger.reload config).on c).2
  | .log lvl msg => ((CppLogger.log (lvl, msg)).on c).2

def cppLoggerMachine (Y : YamlCpp) : Machine CppLogger (CppLoggerInput Y) where
  init := {}
  Enabled _ _ := True
  next c i := i.next c

/-- The message of a call that logs an error or worse. -/
def CppLoggerInput.severe : CppLoggerInput Y → Option LogRecord
  | .log lvl msg => if SeverityLevel.error.value ≤ lvl.value then some (lvl, msg) else none
  | _ => none

namespace CppLogger

variable {Y : YamlCpp} {c c' : CppLogger}

/-- Errors are not filtered: no severity text stands for the highest level. -/
def KeepsErrors (c : CppLogger) : Prop := c.lvl.value ≤ SeverityLevel.error.value

/-- What a start does: lines are added, and errors stay unfiltered. -/
def Extends (c c' : CppLogger) : Prop :=
  (c.KeepsErrors → c'.KeepsErrors) ∧ c.written <+: c'.written

theorem Extends.refl (c : CppLogger) : Extends c c := ⟨id, List.prefix_rfl⟩

theorem Extends.trans (h : Extends c c') (h' : Extends c' c'') : Extends c c'' :=
  ⟨fun hc => h'.1 (h.1 hc), h.2.trans h'.2⟩

theorem log_extends (r : LogRecord) (c : CppLogger) :
    (log r).Wp (fun _ c' => Extends c c') c := by
  by_cases h : c.lvl.value ≤ r.1.value
  · rw [FailM.Wp, log, FailM.on_modify, if_pos h]
    exact ⟨id, List.prefix_append _ _⟩
  · rw [FailM.Wp, log, FailM.on_modify, if_neg h]
    exact .refl c

theorem chooseSink_extends (sink : String) (c : CppLogger) :
    (chooseSink sink).Wp (fun _ c' => Extends c c') c := by
  rw [chooseSink]
  split
  next => exact ⟨id, List.prefix_rfl⟩
  next =>
    split
    next => exact ⟨id, List.prefix_rfl⟩
    next => exact log_extends _ c

theorem severity_extends (sev : String) (c : CppLogger) :
    (severity sev).Wp (fun r c' => Extends c c' ∧
      ∀ lvl, r = .ok lvl → lvl.value ≤ SeverityLevel.error.value) c := by
  have hret {lvl : SeverityLevel} (h : lvl.value ≤ SeverityLevel.error.value) :
      (pure lvl : CppLoggerM SeverityLevel).Wp (fun r c' => Extends c c' ∧
        ∀ lvl, r = .ok lvl → lvl.value ≤ SeverityLevel.error.value) c := by
    apply FailM.Wp.pure
    refine ⟨.refl c, ?_⟩
    intro lvl' hr
    cases hr
    exact h
  rw [severity]
  split
  next => exact hret (by decide)
  next =>
    split
    next => exact hret (by decide)
    next =>
      split
      next => exact hret (by decide)
      next =>
        split
        next => exact hret (by decide)
        next =>
          split
          next => exact hret (by decide)
          next =>
            apply FailM.Wp.andThen (log_extends _ c)
            · intro _ c₁ h
              apply FailM.Wp.pure
              refine ⟨h, ?_⟩
              intro lvl hr
              cases hr
              decide
            · intro e c₁ h
              exact ⟨h, fun _ hr => by cases hr⟩

theorem start_extends (config : Y.Node) (c : CppLogger) :
    (start config).Wp (fun _ c' => Extends c c') c := by
  apply FailM.Wp.ofExcept_bind
  · intro node _
    apply FailM.Wp.ofExcept_bind
    · intro sink _
      apply FailM.Wp.andThen (chooseSink_extends sink c)
      · intro _ c₁ h₁
        apply FailM.Wp.ofExcept_bind
        · intro node' _
          apply FailM.Wp.ofExcept_bind
          · intro sev _
            apply FailM.Wp.andThen (severity_extends sev c₁)
            · intro lvl c₂ h₂
              have hlvl := h₂.2 lvl rfl
              exact ⟨fun _ => hlvl, (h₁.trans h₂.1).2⟩
            · intro e c₂ h₂
              exact h₁.trans h₂.1
          · exact fun _ _ => h₁
        · exact fun _ _ => h₁
      · exact fun _ _ h => h
    · exact fun _ _ => .refl c
  · exact fun _ _ => .refl c

theorem next_extends (i : CppLoggerInput Y) (c : CppLogger) : Extends c (i.next c) := by
  cases i with
  | start config => exact start_extends config c
  | stop => exact .refl c
  | reload config => exact start_extends config c
  | log lvl msg => exact log_extends (lvl, msg) c

theorem next_severe {i : CppLoggerInput Y} (h : i.severe = some r) (hc : c.KeepsErrors) :
    (i.next c).written = c.written ++ [(c.logger, line r)] := by
  cases i with
  | start config => cases h
  | stop => cases h
  | reload config => cases h
  | log lvl msg =>
    rw [CppLoggerInput.severe] at h
    by_cases hlvl : SeverityLevel.error.value ≤ lvl.value
    · rw [if_pos hlvl] at h
      cases h
      have hin : c.lvl.value ≤ lvl.value := Nat.le_trans hc hlvl
      rw [CppLoggerInput.next, log, FailM.on_modify, if_pos hin]
    · rw [if_neg hlvl] at h
      cases h

/-- In every run, whatever was configured and whether it was accepted, each message of level ERROR
or FATAL is written, and in the order of the calls. -/
theorem errors_written (is : List (CppLoggerInput Y)) :
    ((is.filterMap CppLoggerInput.severe).map line).Sublist
      ((is.foldl (cppLoggerMachine Y).next (cppLoggerMachine Y).init).written.map Prod.snd) := by
  have hrun (is : List (CppLoggerInput Y)) : ∀ c : CppLogger, c.KeepsErrors →
      ∀ lines, lines.Sublist (c.written.map Prod.snd) →
        (lines ++ (is.filterMap CppLoggerInput.severe).map line).Sublist
          ((is.foldl (cppLoggerMachine Y).next c).written.map Prod.snd) := by
    induction is with
    | nil =>
      intro c _ lines h
      rw [List.filterMap_nil, List.map_nil, List.append_nil]
      exact h
    | cons i is ih =>
      intro c hc lines h
      have hext := next_extends i c
      rw [List.foldl_cons]
      cases hsev : i.severe with
      | none =>
        rw [List.filterMap_cons_none hsev]
        apply ih _ (hext.1 hc)
        exact h.trans (hext.2.sublist.map _)
      | some r =>
        rw [List.filterMap_cons_some hsev, List.map_cons, List.append_cons]
        apply ih _ (hext.1 hc)
        rw [next_severe hsev hc, List.map_append]
        exact h.append (List.Sublist.refl _)
  exact hrun is {} (Nat.zero_le _) [] (List.nil_sublist _)

end CppLogger

end CppAlls
