import CppAlls.Lib.Ini
import CppAlls.Server.PlainYaml

namespace CppAlls
set_option autoImplicit true

open Failing Ini

/-- The nodes of yaml-cpp with their iterators: `it->first` and `it->second` of each entry. -/
structure YamlEntries extends YamlCpp where
  entries : Node → List (Node × Node)

namespace BoostLoggerCore

variable {Y : YamlEntries}

/-- `start_helper`, on the text of the stream. -/
def startHelper (config : Y.Node) : FailM ServerExn String Unit :=
  (Y.entries config).forM fun it => do
    let key ← FailM.ofExcept (Y.asString it.1)
    let value ← FailM.ofExcept (Y.asString it.2)
    modify (· ++ (key ++ " = \"" ++ value ++ "\"\n"))

def startCore (config : Y.Node) : FailM ServerExn String Unit := do
  let core ← FailM.ofExcept (Y.index config "Core")
  if Y.isDefined core then do
    modify (· ++ "[Core]\n")
    startHelper core

def startSinks (config : Y.Node) : FailM ServerExn String Unit := do
  let sinks ← FailM.ofExcept (Y.index config "Sinks")
  if Y.isDefined sinks then
    (Y.entries sinks).forM fun it => do
      let name ← FailM.ofExcept (Y.asString it.1)
      modify (· ++ ("\n[Sinks." ++ name ++ "]\n"))
      startHelper it.2

def start (initFromStream : String → Except ServerExn Unit) (config : Y.Node) :
    FailM ServerExn String Unit := do
  startCore config
  startSinks config
  let oss ← get
  FailM.ofExcept (initFromStream oss)

/-- The parameters that a node states. -/
def parameters (config : Y.Node) : Except ServerExn (List (String × String)) :=
  (Y.entries config).mapM fun it => do
    let key ← Y.asString it.1
    let value ← Y.asString it.2
    return (key, value)

def coreSettings (config : Y.Node) : Except ServerExn (List Settings) := do
  let core ← Y.index config "Core"
  if Y.isDefined core then do
    let ps ← parameters core
    return [("Core", ps)]
  else return []

def sinkSettings (config : Y.Node) : Except ServerExn (List Settings) := do
  let sinks ← Y.index config "Sinks"
  if Y.isDefined sinks then
    (Y.entries sinks).mapM fun it => do
      let name ← Y.asString it.1
      let ps ← parameters it.2
      return ("Sinks." ++ name, ps)
  else return []

/-- The settings that the configuration of a `boost_logger_core` states. -/
def settings (config : Y.Node) : Except ServerExn (List Settings) := do
  let core ← coreSettings config
  let sinks ← sinkSettings config
  return core ++ sinks

/-- The action appends the lines, or throws where they cannot be told. -/
def Writes (m : FailM ServerExn String Unit) (lines : Except ServerExn (List Line)) : Prop :=
  ∀ s, m.Wp (fun r s' => r = (fun _ => ()) <$> lines ∧
    ∀ ls, lines = .ok ls → s'.toList = s.toList ++ text ls) s

namespace Writes

theorem pure : Writes (Pure.pure ()) (.ok []) := by
  intro s
  refine FailM.Wp.pure ⟨rfl, ?_⟩
  intro ls h
  cases h
  exact (List.append_nil _).symm

theorem write {w : String} (h : w.toList = text ls) : Writes (modify (· ++ w)) (.ok ls) := by
  intro s
  refine ⟨rfl, ?_⟩
  intro ls' hls
  cases hls
  exact String.toList_append.trans (congrArg _ h)

theorem ofExcept_bind {r : Except ServerExn α} {f : α → FailM ServerExn String Unit}
    {g : α → Except ServerExn (List Line)} (h : ∀ a, Writes (f a) (g a)) :
    Writes (FailM.ofExcept r >>= f) (r >>= g) := by
  intro s
  apply FailM.Wp.ofExcept_bind
  · intro a ha
    rw [ha]
    exact h a s
  · intro e he
    rw [he]
    exact ⟨rfl, fun _ hls => by cases hls⟩

theorem bind {m m' : FailM ServerExn String Unit} {lines lines' : Except ServerExn (List Line)}
    (h : Writes m lines) (h' : Writes m' lines') :
    Writes (m >>= fun _ => m') (lines >>= fun ls => (ls ++ ·) <$> lines') := by
  intro s
  apply FailM.Wp.andThen (h s)
  · intro _ s₁ h₁
    obtain ⟨hr, htext⟩ := h₁
    cases lines with
    | error e => cases hr
    | ok ls =>
      apply (h' s₁).mono
      intro r s₂ h₂
      obtain ⟨hr₂, htext₂⟩ := h₂
      cases lines' with
      | error e => exact ⟨hr₂, fun _ hls => by cases hls⟩
      | ok ls' =>
        refine ⟨hr₂, ?_⟩
        intro ls₂ hls₂
        cases hls₂
        rw [htext₂ ls' rfl, htext ls rfl, List.append_assoc, text_append]
  · intro e s₁ h₁
    cases lines with
    | error e' => exact ⟨h₁.1, fun _ hls => by cases hls⟩
    | ok ls => cases h₁.1

theorem forM {f : α → FailM ServerExn String Unit} {g : α → Except ServerExn β}
    {lines : β → List Line} (h : ∀ x, Writes (f x) (lines <$> g x)) (xs : List α) :
    Writes (xs.forM f) ((·.flatMap lines) <$> xs.mapM g) := by
  induction xs with
  | nil => exact pure
  | cons x xs ih =>
    have hcons := (h x).bind ih
    rw [List.forM_eq_forM, List.forM_cons, List.mapM_cons]
    simp only [map_bind, map_pure, List.flatMap_cons]
    simp only [bind_map_left, Functor.map_map] at hcons
    exact hcons

end Writes

theorem toList_parameter (key value : String) :
    (key ++ " = \"" ++ value ++ "\"\n").toList = text [.parameter key value] := by
  simp [text, Line.chars]

theorem startHelper_writes (config : Y.Node) : Writes (startHelper config)
    ((·.map fun x => .parameter x.1 x.2) <$> parameters config) := by
  simp only [List.map_eq_flatMap]
  apply Writes.forM
  intro it
  simp only [map_bind, map_pure]
  apply Writes.ofExcept_bind
  intro key
  apply Writes.ofExcept_bind
  intro value
  exact .write (toList_parameter key value)

theorem section_writes {w : String} (h : w.toList = text (ls ++ [.header name]))
    (config : Y.Node) : Writes (modify (· ++ w) >>= fun _ => startHelper config)
      ((fun ps => ls ++ Settings.lines (name, ps)) <$> parameters config) := by
  have hsection := (Writes.write h).bind (startHelper_writes config)
  change Writes _ ((ls ++ [.header name] ++ ·) <$> _ <$> parameters config) at hsection
  simp only [Functor.map_map, List.append_assoc] at hsection
  exact hsection

theorem startCore_writes (config : Y.Node) : Writes (startCore config)
    ((·.flatMap Settings.lines) <$> coreSettings config) := by
  rw [coreSettings, map_bind]
  apply Writes.ofExcept_bind
  intro core
  by_cases hdef : Y.isDefined core = true
  · rw [if_pos hdef, if_pos hdef]
    simp only [bind_pure_comp, Functor.map_map, List.flatMap_singleton]
    have hcore : "[Core]\n".toList = text ([] ++ [.header "Core"]) := by decide
    exact section_writes hcore core
  · rw [if_neg hdef, if_neg hdef]
    exact .pure

def sinkLines (s : Settings) : List Line := .blank :: s.lines

theorem toList_sink (name : String) : ("\n[Sinks." ++ name ++ "]\n").toList =
    text ([.blank] ++ [.header ("Sinks." ++ name)]) := by
  simp [text, Line.chars]

theorem startSinks_writes (config : Y.Node) : Writes (startSinks config)
    ((·.flatMap sinkLines) <$> sinkSettings config) := by
  rw [sinkSettings, map_bind]
  apply Writes.ofExcept_bind
  intro sinks
  by_cases hdef : Y.isDefined sinks = true
  · rw [if_pos hdef, if_pos hdef]
    apply Writes.forM
    intro it
    simp only [map_bind, bind_pure_comp, Functor.map_map]
    apply Writes.ofExcept_bind
    intro name
    exact section_writes (toList_sink name) it.2
  · rw [if_neg hdef, if_neg hdef]
    exact .pure

/-- The lines of a whole configuration, of which the first belong to the core. -/
theorem sections_lines (core sinks : List Settings) :
    sections (core.flatMap Settings.lines ++ sinks.flatMap sinkLines) = ([], core ++ sinks) := by
  have hsinks : sections (sinks.flatMap sinkLines) = ([], sinks) := by
    induction sinks with
    | nil => rfl
    | cons s sinks ih => exact Settings.sections_lines s ih
  induction core with
  | nil => exact hsinks
  | cons s core ih =>
    rw [List.flatMap_cons, List.append_assoc]
    exact Settings.sections_lines s ih

theorem clean_lines {core sinks : List Settings} (h : ∀ s ∈ core ++ sinks, s.Clean) :
    ∀ l ∈ core.flatMap Settings.lines ++ sinks.flatMap sinkLines, l.Clean := by
  intro l hl
  rcases List.mem_append.mp hl with hl | hl
  · obtain ⟨s, hs, hl⟩ := List.mem_flatMap.mp hl
    exact h s (List.mem_append_left _ hs) l hl
  · obtain ⟨s, hs, hl⟩ := List.mem_flatMap.mp hl
    rcases List.mem_cons.mp hl with rfl | hl
    · trivial
    · exact h s (List.mem_append_right _ hs) l hl

/-- The lines that `start` writes, with the settings that they are about. -/
def lines (config : Y.Node) : Except ServerExn (List Line) := do
  let core ← coreSettings config
  let sinks ← sinkSettings config
  return core.flatMap Settings.lines ++ sinks.flatMap sinkLines

theorem lines_writes (config : Y.Node) :
    Writes (startCore config >>= fun _ => startSinks config) (lines config) := by
  have hwrites := (startCore_writes config).bind (startSinks_writes config)
  simp only [bind_map_left, Functor.map_map] at hwrites
  exact hwrites

theorem settings_error {config : Y.Node} (h : settings config = .error e) :
    lines config = .error e := by
  rw [settings] at h
  rw [lines]
  cases hcore : coreSettings config with
  | error e' =>
    rw [hcore] at h
    cases h
    rfl
  | ok core =>
    rw [hcore] at h
    cases hsinks : sinkSettings config with
    | error e' =>
      rw [hsinks] at h
      cases h
      rfl
    | ok sinks =>
      rw [hsinks] at h
      cases h

theorem settings_ok {config : Y.Node} (h : settings config = .ok ss) (hclean : ∀ s ∈ ss, s.Clean) :
    ∃ ls, lines config = .ok ls ∧ Ini.read (text ls) = some ss := by
  rw [settings] at h
  rw [lines]
  cases hcore : coreSettings config with
  | error e' =>
    rw [hcore] at h
    cases h
  | ok core =>
    rw [hcore] at h
    cases hsinks : sinkSettings config with
    | error e' =>
      rw [hsinks] at h
      cases h
    | ok sinks =>
      rw [hsinks] at h
      cases h
      exact ⟨_, rfl, read_text (clean_lines hclean) (sections_lines core sinks)⟩

theorem start_eq (initFromStream : String → Except ServerExn Unit) (config : Y.Node) :
    start initFromStream config = (startCore config >>= fun _ => startSinks config) >>=
      fun _ => get >>= fun oss => FailM.ofExcept (initFromStream oss) :=
  (bind_assoc _ _ _).symm

/-- Boost.Log is initialized from a text that reads as the settings of the configuration. Otherwise
`start` throws what the first node throws that is no name and no value. -/
theorem settings_read (initFromStream : String → Except ServerExn Unit) (config : Y.Node) :
    (∀ e, settings config = .error e → ((start initFromStream config).on "").1 = .error e) ∧
      ∀ ss, settings config = .ok ss → (∀ s ∈ ss, s.Clean) →
        ∃ oss, ((start initFromStream config).on "").1 = initFromStream oss ∧
          Ini.read oss.toList = some ss := by
  obtain ⟨r, oss, hon, hr, htext⟩ := (lines_writes config "").exists_on
  rw [start_eq]
  constructor
  · intro e he
    rw [settings_error he] at hr
    subst hr
    rw [FailM.on_bind_error hon]
  · intro ss hss hclean
    obtain ⟨ls, hlines, hread⟩ := settings_ok hss hclean
    rw [hlines] at hr
    subst hr
    refine ⟨oss, ?_, ?_⟩
    · rw [FailM.on_bind_ok hon, FailM.on_bind_ok (FailM.on_get oss), FailM.on_ofExcept]
    · rw [htext ls hlines]
      exact hread

/-- The entries of a plain map. A sequence has elements and no names. -/
def plainEntries : YamlEntries where
  toYamlCpp := plainYaml
  entries
    | .map entries => entries.map fun x => (.scalar x.1, x.2)
    | .sequence nodes => nodes.map fun _ => (.undefined, .undefined)
    | _ => []

def consoleConfig : PlainNode :=
  .map [("type", .scalar "boost_logger_core"),
    ("Core", .map [("DisableLogging", .scalar "false")]),
    ("Sinks", .map [("Main", .map [("Destination", .scalar "Console"),
      ("Filter", .scalar "%tag% = ignoreiologger")])])]

def consoleSettings : List Settings :=
  [("Core", [("DisableLogging", "false")]),
    ("Sinks.Main", [("Destination", "Console"), ("Filter", "%tag% = ignoreiologger")])]

theorem console_settings_read :
    ∃ oss, ((start (Y := plainEntries) (fun _ => .ok ()) consoleConfig).on "").1 = .ok () ∧
      Ini.read oss = some consoleSettings := by
  have hsettings : settings (Y := plainEntries) consoleConfig = .ok consoleSettings := by
    decide
  have hclean : ∀ s ∈ consoleSettings, ∀ l ∈ s.lines, l.Clean := by decide
  obtain ⟨oss, hstart, hread⟩ :=
    (settings_read (Y := plainEntries) (fun _ => .ok ()) consoleConfig).2 _ hsettings hclean
  exact ⟨oss.toList, hstart, hread⟩

end BoostLoggerCore

end CppAlls
