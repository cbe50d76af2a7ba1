namespace Ini
set_option autoImplicit true

/-- A section: its name and its parameters. -/
abbrev Settings := String × List (String × String)

inductive Line where
  | blank
  | header (name : String)
  | parameter (key value : String)
deriving DecidableEq, Repr

/-- What stands before the first `c`, and what behind it. -/
def upTo (c : Char) : List Char → Option (List Char × List Char)
  | [] => none
  | d :: ds => if d = c then some ([], ds) else (upTo c ds).map fun x => (d :: x.1, x.2)

theorem upTo_append {c : Char} (h : c ∉ ds) (rest : List Char) :
    upTo c (ds ++ c :: rest) = some (ds, rest) := by
  induction ds with
  | nil => exact if_pos rfl
  | cons d ds ih =>
    have hne : d ≠ c := Ne.symm (List.ne_of_not_mem_cons h)
    rw [List.cons_append, upTo, if_neg hne, ih (List.not_mem_of_not_mem_cons h)]
    rfl

namespace Line

def chars : Line → List Char
  | blank => []
  | header name => '[' :: (name.toList ++ [']'])
  | parameter key value => key.toList ++ ' ' :: ('=' :: ' ' :: '\"' :: (value.toList ++ ['\"']))

/-- A line that shows where its name and its value end. A backslash in a value would escape. -/
def Clean : Line → Prop
  | blank => True
  | header name => '\n' ∉ name.toList ∧ ']' ∉ name.toList
  | parameter key value => '[' ∉ key.toList ∧ '\n' ∉ key.toList ∧ ' ' ∉ key.toList ∧
      '\n' ∉ value.toList ∧ '\"' ∉ value.toList ∧ '\\' ∉ value.toList

instance decidableClean (l : Line) : Decidable l.Clean := by
  cases l <;> unfold Clean <;> infer_instance

def readHeader (cs : List Char) : Option Line :=
  match upTo ']' cs with
  | some (name, []) => some (.header (.ofList name))
  | _ => none

def readParameter (cs : List Char) : Option Line :=
  match upTo ' ' cs with
  | some (key, '=' :: ' ' :: '\"' :: value) =>
    match upTo '\"' value with
    | some (value, []) => some (.parameter (.ofList key) (.ofList value))
    | _ => none
  | _ => none

def read : List Char → Option Line
  | [] => some .blank
  | c :: cs => if c = '[' then readHeader cs else readParameter (c :: cs)

theorem readParameter_chars (h : (parameter key value).Clean) :
    readParameter (parameter key value).chars = some (parameter key value) := by
  obtain ⟨_, _, hkey, _, hvalue, _⟩ := h
  rw [readParameter, chars, upTo_append hkey]
  simp only [upTo_append hvalue, String.ofList_toList]

theorem read_of_ne (h : cs.head? = some c) (hne : c ≠ '[') : read cs = readParameter cs := by
  cases cs with
  | nil => cases h
  | cons d cs =>
    cases h
    exact if_neg hne

theorem read_chars {l : Line} (h : l.Clean) : read l.chars = some l := by
  cases l with
  | blank => rfl
  | header name =>
    have hread : readHeader (name.toList ++ [']']) = some (.header name) := by
      rw [readHeader, upTo_append h.2]
      simp only [String.ofList_toList]
    rw [chars, read, if_pos rfl, hread]
  | parameter key value =>
    rw [← readParameter_chars h]
    cases hkey : key.toList with
    | nil =>
      apply read_of_ne (c := ' ')
      · rw [chars, hkey]
        rfl
      · decide
    | cons c cs =>
      apply read_of_ne (c := c)
      · rw [chars, hkey]
        rfl
      · rintro rfl
        exact h.1 (hkey ▸ List.mem_cons_self)

theorem newline_notMem {l : Line} (h : l.Clean) : '\n' ∉ l.chars := by
  cases l with
  | blank => exact List.not_mem_nil
  | header name => simp [chars, h.1]
  | parameter key value => simp [chars, h.2.1, h.2.2.2.1]

end Line

def text (ls : List Line) : List Char := ls.flatMap fun l => l.chars ++ ['\n']

theorem text_append (ls ls' : List Line) : text (ls ++ ls') = text ls ++ text ls' :=
  List.flatMap_append

theorem splitOn_text {ls : List Line} (h : ∀ l ∈ ls, l.Clean) :
    (text ls).splitOn '\n' = ls.map Line.chars ++ [[]] := by
  induction ls with
  | nil => rfl
  | cons l ls ih =>
    obtain ⟨hl, hls⟩ := List.forall_mem_cons.mp h
    have hcons : text (l :: ls) = l.chars ++ '\n' :: text ls := by
      rw [text, List.flatMap_cons, List.append_assoc]
      rfl
    rw [hcons, List.splitOn_append_cons_self_of_not_mem (Line.newline_notMem hl), ih hls]
    rfl

/-- The parameters before the first header, and the sections. -/
def sections : List Line → List (String × String) × List Settings
  | [] => ([], [])
  | .blank :: ls => sections ls
  | .header name :: ls => ([], (name, (sections ls).1) :: (sections ls).2)
  | .parameter key value :: ls => ((key, value) :: (sections ls).1, (sections ls).2)

/-- A parameter belongs to the section whose header comes last before it. -/
def read (cs : List Char) : Option (List Settings) := do
  let ls ← (cs.splitOn '\n').mapM Line.read
  match sections ls with
  | ([], ss) => some ss
  | _ => none

namespace Settings

def lines (s : Settings) : List Line := .header s.1 :: s.2.map fun x => .parameter x.1 x.2

def Clean (s : Settings) : Prop := ∀ l ∈ s.lines, l.Clean

theorem sections_lines {ls : List Line} (s : Settings) (h : sections ls = ([], ss)) :
    sections (s.lines ++ ls) = ([], s :: ss) := by
  obtain ⟨name, parameters⟩ := s
  have hparameters : sections (parameters.map (fun x => Line.parameter x.1 x.2) ++ ls) =
      (parameters, ss) := by
    induction parameters with
    | nil => exact h
    | cons x parameters ih => rw [List.map_cons, List.cons_append, sections, ih]
  rw [lines, List.cons_append, sections, hparameters]

end Settings

theorem sections_blank_end (ls : List Line) : sections (ls ++ [.blank]) = sections ls := by
  induction ls with
  | nil => rfl
  | cons l ls ih =>
    cases l with
    | blank => exact ih
    | header name => rw [List.cons_append, sections, sections, ih]
    | parameter key value => rw [List.cons_append, sections, sections, ih]

/-- A reader gets back the sections of a clean text. -/
theorem read_text {ls : List Line} (h : ∀ l ∈ ls, l.Clean) (hs : sections ls = ([], ss)) :
    read (text ls) = some ss := by
  have hlines : (ls.map Line.chars ++ [[]]).mapM Line.read = some (ls ++ [.blank]) := by
    clear hs
    induction ls with
    | nil => rfl
    | cons l ls ih =>
      obtain ⟨hl, hls⟩ := List.forall_mem_cons.mp h
      rw [List.map_cons, List.cons_append, List.mapM_cons, Line.read_chars hl, ih hls]
      rfl
  rw [read, splitOn_text h, hlines]
  have hend := sections_blank_end ls
  rw [hs] at hend
  simp only [Option.bind_eq_bind, Option.bind_some, hend]

end Ini
