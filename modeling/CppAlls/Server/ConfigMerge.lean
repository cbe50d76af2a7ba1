import CppAlls.Server.PlainYaml
import Mathlib.Data.String.Basic
import Mathlib.Data.List.Sort

namespace CppAlls
set_option autoImplicit true

open Failing Tables

/-- What is documented of the maps of yaml-cpp: `push_back` appends a node to the sequence under a key,
makes one where there is none or a null, and throws on any other node. -/
structure YamlMaps (Y : YamlCpp) where
  IsMap : Y.Node → Prop
  Appendable : Y.Node → Prop
  index : ∀ n key, IsMap n → ∃ s, Y.index n key = .ok s
  push : ∀ n key s v, IsMap n → Y.index n key = .ok s → Appendable s → Y.isDefined v = true →
    ∃ n' s', Y.pushBack n key v = .ok n' ∧ IsMap n' ∧ Y.index n' key = .ok s' ∧ Appendable s' ∧
      Y.elements s' = Y.elements s ++ [v] ∧ ∀ key', key' ≠ key → Y.index n' key' = Y.index n key'
  push_other : ∀ n key s v, IsMap n → Y.index n key = .ok s → ¬ Appendable s →
    ∃ e, Y.pushBack n key v = .error e

variable {Y : YamlCpp}

/-- The nodes are behind the applications of the first configuration, and the other sections are the
same. -/
structure YamlMaps.Extends (M : YamlMaps Y) (config config' : Y.Node) (nodes : List Y.Node) :
    Prop where
  isMap : M.IsMap config'
  applications : ∃ s s', Y.index config "applications" = .ok s ∧
    Y.index config' "applications" = .ok s' ∧ Y.elements s' = Y.elements s ++ nodes ∧
      (M.Appendable s' ↔ M.Appendable s)
  others : ∀ key, key ≠ "applications" → Y.index config' key = Y.index config key

namespace YamlMaps

variable {M : YamlMaps Y} {config config' : Y.Node}

theorem Extends.refl (h : M.IsMap config) : M.Extends config config [] := by
  obtain ⟨s, hs⟩ := M.index config "applications" h
  exact ⟨h, ⟨s, s, hs, hs, (List.append_nil _).symm, Iff.rfl⟩, fun _ _ => rfl⟩

theorem Extends.trans {config'' : Y.Node} (h : M.Extends config config' nodes)
    (h' : M.Extends config' config'' nodes') : M.Extends config config'' (nodes ++ nodes') := by
  obtain ⟨s, s₁, hs, hs₁, he, ha⟩ := h.applications
  obtain ⟨s₁', s₂, hs₁', hs₂, he', ha'⟩ := h'.applications
  cases hs₁.symm.trans hs₁'
  refine ⟨h'.isMap, ⟨s, s₂, hs, hs₂, ?_, ha'.trans ha⟩, ?_⟩
  · rw [he', he, List.append_assoc]
  · intro key hkey
    rw [h'.others key hkey, h.others key hkey]

end YamlMaps

namespace Files

variable (F : Files Y) (M : YamlMaps Y)

/-- The files that an entry selects, in the order of their paths: the members of a directory that are
no directories, or the regular file that the entry names. -/
inductive Selected (p : String) : List String → Prop where
  | directory : F.isDirectory p = (true, false) → F.isFile p = false →
      files.Perm ((F.members p).1.filter fun m => !(F.isDirectory m).1) →
      files.Pairwise (· ≤ ·) → Selected p files
  | file : (F.isDirectory p).1 = false → F.isFile p = true → Selected p [p]

/-- The exception that ends the enumeration of a directory. -/
def enumerationFails (p : String) : Option ServerExn :=
  if (F.isDirectory p).1 then (F.members p).2 else none

/-- A member of a directory about which `is_directory` answers with an error, as it does about a link
that leads nowhere. -/
def isOverlooked (p m : String) : Bool := (F.isDirectory p).1 && (F.isDirectory m).2

/-- The files of an entry that are loaded. -/
def filesRead (x : String × List String) : List String :=
  x.2.filter fun m => !F.isOverlooked x.1 m

variable {F M} {config config' : Y.Node} {files : List String}

theorem eq_of_sorted {l l' : List String} (hperm : l.Perm l') (h : l.Pairwise (· ≤ ·))
    (h' : l'.Pairwise (· ≤ ·)) : l = l' :=
  List.Perm.eq_of_pairwise (fun _ _ _ _ => le_antisymm) h h' hperm

theorem mergeSort_pairwise (l : List String) :
    (l.mergeSort fun a b => decide (a ≤ b)).Pairwise (· ≤ ·) := by
  have htrans : ∀ a b c : String, decide (a ≤ b) = true → decide (b ≤ c) = true →
      decide (a ≤ c) = true := by
    simpa using fun a b c => le_trans
  have htotal : ∀ a b : String, (decide (a ≤ b) || decide (b ≤ a)) = true := by
    simpa using le_total
  simpa using List.pairwise_mergeSort htrans htotal l

theorem Selected.selectConfigs (h : F.Selected (F.resolve configPath entry) files) :
    F.selectConfigs configPath entry =
      match F.enumerationFails (F.resolve configPath entry) with
      | none => .ok (F.filesRead (F.resolve configPath entry, files))
      | some e => .error e := by
  rw [Files.selectConfigs, directoryConfigs]
  generalize F.resolve configPath entry = p at h
  cases h with
  | directory hd hf hperm hsorted =>
    rw [enumerationFails, hd]
    rcases hmembers : F.members p with ⟨ms, e⟩
    rw [hmembers] at hperm
    cases e with
    | some e => rfl
    | none =>
      simp only [hf]
      apply congrArg Except.ok
      apply eq_of_sorted _ (mergeSort_pairwise _) (hsorted.filter _)
      refine (List.mergeSort_perm _ _).trans ?_
      rw [if_neg Bool.false_ne_true, List.append_nil]
      have hskipped : (ms.filter fun m => !F.isSkipped m) =
          (ms.filter fun m => !(F.isDirectory m).1).filter fun m => !F.isOverlooked p m := by
        rw [List.filter_filter]
        apply List.filter_congr
        intro m _
        rw [isSkipped, isOverlooked, hd, Bool.not_or, Bool.true_and, Bool.and_comm]
      rw [hskipped]
      exact (hperm.filter _).symm
  | file hd hf =>
    rw [enumerationFails]
    simp only [hd, hf]
    have hread : F.filesRead (p, [p]) = [p] := by
      rw [filesRead, List.filter_singleton, isOverlooked, hd]
      rfl
    rw [hread]
    exact congrArg Except.ok (List.mergeSort_singleton p)

end Files

namespace PlainNode

variable {entries : List (String × PlainNode)} {key key' : String}

def IsMap (n : PlainNode) : Prop := ∃ entries, n = .map entries ∧ ∀ e ∈ entries, e.2 ≠ .undefined

def Appendable (n : PlainNode) : Prop := n = .undefined ∨ ∃ nodes, n = .sequence nodes

end PlainNode

end CppAlls
