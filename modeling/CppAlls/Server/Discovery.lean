import CppAlls.Server.Configuration

namespace CppAlls
set_option autoImplicit true

open Failing Tables

/-- The action adds the same entries to any map, and ends in the same way. -/
def Collects (a : FailM ServerExn AppToPath α) : Prop :=
  ∃ r found, ∀ m, a.on m = (r, Table.emplaceEach m found)

namespace Collects

theorem pure (a : α) : Collects (Pure.pure a) := ⟨.ok a, [], fun _ => rfl⟩

theorem throw (e : ServerExn) : Collects (MonadExcept.throw e : FailM ServerExn AppToPath α) :=
  ⟨.error e, [], fun _ => rfl⟩

theorem ofExcept (r : Except ServerExn α) : Collects (FailM.ofExcept r) := ⟨r, [], fun _ => rfl⟩

theorem emplaceAll (apps : List String) (p : String) :
    Collects (modify (Files.emplaceAll apps p)) := by
  refine ⟨.ok (), apps.map (·, p), ?_⟩
  intro m
  rw [FailM.on_modify, Table.emplaceEach, List.foldl_map]
  rfl

theorem bind {a : FailM ServerExn AppToPath α} {f : α → FailM ServerExn AppToPath β}
    (ha : Collects a) (hf : ∀ x, Collects (f x)) : Collects (a >>= f) := by
  obtain ⟨r, found, hon⟩ := ha
  cases r with
  | error e =>
    refine ⟨.error e, found, ?_⟩
    intro m
    rw [FailM.on_bind_error (hon m)]
  | ok x =>
    obtain ⟨r, found', hon'⟩ := hf x
    refine ⟨r, found ++ found', ?_⟩
    intro m
    rw [FailM.on_bind_ok (hon m), hon', Table.emplaceEach_append]

theorem forM {f : α → FailM ServerExn AppToPath Unit} (h : ∀ x, Collects (f x)) (l : List α) :
    Collects (l.forM f) := by
  induction l with
  | nil => exact .pure ()
  | cons x l ih =>
    rw [List.forM_eq_forM, List.forM_cons]
    exact (h x).bind (fun _ => ih)

end Collects

namespace Files

variable {Y : YamlCpp} (F : Files Y)

theorem searchInBinary_collects (p : String) : Collects (F.searchInBinary p) := by
  rw [searchInBinary]
  cases F.symbols p with
  | ok apps => exact .emplaceAll apps p
  | error e => exact .pure ()

theorem findAppsInEntry_collects (configPath entry : String) :
    Collects (F.findAppsInEntry configPath entry) := by
  rw [findAppsInEntry]
  generalize F.members (F.resolve configPath entry) = listing
  obtain ⟨ms, e⟩ := listing
  apply Collects.bind
  · apply Collects.forM
    intro m
    by_cases hm : F.isSkipped m = true
    · rw [if_pos hm]
      exact .pure ()
    · rw [if_neg hm]
      exact F.searchInBinary_collects m
  · intro _
    have hfile : Collects (if F.isFile (F.resolve configPath entry) then
        F.searchInBinary (F.resolve configPath entry) else pure ()) := by
      by_cases hp : F.isFile (F.resolve configPath entry) = true
      · rw [if_pos hp]
        exact F.searchInBinary_collects _
      · rw [if_neg hp]
        exact .pure ()
    cases e with
    | some e => exact (Collects.throw e).bind (fun _ => hfile)
    | none => exact hfile

theorem fillAppsToPath_collects (configPath : String) (config : Y.Node) :
    Collects (F.fillAppsToPath configPath config) := by
  apply (Collects.ofExcept _).bind
  intro apps
  apply (Collects.emplaceAll apps _).bind
  intro _
  apply (Collects.ofExcept _).bind
  intro core
  apply (Collects.ofExcept _).bind
  intro bins
  apply (Collects.ofExcept _).bind
  intro scalar
  cases scalar with
  | true => exact (Collects.ofExcept _).bind (fun entry => F.findAppsInEntry_collects _ entry)
  | false =>
    apply (Collects.ofExcept _).bind
    intro sequence
    cases sequence with
    | true =>
      apply Collects.forM
      exact fun v => (Collects.ofExcept _).bind (fun entry => F.findAppsInEntry_collects _ entry)
    | false =>
      by_cases hd : (!Y.isDefined bins) = true
      · simp only [if_pos hd]
        exact F.findAppsInEntry_collects _ _
      · simp only [if_neg hd]
        exact .throw _

/-- The types that the search for binaries comes across before it ends. -/
def discovered (configPath : String) (config : Y.Node) : AppToPath :=
  ((F.fillAppsToPath configPath config).on ∅).2

/-- A search adds what it comes across to the map, and keeps what is there. -/
theorem fillAppsToPath_on (configPath : String) (config : Y.Node) (m : AppToPath) :
    ((F.fillAppsToPath configPath config).on m).1 =
        ((F.fillAppsToPath configPath config).on ∅).1 ∧
      (∀ type path, m.lookup type = some path →
        ((F.fillAppsToPath configPath config).on m).2.lookup type = some path) ∧
      ∀ type, type ∈ ((F.fillAppsToPath configPath config).on m).2 ↔
        type ∈ m ∨ type ∈ F.discovered configPath config := by
  obtain ⟨r, found, hon⟩ := F.fillAppsToPath_collects configPath config
  rw [discovered, hon m, hon ∅]
  refine ⟨rfl, fun _ _ h => Table.lookup_emplaceEach_of_lookup h, ?_⟩
  intro type
  rw [Table.mem_emplaceEach, Table.mem_emplaceEach]
  constructor
  · intro h
    rcases h with h | h
    · exact .inl h
    · exact .inr (.inr h)
  · intro h
    rcases h with h | h | h
    · exact .inl h
    · exact absurd h (AList.notMem_empty type)
    · exact .inr h

end Files

end CppAlls
