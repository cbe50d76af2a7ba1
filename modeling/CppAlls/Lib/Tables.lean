import Mathlib.Data.Finmap

namespace Tables
set_option autoImplicit true

abbrev Table (κ α : Type) := AList fun _ : κ => α

namespace Table

variable {κ α : Type} [DecidableEq κ] {m : Table κ α} {k k' : κ} {v v' : α}

/-- Adds an entry unless the key has one. -/
def emplace (m : Table κ α) (k : κ) (v : α) : Table κ α := if k ∈ m then m else m.insert k v

def values (m : Table κ α) : List α := m.entries.map (·.2)

theorem mem_values : v ∈ values m ↔ ∃ k, m.lookup k = some v := by
  constructor
  · intro h
    obtain ⟨⟨k, w⟩, hm, rfl⟩ := List.mem_map.mp h
    exact ⟨k, AList.mem_lookup_iff.mpr hm⟩
  · intro ⟨k, h⟩
    exact List.mem_map.mpr ⟨⟨k, v⟩, AList.mem_lookup_iff.mp h, rfl⟩

theorem emplace_of_notMem (h : k ∉ m) : m.emplace k v = m.insert k v := if_neg h

theorem lookup_emplace_of_lookup (h : m.lookup k' = some v') :
    (m.emplace k v).lookup k' = some v' := by
  by_cases hk : k ∈ m
  · rw [emplace, if_pos hk, h]
  · have hne : k' ≠ k := by
      rintro rfl
      exact hk (AList.lookup_isSome.mp (h ▸ rfl))
    rw [emplace, if_neg hk, AList.lookup_insert_ne hne, h]

theorem lookup_emplace_self (h : m.lookup k = none) : (m.emplace k v).lookup k = some v := by
  rw [emplace_of_notMem (AList.lookup_eq_none.mp h), AList.lookup_insert]

theorem exists_lookup_emplace (m : Table κ α) (k : κ) (v : α) :
    ∃ v', (m.emplace k v).lookup k = some v' := by
  cases h : m.lookup k with
  | none => exact ⟨v, lookup_emplace_self h⟩
  | some v' => exact ⟨v', lookup_emplace_of_lookup h⟩

theorem lookup_of_emplace (h : (m.emplace k v).lookup k' = some v') :
    m.lookup k' = some v' ∨ (k' = k ∧ v' = v) := by
  by_cases hk : k ∈ m
  · rw [emplace, if_pos hk] at h
    exact .inl h
  · rw [emplace, if_neg hk] at h
    by_cases he : k' = k
    · subst he
      rw [AList.lookup_insert] at h
      exact .inr ⟨rfl, (Option.some.inj h).symm⟩
    · rw [AList.lookup_insert_ne he] at h
      exact .inl h

theorem mem_emplace : k' ∈ m.emplace k v ↔ k' ∈ m ∨ k' = k := by
  by_cases hk : k ∈ m
  · rw [emplace, if_pos hk]
    constructor
    · exact .inl
    · intro h
      rcases h with h | rfl
      · exact h
      · exact hk
  · rw [emplace_of_notMem hk, AList.mem_insert, or_comm]

theorem length_emplace_of_notMem (h : k ∉ m) :
    (m.emplace k v).entries.length = m.entries.length + 1 := by
  rw [emplace_of_notMem h, AList.entries_insert_of_notMem h, List.length_cons]

theorem emplace_of_mem (h : k ∈ m) : m.emplace k v = m := if_pos h

omit [DecidableEq κ] in
theorem length_eq_of_mem_iff {m' : Table κ α} (h : ∀ k, k ∈ m ↔ k ∈ m') :
    m.entries.length = m'.entries.length := by
  have hperm := (List.perm_ext_iff_of_nodup m.keys_nodup m'.keys_nodup).mpr h
  have hlen : (m.entries.map Sigma.fst).length = (m'.entries.map Sigma.fst).length :=
    hperm.length_eq
  rwa [List.length_map, List.length_map] at hlen

/-- Adds the entries of a list in order. -/
def emplaceEach (m : Table κ α) (l : List (κ × α)) : Table κ α :=
  l.foldl (fun m x => m.emplace x.1 x.2) m

theorem emplaceEach_append (m : Table κ α) (l l' : List (κ × α)) :
    m.emplaceEach (l ++ l') = (m.emplaceEach l).emplaceEach l' := List.foldl_append

theorem lookup_emplaceEach_of_lookup {l : List (κ × α)} (h : m.lookup k = some v) :
    (m.emplaceEach l).lookup k = some v := by
  induction l generalizing m with
  | nil => exact h
  | cons x l ih => exact ih (lookup_emplace_of_lookup h)

theorem lookup_emplace_ne (h : k' ≠ k) : (m.emplace k v).lookup k' = m.lookup k' := by
  by_cases hk : k ∈ m
  · rw [emplace_of_mem hk]
  · rw [emplace_of_notMem hk, AList.lookup_insert_ne h]

/-- What the table has already comes first, then what is first in the list. -/
theorem lookup_emplaceEach (m : Table κ α) (l : List (κ × α)) (k : κ) :
    (m.emplaceEach l).lookup k = (m.lookup k).or (l.lookup k) := by
  induction l generalizing m with
  | nil => exact Option.or_none.symm
  | cons x l ih =>
    have hcons : m.emplaceEach (x :: l) = (m.emplace x.1 x.2).emplaceEach l := rfl
    rw [hcons, ih, List.lookup_cons]
    by_cases hk : k = x.1
    · subst hk
      rw [beq_self_eq_true]
      cases hm : m.lookup x.1 with
      | none => rw [lookup_emplace_self hm]; rfl
      | some v => rw [lookup_emplace_of_lookup hm]; rfl
    · rw [lookup_emplace_ne hk, beq_eq_false_iff_ne.mpr hk]

theorem mem_of_lookup {l : List (κ × α)} (h : l.lookup k = some v) : (k, v) ∈ l := by
  obtain ⟨l₁, l₂, rfl, _⟩ := List.lookup_eq_some_iff.mp h
  exact List.mem_append_right _ List.mem_cons_self

theorem exists_lookup_of_mem {l : List (κ × α)} (h : (k, v) ∈ l) : ∃ w, l.lookup k = some w := by
  induction l with
  | nil => cases h
  | cons x l ih =>
    rw [List.lookup_cons]
    by_cases hk : k = x.1
    · rw [beq_iff_eq.mpr hk]
      exact ⟨x.2, rfl⟩
    · rw [beq_eq_false_iff_ne.mpr hk]
      rcases List.mem_cons.mp h with rfl | hm
      · exact absurd rfl hk
      · exact ih hm

theorem lookup_emplaceEach_congr {m' : Table κ α} (h : m.lookup k = m'.lookup k)
    (l : List (κ × α)) : (m.emplaceEach l).lookup k = (m'.emplaceEach l).lookup k := by
  rw [lookup_emplaceEach, lookup_emplaceEach, h]

/-- A table does not depend on the order in which it is filled, as long as no new key comes with two
values. -/
theorem lookup_emplaceEach_perm {l l' : List (κ × α)} (hperm : l.Perm l')
    (hunique : ∀ v v', k ∉ m → (k, v) ∈ l → (k, v') ∈ l → v = v') :
    (m.emplaceEach l).lookup k = (m.emplaceEach l').lookup k := by
  rw [lookup_emplaceEach, lookup_emplaceEach]
  cases hm : m.lookup k with
  | some v => rfl
  | none =>
    have hk : k ∉ m := AList.lookup_eq_none.mp hm
    cases hl : l.lookup k with
    | some v =>
      have hv := mem_of_lookup hl
      obtain ⟨v', hv'⟩ := exists_lookup_of_mem (hperm.mem_iff.mp hv)
      rw [hv', hunique v v' hk hv (hperm.mem_iff.mpr (mem_of_lookup hv'))]
    | none =>
      cases hl' : l'.lookup k with
      | none => rfl
      | some v =>
        obtain ⟨w, hw⟩ := exists_lookup_of_mem (hperm.mem_iff.mpr (mem_of_lookup hl'))
        rw [hl] at hw
        cases hw

theorem lookup_map_pair (ks : List κ) (v : α) (k : κ) :
    (ks.map (·, v)).lookup k = if k ∈ ks then some v else none := by
  induction ks with
  | nil => rfl
  | cons k' ks ih =>
    rw [List.map_cons, List.lookup_cons, ih]
    by_cases hk : k = k'
    · rw [beq_iff_eq.mpr hk, if_pos (List.mem_cons.mpr (.inl hk))]
    · rw [beq_eq_false_iff_ne.mpr hk]
      simp only [List.mem_cons, hk, false_or]

theorem toFinmap_eq_iff {m' : Table κ α} :
    m.toFinmap = m'.toFinmap ↔ ∀ k, m.lookup k = m'.lookup k := by
  constructor
  · intro h k
    rw [← Finmap.lookup_toFinmap, h, Finmap.lookup_toFinmap]
  · intro h
    apply Finmap.ext_lookup
    intro k
    rw [Finmap.lookup_toFinmap, Finmap.lookup_toFinmap, h k]

theorem mem_emplaceEach {l : List (κ × α)} :
    k ∈ m.emplaceEach l ↔ k ∈ m ∨ k ∈ l.map Prod.fst := by
  induction l generalizing m with
  | nil => simp [emplaceEach]
  | cons x l ih =>
    have hcons : m.emplaceEach (x :: l) = (m.emplace x.1 x.2).emplaceEach l := rfl
    rw [hcons, ih, mem_emplace, List.map_cons, List.mem_cons, or_assoc]

theorem nodup_values (h : ∀ k k' v, m.lookup k = some v → m.lookup k' = some v → k = k') :
    (values m).Nodup := by
  apply List.Nodup.map_on
  · rintro ⟨k, v⟩ hx ⟨k', v'⟩ hy hv
    obtain rfl : v = v' := hv
    obtain rfl := h k k' v (AList.mem_lookup_iff.mpr hx) (AList.mem_lookup_iff.mpr hy)
    rfl
  · exact m.nodupKeys.nodup

theorem lookup_of_erase (h : (m.erase k).lookup k' = some v') : m.lookup k' = some v' := by
  by_cases he : k' = k
  · subst he
    rw [AList.lookup_erase] at h
    cases h
  · rwa [AList.lookup_erase_ne he] at h

end Table

end Tables
