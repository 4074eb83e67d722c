import Mathlib.Data.List.AList
import Mathlib.Data.List.Nodup

/-!
# Keys

Tables, lists and functions whose entries are found by a key.  Everything a machine does to
them it does at one key: it inserts there, erases there or updates there.  So what is found
afterwards is the new entry or an old one at another key, and the lemmas of the first section
are those two cases.

A list of entries plays the part of a table when the keys are distinct.  A key then picks out
one entry (`filter_key_eq_singleton`), which is what "exactly once" comes to.
-/

namespace HoldTheDonut
namespace Machine

variable {κ α : Type*}

/-! ## What is found after a change -/

section Tables

variable [DecidableEq κ] {table : AList fun _ : κ => α} {k k' : κ} {a b : α}

/-- A table whose only key is `k`. -/
theorem keys_length_eq_one (hmem : table.lookup k = some a)
    (honly : ∀ k' b, table.lookup k' = some b → k' = k) : table.keys.length = 1 := by
  have hkeys : table.keys = List.replicate table.keys.length k := by
    refine List.eq_replicate_of_mem fun k' hk' => ?_
    obtain ⟨b, hb⟩ := Option.isSome_iff_exists.mp
      (AList.lookup_isSome.mpr (AList.mem_keys.mpr hk'))
    exact honly k' b hb
  have hle : table.keys.length ≤ 1 := by
    have hnodup := table.keys_nodup
    rw [hkeys] at hnodup
    exact List.nodup_replicate.mp hnodup
  have hpos : 0 < table.keys.length :=
    List.length_pos_of_mem (AList.mem_keys.mp (AList.lookup_isSome.mp (by rw [hmem]; rfl)))
  omega

theorem lookup_insert_cases (h : (table.insert k a).lookup k' = some b) :
    (k' = k ∧ b = a) ∨ (k' ≠ k ∧ table.lookup k' = some b) := by
  by_cases hk : k' = k
  · subst hk
    rw [AList.lookup_insert] at h
    exact Or.inl ⟨rfl, (Option.some.inj h).symm⟩
  · rw [AList.lookup_insert_ne hk] at h
    exact Or.inr ⟨hk, h⟩

theorem lookup_of_erase (h : (table.erase k).lookup k' = some b) :
    k' ≠ k ∧ table.lookup k' = some b := by
  by_cases hk : k' = k
  · subst hk
    rw [AList.lookup_erase] at h
    cases h
  · rw [AList.lookup_erase_ne hk] at h
    exact ⟨hk, h⟩

/-- An entry that is taken out and put back was never gone. -/
theorem lookup_put_back (h : table.lookup k = some a) (k' : κ) :
    ((table.erase k).insert k a).lookup k' = table.lookup k' := by
  by_cases hk : k' = k
  · rw [hk, AList.lookup_insert, h]
  · rw [AList.lookup_insert_ne hk, AList.lookup_erase_ne hk]

theorem update_cases {f : κ → α} (h : Function.update f k a k' = b) :
    (k' = k ∧ b = a) ∨ (k' ≠ k ∧ f k' = b) := by
  by_cases hk : k' = k
  · subst hk
    rw [Function.update_self] at h
    exact Or.inl ⟨rfl, h.symm⟩
  · rw [Function.update_of_ne hk] at h
    exact Or.inr ⟨hk, h⟩

end Tables

/-! ## Lists with distinct keys -/

/-- With distinct keys, one entry has a given key. -/
theorem filter_key_eq_singleton [DecidableEq κ] (key : α → κ) {l : List α} {a : α}
    (hnodup : (l.map key).Nodup) (hmem : a ∈ l) : l.filter (fun b => key b = key a) = [a] := by
  induction l with
  | nil => cases hmem
  | cons d l ih =>
    rw [List.map_cons, List.nodup_cons] at hnodup
    rcases List.mem_cons.mp hmem with rfl | hrest
    · have hnone : l.filter (fun b => key b = key a) = [] :=
        List.filter_eq_nil_iff.mpr fun b hb => by
          rw [decide_eq_true_eq]
          intro hkey
          exact hnodup.1 (List.mem_map.mpr ⟨b, hb, hkey⟩)
      rw [List.filter_cons, if_pos (decide_eq_true rfl), hnone]
    · have hd : ¬decide (key d = key a) = true := by
        rw [decide_eq_true_eq]
        intro hkey
        exact hnodup.1 (List.mem_map.mpr ⟨a, hrest, hkey.symm⟩)
      rw [List.filter_cons, if_neg hd]
      exact ih hnodup.2 hrest

/-- A new key keeps the keys distinct. -/
theorem nodup_map_concat (key : α → κ) {l : List α} {a : α}
    (hnodup : (l.map key).Nodup) (hnew : key a ∉ l.map key) : ((l ++ [a]).map key).Nodup := by
  rw [List.map_append]
  exact List.Nodup.append hnodup (List.nodup_singleton (key a)) (List.disjoint_singleton.mpr hnew)

end Machine
end HoldTheDonut
