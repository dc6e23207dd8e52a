import Mathlib.Data.List.Basic

/-!
Dictionaries that keep the order of insertion.

A dictionary is the list of its items. Updating the entry of a key leaves it in
its place, and a new key comes last. What has been collected under a key after
any number of updates depends on those of this key only.
-/

namespace Tokioop.Kit.Dict

variable {κ ν τ : Type} [BEq κ] [LawfulBEq κ] [DecidableEq κ]

/-- Give the entry of `k` the value that `f` makes of it; there may be none before. -/
def upsert (k : κ) (f : Option ν → ν) : List (κ × ν) → List (κ × ν)
  | [] => [(k, f none)]
  | (k', v) :: rest =>
      if k' = k then (k', f (some v)) :: rest else (k', v) :: upsert k f rest

theorem lookup_cons_ite (k k' : κ) (v : ν) (d : List (κ × ν)) :
    ((k', v) :: d).lookup k = if k = k' then some v else d.lookup k := by
  by_cases h : k = k'
  · simp [h]
  · rw [List.lookup_cons, beq_eq_false_iff_ne.mpr h, if_neg h]

theorem lookup_upsert (k k' : κ) (f : Option ν → ν) (d : List (κ × ν)) :
    (upsert k f d).lookup k' = if k' = k then some (f (d.lookup k)) else d.lookup k' := by
  induction d with
  | nil => exact lookup_cons_ite ..
  | cons x rest ih =>
      obtain ⟨k₀, v⟩ := x
      by_cases h₀ : k₀ = k
      · subst h₀
        rw [upsert, if_pos rfl, lookup_cons_ite, lookup_cons_ite, lookup_cons_ite, if_pos rfl]
        split <;> rfl
      · rw [upsert, if_neg h₀, lookup_cons_ite, lookup_cons_ite, lookup_cons_ite, ih,
          if_neg (Ne.symm h₀)]
        by_cases h : k' = k₀
        · rw [if_pos h, if_pos h, if_neg fun hk => h₀ (h.symm.trans hk)]
        · rw [if_neg h, if_neg h]

theorem keys_upsert (k : κ) (f : Option ν → ν) (d : List (κ × ν)) :
    (upsert k f d).map Prod.fst =
      if k ∈ d.map Prod.fst then d.map Prod.fst else d.map Prod.fst ++ [k] := by
  induction d with
  | nil => rfl
  | cons x rest ih =>
      obtain ⟨k₀, v⟩ := x
      by_cases h₀ : k₀ = k
      · simp [upsert, h₀]
      · have hmem : k ∈ ((k₀, v) :: rest).map Prod.fst ↔ k ∈ rest.map Prod.fst :=
          ⟨fun h => (List.mem_cons.mp h).resolve_left (Ne.symm h₀), List.mem_cons_of_mem _⟩
        rw [upsert, if_neg h₀, List.map_cons, ih]
        simp only [hmem]
        split <;> rfl

theorem nodup_upsert {k : κ} {f : Option ν → ν} {d : List (κ × ν)}
    (h : (d.map Prod.fst).Nodup) : ((upsert k f d).map Prod.fst).Nodup := by
  rw [keys_upsert]
  split
  · exact h
  · rename_i hk
    refine List.nodup_append.mpr ⟨h, List.pairwise_singleton _ _, fun a ha b hb hab => hk ?_⟩
    rw [← List.mem_singleton.mp hb, ← hab]
    exact ha

/-- Where keys are distinct, the items are what looking up their keys finds. -/
theorem mem_iff_lookup {d : List (κ × ν)} (h : (d.map Prod.fst).Nodup) {k : κ} {v : ν} :
    (k, v) ∈ d ↔ d.lookup k = some v := by
  induction d with
  | nil => simp
  | cons x rest ih =>
      obtain ⟨k₀, v₀⟩ := x
      obtain ⟨hk₀, hrest⟩ := List.nodup_cons.mp h
      rw [lookup_cons_ite]
      by_cases hk : k = k₀
      · subst hk
        have hnot : (k, v) ∉ rest := fun hv => hk₀ (List.mem_map.mpr ⟨_, hv, rfl⟩)
        rw [if_pos rfl, List.mem_cons, or_iff_left hnot]
        simp [eq_comm]
      · rw [if_neg hk, ← ih hrest]
        simp [hk]

def collect (key : τ → κ) (f : τ → Option ν → ν) (xs : List τ) (d : List (κ × ν)) :
    List (κ × ν) :=
  xs.foldl (fun d x => upsert (key x) (f x) d) d

variable {key : τ → κ} {f : τ → Option ν → ν}

theorem nodup_collect (xs : List τ) {d : List (κ × ν)} (h : (d.map Prod.fst).Nodup) :
    ((collect key f xs d).map Prod.fst).Nodup := by
  induction xs generalizing d with
  | nil => exact h
  | cons x xs ih => exact ih (nodup_upsert h)

/-- What is collected under a key comes from the elements with this key, in their order. -/
theorem lookup_collect (xs : List τ) (d : List (κ × ν)) (k : κ) :
    (collect key f xs d).lookup k =
      (xs.filter fun x => key x = k).foldl (fun o x => some (f x o)) (d.lookup k) := by
  induction xs generalizing d with
  | nil => rfl
  | cons x xs ih =>
      show (collect key f xs (upsert (key x) (f x) d)).lookup k = _
      rw [ih, lookup_upsert]
      by_cases h : key x = k
      · simp [h]
      · simp [h, Ne.symm h]

end Tokioop.Kit.Dict
