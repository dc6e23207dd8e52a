import Mathlib.Algebra.GroupWithZero.Nat
import Mathlib.Data.List.AList

/-!
A weight summed over the values of an association list, and what inserting
and erasing a key do to the sum.
-/

namespace Tokioop.Kit

universe u v

variable {κ : Type u} {ν : Type v} [DecidableEq κ]

/-- The sum of the weights of the values of a map. -/
def total (w : ν → Nat) (m : AList (fun _ : κ => ν)) : Nat :=
  (m.entries.map fun e => w e.2).sum

theorem total_erase_add (w : ν → Nat) {m : AList (fun _ : κ => ν)} {k : κ} {v : ν}
    (h : m.lookup k = some v) : total w (m.erase k) + w v = total w m := by
  have hk : k ∈ m.entries.keys := AList.mem_keys.mp (AList.lookup_isSome.mp (by rw [h]; rfl))
  obtain ⟨v', l₁, l₂, hl₁, hl, he⟩ := List.exists_of_kerase hk
  have hv : v' = v := by
    have h' : List.dlookup k m.entries = some v := h
    rw [hl, List.dlookup_append, List.dlookup_eq_none.mpr hl₁] at h'
    simpa using h'
  have hlt : total w m = ((l₁ ++ ⟨k, v'⟩ :: l₂).map fun e => w e.2).sum := by rw [total, hl]
  have het : total w (m.erase k) = ((l₁ ++ l₂).map fun e => w e.2).sum := by
    show ((List.kerase k m.entries).map fun e => w e.2).sum = _
    rw [he]
  rw [hlt, het, hv]
  simp only [List.map_append, List.map_cons, List.sum_append, List.sum_cons]
  omega

theorem total_erase_of_none (w : ν → Nat) {m : AList (fun _ : κ => ν)} {k : κ}
    (h : m.lookup k = none) : total w (m.erase k) = total w m := by
  have hk : k ∉ m.entries.keys := AList.lookup_eq_none.mp h
  show ((List.kerase k m.entries).map fun e => w e.2).sum = _
  rw [List.kerase_of_notMem_keys hk]
  rfl

theorem total_insert (w : ν → Nat) (m : AList (fun _ : κ => ν)) (k : κ) (v : ν) :
    total w (m.insert k v) = w v + total w (m.erase k) := by
  show ((⟨k, v⟩ :: List.kerase k m.entries : List (Σ _ : κ, ν)).map fun e => w e.2).sum = _
  rw [List.map_cons, List.sum_cons]
  rfl

end Tokioop.Kit
