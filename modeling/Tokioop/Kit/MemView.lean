import Mathlib.Data.List.Basic

/-!
Views of memory with items of any size.

The length of a view and its slices count items. What is sent from it counts
bytes. A view is `Bytewise` when the two counts are one: its items are bytes,
or it has none.
-/

namespace Tokioop.Kit

/-- A buffer of items that are all `itemSize` bytes long. -/
structure MemView where
  items : List (List UInt8)
  itemSize : Nat
  itemSize_pos : 0 < itemSize
  length_item : ∀ b ∈ items, b.length = itemSize
  deriving DecidableEq

namespace MemView

def len (v : MemView) : Nat := v.items.length

/-- The memory that the view shows. -/
def bytes (v : MemView) : List UInt8 := v.items.flatten

/-- `view[n:]`. -/
def drop (v : MemView) (n : Nat) : MemView :=
  { v with
    items := v.items.drop n
    length_item := fun b hb => v.length_item b (List.mem_of_mem_drop hb) }

/-- A byte string, whose items are its bytes. -/
def ofBytes (data : List UInt8) : MemView where
  items := data.map fun b => [b]
  itemSize := 1
  itemSize_pos := Nat.one_pos
  length_item := by
    intro b hb
    obtain ⟨c, -, rfl⟩ := List.mem_map.mp hb
    rfl

@[simp] theorem len_drop (v : MemView) (n : Nat) : (v.drop n).len = v.len - n := List.length_drop

@[simp] theorem itemSize_drop (v : MemView) (n : Nat) : (v.drop n).itemSize = v.itemSize := rfl

@[simp] theorem drop_zero (v : MemView) : v.drop 0 = v := rfl

@[simp] theorem len_ofBytes (data : List UInt8) : (ofBytes data).len = data.length :=
  List.length_map _

@[simp] theorem bytes_ofBytes (data : List UInt8) : (ofBytes data).bytes = data := by
  show (data.map fun b => [b]).flatten = data
  induction data with
  | nil => rfl
  | cons b bs ih => rw [List.map_cons, List.flatten_cons, ih, List.singleton_append]

theorem length_bytes (v : MemView) : v.bytes.length = v.itemSize * v.len := by
  rw [bytes, List.length_flatten, List.map_congr_left v.length_item, List.map_const',
    List.sum_replicate_nat, Nat.mul_comm, len]

theorem bytes_eq_nil_iff (v : MemView) : v.bytes = [] ↔ v.len = 0 := by
  rw [← List.length_eq_zero_iff, length_bytes, Nat.mul_eq_zero]
  exact or_iff_right (Nat.ne_of_gt v.itemSize_pos)

theorem len_le_length_bytes (v : MemView) : v.len ≤ v.bytes.length := by
  rw [length_bytes]
  exact Nat.le_mul_of_pos_left _ v.itemSize_pos

/-! ### Counting bytes by items -/

/-- Items and bytes of the view are equally many. -/
def Bytewise (v : MemView) : Prop := v.bytes.length = v.len

instance (v : MemView) : Decidable v.Bytewise := inferInstanceAs (Decidable (_ = _))

theorem bytewise_iff (v : MemView) : v.Bytewise ↔ v.itemSize = 1 ∨ v.len = 0 := by
  rw [Bytewise, length_bytes]
  constructor
  · intro h
    rcases Nat.eq_zero_or_pos v.len with h0 | hpos
    · exact .inr h0
    · exact .inl (Nat.eq_of_mul_eq_mul_right hpos (h.trans (Nat.one_mul _).symm))
  · rintro (h | h) <;> simp [h]

theorem bytewise_ofBytes (data : List UInt8) : (ofBytes data).Bytewise :=
  (bytewise_iff _).mpr (.inl rfl)

/-- A slice that is not empty is bytewise when the view is. -/
theorem bytewise_drop {v : MemView} {n : Nat} (hn : n < v.len) :
    (v.drop n).Bytewise ↔ v.Bytewise := by
  rw [bytewise_iff, bytewise_iff, itemSize_drop, len_drop]
  omega

theorem Bytewise.drop {v : MemView} (h : v.Bytewise) (n : Nat) : (v.drop n).Bytewise := by
  rw [bytewise_iff] at h ⊢
  rw [itemSize_drop, len_drop]
  omega

/-- Slicing a bytewise view slices its memory. -/
theorem Bytewise.bytes_drop {v : MemView} (h : v.Bytewise) (n : Nat) :
    (v.drop n).bytes = v.bytes.drop n := by
  have hsuffix : (v.drop n).bytes <:+ v.bytes := by
    refine ⟨(v.items.take n).flatten, ?_⟩
    show _ ++ (v.items.drop n).flatten = v.items.flatten
    rw [← List.flatten_append, List.take_append_drop]
  have hlen : (v.drop n).bytes.length = (v.bytes.drop n).length := by
    rw [h.drop n, len_drop, List.length_drop, h]
  exact List.IsSuffix.eq_of_length
    (List.suffix_of_suffix_length_le hsuffix (List.drop_suffix n _) (Nat.le_of_eq hlen)) hlen

/-- Counting bytes sent by items goes wrong with the first of them, unless all
are sent. -/
theorem eq_nil_of_append_drop {v : MemView} (hv : ¬ v.Bytewise) {sent : List UInt8}
    (hwhole : sent ++ (v.drop sent.length).bytes = v.bytes) (hne : sent ≠ v.bytes) : sent = [] := by
  rw [bytewise_iff, not_or] at hv
  have hlen := congrArg List.length hwhole
  rw [List.length_append, length_bytes, length_bytes, itemSize_drop, len_drop] at hlen
  rcases Nat.le_total sent.length v.len with hle | hge
  · obtain ⟨d, hd⟩ := Nat.exists_eq_add_of_le hle
    rw [hd, Nat.add_sub_cancel_left, Nat.mul_add] at hlen
    have hmul : v.itemSize * sent.length = 1 * sent.length := by omega
    rcases Nat.eq_zero_or_pos sent.length with h0 | hpos
    · exact List.length_eq_zero_iff.mp h0
    · exact absurd (Nat.eq_of_mul_eq_mul_right hpos hmul) hv.1
  · have hempty : (v.drop sent.length).bytes = [] := by
      rw [bytes_eq_nil_iff, len_drop]
      omega
    rw [hempty, List.append_nil] at hwhole
    exact absurd hwhole hne

end MemView

end Tokioop.Kit
