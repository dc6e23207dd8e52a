import Mathlib.Data.Nat.Digits.Lemmas

/-!
Numbers as strings of digits of a fixed length, and the order in which a host
keeps the bytes of a word.

The digits are Mathlib's, most significant first; a byte string is the digits
of a number in base 256. Network order is that order, and a host stores a word
in it or reversed.
-/

namespace Tokioop.Kit

/-! ### Digits -/

/-- The `k` digits of a number in base `b`, most significant first. -/
def beDigits (b k n : Nat) : List Nat := (Nat.digitsAppend b k n).reverse

def ofBeDigits (b : Nat) (l : List Nat) : Nat := Nat.ofDigits b l.reverse

@[simp] theorem ofBeDigits_beDigits (b k n : Nat) : ofBeDigits b (beDigits b k n) = n := by
  rw [ofBeDigits, beDigits, List.reverse_reverse, Nat.digitsAppend,
    Nat.ofDigits_append_replicate_zero, Nat.ofDigits_digits]

theorem beDigits_ofBeDigits {b : Nat} (hb : 1 < b) {l : List Nat} (hl : ∀ d ∈ l, d < b) :
    beDigits b l.length (ofBeDigits b l) = l := by
  have hinv : Nat.digitsAppend b l.length (Nat.ofDigits b l.reverse) = l.reverse :=
    (Nat.setInvOn_digitsAppend_ofDigits hb l.length).1
      ⟨l.length_reverse, fun d hd => hl d (List.mem_reverse.mp hd)⟩
  rw [beDigits, ofBeDigits, hinv, List.reverse_reverse]

theorem length_beDigits {b k n : Nat} (hb : 1 < b) (hn : n < b ^ k) :
    (beDigits b k n).length = k := by
  rw [beDigits, List.length_reverse, Nat.length_digitsAppend hb k hn]

theorem lt_of_mem_beDigits {b k n d : Nat} (hb : 1 < b) (hd : d ∈ beDigits b k n) : d < b :=
  Nat.lt_of_mem_digitsAppend hb k d (List.mem_reverse.mp hd)

theorem ofBeDigits_lt {b : Nat} (hb : 1 < b) {l : List Nat} (hl : ∀ d ∈ l, d < b) :
    ofBeDigits b l < b ^ l.length := by
  have h := Nat.ofDigits_lt_base_pow_length hb fun d hd => hl d (List.mem_reverse.mp hd)
  rwa [List.length_reverse] at h

/-! ### Byte strings -/

/-- The bytes of a number of `k` bytes in network order. -/
def beBytes (k n : Nat) : List UInt8 := (beDigits 256 k n).map UInt8.ofNat

/-- The number a byte string spells in network order. -/
def beNat (bs : List UInt8) : Nat := ofBeDigits 256 (bs.map UInt8.toNat)

theorem length_beBytes {k n : Nat} (hn : n < 256 ^ k) : (beBytes k n).length = k := by
  rw [beBytes, List.length_map, length_beDigits (by decide) hn]

@[simp] theorem beNat_beBytes (k n : Nat) : beNat (beBytes k n) = n := by
  have hmap : (beBytes k n).map UInt8.toNat = beDigits 256 k n := by
    rw [beBytes, List.map_map]
    refine (List.map_congr_left fun d hd => ?_).trans (List.map_id _)
    exact UInt8.toNat_ofNat_of_lt' (lt_of_mem_beDigits (by decide) hd)
  rw [beNat, hmap, ofBeDigits_beDigits]

theorem toNat_lt_of_mem (bs : List UInt8) : ∀ d ∈ bs.map UInt8.toNat, d < 256 := by
  intro d hd
  obtain ⟨x, -, rfl⟩ := List.mem_map.mp hd
  exact x.toNat_lt

theorem beNat_lt (bs : List UInt8) : beNat bs < 256 ^ bs.length := by
  have h := ofBeDigits_lt (by decide) (toNat_lt_of_mem bs)
  rwa [List.length_map] at h

theorem beBytes_beNat (bs : List UInt8) : beBytes bs.length (beNat bs) = bs := by
  have h := beDigits_ofBeDigits (by decide) (toNat_lt_of_mem bs)
  rw [List.length_map] at h
  rw [beBytes, beNat, h, List.map_map]
  exact (List.map_congr_left fun x _ => UInt8.ofNat_toNat).trans (List.map_id _)

/-! ### Byte order -/

/-- How a host keeps the bytes of a word. -/
inductive Endian
  | little
  | big
  deriving DecidableEq, Repr

namespace Endian

/-- Between network order and the host's, either way. -/
def order (e : Endian) (bs : List UInt8) : List UInt8 :=
  match e with
  | .little => bs.reverse
  | .big => bs

/-- The bytes a host stores a word of `k` bytes as. -/
def store (e : Endian) (k n : Nat) : List UInt8 := e.order (beBytes k n)

/-- The word a host reads from its bytes. -/
def load (e : Endian) (bs : List UInt8) : Nat := beNat (e.order bs)

/-- `from_be` of a word of `k` bytes: the bytes are swapped on a little-endian
host and left alone on a big-endian one. -/
def fromBe (e : Endian) (k n : Nat) : Nat :=
  match e with
  | .little => beNat (beBytes k n).reverse
  | .big => n

@[simp] theorem order_order (e : Endian) (bs : List UInt8) : e.order (e.order bs) = bs := by
  cases e with
  | little => exact bs.reverse_reverse
  | big => rfl

@[simp] theorem length_order (e : Endian) (bs : List UInt8) : (e.order bs).length = bs.length := by
  cases e with
  | little => exact bs.length_reverse
  | big => rfl

theorem length_store (e : Endian) {k n : Nat} (hn : n < 256 ^ k) : (e.store k n).length = k := by
  rw [store, length_order, length_beBytes hn]

@[simp] theorem load_store (e : Endian) (k n : Nat) : e.load (e.store k n) = n := by
  rw [load, store, order_order, beNat_beBytes]

/-- Reading a field the host's way and swapping it gives the number its bytes
spell in network order. -/
theorem fromBe_load (e : Endian) {k : Nat} {bs : List UInt8} (hk : bs.length = k) :
    e.fromBe k (e.load bs) = beNat bs := by
  cases e with
  | little =>
    have hswap : beBytes k (beNat bs.reverse) = bs.reverse := by
      rw [← hk, ← List.length_reverse, beBytes_beNat]
    rw [fromBe, load, order, hswap, List.reverse_reverse]
  | big => rfl

end Endian

end Tokioop.Kit
