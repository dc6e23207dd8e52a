import Mathlib.Data.List.Basic

/-!
Bytes as text: the UTF-8 encoding, and the decoding that puts U+FFFD in the
place of every ill-formed subsequence, as `String::from_utf8_lossy` does.
-/

namespace Tokioop.Kit

def encode (text : List Char) : List UInt8 := text.flatMap String.utf8EncodeChar

@[simp] theorem encode_cons (c : Char) (text : List Char) :
    encode (c :: text) = String.utf8EncodeChar c ++ encode text := rfl

theorem encode_append (text more : List Char) :
    encode (text ++ more) = encode text ++ encode more := List.flatMap_append

/-! ### The first character -/

/-- The character a byte string begins with, when it begins with one. -/
def firstChar (bs : List UInt8) : Option Char := bs.toByteArray.utf8DecodeChar? 0

theorem firstChar_encodeChar (c : Char) (bs : List UInt8) :
    firstChar (String.utf8EncodeChar c ++ bs) = some c := by
  have h := ByteArray.utf8DecodeChar?_utf8EncodeChar_append (b := bs.toByteArray) (c := c)
  rwa [← List.toByteArray_append] at h

theorem eq_of_firstChar {bs : List UInt8} {c : Char} (h : firstChar bs = some c) :
    ∃ rest, bs = String.utf8EncodeChar c ++ rest := by
  obtain ⟨l, hl⟩ := ByteArray.exists_of_utf8DecodeChar?_eq_some h
  refine ⟨l.data.toList, ?_⟩
  have hlist := congrArg (fun b => b.data.toList) hl
  simpa [ByteArray.data_append] using hlist

/-- Whether a second byte may follow the first byte of a character of three or
four bytes. -/
def secondByte (b₀ b₁ : UInt8) : Bool :=
  (b₀ == 0xE0 && 0xA0 ≤ b₁ && b₁ ≤ 0xBF) ||
  (0xE1 ≤ b₀ && b₀ ≤ 0xEC && 0x80 ≤ b₁ && b₁ ≤ 0xBF) ||
  (b₀ == 0xED && 0x80 ≤ b₁ && b₁ ≤ 0x9F) ||
  (0xEE ≤ b₀ && b₀ ≤ 0xEF && 0x80 ≤ b₁ && b₁ ≤ 0xBF) ||
  (b₀ == 0xF0 && 0x90 ≤ b₁ && b₁ ≤ 0xBF) ||
  (0xF1 ≤ b₀ && b₀ ≤ 0xF3 && 0x80 ≤ b₁ && b₁ ≤ 0xBF) ||
  (b₀ == 0xF4 && 0x80 ≤ b₁ && b₁ ≤ 0x8F)

/-- How many bytes an ill-formed beginning takes: as many as could begin a
character, and one at least. -/
def illFormed : List UInt8 → Nat
  | b₀ :: b₁ :: rest =>
    if secondByte b₀ b₁ then
      match rest with
      | b₂ :: _ => if 0xF0 ≤ b₀ ∧ 0x80 ≤ b₂ ∧ b₂ ≤ 0xBF then 3 else 2
      | [] => 2
    else 1
  | _ => 1

/-! ### The lossy decoding -/

/-- The character to show at the head of a byte string and the bytes it takes. -/
def head (bs : List UInt8) : Char × Nat :=
  match firstChar bs with
  | some c => (c, (String.utf8EncodeChar c).length)
  | none => ('\uFFFD', illFormed bs)

/-- `skip` bytes still belong to the character shown last. -/
def lossy (skip : Nat) : List UInt8 → List Char
  | [] => []
  | b :: bs =>
    match skip with
    | skip + 1 => lossy skip bs
    | 0 => (head (b :: bs)).1 :: lossy ((head (b :: bs)).2 - 1) bs

def fromUtf8Lossy (bs : List UInt8) : List Char := lossy 0 bs

@[simp] theorem fromUtf8Lossy_nil : fromUtf8Lossy [] = [] := rfl

theorem lossy_eq_drop (skip : Nat) (bs : List UInt8) :
    lossy skip bs = fromUtf8Lossy (bs.drop skip) := by
  induction bs generalizing skip with
  | nil => rw [List.drop_nil]; rfl
  | cons b bs ih =>
    cases skip with
    | zero => rfl
    | succ skip => exact ih skip

theorem illFormed_pos (bs : List UInt8) : 0 < illFormed bs := by
  unfold illFormed
  split
  · split
    · split
      · split <;> decide
      · decide
    · decide
  · decide

theorem head_pos (bs : List UInt8) : 0 < (head bs).2 := by
  unfold head
  split
  · rw [String.length_utf8EncodeChar]
    exact Char.utf8Size_pos _
  · exact illFormed_pos bs

theorem fromUtf8Lossy_step {bs : List UInt8} (h : bs ≠ []) :
    fromUtf8Lossy bs = (head bs).1 :: fromUtf8Lossy (bs.drop (head bs).2) := by
  cases bs with
  | nil => exact absurd rfl h
  | cons b bs =>
    have hdrop : (b :: bs).drop (head (b :: bs)).2 = bs.drop ((head (b :: bs)).2 - 1) := by
      rw [← Nat.sub_add_cancel (head_pos (b :: bs))]
      rfl
    rw [hdrop, ← lossy_eq_drop]
    rfl

theorem encodeChar_ne_nil (c : Char) : String.utf8EncodeChar c ≠ [] := by
  intro h
  have hlen := String.length_utf8EncodeChar c
  rw [h] at hlen
  exact absurd hlen.symm (Nat.ne_of_gt c.utf8Size_pos)

theorem fromUtf8Lossy_encodeChar (c : Char) (bs : List UInt8) :
    fromUtf8Lossy (String.utf8EncodeChar c ++ bs) = c :: fromUtf8Lossy bs := by
  rw [fromUtf8Lossy_step (List.append_ne_nil_of_left_ne_nil (encodeChar_ne_nil c) bs), head,
    firstChar_encodeChar, List.drop_left]

/-- What follows a text is decoded on its own. -/
theorem fromUtf8Lossy_encode_append (text : List Char) (bs : List UInt8) :
    fromUtf8Lossy (encode text ++ bs) = text ++ fromUtf8Lossy bs := by
  induction text with
  | nil => rfl
  | cons c text ih =>
    rw [encode_cons, List.append_assoc, fromUtf8Lossy_encodeChar, ih, List.cons_append]

@[simp] theorem fromUtf8Lossy_encode (text : List Char) : fromUtf8Lossy (encode text) = text := by
  have h := fromUtf8Lossy_encode_append text []
  rwa [List.append_nil, fromUtf8Lossy_nil, List.append_nil] at h

theorem encode_injective : Function.Injective encode :=
  Function.LeftInverse.injective fromUtf8Lossy_encode

/-- A decoding without a replacement character loses nothing. -/
theorem encode_fromUtf8Lossy {bs : List UInt8} (h : '\uFFFD' ∉ fromUtf8Lossy bs) :
    encode (fromUtf8Lossy bs) = bs := by
  induction hn : bs.length using Nat.strongRecOn generalizing bs with
  | _ n ih =>
    by_cases hnil : bs = []
    · rw [hnil]
      rfl
    rw [fromUtf8Lossy_step hnil] at h ⊢
    obtain ⟨hhead, hrest⟩ := not_or.mp (mt List.mem_cons.mpr h)
    have hchar : ∃ c, firstChar bs = some c := by
      refine Option.ne_none_iff_exists'.mp fun hnone => hhead ?_
      rw [head, hnone]
    obtain ⟨c, hc⟩ := hchar
    obtain ⟨rest, rfl⟩ := eq_of_firstChar hc
    have hstep : head (String.utf8EncodeChar c ++ rest) =
        (c, (String.utf8EncodeChar c).length) := by
      rw [head, hc]
    rw [hstep, List.drop_left] at hrest ⊢
    rw [encode_cons, ih rest.length ?_ hrest rfl]
    rw [← hn, List.length_append, String.length_utf8EncodeChar]
    have hpos := c.utf8Size_pos
    omega

/-! ### A byte no character has -/

theorem firstChar_cons_ff (bs : List UInt8) : firstChar (0xFF :: bs) = none := by
  refine Option.not_isSome_iff_eq_none.mp fun hsome => ?_
  have hfirst := ByteArray.isUTF8FirstByte_of_isSome_utf8DecodeChar? hsome
  rw [List.getElem_toByteArray] at hfirst
  have hff : ¬ (0xFF : UInt8).IsUTF8FirstByte := by decide
  exact hff hfirst

/-- A byte 0xFF is shown as one replacement character. -/
theorem fromUtf8Lossy_cons_ff (bs : List UInt8) :
    fromUtf8Lossy (0xFF :: bs) = '\uFFFD' :: fromUtf8Lossy bs := by
  have hone : illFormed (0xFF :: bs) = 1 := by
    cases bs with
    | nil => rfl
    | cons b bs => simp [illFormed, secondByte]
  rw [fromUtf8Lossy_step (List.cons_ne_nil _ _), head, firstChar_cons_ff, hone]
  rfl

end Tokioop.Kit
