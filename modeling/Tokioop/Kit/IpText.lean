import Tokioop.Kit.Bytes

/-!
IP addresses as text. An IPv4 address is its four octets in decimal; an IPv6
address is its eight segments in hexadecimal, the longest run of zero segments
written `::`, and an IPv4-mapped one ends in the four octets. Every text is read
back to the address it was written for.
-/

namespace Tokioop.Kit

/-! ### Numerals -/

def digitValue (c : Char) : Nat := if c.isDigit then c.toNat - 48 else c.toNat - 87

def numeralValue (b : Nat) (cs : List Char) : Nat :=
  cs.foldl (fun n c => n * b + digitValue c) 0

theorem digitValue_digitChar {d : Nat} (hd : d < 16) : digitValue d.digitChar = d := by
  have hall : ∀ k : Fin 16, digitValue k.val.digitChar = k.val := by decide
  exact hall ⟨d, hd⟩

theorem numeralValue_toDigits {b : Nat} (hb : 1 < b) (hle : b ≤ 16) (n : Nat) :
    numeralValue b (Nat.toDigits b n) = n := by
  induction n using Nat.strongRecOn with
  | ind n ih =>
    by_cases hn : n < b
    · rw [Nat.toDigits_of_lt_base hn, numeralValue, List.foldl_cons, List.foldl_nil,
        digitValue_digitChar (hn.trans_le hle), Nat.zero_mul, Nat.zero_add]
    · have hpos : 0 < n := (Nat.zero_lt_of_lt hb).trans_le (Nat.not_lt.mp hn)
      have hmod : n % b < 16 := (Nat.mod_lt n (Nat.zero_lt_of_lt hb)).trans_le hle
      have hdiv : numeralValue b (Nat.toDigits b (n / b)) = n / b :=
        ih (n / b) (Nat.div_lt_self hpos hb)
      rw [Nat.toDigits_of_base_le hb (Nat.not_lt.mp hn), numeralValue, List.foldl_append]
      show numeralValue b (Nat.toDigits b (n / b)) * b + digitValue (n % b).digitChar = n
      rw [hdiv, digitValue_digitChar hmod, Nat.div_add_mod']

theorem exists_of_mem_toDigits {b : Nat} (hb : 1 < b) {n : Nat} {c : Char}
    (hc : c ∈ Nat.toDigits b n) : ∃ d < b, c = d.digitChar := by
  induction n using Nat.strongRecOn with
  | ind n ih =>
    by_cases hn : n < b
    · rw [Nat.toDigits_of_lt_base hn] at hc
      exact ⟨n, hn, List.mem_singleton.mp hc⟩
    · have hpos : 0 < n := (Nat.zero_lt_of_lt hb).trans_le (Nat.not_lt.mp hn)
      rw [Nat.toDigits_of_base_le hb (Nat.not_lt.mp hn), List.mem_append,
        List.mem_singleton] at hc
      rcases hc with hc | hc
      · exact ih (n / b) (Nat.div_lt_self hpos hb) hc
      · exact ⟨n % b, Nat.mod_lt n (Nat.zero_lt_of_lt hb), hc⟩

/-- A character that is no digit stands in no numeral. -/
theorem notMem_toDigits {b : Nat} (hb : 1 < b) (hle : b ≤ 16) {c : Char}
    (hc : ∀ k : Fin 16, c ≠ k.val.digitChar) (n : Nat) : c ∉ Nat.toDigits b n := by
  intro hmem
  obtain ⟨d, hd, heq⟩ := exists_of_mem_toDigits hb hmem
  exact hc ⟨d, hd.trans_le hle⟩ heq

/-- Numbers in base `b`, with a separator between them. -/
def numerals (sep : Char) (b : Nat) (l : List Nat) : List Char :=
  [sep].intercalate (l.map (Nat.toDigits b))

theorem notMem_numerals {sep c : Char} {b : Nat} (hb : 1 < b) (hle : b ≤ 16) (hsep : c ≠ sep)
    (hc : ∀ k : Fin 16, c ≠ k.val.digitChar) (l : List Nat) : c ∉ numerals sep b l := by
  induction l with
  | nil => exact List.not_mem_nil
  | cons n l ih =>
    cases l with
    | nil =>
      rw [numerals, List.map_singleton, List.intercalate_singleton]
      exact notMem_toDigits hb hle hc n
    | cons m l =>
      rw [numerals, List.map_cons, List.map_cons, List.intercalate_cons_cons, List.mem_append,
        List.mem_append, List.mem_singleton]
      rintro ((hmem | heq) | hmem)
      · exact notMem_toDigits hb hle hc n hmem
      · exact hsep heq
      · exact ih hmem

/-- The groups between the separators, where an empty list of numbers leaves
one empty group. -/
def groups (b : Nat) (l : List Nat) : List (List Char) :=
  if l = [] then [[]] else l.map (Nat.toDigits b)

theorem splitOn_numerals {sep : Char} {b : Nat} (hb : 1 < b) (hle : b ≤ 16)
    (hsep : ∀ k : Fin 16, sep ≠ k.val.digitChar) (l : List Nat) :
    (numerals sep b l).splitOn sep = groups b l := by
  by_cases hl : l = []
  · subst hl
    rfl
  · rw [groups, if_neg hl, numerals, List.splitOn_intercalate sep _ (by simpa using hl)]
    intro digits hdigits
    obtain ⟨n, -, rfl⟩ := List.mem_map.mp hdigits
    exact notMem_toDigits hb hle hsep n

theorem map_numeralValue {b : Nat} (hb : 1 < b) (hle : b ≤ 16) (l : List Nat) :
    (l.map (Nat.toDigits b)).map (numeralValue b) = l := by
  rw [List.map_map]
  exact (List.map_congr_left fun n _ => numeralValue_toDigits hb hle n).trans (List.map_id _)

/-! ### IPv4 -/

namespace Ipv4Addr

def octets (ip : Nat) : List Nat := beDigits 256 4 ip

/-- `Display` of `Ipv4Addr`. -/
def display (octets : List Nat) : List Char := numerals '.' 10 octets

/-- The octets a text was written for. -/
def read (text : List Char) : List Nat := (text.splitOn '.').map (numeralValue 10)

theorem read_display {octets : List Nat} (h : octets ≠ []) : read (display octets) = octets := by
  rw [read, display, splitOn_numerals (by decide) (by decide) (by decide), groups, if_neg h,
    map_numeralValue (by decide) (by decide)]

end Ipv4Addr

/-! ### IPv6 -/

namespace Ipv6Addr

def octets (ip : Nat) : List Nat := beDigits 256 16 ip

def segments (ip : Nat) : List Nat := beDigits 65536 8 ip

/-- The octets every IPv4-mapped address begins with. -/
def mapped : List Nat := [0, 0, 0, 0, 0, 0, 0, 0, 0, 0, 255, 255]

def toIpv4Mapped (ip : Nat) : Option (List Nat) :=
  if (octets ip).take 12 = mapped then some ((octets ip).drop 12) else none

/-- A run of zero segments. -/
structure Span where
  start : Nat
  len : Nat
  deriving DecidableEq, Repr

/-- The run with the zero segment at an index after it. -/
def Span.grow (span : Span) (i : Nat) : Span :=
  ⟨if span.len = 0 then i else span.start, span.len + 1⟩

/-- The loop that looks for the longest run, the first of several: the index of
the next segment, the run it may extend and the longest one so far. -/
def scan (i : Nat) (current longest : Span) : List Nat → Span
  | [] => longest
  | segment :: rest =>
    if segment = 0 then
      scan (i + 1) (current.grow i)
        (if longest.len < (current.grow i).len then current.grow i else longest) rest
    else scan (i + 1) ⟨0, 0⟩ longest rest

def zeroes (segments : List Nat) : Span := scan 0 ⟨0, 0⟩ ⟨0, 0⟩ segments

/-- `Display` of `Ipv6Addr`. -/
def display (ip : Nat) : List Char :=
  match toIpv4Mapped ip with
  | some octets => "::ffff:".toList ++ Ipv4Addr.display octets
  | none =>
    let zeroes := zeroes (segments ip)
    if 1 < zeroes.len then
      numerals ':' 16 ((segments ip).take zeroes.start) ++ [':', ':'] ++
        numerals ':' 16 ((segments ip).drop (zeroes.start + zeroes.len))
    else numerals ':' 16 (segments ip)

/-- The groups before the first empty one. -/
def leading (groups : List (List Char)) : List (List Char) := groups.takeWhile fun g => !g.isEmpty

/-- Eight segments, zeros in the place of those left out. -/
def fill (front back : List Nat) : List Nat :=
  front ++ List.replicate (8 - front.length - back.length) 0 ++ back

def readGroups (groups : List (List Char)) : List Nat :=
  if [] ∈ groups then
    fill ((leading groups).map (numeralValue 16))
      ((leading groups.reverse).reverse.map (numeralValue 16))
  else groups.map (numeralValue 16)

def readSegments (text : List Char) : List Nat := readGroups (text.splitOn ':')

/-- The address a text was written for. -/
def read (text : List Char) : Nat :=
  if '.' ∈ text then ofBeDigits 256 (mapped ++ Ipv4Addr.read (text.drop 7))
  else ofBeDigits 65536 (readSegments text)

/-! The run of zeros that is left out. -/

/-- A span marks zeros of a list. -/
def Span.Zero (span : Span) (l : List Nat) : Prop :=
  ∃ a b, l = a ++ List.replicate span.len 0 ++ b ∧ a.length = span.start

theorem Span.Zero.append {span : Span} {l : List Nat} (h : span.Zero l) (m : List Nat) :
    span.Zero (l ++ m) := by
  obtain ⟨a, b, rfl, ha⟩ := h
  exact ⟨a, b ++ m, by rw [List.append_assoc], ha⟩

theorem zero_scan (rest : List Nat) : ∀ (before : List Nat) (current longest : Span),
    (current.len = 0 ∨ ∃ a, before = a ++ List.replicate current.len 0 ∧
      a.length = current.start) →
    longest.Zero before →
    (scan before.length current longest rest).Zero (before ++ rest) := by
  induction rest with
  | nil =>
    intro before current longest _ hlongest
    rwa [List.append_nil]
  | cons segment rest ih =>
    intro before current longest hcurrent hlongest
    have hnext := ih (before ++ [segment])
    rw [List.length_append, List.length_singleton, List.append_assoc] at hnext
    unfold scan
    split
    · rename_i hzero
      subst hzero
      have hgrown : ∃ a, before ++ [0] = a ++ List.replicate (current.grow before.length).len 0 ∧
          a.length = (current.grow before.length).start := by
        show ∃ a, before ++ [0] = a ++ List.replicate (current.len + 1) 0 ∧
          a.length = if current.len = 0 then before.length else current.start
        rcases hcurrent with hnone | ⟨a, rfl, ha⟩
        · exact ⟨before, by rw [hnone]; rfl, by rw [if_pos hnone]⟩
        · refine ⟨a, by rw [List.replicate_succ', List.append_assoc], ?_⟩
          split
          · rename_i hnone
            rw [hnone, List.replicate_zero, List.append_nil]
          · exact ha
      refine hnext _ _ (.inr hgrown) ?_
      split
      · obtain ⟨a, heq, ha⟩ := hgrown
        exact ⟨a, [], by rw [List.append_nil]; exact heq, ha⟩
      · exact hlongest.append _
    · exact hnext _ _ (.inl rfl) (hlongest.append _)

theorem zero_zeroes (segments : List Nat) : (zeroes segments).Zero segments :=
  zero_scan segments [] ⟨0, 0⟩ ⟨0, 0⟩ (.inl rfl) ⟨[], [], rfl, rfl⟩

/-! Reading back. -/

theorem leading_groups (l : List Nat) (more : List (List Char)) :
    leading (groups 16 l ++ [] :: more) = l.map (Nat.toDigits 16) := by
  by_cases hl : l = []
  · subst hl
    rfl
  · rw [leading, groups, if_neg hl, List.takeWhile_append_of_pos,
      List.takeWhile_cons_of_neg (by decide), List.append_nil]
    intro g hg
    obtain ⟨n, -, rfl⟩ := List.mem_map.mp hg
    rw [Bool.not_eq_true', List.isEmpty_eq_false_iff]
    exact Nat.toDigits_ne_nil

theorem reverse_groups (l : List Nat) : (groups 16 l).reverse = groups 16 l.reverse := by
  by_cases hl : l = []
  · subst hl
    rfl
  · rw [groups, groups, if_neg hl, if_neg (by simpa using hl), List.map_reverse]

theorem readSegments_compressed {a b : List Nat} {k : Nat} (h : a.length + k + b.length = 8) :
    readSegments (numerals ':' 16 a ++ [':', ':'] ++ numerals ':' 16 b) =
      a ++ List.replicate k 0 ++ b := by
  have hgroups : (numerals ':' 16 a ++ [':', ':'] ++ numerals ':' 16 b).splitOn ':' =
      groups 16 a ++ [] :: groups 16 b := by
    rw [List.append_assoc, List.cons_append, List.splitOn_append_cons_self,
      splitOn_numerals (by decide) (by decide) (by decide)]
    show groups 16 a ++ ([] ++ ':' :: numerals ':' 16 b).splitOn ':' = _
    rw [List.splitOn_append_cons_self, splitOn_numerals (by decide) (by decide) (by decide)]
    rfl
  have hback : leading (groups 16 a ++ [] :: groups 16 b).reverse =
      (b.map (Nat.toDigits 16)).reverse := by
    rw [List.reverse_append, List.reverse_cons, List.append_assoc, List.singleton_append,
      reverse_groups, leading_groups, List.map_reverse]
  have hfill : fill a b = a ++ List.replicate k 0 ++ b := by
    rw [fill, show 8 - a.length - b.length = k by omega]
  rw [readSegments, hgroups, readGroups, if_pos (List.mem_append_right _ List.mem_cons_self),
    hback, leading_groups, List.reverse_reverse, map_numeralValue (by decide) (by decide),
    map_numeralValue (by decide) (by decide), hfill]

theorem readSegments_plain {l : List Nat} (h : l ≠ []) :
    readSegments (numerals ':' 16 l) = l := by
  have hgroups : (numerals ':' 16 l).splitOn ':' = l.map (Nat.toDigits 16) := by
    rw [splitOn_numerals (by decide) (by decide) (by decide), groups, if_neg h]
  have hfull : [] ∉ l.map (Nat.toDigits 16) := by
    rw [List.mem_map]
    rintro ⟨n, -, hn⟩
    exact Nat.toDigits_ne_nil hn
  rw [readSegments, hgroups, readGroups, if_neg hfull, map_numeralValue (by decide) (by decide)]

theorem dot_notMem (l : List Nat) : '.' ∉ numerals ':' 16 l :=
  notMem_numerals (by decide) (by decide) (by decide) (by decide) l

theorem length_segments {ip : Nat} (h : ip < 2 ^ 128) : (segments ip).length = 8 :=
  length_beDigits (by decide) (h.trans_eq (by norm_num))

theorem display_of_none {ip : Nat} (h : toIpv4Mapped ip = none) :
    display ip =
      if 1 < (zeroes (segments ip)).len then
        numerals ':' 16 ((segments ip).take (zeroes (segments ip)).start) ++ [':', ':'] ++
          numerals ':' 16
            ((segments ip).drop ((zeroes (segments ip)).start + (zeroes (segments ip)).len))
      else numerals ':' 16 (segments ip) := by
  simp only [display, h]

/-- The text of an address that is not IPv4-mapped spells its segments. -/
theorem read_display_segments {ip : Nat} (hip : ip < 2 ^ 128) (h : toIpv4Mapped ip = none) :
    read (display ip) = ip := by
  have hlength := length_segments hip
  obtain ⟨a, b, heq, ha⟩ := zero_zeroes (segments ip)
  have htext : '.' ∉ display ip ∧ readSegments (display ip) = segments ip := by
    rw [display_of_none h]
    generalize hz : zeroes (segments ip) = z at heq ha ⊢
    split
    · have hfront : (segments ip).take z.start = a := by
        rw [heq, ← ha, List.append_assoc, List.take_left]
      have hback : (segments ip).drop (z.start + z.len) = b := by
        rw [heq, ← ha, List.drop_left' (by rw [List.length_append, List.length_replicate])]
      rw [hfront, hback]
      refine ⟨?_, ?_⟩
      · rw [List.mem_append, List.mem_append]
        rintro ((hmem | hmem) | hmem)
        · exact dot_notMem _ hmem
        · exact absurd hmem (by decide)
        · exact dot_notMem _ hmem
      · rw [heq]
        refine readSegments_compressed ?_
        rw [heq, List.length_append, List.length_append, List.length_replicate] at hlength
        exact hlength
    · refine ⟨dot_notMem _, readSegments_plain fun hnil => ?_⟩
      rw [hnil] at hlength
      cases hlength
  rw [read, if_neg htext.1, htext.2, segments, ofBeDigits_beDigits]

theorem toIpv4Mapped_some {ip : Nat} {l : List Nat} (hip : ip < 2 ^ 128)
    (h : toIpv4Mapped ip = some l) : octets ip = mapped ++ l ∧ l.length = 4 := by
  have hlength : (octets ip).length = 16 :=
    length_beDigits (by decide) (hip.trans_eq (by norm_num))
  rw [toIpv4Mapped] at h
  split at h
  · rename_i htake
    cases h
    rw [← htake, List.take_append_drop, List.length_drop, hlength]
    exact ⟨rfl, rfl⟩
  · cases h

/-- The text of an IPv4-mapped address spells its last four octets. -/
theorem read_display_mapped {ip : Nat} (hip : ip < 2 ^ 128) {l : List Nat}
    (h : toIpv4Mapped ip = some l) : read (display ip) = ip := by
  obtain ⟨hoctets, hlength⟩ := toIpv4Mapped_some hip h
  have hne : l ≠ [] := by
    rintro rfl
    cases hlength
  have hdot : '.' ∈ Ipv4Addr.display l := by
    obtain ⟨a, b, c, rfl⟩ : ∃ a b c, l = a :: b :: c := by
      match l, hlength with
      | a :: b :: c, _ => exact ⟨a, b, c, rfl⟩
    rw [Ipv4Addr.display, numerals, List.map_cons, List.map_cons, List.intercalate_cons_cons]
    exact List.mem_append_left _ (List.mem_append_right _ List.mem_cons_self)
  have hdisplay : display ip = "::ffff:".toList ++ Ipv4Addr.display l := by
    simp only [display, h]
  have hdrop : ("::ffff:".toList ++ Ipv4Addr.display l).drop 7 = Ipv4Addr.display l :=
    List.drop_left' (by decide)
  rw [read, hdisplay, if_pos (List.mem_append_right _ hdot), hdrop, Ipv4Addr.read_display hne,
    ← hoctets, octets, ofBeDigits_beDigits]

/-- **The text of an IPv6 address is read back to it.** -/
theorem read_display {ip : Nat} (hip : ip < 2 ^ 128) : read (display ip) = ip := by
  cases h : toIpv4Mapped ip with
  | none => exact read_display_segments hip h
  | some octets => exact read_display_mapped hip h

end Ipv6Addr

end Tokioop.Kit
