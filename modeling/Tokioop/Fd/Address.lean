import Tokioop.Fd.Reactor
import Tokioop.Kit.IpText
import Tokioop.Kit.Utf8

/-!
Datagram source addresses: `in6_addr_bytes` and `parse_addr` of `fd_unix.rs`
and `addr_to_py` of `event_loop.rs`.

A socket address is a string of bytes, laid out as Linux lays it out, and only
the bytes the parser may look at are given to it: a read outside them fails.
-/

namespace Tokioop.Fd

open Kit

/-! ### The parser -/

def AF_UNIX : Nat := 1

def AF_INET : Nat := 2

def AF_INET6 : Nat := 10

/-- Where `sun_path` begins in a `sockaddr_un`, and its size. -/
def sunPathOffset : Nat := 2

def sunPathSize : Nat := 108

/-- The bytes of a field; `none` for a read past the end of the memory. -/
def readAt (memory : List UInt8) (offset size : Nat) : Option (List UInt8) :=
  if offset + size ≤ memory.length then some ((memory.drop offset).take size) else none

def in6AddrBytes (memory : List UInt8) : Option (List UInt8) := readAt memory 8 16

/-- The `AF_UNIX` branch of `parse_addr`, once the path is sliced out. -/
def parsePath (raw : List UInt8) : AddrRepr :=
  match raw with
  | [] => .unnamed
  | b :: _ =>
    if b = 0 then .unix raw
    else
      let stop := raw.findIdx fun b => b == 0
      if stop = 0 then .unnamed else .unix (raw.take stop)

/-- `parse_addr`, on a host that keeps its words as `e` says. -/
def parseAddr (e : Endian) (memory : List UInt8) (len : Nat) : Option AddrRepr := do
  let family ← readAt memory 0 2
  if e.load family = AF_INET then
    let addr ← readAt memory 4 4
    let port ← readAt memory 2 2
    return .inet4 (.ofNat 32 (e.fromBe 4 (e.load addr))) (.ofNat 16 (e.fromBe 2 (e.load port)))
  else if e.load family = AF_INET6 then
    let addr ← in6AddrBytes memory
    let port ← readAt memory 2 2
    let flowinfo ← readAt memory 4 4
    let scopeId ← readAt memory 24 4
    return .inet6 (.ofNat 128 (beNat addr)) (.ofNat 16 (e.fromBe 2 (e.load port)))
      (.ofNat 32 (e.fromBe 4 (e.load flowinfo))) (.ofNat 32 (e.load scopeId))
  else if e.load family = AF_UNIX then
    let raw ← readAt memory sunPathOffset (min (len - sunPathOffset) sunPathSize)
    return parsePath raw
  else return .unnamed

/-! ### The Python value -/

/-- A source address as Python sees it. -/
inductive PyAddr
  | pair (host : String) (port : Nat)
  | quad (host : String) (port flowinfo scopeId : Nat)
  | bytes (name : List UInt8)
  | str (path : String)
  | none
  deriving DecidableEq, Repr

def addrToPy : AddrRepr → PyAddr
  | .inet4 ip port => .pair (.ofList (Ipv4Addr.display (Ipv4Addr.octets ip.toNat))) port.toNat
  | .inet6 ip port flowinfo scopeId =>
    .quad (.ofList (Ipv6Addr.display ip.toNat)) port.toNat flowinfo.toNat scopeId.toNat
  | .unix path => if path.head? = some 0 then .bytes path else .str (.ofList (fromUtf8Lossy path))
  | .unnamed => .none

/-- `os.fsencode`, of a string without surrogates. -/
def fsencode (path : String) : List UInt8 := encode path.toList

namespace PyAddr

/-- The address a value stands for, as Python would send to it. -/
def source : PyAddr → AddrRepr
  | .pair host port =>
    .inet4 (.ofNat 32 (ofBeDigits 256 (Ipv4Addr.read host.toList))) (.ofNat 16 port)
  | .quad host port flowinfo scopeId =>
    .inet6 (.ofNat 128 (Ipv6Addr.read host.toList)) (.ofNat 16 port) (.ofNat 32 flowinfo)
      (.ofNat 32 scopeId)
  | .bytes name => .unix name
  | .str path => .unix (fsencode path)
  | .none => .unnamed

/-- No replacement character stands in the value. -/
def Plain (v : PyAddr) : Prop := ∀ path, v = .str path → '\uFFFD' ∉ path.toList

end PyAddr

theorem ofNat_toNat {w : Nat} (x : BitVec w) : BitVec.ofNat w x.toNat = x := by
  rw [BitVec.ofNat_toNat, BitVec.setWidth_eq]

/-- A value without a replacement character stands for the address it was made
from. -/
theorem source_addrToPy {r : AddrRepr} (h : (addrToPy r).Plain) : (addrToPy r).source = r := by
  cases r with
  | inet4 ip port =>
    have hlength : (Ipv4Addr.octets ip.toNat).length = 4 :=
      length_beDigits (by decide) (ip.isLt.trans_eq (by norm_num))
    have hne : Ipv4Addr.octets ip.toNat ≠ [] := by
      intro hnil
      rw [hnil] at hlength
      cases hlength
    simp only [addrToPy, PyAddr.source, String.toList_ofList, Ipv4Addr.read_display hne]
    rw [Ipv4Addr.octets, ofBeDigits_beDigits, ofNat_toNat, ofNat_toNat]
  | inet6 ip port flowinfo scopeId =>
    simp only [addrToPy, PyAddr.source, String.toList_ofList, Ipv6Addr.read_display ip.isLt,
      ofNat_toNat]
  | unix path =>
    by_cases hnul : path.head? = some 0
    · rw [addrToPy, if_pos hnul, PyAddr.source]
    · rw [addrToPy, if_neg hnul] at h ⊢
      have hplain := h _ rfl
      rw [String.toList_ofList] at hplain
      rw [PyAddr.source, fsencode, String.toList_ofList, encode_fromUtf8Lossy hplain]
  | unnamed => rfl

/-! ### The addresses of a peer -/

/-- A filesystem path that fits into `sun_path`. -/
@[ext] structure SunPath where
  bytes : List UInt8
  nonempty : bytes ≠ []
  fits : bytes.length ≤ sunPathSize
  noNul : 0 ∉ bytes

/-- An abstract name, without the NUL it begins with. -/
@[ext] structure AbstractName where
  bytes : List UInt8
  fits : bytes.length < sunPathSize

inductive Peer
  | inet4 (ip : BitVec 32) (port : BitVec 16)
  | inet6 (ip : BitVec 128) (port : BitVec 16) (flowinfo scopeId : BitVec 32)
  | unixPath (path : SunPath)
  | unixAbstract (name : AbstractName)

namespace Peer

/-- The bytes the kernel writes for a peer, as many as it reports: the port,
the address and the flow information in network order, the family and the scope
as the host keeps them. A path may come with the NUL that ends it. -/
def sockaddr (e : Endian) (terminated : Bool) : Peer → List UInt8
  | .inet4 ip port =>
    e.store 2 AF_INET ++ (beBytes 2 port.toNat ++ (beBytes 4 ip.toNat ++ List.replicate 8 0))
  | .inet6 ip port flowinfo scopeId =>
    e.store 2 AF_INET6 ++ (beBytes 2 port.toNat ++ (beBytes 4 flowinfo.toNat ++
      (beBytes 16 ip.toNat ++ e.store 4 scopeId.toNat)))
  | .unixPath path => e.store 2 AF_UNIX ++ (path.bytes ++ if terminated then [0] else [])
  | .unixAbstract name => e.store 2 AF_UNIX ++ 0 :: name.bytes

/-- The Python address of a datagram from the peer. The parser is given the
bytes within the reported length and the path field, with any others after them,
or none. -/
def received (e : Endian) (p : Peer) (terminated : Bool) (rest : List UInt8) : Option PyAddr :=
  (parseAddr e ((p.sockaddr e terminated).take (sunPathOffset + sunPathSize) ++ rest)
    (p.sockaddr e terminated).length).map addrToPy

def addrRepr : Peer → AddrRepr
  | .inet4 ip port => .inet4 ip port
  | .inet6 ip port flowinfo scopeId => .inet6 ip port flowinfo scopeId
  | .unixPath path => .unix path.bytes
  | .unixAbstract name => .unix (0 :: name.bytes)

/-- The path of a peer, when it has one, is UTF-8 and shows no replacement
character. -/
def Plain : Peer → Prop
  | .unixPath path => ∃ text, path.bytes = encode text ∧ '\uFFFD' ∉ text
  | _ => True

end Peer

/-! ### What the parser reads -/

theorem readAt_skip {w : List UInt8} {k : Nat} (hw : w.length = k) (m : List UInt8)
    (offset size : Nat) : readAt (w ++ m) (k + offset) size = readAt m offset size := by
  subst hw
  rw [readAt, readAt, List.length_append, List.drop_append]
  by_cases h : offset + size ≤ m.length
  · rw [if_pos h, if_pos (by omega), List.drop_eq_nil_of_le (Nat.le_add_right _ _),
      List.nil_append, Nat.add_sub_cancel_left]
  · rw [if_neg h, if_neg (by omega)]

theorem readAt_head {x : List UInt8} {size : Nat} (hx : x.length = size) (m : List UInt8) :
    readAt (x ++ m) 0 size = some x := by
  subst hx
  rw [readAt, if_pos (by simp), List.drop_zero, List.take_left]

theorem bitVec_lt {w k : Nat} (hw : 2 ^ w = 256 ^ k) (x : BitVec w) : x.toNat < 256 ^ k :=
  x.isLt.trans_eq hw

/-- A field in network order is read as the number it spells. -/
theorem fromBe_field (e : Endian) {w k : Nat} (hw : 2 ^ w = 256 ^ k) (x : BitVec w) :
    BitVec.ofNat w (e.fromBe k (e.load (beBytes k x.toNat))) = x := by
  rw [Endian.fromBe_load e (length_beBytes (bitVec_lt hw x)), beNat_beBytes, ofNat_toNat]

theorem parseAddr_inet (e : Endian) (m : List UInt8) (len : Nat) :
    parseAddr e (e.store 2 AF_INET ++ m) len = do
      let addr ← readAt m 2 4
      let port ← readAt m 0 2
      return .inet4 (.ofNat 32 (e.fromBe 4 (e.load addr)))
        (.ofNat 16 (e.fromBe 2 (e.load port))) := by
  have hw : (e.store 2 AF_INET).length = 2 := e.length_store (by decide)
  have haddr : readAt (e.store 2 AF_INET ++ m) 4 4 = readAt m 2 4 := readAt_skip hw m 2 4
  have hport : readAt (e.store 2 AF_INET ++ m) 2 2 = readAt m 0 2 := readAt_skip hw m 0 2
  rw [parseAddr, readAt_head hw, haddr, hport, Option.bind_eq_bind, Option.bind_some,
    Endian.load_store, if_pos rfl]

theorem parseAddr_inet6 (e : Endian) (m : List UInt8) (len : Nat) :
    parseAddr e (e.store 2 AF_INET6 ++ m) len = do
      let addr ← readAt m 6 16
      let port ← readAt m 0 2
      let flowinfo ← readAt m 2 4
      let scopeId ← readAt m 22 4
      return .inet6 (.ofNat 128 (beNat addr)) (.ofNat 16 (e.fromBe 2 (e.load port)))
        (.ofNat 32 (e.fromBe 4 (e.load flowinfo))) (.ofNat 32 (e.load scopeId)) := by
  have hw : (e.store 2 AF_INET6).length = 2 := e.length_store (by decide)
  have haddr : in6AddrBytes (e.store 2 AF_INET6 ++ m) = readAt m 6 16 := readAt_skip hw m 6 16
  have hport : readAt (e.store 2 AF_INET6 ++ m) 2 2 = readAt m 0 2 := readAt_skip hw m 0 2
  have hflow : readAt (e.store 2 AF_INET6 ++ m) 4 4 = readAt m 2 4 := readAt_skip hw m 2 4
  have hscope : readAt (e.store 2 AF_INET6 ++ m) 24 4 = readAt m 22 4 := readAt_skip hw m 22 4
  rw [parseAddr, readAt_head hw, haddr, hport, hflow, hscope, Option.bind_eq_bind,
    Option.bind_some, Endian.load_store, if_neg (by decide), if_pos rfl]

theorem parseAddr_unix (e : Endian) (m : List UInt8) (len : Nat) :
    parseAddr e (e.store 2 AF_UNIX ++ m) len =
      (readAt m 0 (min (len - sunPathOffset) sunPathSize)).map parsePath := by
  have hw : (e.store 2 AF_UNIX).length = 2 := e.length_store (by decide)
  have hpath : ∀ size, readAt (e.store 2 AF_UNIX ++ m) sunPathOffset size = readAt m 0 size :=
    readAt_skip hw m 0
  rw [parseAddr, readAt_head hw, hpath, Option.bind_eq_bind, Option.bind_some,
    Endian.load_store, if_neg (by decide), if_neg (by decide), if_pos rfl, Option.map_eq_bind]
  rfl

/-- The slice of the path field holds the bytes after the family, as far as the
field goes. -/
theorem parseAddr_sunPath (e : Endian) (raw rest : List UInt8) :
    parseAddr e ((e.store 2 AF_UNIX ++ raw).take (sunPathOffset + sunPathSize) ++ rest)
      (e.store 2 AF_UNIX ++ raw).length = some (parsePath (raw.take sunPathSize)) := by
  have hw : (e.store 2 AF_UNIX).length = sunPathOffset := e.length_store (by decide)
  have hlen : min ((e.store 2 AF_UNIX ++ raw).length - sunPathOffset) sunPathSize =
      (raw.take sunPathSize).length := by
    rw [List.length_append, hw, Nat.add_sub_cancel_left, List.length_take, Nat.min_comm]
  have htake : (e.store 2 AF_UNIX ++ raw).take (sunPathOffset + sunPathSize) =
      e.store 2 AF_UNIX ++ raw.take sunPathSize := by
    rw [← hw, List.take_length_add_append]
  rw [htake, List.append_assoc, parseAddr_unix, hlen, readAt_head rfl, Option.map_some]

/-- What follows a path in its field, once it is cut: the NUL or nothing. -/
theorem take_sunPath (path : SunPath) (terminated : Bool) :
    ∃ tail, (tail = [] ∨ tail = [0]) ∧
      (path.bytes ++ if terminated then [0] else []).take sunPathSize = path.bytes ++ tail := by
  have hcut : (if terminated then [0] else [] : List UInt8).take
      (sunPathSize - path.bytes.length) = [] ∨
      (if terminated then [0] else [] : List UInt8).take
        (sunPathSize - path.bytes.length) = [0] := by
    cases terminated with
    | false => exact .inl List.take_nil
    | true =>
      cases sunPathSize - path.bytes.length with
      | zero => exact .inl rfl
      | succ n => exact .inr (by rw [if_pos rfl, List.take_succ_cons, List.take_nil])
  exact ⟨_, hcut, by rw [List.take_append, List.take_of_length_le path.fits]⟩

theorem findIdx_nul {bytes tail : List UInt8} (hnul : 0 ∉ bytes) (htail : tail = [] ∨ tail = [0]) :
    (bytes ++ tail).findIdx (fun b => b == 0) = bytes.length := by
  have hnone : bytes.findIdx (fun b => b == 0) = bytes.length := by
    rw [List.findIdx_eq_length]
    intro b hb
    rw [beq_eq_false_iff_ne]
    rintro rfl
    exact hnul hb
  rw [List.findIdx_append, if_neg (by rw [hnone]; exact lt_irrefl _)]
  rcases htail with rfl | rfl <;> simp

/-- A path is taken up to its NUL, or whole. -/
theorem parsePath_path (path : SunPath) (terminated : Bool) :
    parsePath ((path.bytes ++ if terminated then [0] else []).take sunPathSize) =
      .unix path.bytes := by
  obtain ⟨tail, htail, hslice⟩ := take_sunPath path terminated
  have hstop := findIdx_nul path.noNul htail
  have htake : (path.bytes ++ tail).take path.bytes.length = path.bytes := List.take_left
  have hlength : path.bytes.length ≠ 0 := mt List.length_eq_zero_iff.mp path.nonempty
  have hne : path.bytes ++ tail ≠ [] := List.append_ne_nil_of_left_ne_nil path.nonempty tail
  have hhead : (path.bytes ++ tail).head? ≠ some 0 := by
    rw [List.head?_append_of_ne_nil _ path.nonempty]
    exact fun hnul => path.noNul (List.mem_of_head? hnul)
  rw [hslice]
  generalize path.bytes ++ tail = raw at hstop htake hne hhead
  cases raw with
  | nil => exact absurd rfl hne
  | cons b rest =>
    have hb : b ≠ 0 := fun h => hhead (congrArg some h)
    simp only [parsePath, if_neg hb, hstop, if_neg hlength, htake]

theorem parsePath_abstract (name : List UInt8) : parsePath (0 :: name) = .unix (0 :: name) := rfl

theorem parseAddr_received (e : Endian) (p : Peer) (terminated : Bool) (rest : List UInt8) :
    parseAddr e ((p.sockaddr e terminated).take (sunPathOffset + sunPathSize) ++ rest)
      (p.sockaddr e terminated).length = some p.addrRepr := by
  cases p with
  | inet4 ip port =>
    have hport : (beBytes 2 port.toNat).length = 2 := length_beBytes (bitVec_lt (by norm_num) port)
    have hip : (beBytes 4 ip.toNat).length = 4 := length_beBytes (bitVec_lt (by norm_num) ip)
    have hw : (e.store 2 AF_INET).length = 2 := e.length_store (by decide)
    have hlen : ((Peer.inet4 ip port).sockaddr e terminated).length = 16 := by
      simp [Peer.sockaddr, hport, hip, hw]
    rw [List.take_of_length_le (by rw [hlen]; decide), Peer.sockaddr]
    simp only [List.append_assoc]
    have haddr : readAt (beBytes 2 port.toNat ++ (beBytes 4 ip.toNat ++
        (List.replicate 8 0 ++ rest))) 2 4 = some (beBytes 4 ip.toNat) :=
      (readAt_skip hport _ 0 4).trans (readAt_head hip _)
    rw [parseAddr_inet, haddr, readAt_head hport]
    show some _ = _
    rw [fromBe_field e (by norm_num), fromBe_field e (by norm_num), Peer.addrRepr]
  | inet6 ip port flowinfo scopeId =>
    have hport : (beBytes 2 port.toNat).length = 2 := length_beBytes (bitVec_lt (by norm_num) port)
    have hflow : (beBytes 4 flowinfo.toNat).length = 4 :=
      length_beBytes (bitVec_lt (by norm_num) flowinfo)
    have hip : (beBytes 16 ip.toNat).length = 16 := length_beBytes (bitVec_lt (by norm_num) ip)
    have hscope : (e.store 4 scopeId.toNat).length = 4 :=
      e.length_store (bitVec_lt (by norm_num) scopeId)
    have hw : (e.store 2 AF_INET6).length = 2 := e.length_store (by decide)
    have hlen : ((Peer.inet6 ip port flowinfo scopeId).sockaddr e terminated).length = 28 := by
      simp [Peer.sockaddr, hport, hflow, hip, hscope, hw]
    rw [List.take_of_length_le (by rw [hlen]; decide), Peer.sockaddr]
    simp only [List.append_assoc]
    generalize hm : beBytes 2 port.toNat ++ (beBytes 4 flowinfo.toNat ++
      (beBytes 16 ip.toNat ++ (e.store 4 scopeId.toNat ++ rest))) = m
    have hports : readAt m 0 2 = some (beBytes 2 port.toNat) := hm ▸ readAt_head hport _
    have hflows : readAt m 2 4 = some (beBytes 4 flowinfo.toNat) :=
      hm ▸ (readAt_skip hport _ 0 4).trans (readAt_head hflow _)
    have hips : readAt m 6 16 = some (beBytes 16 ip.toNat) :=
      hm ▸ (readAt_skip hport _ 4 16).trans
        ((readAt_skip hflow _ 0 16).trans (readAt_head hip _))
    have hscopes : readAt m 22 4 = some (e.store 4 scopeId.toNat) :=
      hm ▸ (readAt_skip hport _ 20 4).trans ((readAt_skip hflow _ 16 4).trans
        ((readAt_skip hip _ 0 4).trans (readAt_head hscope _)))
    rw [parseAddr_inet6, hips, hports, hflows, hscopes]
    show some _ = _
    rw [fromBe_field e (by norm_num), fromBe_field e (by norm_num), beNat_beBytes,
      Endian.load_store, ofNat_toNat, ofNat_toNat, Peer.addrRepr]
  | unixPath path =>
    rw [Peer.sockaddr, parseAddr_sunPath, parsePath_path, Peer.addrRepr]
  | unixAbstract name =>
    have hfits : (0 :: name.bytes).length ≤ sunPathSize := name.fits
    rw [Peer.sockaddr, parseAddr_sunPath, List.take_of_length_le hfits, parsePath_abstract,
      Peer.addrRepr]

/-! ### What can be told from the value -/

theorem Peer.received_eq (e : Endian) (p : Peer) (terminated : Bool) (rest : List UInt8) :
    p.received e terminated rest = some (addrToPy p.addrRepr) := by
  rw [received, parseAddr_received, Option.map_some]

theorem Peer.addrRepr_injective : Function.Injective Peer.addrRepr := by
  intro p q h
  cases p <;> cases q <;> simp only [addrRepr, AddrRepr.inet4.injEq, AddrRepr.inet6.injEq,
    AddrRepr.unix.injEq, reduceCtorEq] at h
  case inet4.inet4 => rw [h.1, h.2]
  case inet6.inet6 => rw [h.1, h.2.1, h.2.2.1, h.2.2.2]
  case unixPath.unixPath p q => rw [SunPath.ext h]
  case unixPath.unixAbstract p q => exact absurd List.mem_cons_self (h ▸ p.noNul)
  case unixAbstract.unixPath p q => exact absurd List.mem_cons_self (h ▸ q.noNul)
  case unixAbstract.unixAbstract p q => rw [AbstractName.ext (List.cons.inj h).2]

/-- The value of a path is its lossy decoding. -/
theorem addrToPy_path (path : SunPath) :
    addrToPy (.unix path.bytes) = .str (.ofList (fromUtf8Lossy path.bytes)) :=
  if_neg fun hnul => path.noNul (List.mem_of_head? hnul)

theorem Peer.Plain.value {p : Peer} (h : p.Plain) : (addrToPy p.addrRepr).Plain := by
  intro text htext
  cases p with
  | inet4 | inet6 | unixAbstract => cases htext
  | unixPath path =>
    obtain ⟨chars, hchars, hplain⟩ := h
    rw [addrRepr, addrToPy_path, PyAddr.str.injEq] at htext
    rw [← htext, String.toList_ofList, hchars, fromUtf8Lossy_encode]
    exact hplain

/-- A path in which a replacement character is a byte 0xFF instead. -/
def SunPath.mangled (path : SunPath) (front back : List Char)
    (h : path.bytes = encode (front ++ '\uFFFD' :: back)) : SunPath where
  bytes := encode front ++ 0xFF :: encode back
  nonempty := List.append_ne_nil_of_right_ne_nil _ (List.cons_ne_nil _ _)
  fits := by
    have hlength := congrArg List.length h
    rw [encode_append, encode_cons, List.length_append, List.length_append] at hlength
    have hfits := path.fits
    rw [List.length_append, List.length_cons]
    have hpos : 0 < (String.utf8EncodeChar '\uFFFD').length := by decide
    omega
  noNul := by
    have hnul := path.noNul
    rw [h, encode_append, encode_cons, List.mem_append, List.mem_append, not_or, not_or] at hnul
    rw [List.mem_append, List.mem_cons, not_or, not_or]
    exact ⟨hnul.1, by decide, hnul.2.2⟩

/-- The mangled path and the path itself have one value. -/
theorem addrToPy_mangled (path : SunPath) (front back : List Char)
    (h : path.bytes = encode (front ++ '\uFFFD' :: back)) :
    addrToPy (.unix (path.mangled front back h).bytes) = addrToPy (.unix path.bytes) := by
  rw [addrToPy_path, addrToPy_path, SunPath.mangled, h, fromUtf8Lossy_encode,
    fromUtf8Lossy_encode_append, fromUtf8Lossy_cons_ff, fromUtf8Lossy_encode]

theorem mangled_ne (path : SunPath) (front back : List Char)
    (h : path.bytes = encode (front ++ '\uFFFD' :: back)) : path.mangled front back h ≠ path := by
  intro heq
  have hbytes := congrArg (fun p => p.bytes.length) heq
  rw [SunPath.mangled, h, encode_append, encode_cons] at hbytes
  simp only [List.length_append, List.length_cons] at hbytes
  have hthree : (String.utf8EncodeChar '\uFFFD').length = 3 := by decide
  omega

/-- The Python value of a peer, whatever memory follows its address, stands for
it: the address is parsed from the bytes within the reported length and the path
field, no other peer has the value, and a path is given back by `os.fsencode`. -/
def Peer.Faithful (e : Endian) (p : Peer) : Prop :=
  ∀ terminated rest, ∃ v, p.received e terminated rest = some v ∧
    (∀ q terminated' rest', Peer.received e q terminated' rest' = some v → q = p) ∧
    ∀ path, p = .unixPath path → ∃ text, v = .str text ∧ fsencode text = path.bytes

/-- **Source addresses are decoded faithfully but for some paths.** The value of
a peer stands for it exactly when the peer has no filesystem path, or one that
is UTF-8 and shows no U+FFFD. -/
theorem address_faithful_iff (e : Endian) (p : Peer) : p.Faithful e ↔ p.Plain := by
  refine ⟨fun h => ?_, fun h terminated rest => ?_⟩
  · obtain ⟨v, hv, hinj, hpath⟩ := h false []
    rw [Peer.received_eq, Option.some.injEq] at hv
    cases p with
    | inet4 | inet6 | unixAbstract => trivial
    | unixPath path =>
      obtain ⟨text, -, hencode⟩ := hpath path rfl
      refine ⟨text.toList, hencode.symm, fun hmem => ?_⟩
      obtain ⟨front, back, hsplit⟩ := List.append_of_mem hmem
      have hbytes : path.bytes = encode (front ++ '\uFFFD' :: back) := by
        rw [← hsplit]
        exact hencode.symm
      have hsame := hinj (.unixPath (path.mangled front back hbytes)) false [] (by
        rw [Peer.received_eq, ← hv]
        exact congrArg some (addrToPy_mangled path front back hbytes))
      exact mangled_ne path front back hbytes (Peer.unixPath.inj hsame)
  · refine ⟨_, Peer.received_eq e p terminated rest, fun q terminated' rest' hq => ?_, ?_⟩
    · rw [Peer.received_eq, Option.some.injEq] at hq
      have hplain : (addrToPy q.addrRepr).Plain := hq ▸ h.value
      apply Peer.addrRepr_injective
      rw [← source_addrToPy hplain, hq, source_addrToPy h.value]
    · rintro path rfl
      refine ⟨_, addrToPy_path path, ?_⟩
      obtain ⟨text, htext, -⟩ := h
      rw [fsencode, String.toList_ofList, htext, fromUtf8Lossy_encode]

/-- The letters `f` and `é`. -/
def textPath : SunPath where
  bytes := [0x66, 0xC3, 0xA9]
  nonempty := List.cons_ne_nil _ _
  fits := Nat.le_of_ble_eq_true rfl
  noNul := by decide

theorem address_faithful_example : (Peer.unixPath textPath).Faithful .little ∧
    (Peer.inet4 0x7F000001#32 80#16).Faithful .big := by
  refine ⟨(address_faithful_iff _ _).mpr ⟨['f', 'é'], by decide +kernel, by decide⟩, ?_⟩
  exact (address_faithful_iff _ _).mpr trivial

/-- The letter `f` and a byte that no UTF-8 text has there. -/
def badPath (b : UInt8) (h : 0 ≠ b) : SunPath where
  bytes := [0x66, b]
  nonempty := List.cons_ne_nil _ _
  fits := Nat.le_of_ble_eq_true rfl
  noNul := by
    rw [List.mem_cons, List.mem_singleton, not_or]
    exact ⟨by decide, h⟩

/-- Two peers with one Python value, which `os.fsencode` takes to neither path. -/
theorem paths_conflated :
    (Peer.unixPath (badPath 0xFF (by decide))).received .little true [] =
        some (.str (.ofList ['f', '\uFFFD'])) ∧
      (Peer.unixPath (badPath 0xFE (by decide))).received .little true [] =
        some (.str (.ofList ['f', '\uFFFD'])) ∧
      Peer.unixPath (badPath 0xFF (by decide)) ≠ .unixPath (badPath 0xFE (by decide)) ∧
      fsencode (.ofList ['f', '\uFFFD']) = [0x66, 0xEF, 0xBF, 0xBD] ∧
      ¬ (Peer.unixPath (badPath 0xFF (by decide))).Faithful .little := by
  have hff : (Peer.unixPath (badPath 0xFF (by decide))).received .little true [] =
      some (.str (.ofList ['f', '\uFFFD'])) := by decide +kernel
  have hfe : (Peer.unixPath (badPath 0xFE (by decide))).received .little true [] =
      some (.str (.ofList ['f', '\uFFFD'])) := by decide +kernel
  have hne : Peer.unixPath (badPath 0xFF (by decide)) ≠ .unixPath (badPath 0xFE (by decide)) :=
    fun h => absurd (congrArg SunPath.bytes (Peer.unixPath.inj h)) (by decide)
  refine ⟨hff, hfe, hne, by decide +kernel, fun hfaithful => hne ?_⟩
  obtain ⟨v, hv, hinj, -⟩ := hfaithful true []
  rw [hff, Option.some.injEq] at hv
  exact (hinj _ true [] (hfe.trans (congrArg some hv))).symm

end Tokioop.Fd
