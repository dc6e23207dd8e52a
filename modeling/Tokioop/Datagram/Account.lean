import Tokioop.Datagram.Frame

/-!
What a datagram transport counts for its buffer.

`_buffer_size` is the total size of what is in `_buffer` as long as
`_force_close` never empties a buffer: that method belongs to the base class,
which has no such count and leaves it as it was. Nor may the items of a view be
wider than a byte: `sendto` counts `len(data)` and buffers `bytes(data)`.
-/

namespace Tokioop.Datagram

open Fd Kit Kit.Prog
open Transport (Exc Query Reply Job IoItem)

namespace World

/-- The count is that of the buffer. -/
def Accurate (s : World) : Prop := s.bufferSize = (s.buffer.map Outgoing.size).sum

/-- `_force_close` has nothing to drop. -/
def Spent (s : World) : Prop := s.buffer = [] ∨ s.connLost ≠ 0

instance (s : World) : Decidable s.Accurate := inferInstanceAs (Decidable (_ = _))

instance (s : World) : Decidable s.Spent := inferInstanceAs (Decidable (_ ∨ _))

end World

/-- `_force_close` follows the failure of `datagram_received` and the
exception handler's report of a fatal error. -/
def returnsSpent : UserCall → Except Exc Unit → World → Prop
  | .datagramReceived _ _, .error x, s => x.exits = false → x.isOSError = true → s.Spent
  | .exceptionHandler message _, _, s => message ∈ fatalMessages → s.Spent
  | _, _, _ => True

instance : (e : UserCall) → (r : Except Exc Unit) → (s : World) → Decidable (returnsSpent e r s)
  | .datagramReceived _ _, .error _, s => inferInstanceAs (Decidable (_ → _ → s.Spent))
  | .datagramReceived _ _, .ok _, _ => .isTrue trivial
  | .exceptionHandler _ _, .error _, s => inferInstanceAs (Decidable (_ → s.Spent))
  | .exceptionHandler _ _, .ok _, s => inferInstanceAs (Decidable (_ → s.Spent))
  | .errorReceived _ _, _, _ => .isTrue trivial
  | .connectionMade, _, _ => .isTrue trivial
  | .pauseWriting, _, _ => .isTrue trivial
  | .resumeWriting, _, _ => .isTrue trivial
  | .connectionLost _, _, _ => .isTrue trivial

/-- The items of the data are bytes. -/
def Method.bytewise : Method → Bool
  | .sendto data _ => data.len = data.bytes.length
  | _ => true

/-- Any method and any answer, as long as `_force_close` is only entered with
nothing to drop and `len` gives the number of bytes. -/
def dropsNothing : TransportPolicy where
  call top m s := anyCall.call top m s ∧ (m = .abort → s.Spent) ∧ m.bytewise = true
  env := anyCall.env
  ret := returnsSpent
  answer := anyCall.answer

instance (top : Bool) (m : Method) (s : World) : Decidable (dropsNothing.call top m s) :=
  inferInstanceAs (Decidable (_ ∧ _ ∧ _))

instance (top : Bool) (h : Env) (s : World) : Decidable (dropsNothing.env top h s) :=
  inferInstanceAs (Decidable (anyCall.env top h s))

instance (e : UserCall) (r : Except Exc Unit) (s : World) : Decidable (dropsNothing.ret e r s) :=
  inferInstanceAs (Decidable (returnsSpent e r s))

instance (q : Query) (a : Reply) (s : World) : Decidable (dropsNothing.answer q a s) :=
  inferInstanceAs (Decidable True)

def accountContract : NotedContract Unit where
  Inv s := s.1.Accurate
  Rely _ _ := True
  Ret e r s := returnsSpent e r s.1
  Answer _ _ _ := True
  refl _ := trivial
  trans _ _ := trivial

theorem accurate_of_aside {s t : World} (h : World.Aside s t) (hs : s.Accurate) : t.Accurate := by
  unfold World.Accurate
  rw [h.size, h.buffer]
  exact hs

theorem accurate_forceClose (exc : Option Exc) {s : World} {g : Unit} (hs : s.Accurate)
    (hspent : s.Spent) :
    ((forceClose exc).beside Unit).wp accountContract (fun _ t => t.1.Accurate ∧ True) (s, g) := by
  refine wp_beside_forceClose exc (fun _ => ⟨hs, trivial⟩) fun t hl _ hbuf hsize _ => ⟨?_, trivial⟩
  have hnil : s.buffer = [] := hspent.resolve_right fun hne => hne hl
  unfold World.Accurate at hs ⊢
  rw [hsize, hs, hnil, hbuf]

theorem frames_account : Frames accountContract where
  aside hs hst := ⟨accurate_of_aside hst hs, trivial⟩
  failed hs hret hx hos := accurate_forceClose (some _) hs (hret hx hos)
  handled hu hm hret := accurate_forceClose (some _) hu (hret hm)

/-- Dropping what was sent keeps the count. -/
theorem Shipped.accurate {s u : World} {taken dropped : List Outgoing}
    (h : Shipped s u taken dropped)
    (hs : s.Accurate) : u.Accurate := by
  unfold World.Accurate at hs ⊢
  rw [h.eq]
  simp only [hs, h.buffer, List.map_append, List.sum_append]
  omega

/-- A call changes nothing that is counted. -/
theorem accurate_callProtocol (e : UserCall) : Kept accountContract (callProtocol e) :=
  kept_bind kept_get fun _ =>
    kept_ite (kept_bind (kept_modify fun _ _ hs => ⟨hs, trivial⟩) fun _ => kept_callback e)
      (kept_done _)

theorem accurate_unsendable {s : World} {d : Outgoing} {e : Exc} (hno : Unsendable s d e) :
    Kept accountContract (fatalError e "Fatal write error on datagram transport") := by
  rintro ⟨u, g⟩ hu
  refine wp_beside_fatalError_of_inv frames_account (by simp [fatalMessages]) hu fun hos => ?_
  cases hno with
  | detached => cases hos
  | unaddressed =>
      rw [refusal_not_osError] at hos
      cases hos

theorem accurate_sendtoReady : Kept accountContract sendtoReady := by
  rintro ⟨s, g⟩ hs
  refine wp_beside_sendtoReady (fun u taken hu => ?_) (fun u taken d e hu => ?_)
    fun u taken d e hu hno => ?_
  · exact kept_afterSending frames_account (u, g) (hu.accurate hs)
  · exact accurate_callProtocol _ (u, g) (hu.accurate hs)
  · exact accurate_unsendable hno (u, g) (hu.accurate hs)

theorem accurate_enqueue (d : Outgoing) : Kept accountContract (enqueue d d.1.length) := by
  refine kept_bind (kept_modify fun s _ hs => ⟨?_, trivial⟩) fun _ =>
    kept_maybePauseProtocol frames_account
  show s.bufferSize + d.size = ((s.buffer ++ [d]).map Outgoing.size).sum
  rw [List.map_append, List.sum_append, ← show s.bufferSize = _ from hs]
  simp

theorem accurate_sendto {data : Payload} (hlen : data.len = data.bytes.length)
    (addr : Option Target) : Kept accountContract (sendto data addr) := by
  rintro ⟨s, g⟩ hs
  have hqueue : Kept accountContract (enqueue (s.outgoing (data.bytes, addr)) data.len) := by
    rw [hlen]
    exact accurate_enqueue (s.outgoing (data.bytes, addr))
  have hadd := kept_bind (kept_addWriter frames_account) fun _ => hqueue
  refine wp_beside_sendto (fun _ => ⟨hs, trivial⟩) fun _ => ⟨fun _ => ⟨hs, trivial⟩, fun _ => ?_,
    fun _ => ⟨fun e hno => ?_, fun e => ?_, ⟨hs, trivial⟩, hadd (s, g) hs⟩⟩
  · exact hqueue (s, g) hs
  · exact accurate_unsendable hno (s, g) hs
  · exact accurate_callProtocol _ (s, g) hs

theorem accurate_body {m : Method} {s : World × Unit} (hs : s.1.Accurate)
    (habort : m = .abort → s.1.Spent) (hbytes : m.bytewise = true) :
    (m.body.beside Unit).wp accountContract (fun _ t => t.1.Accurate ∧ True) s := by
  by_cases hm : m = .abort
  · rw [hm]
    exact accurate_forceClose none hs (habort hm)
  · by_cases hsend : ∃ data addr, m = .sendto data addr
    · obtain ⟨data, addr, rfl⟩ := hsend
      exact accurate_sendto (of_decide_eq_true hbytes) addr s hs
    · refine kept_body frames_account (fun data addr heq => ?_) hm accurate_sendtoReady s hs
      exact hsend ⟨data, addr, heq⟩

theorem sound_account : Sound (transport.beside fun _ g => g) (dropsNothing.beside Unit)
    accountContract fun s => s.1.Accurate where
  ret := id
  answer := id
  call_top _ _ hs hm := wp_mono _ (fun _ _ ht => ht.1) (accurate_body hs hm.2.1 hm.2.2)
  call_inner _ _ hs hm := accurate_body hs hm.2.1 hm.2.2
  env_top h s s' hs _ he := by
    obtain ⟨t, ht, rfl⟩ := Option.map_eq_some_iff.mp he
    exact (frames_env frames_account (g := s.2) hs ht).1
  env_inner h s s' hs _ he := by
    obtain ⟨t, ht, rfl⟩ := Option.map_eq_some_iff.mp he
    exact frames_env frames_account (g := s.2) hs ht

theorem size_pos (d : Outgoing) : 0 < d.size := by
  unfold Outgoing.size headerSize
  omega

/-- **The count is exact.** In every run in which `_force_close` finds
nothing to drop, `get_write_buffer_size` is the total size of the buffer, so
that it is zero for an empty buffer and never negative. -/
theorem buffer_accounted {c : Config World UserCall Unit Exc Query Reply}
    (h : Reach transport dropsNothing
      (fun s => ∃ address peername kernel, s = World.new address peername kernel) c)
    (ho : c.Outside) :
    c.state.getWriteBufferSize = (c.state.buffer.map Outgoing.size).sum ∧
      (c.state.buffer = [] ↔ c.state.getWriteBufferSize = 0) ∧ 0 ≤ c.state.getWriteBufferSize := by
  obtain ⟨g, hg⟩ := h.noted (fun (_ : Method) (g : Unit) => g) ()
  have hinit : ∀ s, (∃ address peername kernel, s = World.new address peername kernel) →
      s.Accurate := by
    rintro s ⟨address, peername, kernel, rfl⟩
    rfl
  have hs : c.state.Accurate := sound_account.noted hinit (fun _ hs => hs) hg ho
  have hsum : ∀ ds : List Outgoing, 0 ≤ (ds.map Outgoing.size).sum ∧
      (ds = [] ↔ (ds.map Outgoing.size).sum = 0) := by
    intro ds
    induction ds with
    | nil => simp
    | cons d ds ih =>
        have hpos := size_pos d
        simp only [List.map_cons, List.sum_cons, reduceCtorEq, false_iff]
        omega
  unfold World.getWriteBufferSize
  rw [hs]
  exact ⟨rfl, (hsum _).2, (hsum _).1⟩

/-- Three datagrams wait; the first is sent, the second fails, and
`error_received` queues a fourth. -/
theorem buffer_accounted_four : ∃ c : Config World UserCall Unit Exc Query Reply,
    c.state.buffer = [([], someone), ([1, 2, 3], someone)] ∧
      c.state.bufferSize = 19 ∧
      c.state.getWriteBufferSize = (c.state.buffer.map Outgoing.size).sum := by
  have hstart : Reach transport dropsNothing
      (fun s => ∃ address peername kernel, s = World.new address peername kernel)
      ⟨.new none false ⟨[], [], none, false⟩, none, []⟩ := .start ⟨_, ⟨_, _, _, rfl⟩, rfl⟩
  obtain ⟨c, hc, hend⟩ := hstart.exists_of_replay [connect,
    Move.andRun (.call (.sendto (.ofBytes [7]) someone)) 2, Move.andRun (.answer .wouldBlock) 1,
    Move.andRun (.answer (.done 0)) 4, Move.andRun (.call (.sendto (.ofBytes [8, 9]) someone)) 4,
    Move.andRun (.call (.sendto (.ofBytes []) someone)) 4, [.env .fireWriter],
    Move.andRun (.call .popIo) 7, Move.andRun (.answer (.done 1)) 4,
    Move.andRun (.answer (.fail 111)) 3,
    Move.andRun (.call (.sendto (.ofBytes [1, 2, 3]) someone)) 4,
    Move.andRun (.ret (.ok ())) 1].flatten
    (fun c => c.code.isNone &&
      (c.state.buffer = [([], someone), ([1, 2, 3], someone)] &&
        c.state.bufferSize = 19)) (by decide +kernel)
  simp only [Bool.and_eq_true, Option.isNone_iff_eq_none, decide_eq_true_eq] at hend
  exact ⟨c, hend.2.1, hend.2.2, (buffer_accounted hc hend.1).1⟩

/-- A datagram waits for the kernel and the transport is aborted: the buffer
is emptied, and counts for nine bytes ever after. -/
theorem buffer_miscounted : ¬∀ c : Config World UserCall Unit Exc Query Reply,
    Reach transport anyCall
      (fun s => ∃ address peername kernel, s = World.new address peername kernel) c →
    c.Outside → c.state.getWriteBufferSize = (c.state.buffer.map Outgoing.size).sum := by
  intro hall
  have hstart : Reach transport anyCall
      (fun s => ∃ address peername kernel, s = World.new address peername kernel)
      ⟨.new none false ⟨[], [], none, false⟩, none, []⟩ := .start ⟨_, ⟨_, _, _, rfl⟩, rfl⟩
  obtain ⟨c, hc, hend⟩ := hstart.exists_of_replay [connect,
    Move.andRun (.call (.sendto (.ofBytes [7]) someone)) 2, Move.andRun (.answer .wouldBlock) 1,
    Move.andRun (.answer (.done 0)) 4, Move.andRun (.call .abort) 13].flatten
    (fun c => c.code.isNone && (c.state.buffer = [] && c.state.bufferSize = 9)) (by decide +kernel)
  simp only [Bool.and_eq_true, Option.isNone_iff_eq_none, decide_eq_true_eq] at hend
  have hsize := hall c hc hend.1
  rw [hend.2.1, World.getWriteBufferSize, hend.2.2] at hsize
  cases hsize

end Tokioop.Datagram
