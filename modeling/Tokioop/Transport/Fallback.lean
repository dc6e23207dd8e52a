import Tokioop.Transport.Sendfile

/-!
The transport of a transfer is the stream transport. While the coroutine of
`sendfile` runs, the protocol is a `_SendfileFallbackProtocol`, whose
`pause_writing` and `resume_writing` only make and resolve a future. With such
a protocol, `write` and `_write_sendmsg` of the stream transport do to its
bytes what `Request.write` and `Request.writeSendmsg` do to the views.
-/

namespace Tokioop.Transport.Sendfile

open Fd Kit Kit.Prog

/-- The transport is as the transfer has it, and there to be written to. -/
structure Shows (r : Request) (s : Transfer) (w : World) : Prop where
  base : Base w
  sane : s.Sane
  buffer : w.buffer = s.views.map (View.bytes s.buf)
  sent : w.sent = s.sent
  lost : w.connLost = 0 ↔ s.lost = false
  closing : w.closing = s.lost
  writer : w.writer.isSome = s.writer
  protocolPaused : w.protocolPaused = s.protocolPaused
  limits : w.iovMax = r.iovMax ∧ w.highWater = r.highWater ∧ w.lowWater = r.lowWater
  there : w.attached = true ∧ w.protocol.isSome = true
  writable : w.eof = false ∧ w.emptyWaiter = none

/-- A method has come back with the transport as the transfer has it, or has
raised into the coroutine. -/
def Ended (r : Request) (s : Transfer) : Except Exc Unit → World → Prop
  | .ok _, w => Shows r s w
  | .error _, _ => s.pc = .raised

/-- What a call of the protocol comes back with. -/
def fallbackContract : Contract World UserCall Nat Exc Query Reply where
  Inv := fun _ => True
  Rely := Eq
  Ret := fun _ r _ => ∃ a, r = .ok a
  Answer := fun _ _ _ => True
  refl := fun _ => rfl
  trans := Eq.trans

variable {r : Request} {s : Transfer} {w : World}

/-! ### How `write` of a transfer goes on -/

section

variable {v : View} {a : Reply} {registers : Bool} {n : Nat} {e : Errno}

theorem write_nothing (hv : v.2 = 0) : r.write s v a registers = s := by
  simp [Request.write, hv]

theorem write_lost (hl : s.lost = true) : r.write s v a registers = s := by
  simp [Request.write, hl]

theorem write_queued (hv : v.2 ≠ 0) (hl : s.lost = false) (hviews : s.views ≠ []) :
    r.write s v a registers = r.append s v := by
  simp [Request.write, hv, hl, hviews]

theorem write_failed (hv : v.2 ≠ 0) (hl : s.lost = false) (hviews : s.views = []) :
    r.write s v (.fail e) registers = { s with lost := true } := by
  simp [Request.write, hv, hl, hviews]

theorem write_all (hv : v.2 ≠ 0) (hl : s.lost = false) (hviews : s.views = [])
    (hwithin : v.Within s.buf) (hn : v.2 ≤ n) :
    r.write s v (.done n) registers = { s with sent := s.sent ++ (v.bytes s.buf).take n } := by
  simp [Request.write, hv, hl, hviews, hn, List.take_of_length_le, View.length_bytes hwithin]

theorem write_some (hl : s.lost = false) (hviews : s.views = []) (hn : n < v.2) :
    r.write s v (.done n) registers =
      r.keep { s with sent := s.sent ++ (v.bytes s.buf).take n } registers
        (v.1 + n, v.2 - n) := by
  have hmin : min n v.2 = n := Nat.min_eq_left (Nat.le_of_lt hn)
  have hrest : v.2 - n ≠ 0 := Nat.sub_ne_zero_of_lt hn
  simp [Request.write, hl, hviews, hmin, hrest, Nat.ne_zero_of_lt hn]

end

/-! ### The methods of the transport -/

namespace Shows

theorem views_eq_nil (h : Shows r s w) : w.buffer = [] ↔ s.views = [] := by
  rw [h.buffer, List.map_eq_nil_iff]

theorem size_eq (h : Shows r s w) : w.getWriteBufferSize = s.getWriteBufferSize := by
  show (w.buffer.map List.length).sum = (s.views.map Prod.snd).sum
  rw [h.buffer, List.map_map]
  exact congrArg List.sum (List.map_congr_left fun v hv => View.length_bytes (h.sane v hv))

theorem gathered_eq (h : Shows r s w) : w.gathered = s.gathered r.iovMax := by
  show (w.buffer.take w.iovMax).flatten = _
  rw [h.buffer, h.limits.1, ← List.map_take]
  rfl

/-- The protocol hears that it is paused, or that it may go on. -/
theorem flowControl (h : Shows r s w) (b : Bool) (e : UserCall) (message : String) :
    (Transport.flowControl e message).wp fallbackContract
      (fun res t => res = .ok () ∧ Shows r { s with protocolPaused := b } t)
      { w with protocolPaused := b } := by
  unfold Transport.flowControl
  rw [wp_tryCatch, wp_bind, wp_get]
  show wp _ (if w.protocol.isSome = true then _ else _) _ _
  rw [if_pos h.there.2, wp_discard]
  refine ⟨trivial, fun t res _ ht hres => ?_⟩
  obtain ⟨a, rfl⟩ := hres
  subst ht
  refine ⟨rfl, ?_⟩
  exact { h with
    base := ⟨h.base.lost, h.base.attached, h.base.jobs⟩
    protocolPaused := rfl }

theorem maybePauseProtocol (h : Shows r s w) :
    Transport.maybePauseProtocol.wp fallbackContract
      (fun res t => res = .ok () ∧ Shows r (r.maybePauseProtocol s) t) w := by
  unfold Transport.maybePauseProtocol Request.maybePauseProtocol
  rw [wp_bind, wp_get]
  show wp _ (if w.getWriteBufferSize ≤ w.highWater ∨ w.protocolPaused = true then _ else _) _ w
  rw [h.size_eq, h.limits.2.1]
  by_cases hsize : s.getWriteBufferSize ≤ r.highWater
  · rw [if_pos (.inl hsize), if_pos hsize]
    exact ⟨rfl, h⟩
  rw [if_neg hsize]
  split
  · rename_i hpaused
    have hpaused := h.protocolPaused.symm.trans (hpaused.resolve_left hsize)
    exact ⟨rfl, { h with protocolPaused := hpaused ▸ h.protocolPaused }⟩
  · exact h.flowControl true _ _

theorem maybeResumeProtocol (h : Shows r s w) :
    Transport.maybeResumeProtocol.wp fallbackContract
      (fun res t => res = .ok () ∧ Shows r (r.maybeResumeProtocol s) t) w := by
  unfold Transport.maybeResumeProtocol Request.maybeResumeProtocol
  rw [wp_bind, wp_get]
  show wp _ (if w.protocolPaused = true ∧ w.getWriteBufferSize ≤ w.lowWater then _ else _) _ w
  rw [h.size_eq, h.limits.2.2, h.protocolPaused]
  split
  · exact h.flowControl false _ _
  · exact ⟨rfl, h⟩

theorem bufferRest (h : Shows r s w) {v : View} (hv : v.Within s.buf) :
    (Transport.bufferRest (v.bytes s.buf)).wp fallbackContract
      (fun res t => res = .ok () ∧ Shows r (r.append s v) t) w := by
  have happend : Shows r { s with views := s.views ++ [v] }
      { w with buffer := w.buffer ++ [v.bytes s.buf] } := { h with
    base := ⟨h.base.lost, h.base.attached, h.base.jobs⟩
    sane := fun u hu => by
      rcases List.mem_append.mp hu with hu | hu
      · exact h.sane u hu
      · exact List.mem_singleton.mp hu ▸ hv
    buffer := by
      show w.buffer ++ _ = _
      rw [h.buffer, List.map_append]
      rfl }
  exact happend.maybePauseProtocol

/-- The writer is registered and the data kept, or nothing of this happens. -/
theorem keep (h : Shows r s w) {v : View} (hv : v.Within s.buf) {rest : List UInt8}
    (hrest : rest = v.bytes s.buf) :
    (addWriter >>= fun _ => Transport.bufferRest rest).wp fallbackContract
      (fun res t => ∃ registers, Ended r (r.keep s registers v) res t) w := by
  subst hrest
  rw [wp_bind]
  refine wp_addWriter (fun hno => ?_) (fun _ _ _ => ⟨false, rfl⟩) fun _ a _ _ => ?_
  · exact absurd (hno.symm.trans h.there.1) Bool.false_ne_true
  · have hwriting : Shows r { s with writer := true } w.writing :=
      { h with base := ⟨h.base.lost, h.base.attached, h.base.jobs⟩, writer := rfl }
    refine wp_mono _ (fun res t ht => ?_) (hwriting.bufferRest hv)
    obtain ⟨rfl, ht⟩ := ht
    exact ⟨true, ht⟩

theorem fatalError (h : Shows r s w) (hl : s.lost = false) (e : Errno) (message : String) :
    (Transport.fatalError (.osError e) message).wp fallbackContract
      (fun res t => res = .ok () ∧
        t = { w with fatal := true }.forceClosed (some (.osError e))) w := by
  have hbase : Base { w with fatal := true } := ⟨h.base.lost, h.base.attached, h.base.jobs⟩
  refine wp_fatalError_osError h.there.1 (wp_forceClose _ hbase ?_ ?_ ?_)
  · exact fun hne => absurd (h.lost.mpr hl) hne
  · exact fun _ _ => ⟨rfl, rfl⟩
  · exact fun _ hno => absurd (hno.symm.trans h.there.1) Bool.false_ne_true

/-- `write` of the stream transport, given what a view shows. -/
theorem write (h : Shows r s w) {v : View} (hv : v.Within s.buf) :
    (Transport.write (v.bytes s.buf)).wp fallbackContract
      (fun res t => ∃ a registers, Ended r (r.write s v a registers) res t) w := by
  have hlen := View.length_bytes hv
  have hsome : v.bytes s.buf ≠ [] → v.2 ≠ 0 := by
    intro hne h0
    exact hne (List.length_eq_zero_iff.mp (hlen.trans h0))
  have hoffer : Shows r s (w.offer (v.bytes s.buf)) :=
    { h with base := ⟨h.base.lost, h.base.attached, h.base.jobs⟩ }
  have htook : ∀ n, Shows r { s with sent := s.sent ++ (v.bytes s.buf).take n }
      ((w.offer (v.bytes s.buf)).took ((v.bytes s.buf).take n)) := fun n => { h with
    base := ⟨h.base.lost, h.base.attached, h.base.jobs⟩
    sent := congrArg (· ++ (v.bytes s.buf).take n) h.sent }
  refine wp_write (fun hno => ?_) (fun _ hnil => ?_) (fun _ hl => ?_) (fun _ hl hbuf hne => ?_)
    (fun _ _ _ hno => ?_) (fun _ hl hbuf _ hne e _ => ?_) (fun _ hl hbuf _ hne n hnil => ?_)
    fun _ hl hbuf _ n hne => ?_
  · simp [h.writable.1, h.writable.2] at hno
  · have h0 : v.2 = 0 := hlen.symm.trans (List.length_eq_zero_iff.mpr hnil)
    refine ⟨.wouldBlock, true, ?_⟩
    rw [write_nothing h0]
    exact hoffer
  · have hlost : s.lost = true := Bool.not_eq_false _ ▸ mt h.lost.mpr hl
    refine ⟨.wouldBlock, true, ?_⟩
    rw [write_lost hlost]
    exact { hoffer with
      base := .of_closing (h.closing.trans hlost)
      lost := by simp [hlost] }
  · refine wp_mono _ (fun res t ht => ?_) (hoffer.bufferRest hv)
    obtain ⟨rfl, ht⟩ := ht
    refine ⟨.wouldBlock, true, ?_⟩
    rw [write_queued (hsome hne) (h.lost.mp hl) (mt h.views_eq_nil.mpr hbuf)]
    exact ht
  · exact absurd (hno.symm.trans h.there.1) Bool.false_ne_true
  · have hviews := h.views_eq_nil.mp hbuf
    refine wp_mono _ (fun res t ht => ?_) (hoffer.fatalError (h.lost.mp hl) e _)
    obtain ⟨rfl, rfl⟩ := ht
    refine ⟨.fail e, true, ?_⟩
    rw [write_failed (hsome hne) (h.lost.mp hl) hviews]
    exact { hoffer with
      base := .of_closing rfl
      buffer := by rw [hviews]; rfl
      lost := by simp [World.forceClosed]
      closing := rfl
      writer := by simp [World.forceClosed, World.offer, hbuf, h.writer] }
  · have hle : v.2 ≤ n := hlen ▸ List.drop_eq_nil_iff.mp hnil
    refine ⟨.done n, true, ?_⟩
    rw [write_all (hsome hne) (h.lost.mp hl) (h.views_eq_nil.mp hbuf) hv hle]
    exact htook n
  · have hlt : n < v.2 := by
      rw [Ne, List.drop_eq_nil_iff, hlen] at hne
      omega
    have hrest := View.within_rest hv (Nat.le_of_lt hlt)
    refine wp_mono _ (fun res t ht => ?_) ((htook n).keep hrest (View.bytes_rest s.buf v n).symm)
    obtain ⟨registers, ht⟩ := ht
    refine ⟨.done n, registers, ?_⟩
    rw [write_some (h.lost.mp hl) (h.views_eq_nil.mp hbuf) hlt]
    exact ht

theorem afterSend (h : Shows r s w) (hl : s.lost = false) :
    Transport.afterSend.wp fallbackContract (fun _ t => Shows r (r.afterSend s) t) w := by
  have hlost : (r.maybeResumeProtocol s).lost = false := by
    obtain ⟨b, hb⟩ := r.maybeResumeProtocol_eq s
    rw [hb]
    exact hl
  have hdropped : ∀ t, Shows r (r.maybeResumeProtocol s) t → t.buffer = [] →
      Shows r (r.afterSend s) { t with writer := none } := by
    intro t ht hbuf
    rw [show r.afterSend s = { r.maybeResumeProtocol s with writer := false } from
      if_pos (ht.views_eq_nil.mp hbuf)]
    exact { ht with
      base := ⟨ht.base.lost, ht.base.attached, ht.base.jobs⟩
      writer := rfl }
  refine wp_afterSend h.maybeResumeProtocol (fun e t ht => ?_) (fun t ht hbuf => ?_)
    (fun t ht _ hno => ?_) (fun t ht hbuf _ _ => hdropped t ht.2 hbuf) (fun t _ ht _ _ hc _ => ?_)
    (fun t _ ht _ _ _ heof _ => ?_) fun t waiter ht hbuf _ _ hcompletes => ?_
  · cases ht.1
  · rw [show r.afterSend s = r.maybeResumeProtocol s from
      if_neg (mt ht.2.views_eq_nil.mpr hbuf)]
    exact ht.2
  · exact absurd (hno.symm.trans ht.2.there.1) Bool.false_ne_true
  · exact absurd ((ht.2.closing.trans hlost).symm.trans hc) Bool.false_ne_true
  · exact absurd (ht.2.writable.1.symm.trans heof) Bool.false_ne_true
  · have hwaiter := ht.2.writable.2
    rw [hcompletes.2, hwaiter, Option.map_none, ← hwaiter]
    exact hdropped t ht.2 hbuf

theorem writeSendmsg (h : Shows r s w) :
    Transport.writeSendmsg.wp fallbackContract
      (fun _ t => ∃ a, Shows r (r.writeSendmsg s a) t) w := by
  have hstay : ∃ a, Shows r (r.writeSendmsg s a) w := by
    refine ⟨.wouldBlock, ?_⟩
    rw [show r.writeSendmsg s .wouldBlock = s by simp [Request.writeSendmsg]]
    exact h
  refine wp_writeSendmsg (fun _ => hstay) (fun _ => hstay)
    (fun _ _ hno => absurd (hno.symm.trans h.there.1) Bool.false_ne_true)
    (fun _ _ _ => hstay) (fun hbuf hl _ e _ => ?_) fun hbuf hl _ n rest _ hadjust _ => ?_
  · have hviews := mt h.views_eq_nil.mpr hbuf
    have hgone : Shows r { s with views := [], writer := false }
        { w with writer := none, buffer := [] } := { h with
      base := ⟨h.base.lost, h.base.attached, h.base.jobs⟩
      sane := fun v hv => by cases hv
      buffer := rfl
      writer := rfl }
    rw [wp_bind]
    refine wp_mono _ (fun res t ht => ?_) (hgone.fatalError (h.lost.mp hl) e _)
    obtain ⟨rfl, rfl⟩ := ht
    unfold resolveEmptyWaiter
    show wp _ (get >>= _) _ _
    rw [wp_bind, wp_get]
    dsimp only
    rw [h.writable.2]
    refine ⟨.fail e, ?_⟩
    rw [show r.writeSendmsg s (.fail e) = Request.fail s by
      simp [Request.writeSendmsg, hviews, h.lost.mp hl]]
    exact { hgone with
      base := .of_closing rfl
      lost := by simp [World.forceClosed, Request.fail]
      closing := rfl
      writable := ⟨h.writable.1, rfl⟩ }
  · have hviews := mt h.views_eq_nil.mpr hbuf
    rw [h.buffer, h.gathered_eq] at hadjust
    have hrest := (adjustLeftover_bytes h.sane (min n (s.gathered r.iovMax).length)).trans hadjust
    obtain ⟨vs, hvs, hmap⟩ := Option.map_eq_some_iff.mp hrest
    have htook : Shows r
        { s with sent := s.sent ++ (s.gathered r.iovMax).take n, views := vs }
        { w.took (w.gathered.take n) with buffer := rest } := { h with
      base := ⟨h.base.lost, h.base.attached, h.base.jobs⟩
      sane := adjustLeftover_within h.sane hvs
      buffer := hmap.symm
      sent := by
        show w.sent ++ w.gathered.take n = _
        rw [h.sent, h.gathered_eq] }
    refine wp_mono _ (fun res t ht => ⟨.done n, ?_⟩) (htook.afterSend (h.lost.mp hl))
    rw [show r.writeSendmsg s (.done n) = r.afterSend
        { s with sent := s.sent ++ (s.gathered r.iovMax).take n, views := vs } by
      simp [Request.writeSendmsg, hviews, h.lost.mp hl, hvs]]
    exact ht

end Shows

end Tokioop.Transport.Sendfile
