import Mathlib.Logic.Function.Iterate
import Tokioop.Transport.Firing
import Tokioop.Transport.Watched

/-!
Draining the buffer of a stream transport.

A firing of the writer sends the first `iovMax` chunks of the buffer, and
`_adjust_leftover_buffer` removes chunks for as long as there are bytes to
account for. Empty chunks behind the last byte that was sent stay where they
are. That is only a detour as long as a later window has bytes in it: a buffer
drains exactly when none of its tails is nothing but empty chunks as far as
one `sendmsg` reaches.
-/

namespace Tokioop.Transport

open Fd Kit Kit.Prog

/-! ### What `_adjust_leftover_buffer` leaves -/

/-- What is left when the kernel takes every byte of the first `iov` chunks:
everything from the chunk on with which the bytes end. -/
def unsent (iov : Nat) : List (List UInt8) → List (List UInt8)
  | [] => []
  | b :: bs => if ((b :: bs).take iov).flatten = [] then b :: bs else unsent (iov - 1) bs

theorem adjustLeftoverBuffer_all (iov : Nat) (bs : List (List UInt8)) :
    adjustLeftoverBuffer bs (bs.take iov).flatten.length = some (unsent iov bs) := by
  induction bs generalizing iov with
  | nil => simp [adjustLeftoverBuffer, unsent]
  | cons b bs ih =>
      rw [unsent]
      split
      · rename_i hempty
        rw [hempty]
        rfl
      · rename_i hbytes
        cases iov with
        | zero => simp at hbytes
        | succ iov =>
            have hlen : (((b :: bs).take (iov + 1)).flatten).length =
                b.length + (bs.take iov).flatten.length := by
              simp
            have hpos : 0 < (((b :: bs).take (iov + 1)).flatten).length :=
              List.length_pos_iff.mpr hbytes
            rw [hlen] at hpos ⊢
            obtain ⟨n, hn⟩ := Nat.exists_eq_succ_of_ne_zero (Nat.pos_iff_ne_zero.mp hpos)
            rw [hn, Nat.succ_eq_add_one, adjustLeftoverBuffer, if_pos (by omega)]
            have hrest : n + 1 - b.length = (bs.take iov).flatten.length := by omega
            rw [hrest, ih, Nat.add_sub_cancel]

theorem unsent_suffix (iov : Nat) (bs : List (List UInt8)) : unsent iov bs <:+ bs := by
  induction bs generalizing iov with
  | nil => exact List.suffix_refl _
  | cons b bs ih =>
      rw [unsent]
      split
      · exact List.suffix_refl _
      · exact (ih (iov - 1)).trans (List.suffix_cons b bs)

theorem unsent_length_lt {iov : Nat} {bs : List (List UInt8)} (h : (bs.take iov).flatten ≠ []) :
    (unsent iov bs).length < bs.length := by
  cases bs with
  | nil => simp at h
  | cons b bs =>
      rw [unsent, if_neg h]
      exact Nat.lt_succ_of_le (unsent_suffix (iov - 1) bs).length_le

/-- A tail without bytes in its window stays to the end. -/
theorem suffix_unsent {iov : Nat} {t bs : List (List UInt8)} (h : t <:+ bs)
    (hstuck : (t.take iov).flatten = []) : t <:+ unsent iov bs := by
  induction bs generalizing iov with
  | nil => exact h
  | cons b bs ih =>
      rw [unsent]
      split
      · exact h
      · rename_i hbytes
        rcases List.suffix_cons_iff.mp h with rfl | h
        · exact absurd hstuck hbytes
        · have hshorter : t.take (iov - 1) <+: t.take iov := List.take_prefix_take_left (by omega)
          refine ih h (List.flatten_eq_nil_iff.mpr fun c hc => ?_)
          exact List.flatten_eq_nil_iff.mp hstuck c (hshorter.subset hc)

/-- All chunks that were offered are removed exactly when the last of them has
bytes. -/
theorem unsent_eq_drop_iff (iov : Nat) (bs : List (List UInt8)) :
    unsent iov bs = bs.drop iov ↔ (bs.take iov).getLast? ≠ some [] := by
  induction bs generalizing iov with
  | nil => simp [unsent]
  | cons b bs ih =>
      cases iov with
      | zero => simp [unsent]
      | succ iov =>
          rw [unsent]
          split
          · rename_i hempty
            refine iff_of_false (fun heq => ?_) (not_not.mpr ?_)
            · have hlen := congrArg List.length heq
              simp only [List.length_cons, List.drop_succ_cons, List.length_drop] at hlen
              omega
            · rw [List.take_succ_cons, List.getLast?_eq_some_getLast (List.cons_ne_nil _ _)]
              exact congrArg some (List.flatten_eq_nil_iff.mp hempty _ (List.getLast_mem _))
          · rename_i hbytes
            rw [Nat.add_sub_cancel, List.drop_succ_cons, ih, List.take_succ_cons]
            cases hl : bs.take iov with
            | nil =>
                have hb : b ≠ [] := by
                  rintro rfl
                  simp [hl] at hbytes
                simp [hb]
            | cons c cs => rw [List.getLast?_cons_cons]

/-- Every tail of the buffer that is not empty has bytes in its first `iov`
chunks. -/
def Flows (iov : Nat) (bs : List (List UInt8)) : Prop :=
  ∀ t, t <:+ bs → t ≠ [] → (t.take iov).flatten ≠ []

theorem Flows.suffix {iov : Nat} {t bs : List (List UInt8)} (h : Flows iov bs) (ht : t <:+ bs) :
    Flows iov t := fun u hu => h u (hu.trans ht)

/-! ### Firings of the writer -/

/-- The kernel takes every byte it is offered, and `resume_writing` does not
end the process. -/
structure AcceptsAll (O : Oracle World UserCall Nat Exc Query Reply) : Prop extends Resumes O where
  send : ∀ n s, O.answer (.send n) s = .done n

/-- A firing of a writer with `_write_sendmsg`. -/
def World.fire (O : Oracle World UserCall Nat Exc Query Reply) (s : World) : World :=
  s.fireBy writeSendmsg O

def World.flushed (s : World) : World :=
  { s with sent := s.sent ++ s.gathered, buffer := unsent s.iovMax s.buffer }

namespace World.Draining

variable {O : Oracle World UserCall Nat Exc Query Reply} {s : World}

theorem exec_sendBuffer_all (h : s.Draining) (hO : AcceptsAll O) :
    sendBuffer.exec O s = some (.ok true, s.flushed) := by
  simp [sendBuffer, sockSend, h.attached, hO.send, -List.length_flatten, adjustLeftoverBuffer_all,
    World.flushed, World.gathered]

theorem fire_more (h : s.Draining) (hO : AcceptsAll O) (hmore : unsent s.iovMax s.buffer ≠ []) :
    Told s.flushed (s.fire O) :=
  h.fireBy_more hO.toResumes (h.exec_sendBuffer_all hO) ⟨rfl⟩ hmore

theorem fire_last (h : s.Draining) (hO : AcceptsAll O) (hlast : unsent s.iovMax s.buffer = []) :
    s.Drained (s.fire O) :=
  (h.fireBy_last hO.toResumes (h.exec_sendBuffer_all hO) ⟨rfl⟩ hlast).1

/-- A buffer that flows is sent in finitely many firings. -/
theorem drains (h : s.Draining) (hO : AcceptsAll O) (hf : Flows s.iovMax s.buffer) :
    ∃ n, s.Drained ((World.fire O)^[n] s) := by
  induction hn : s.buffer.length using Nat.strongRecOn generalizing s with
  | _ n ih =>
      by_cases hlast : unsent s.iovMax s.buffer = []
      · exact ⟨1, h.fire_last hO hlast⟩
      · have htold := h.fire_more hO hlast
        obtain ⟨hiov, hbuf, hclosing, heof⟩ : (s.fire O).iovMax = s.iovMax ∧
            (s.fire O).buffer = unsent s.iovMax s.buffer ∧
            (s.fire O).closing = s.closing ∧ (s.fire O).eof = s.eof := by
          rw [htold.eq]
          exact ⟨rfl, rfl, rfl, rfl⟩
        have hnext := h.told ⟨rfl⟩ htold hlast
        have hshort : (s.fire O).buffer.length < n := by
          rw [hbuf, ← hn]
          exact unsent_length_lt (hf _ List.suffix_rfl h.buffer)
        have hflows : Flows (s.fire O).iovMax (s.fire O).buffer := by
          rw [hiov, hbuf]
          exact hf.suffix (unsent_suffix _ _)
        obtain ⟨m, hm⟩ := ih _ hshort hnext hflows rfl
        refine ⟨m + 1, hm.buffer, hm.writer, fun _ hc => ?_, fun _ hc he => ?_⟩
        · exact hm.closed hnext.buffer (hclosing.trans hc)
        · exact hm.ended hnext.buffer (hclosing.trans hc) (heof.trans he)

/-- A tail without bytes in its window is never sent. -/
theorem stuck (h : s.Draining) (hO : AcceptsAll O) {tail : List (List UInt8)} (htail : tail ≠ [])
    (hsuffix : tail <:+ s.buffer) (hwindow : (tail.take s.iovMax).flatten = []) (n : Nat) :
    tail <:+ ((World.fire O)^[n] s).buffer := by
  induction n generalizing s with
  | zero => exact hsuffix
  | succ n ih =>
      have hkept := suffix_unsent hsuffix hwindow
      have hmore : unsent s.iovMax s.buffer ≠ [] := fun h => htail (List.suffix_nil.mp (h ▸ hkept))
      have htold := h.fire_more hO hmore
      refine ih (h.told ⟨rfl⟩ htold hmore) ?_ ?_
      · rw [htold.eq]
        exact hkept
      · rw [htold.eq]
        exact hwindow

end World.Draining

/-- With no completion waiting before it, a firing is a run of the transport:
the task of the writer pushes a completion, and the batch takes it. -/
theorem reach_fire {O : Oracle World UserCall Nat Exc Query Reply} {init : World → Prop}
    (hret : ∀ e s, steadyWriter.ret e (O.ret e s) s)
    (hanswer : ∀ q s, steadyWriter.answer q (O.answer q s) s) {s t : World} {slot : Nat}
    {r : Except Exc Unit} (h : Reach transport steadyWriter init ⟨s, none, []⟩)
    (hw : s.writer = some slot) (hr : s.reader ≠ some (.callback slot)) (hio : s.io = [])
    (he : (tryCatch writeSendmsg reportCallbackError).exec O s = some (r, t)) :
    Reach transport steadyWriter init ⟨s.fire O, none, []⟩ := by
  have hpushed : Reach transport steadyWriter init
      ⟨{ s with io := [.callback slot] }, none, []⟩ := by
    have hpush : s.env .fireWriter = some { s with io := [.callback slot] } := by
      simp [World.env, hw, hio]
    refine h.step (.env .fireWriter) trivial ?_
    simp [Host.step, transport, hpush]
  have hpop : popIo.exec O { s with io := [.callback slot] } = some (r, s.fire O) := by
    have hitem : (runItem (.callback slot)).exec O s = writeSendmsg.exec O s := by
      simp [runItem, hr, hw]
    have hs : ({ s with io := [] } : World) = s := by rw [← hio]
    have hfire : s.fire O = t := by simp only [World.fire, World.fireBy, hw, he]
    rw [hfire, ← he]
    simp only [popIo, exec_bind, exec_get, Option.bind_some, exec_modify, exec_tryCatch, hs, hitem]
  exact Reach.exec (m := .popIo) hret hanswer hpushed rfl (fun h => absurd h (by simp [Config.top]))
    hpop

/-- The writes of a transport that has not been torn down are all sent, and a
`close` or `write_eof` that waits for them done, exactly when the buffer
flows; and the chunks that one `sendmsg` offers all go when it has taken their
bytes exactly when the last of them has bytes. -/
theorem drains_iff_flows {c : Config World UserCall Nat Exc Query Reply}
    {O : Oracle World UserCall Nat Exc Query Reply}
    (h : Reach transport steadyWriter (fun s => ∃ kind kernel, s = World.new kind kernel) c)
    (ho : c.Outside) (hcalls : c.calls = []) (ht : c.state.teardowns = 0)
    (hw : c.state.emptyWaiter ≠ some .done) (hO : AcceptsAll O) :
    ((∃ n, c.state.Drained ((World.fire O)^[n] c.state)) ↔
      Flows c.state.iovMax c.state.buffer) ∧
    ∀ (iov : Nat) (bs : List (List UInt8)),
      adjustLeftoverBuffer bs (bs.take iov).flatten.length = some (bs.drop iov) ↔
        (bs.take iov).getLast? ≠ some [] := by
  refine ⟨?_, fun iov bs => ?_⟩
  · obtain ⟨hs, hexact⟩ := steady_of_reach h ho
    have he := hexact hcalls ht
    by_cases hb : c.state.buffer = []
    · refine iff_of_true ⟨0, hb, he.idle hb, fun h => absurd hb h, fun h => absurd hb h⟩ ?_
      intro t ht hne
      rw [hb] at ht
      exact absurd (List.suffix_nil.mp ht) hne
    · have hdraining : c.state.Draining :=
        ⟨he.mpr hb, hb, by_contra fun hl => hb (hs.dropped ht hl), hs.attached ht, hw⟩
      refine ⟨fun ⟨n, hn⟩ t hsuffix hne hwindow => ?_, hdraining.drains hO⟩
      have hkept := hdraining.stuck hO hne hsuffix hwindow n
      rw [hn.buffer] at hkept
      exact hne (List.suffix_nil.mp hkept)
  · rw [adjustLeftoverBuffer_all, Option.some.injEq, unsent_eq_drop_iff]

/-- Callbacks return and the kernel takes everything. -/
def World.generous : Oracle World UserCall Nat Exc Query Reply where
  ret _ _ := .ok 0
  answer q _ := match q with
    | .send n => .done n
    | _ => .done 0

theorem World.acceptsAll_generous : AcceptsAll World.generous :=
  ⟨⟨fun _ _ h => by cases h⟩, fun _ _ => rfl⟩

/-- The kernel takes one byte of three, and `close` waits for the other two:
some number of firings tears the transport down. -/
theorem drains_iff_flows_closing : ∃ c : Config World UserCall Nat Exc Query Reply,
    c.state.buffer = [[2, 3]] ∧ c.state.closing = true ∧
    ∃ n, ((World.fire World.generous)^[n] c.state).attached = false := by
  have hstart : Reach transport steadyWriter (fun s => ∃ kind kernel, s = World.new kind kernel)
      ⟨World.new .plain ⟨[], [], none, false⟩, none, []⟩ := .start ⟨_, ⟨_, _, rfl⟩, rfl⟩
  obtain ⟨c, hrun, hend⟩ := hstart.exists_of_replay [
    Move.andRun (.call (.write [1, 2, 3])) 3, Move.andRun (.answer (.done 1)) 2,
    Move.andRun (.answer (.done 0)) 4, Move.andRun (.call .close) 8].flatten
    (fun c => c.code.isNone && c.calls.isEmpty && c.state.teardowns = 0 &&
      c.state.emptyWaiter.isNone && c.state.iovMax = 1024 && c.state.buffer = [[2, 3]] &&
      c.state.closing) (by decide +kernel)
  simp only [Bool.and_eq_true, Option.isNone_iff_eq_none, List.isEmpty_iff,
    decide_eq_true_eq] at hend
  obtain ⟨⟨⟨⟨⟨⟨ho, hcalls⟩, ht⟩, hw⟩, hiov⟩, hbuf⟩, hclosing⟩ := hend
  have hflows : Flows c.state.iovMax c.state.buffer := by
    intro t ht hne
    rw [hbuf, List.suffix_cons_iff, List.suffix_nil] at ht
    rcases ht with rfl | rfl
    · rw [hiov]
      decide
    · exact absurd rfl hne
  obtain ⟨n, hn⟩ := (drains_iff_flows hrun ho hcalls ht (by simp [hw])
    World.acceptsAll_generous).1.mpr hflows
  exact ⟨c, hbuf, hclosing, n, hn.closed (by simp [hbuf]) hclosing⟩

/-- After `writelines([b""])` the writer fires forever. -/
theorem empty_line_never_sent : ¬∀ (c : Config World UserCall Nat Exc Query Reply)
    (O : Oracle World UserCall Nat Exc Query Reply),
    Reach transport steadyWriter (fun s => ∃ kind kernel, s = World.new kind kernel) c →
    c.Outside → c.calls = [] → c.state.teardowns = 0 → c.state.emptyWaiter ≠ some .done →
    AcceptsAll O → ∃ n, c.state.Drained ((World.fire O)^[n] c.state) := by
  intro hall
  have hstart : Reach transport steadyWriter (fun s => ∃ kind kernel, s = World.new kind kernel)
      ⟨World.new .plain ⟨[], [], none, false⟩, none, []⟩ := .start ⟨_, ⟨_, _, rfl⟩, rfl⟩
  obtain ⟨c, hrun, hend⟩ := hstart.exists_of_replay [
    Move.andRun (.call (.writelines [[]])) 5, Move.andRun (.answer (.done 0)) 7,
    Move.andRun (.answer (.done 0)) 3].flatten
    (fun c => c.code.isNone && c.calls.isEmpty && c.state.teardowns = 0 &&
      c.state.emptyWaiter.isNone && c.state.attached && c.state.connLost = 0 &&
      c.state.buffer = [[]] && c.state.writer.isSome) (by decide +kernel)
  simp only [Bool.and_eq_true, Option.isNone_iff_eq_none, List.isEmpty_iff,
    decide_eq_true_eq] at hend
  obtain ⟨⟨⟨⟨⟨⟨⟨ho, hcalls⟩, ht⟩, hw⟩, ha⟩, hl⟩, hbuf⟩, hwriter⟩ := hend
  have hdraining : c.state.Draining := ⟨hwriter, by simp [hbuf], hl, ha, by simp [hw]⟩
  obtain ⟨n, hn⟩ := hall c World.generous hrun ho hcalls ht (by simp [hw])
    World.acceptsAll_generous
  have hkept := hdraining.stuck World.acceptsAll_generous (List.cons_ne_nil [] [])
    (by simp [hbuf]) (by cases c.state.iovMax <;> simp) n
  rw [hn.buffer] at hkept
  simp at hkept

end Tokioop.Transport
