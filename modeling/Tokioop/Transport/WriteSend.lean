import Tokioop.Transport.Firing

/-!
The two write-ready handlers side by side.

`_write_send` takes the first chunk out of the buffer before it sends it, and
puts back what is left of it when the kernel has taken a part. When the kernel
would block, nothing is put back. `_write_sendmsg` trims the buffer after the
send, and stops at the last byte that was sent, in front of empty chunks that
`_write_send` would take out one by one. These are the two differences: with
no would-block answer to `_write_send`, and with bytes in the last chunk, each
handler does what the other does.
-/

namespace Tokioop.Transport

open Fd Kit Kit.Prog

/-! ### `_write_send` -/

/-- The body of the `try` of `_write_send`. -/
def sendHead : Meth Bool := do
  match (← get).buffer with
  | [] => raise .indexError
  | b :: rest => do
      modify fun s => { s with buffer := rest }
      match ← sockSend b with
      | none => pure false
      | some n => do
          if n ≠ b.length then modify fun s => { s with buffer := b.drop n :: s.buffer }
          else pure ()
          pure true

def writeSend : Meth Unit := writeReady sendHead

/-! ### Kernel answers -/

/-- The kernel answers `a`, and callbacks return what `ret` says. -/
def answering (ret : UserCall → World → Except Exc Nat) (a : Reply) :
    Oracle World UserCall Nat Exc Query Reply :=
  ⟨ret, fun _ _ => a⟩

/-- Firings of a writer with the handler `ready`, one for each answer. -/
def World.firings (ready : Meth Unit) (ret : UserCall → World → Except Exc Nat)
    (as : List Reply) (s : World) : World :=
  as.foldl (fun s a => s.fireBy ready (answering ret a)) s

/-- A firing that does not fail keeps what was sent and what is buffered
together, and one that is not answered with a number leaves the buffer. -/
structure KeepsBytes (ready : Meth Unit) (ret : UserCall → World → Except Exc Nat) (a : Reply)
    (s : World) : Prop where
  bytes : a.failed = false →
    (s.fireBy ready (answering ret a)).sent ++ (s.fireBy ready (answering ret a)).buffer.flatten =
      s.sent ++ s.buffer.flatten
  held : a = .wouldBlock → (s.fireBy ready (answering ret a)).buffer = s.buffer

/-- Every firing keeps the bytes. -/
def KeepsBytesAlong (ready : Meth Unit) (ret : UserCall → World → Except Exc Nat) :
    List Reply → World → Prop
  | [], _ => True
  | a :: as, s =>
      KeepsBytes ready ret a s ∧ KeepsBytesAlong ready ret as (s.fireBy ready (answering ret a))

/-- No send by `_write_send` is answered with would-block or interrupted. -/
def NeverBlocks (ret : UserCall → World → Except Exc Nat) : List Reply → World → Prop
  | [], _ => True
  | a :: as, s =>
      (s.buffer ≠ [] → a ≠ .wouldBlock) ∧
        NeverBlocks ret as (s.fireBy writeSend (answering ret a))

/-- Firings that the kernel answers with a number of bytes get from `t` to
where what was buffered in `s` is through. -/
def Finishes (ready : Meth Unit) (ret : UserCall → World → Except Exc Nat) (s t : World) : Prop :=
  ∃ as, (∀ a ∈ as, ∃ n, a = .done n) ∧ s.Drained (t.firings ready ret as)

/-! ### One send -/

section Send

variable {ret : UserCall → World → Except Exc Nat} {s : World} {b : List UInt8}
  {bs : List (List UInt8)}

/-- What the buffer is after a send of its first chunk. -/
def headLeft (b : List UInt8) (n : Nat) (bs : List (List UInt8)) : List (List UInt8) :=
  if n < b.length then b.drop n :: bs else bs

theorem exec_sendHead_done (ha : s.attached = true) (hb : s.buffer = b :: bs) (n : Nat) :
    sendHead.exec (answering ret (.done n)) s =
      some (.ok true, { s.took (b.take n) with buffer := headLeft b n bs }) := by
  by_cases hn : n < b.length
  · simp [sendHead, sockSend, answering, ha, hb, headLeft, hn, World.took,
      Nat.min_eq_left (Nat.le_of_lt hn), Nat.ne_of_lt hn]
  · simp [sendHead, sockSend, answering, ha, hb, headLeft, hn, World.took,
      Nat.min_eq_right (Nat.le_of_not_lt hn)]

theorem exec_sendHead_blocked (ha : s.attached = true) (hb : s.buffer = b :: bs) :
    sendHead.exec (answering ret .wouldBlock) s = some (.ok false, { s with buffer := bs }) := by
  simp [sendHead, sockSend, answering, ha, hb]

theorem exec_sendHead_failed (ha : s.attached = true) (hb : s.buffer = b :: bs) (e : Errno) :
    sendHead.exec (answering ret (.fail e)) s =
      some (.error (.osError e), { s with buffer := bs }) := by
  simp [sendHead, sockSend, answering, ha, hb]

theorem headLeft_flatten (n : Nat) : b.take n ++ (headLeft b n bs).flatten = (b :: bs).flatten := by
  rw [headLeft]
  split
  · rw [List.flatten_cons, List.flatten_cons, ← List.append_assoc, List.take_append_drop]
  · rename_i hn
    rw [List.take_of_length_le (Nat.le_of_not_lt hn), List.flatten_cons]

end Send

/-- Whether the last chunk is empty does not change. -/
theorem adjustLeftoverBuffer_getLast {bs rest : List (List UInt8)} {n : Nat}
    (hn : n ≤ bs.flatten.length) (h : adjustLeftoverBuffer bs n = some rest) :
    rest.getLast? = some [] ↔ bs.getLast? = some [] := by
  induction bs generalizing n with
  | nil =>
      obtain rfl : n = 0 := Nat.le_zero.mp hn
      cases h
      rfl
  | cons b bs ih =>
      cases n with
      | zero =>
          cases h
          rfl
      | succ n =>
          rw [adjustLeftoverBuffer] at h
          rw [List.flatten_cons, List.length_append] at hn
          split at h
          · rename_i hle
            rw [ih (by omega) h]
            cases bs with
            | nil =>
                have hb : b ≠ [] := by
                  rintro rfl
                  simp at hn
                simp [hb]
            | cons c cs => rw [List.getLast?_cons_cons]
          · rename_i hlt
            cases h
            cases bs with
            | nil =>
                have hb : b ≠ [] := by
                  rintro rfl
                  simp at hlt
                simp [hb]
                omega
            | cons c cs => rw [List.getLast?_cons_cons, List.getLast?_cons_cons]

/-! ### One firing -/

/-- From `s` to `t` firings have sent a part of the buffer, or all of it. -/
structure Along (s t : World) : Prop where
  poised : (t.Draining ∧ t.closing = s.closing ∧ t.eof = s.eof) ∨ s.Drained t
  bytes : t.sent ++ t.buffer.flatten = s.sent ++ s.buffer.flatten

theorem Along.refl {s : World} (h : s.Draining) : Along s s := ⟨.inl ⟨h, rfl, rfl⟩, rfl⟩

theorem Along.trans {s t u : World} (h : Along s t) (ht : t.Draining) (h' : Along t u) :
    Along s u := by
  obtain ⟨-, hc, he⟩ := h.poised.resolve_right fun hdone => ht.buffer hdone.buffer
  refine ⟨?_, h'.bytes.trans h.bytes⟩
  rcases h'.poised with ⟨hu, hc', he'⟩ | hdone
  · exact .inl ⟨hu, hc'.trans hc, he'.trans he⟩
  · refine .inr ⟨hdone.buffer, hdone.writer, fun _ h => ?_, fun _ h h' => ?_⟩
    · exact hdone.closed ht.buffer (hc.trans h)
    · exact hdone.ended ht.buffer (hc.trans h) (he.trans h')

theorem World.Draining.along {O : Oracle World UserCall Nat Exc Query Reply} {send : Meth Bool}
    {s v : World} (h : s.Draining) (hO : Resumes O) (hsend : send.exec O s = some (.ok true, v))
    (hv : Took s v) (hflat : v.sent ++ v.buffer.flatten = s.sent ++ s.buffer.flatten) :
    Along s (s.fireBy (writeReady send) O) ∧
      (s.fireBy (writeReady send) O).buffer = v.buffer := by
  by_cases hlast : v.buffer = []
  · obtain ⟨hdone, hsent⟩ := h.fireBy_last hO hsend hv hlast
    refine ⟨⟨.inr hdone, ?_⟩, hdone.buffer.trans hlast.symm⟩
    rw [hsent, hdone.buffer, ← hlast]
    exact hflat
  · have htold := h.fireBy_more hO hsend hv hlast
    have hdraining := h.told hv htold hlast
    obtain ⟨hbuf, hsent, hc, he⟩ :
        (s.fireBy (writeReady send) O).buffer = v.buffer ∧
        (s.fireBy (writeReady send) O).sent = v.sent ∧
        (s.fireBy (writeReady send) O).closing = s.closing ∧
        (s.fireBy (writeReady send) O).eof = s.eof := by
      rw [htold.eq, hv.eq]
      exact ⟨rfl, rfl, rfl, rfl⟩
    refine ⟨⟨.inl ⟨hdraining, hc, he⟩, ?_⟩, hbuf⟩
    rw [hsent, hbuf]
    exact hflat

theorem fireBy_of_no_writer {ready : Meth Unit} {O : Oracle World UserCall Nat Exc Query Reply}
    {s : World} (h : s.writer = none) : s.fireBy ready O = s := by
  rw [World.fireBy, h]

section Firing

variable {ret : UserCall → World → Except Exc Nat} {s : World}

theorem sendmsg_blocked (h : s.Draining) :
    s.fireBy writeSendmsg (answering ret .wouldBlock) = s :=
  h.fireBy_blocked (exec_sendBuffer_blocked h.attached rfl)

theorem sendmsg_failed (h : s.Draining) (e : Errno) :
    (s.fireBy writeSendmsg (answering ret (.fail e))).buffer = [] ∧
      (s.fireBy writeSendmsg (answering ret (.fail e))).writer = none :=
  h.fireBy_failed (exec_sendBuffer_failed h.attached rfl) ⟨rfl⟩

theorem send_blocked (h : s.Draining) {b : List UInt8} {bs : List (List UInt8)}
    (hb : s.buffer = b :: bs) :
    (s.fireBy writeSend (answering ret .wouldBlock)).buffer = bs := by
  rw [writeSend, h.fireBy_blocked (exec_sendHead_blocked h.attached hb)]

theorem send_failed (h : s.Draining) (e : Errno) :
    (s.fireBy writeSend (answering ret (.fail e))).buffer = [] ∧
      (s.fireBy writeSend (answering ret (.fail e))).writer = none := by
  obtain ⟨b, bs, hb⟩ := List.exists_cons_of_ne_nil h.buffer
  exact h.fireBy_failed (exec_sendHead_failed h.attached hb e) ⟨rfl⟩

/-! ### Runs of firings -/

/-- A writer has something to send. -/
def World.Poised (s : World) : Prop := s.Draining ∨ s.buffer = [] ∧ s.writer = none

theorem Along.toPoised {t : World} (h : Along s t) : t.Poised :=
  h.poised.imp And.left fun hdone => ⟨hdone.buffer, hdone.writer⟩

theorem firings_cons (ready : Meth Unit) (a : Reply) (as : List Reply) :
    s.firings ready ret (a :: as) = (s.fireBy ready (answering ret a)).firings ready ret as := rfl

theorem firings_of_no_writer {ready : Meth Unit} (h : s.writer = none) (as : List Reply) :
    s.firings ready ret as = s := by
  induction as with
  | nil => rfl
  | cons a as ih => rw [firings_cons, fireBy_of_no_writer h, ih]

/-- What firings do from where the first one got to. -/
theorem Along.then {ready : Meth Unit} {t : World} {as : List Reply} (h : Along s t)
    (hrest : t.Draining → Along t (t.firings ready ret as)) :
    Along s (t.firings ready ret as) := by
  rcases h.poised with ⟨ht, -⟩ | hdone
  · exact h.trans ht (hrest ht)
  · rw [firings_of_no_writer hdone.writer]
    exact h

/-- A firing that changes nothing. -/
theorem KeepsBytes.of_same {ready : Meth Unit} {a : Reply}
    (h : s.fireBy ready (answering ret a) = s) : KeepsBytes ready ret a s := by
  refine ⟨fun _ => ?_, fun _ => ?_⟩
  all_goals rw [h]

theorem KeepsBytes.of_failed (ready : Meth Unit) (e : Errno) :
    KeepsBytes ready ret (.fail e) s := by
  refine ⟨fun h => ?_, fun h => ?_⟩
  all_goals cases h

theorem KeepsBytes.of_along {ready : Meth Unit} {n : Nat}
    (h : Along s (s.fireBy ready (answering ret (.done n)))) :
    KeepsBytes ready ret (.done n) s := by
  refine ⟨fun _ => h.bytes, fun h => ?_⟩
  cases h

theorem Finishes.of_fired {ready : Meth Unit} {t : World} {n : Nat}
    (h : Finishes ready ret s (t.fireBy ready (answering ret (.done n)))) :
    Finishes ready ret s t := by
  obtain ⟨as, has, hdone⟩ := h
  refine ⟨.done n :: as, fun a ha => ?_, hdone⟩
  rcases List.mem_cons.mp ha with rfl | ha
  · exact ⟨n, rfl⟩
  · exact has a ha

theorem Finishes.of_drained {ready : Meth Unit} {t : World} (h : s.Drained t) :
    Finishes ready ret s t :=
  ⟨[], fun _ ha => absurd ha List.not_mem_nil, h⟩

/-! ### Firings that send

`resume_writing` does not end the process, whatever it raises. -/

variable (hret : ∀ t x, ret .resumeWriting t = .error x → x.exits = false)

include hret

theorem resumes_answering (a : Reply) : Resumes (answering ret a) := ⟨hret⟩

theorem sendmsg_done (h : s.Draining) (n : Nat) :
    Along s (s.fireBy writeSendmsg (answering ret (.done n))) ∧
      ((s.fireBy writeSendmsg (answering ret (.done n))).buffer.getLast? = some [] ↔
        s.buffer.getLast? = some []) := by
  obtain ⟨rest, hsend, hadjust, hflat⟩ :=
    exec_sendBuffer_done (O := answering ret (.done n)) h.attached rfl
  obtain ⟨halong, hbuf⟩ := h.along (resumes_answering hret _) hsend ⟨rfl⟩ (by
    simp only [World.took, List.append_assoc, hflat])
  refine ⟨halong, ?_⟩
  rw [writeSendmsg_eq, hbuf]
  refine adjustLeftoverBuffer_getLast ?_ hadjust
  have hlen := congrArg List.length hflat
  rw [List.length_append, List.length_take] at hlen
  omega

theorem send_done (h : s.Draining) {b : List UInt8}
    {bs : List (List UInt8)} (hb : s.buffer = b :: bs) (n : Nat) :
    Along s (s.fireBy writeSend (answering ret (.done n))) ∧
      (s.fireBy writeSend (answering ret (.done n))).buffer = headLeft b n bs := by
  refine h.along (resumes_answering hret _) (exec_sendHead_done h.attached hb n) ⟨rfl⟩ ?_
  simp only [World.took, List.append_assoc, headLeft_flatten, hb]

theorem keepsBytesAlong_sendmsg
    (h : s.Poised) (as : List Reply) : KeepsBytesAlong writeSendmsg ret as s := by
  induction as generalizing s with
  | nil => trivial
  | cons a as ih =>
      rcases h with h | ⟨hb, hw⟩
      · cases a with
        | done n =>
            obtain ⟨halong, -⟩ := sendmsg_done hret h n
            exact ⟨.of_along halong, ih halong.toPoised⟩
        | wouldBlock =>
            have hsame : s.fireBy writeSendmsg (answering ret .wouldBlock) = s := sendmsg_blocked h
            exact ⟨.of_same hsame, ih (by rw [hsame]; exact .inl h)⟩
        | fail e => exact ⟨.of_failed _ e, ih (.inr (sendmsg_failed h e))⟩
      · have hsame : s.fireBy writeSendmsg (answering ret a) = s := fireBy_of_no_writer hw
        exact ⟨.of_same hsame, ih (by rw [hsame]; exact .inr ⟨hb, hw⟩)⟩

/-- A would-block answer costs `_write_send` the chunk it has taken out. -/
theorem keepsBytes_send_iff (h : s.Poised) (a : Reply) :
    KeepsBytes writeSend ret a s ↔ (s.buffer ≠ [] → a ≠ .wouldBlock) := by
  rcases h with h | ⟨hb, hw⟩
  · obtain ⟨b, bs, hb⟩ := List.exists_cons_of_ne_nil h.buffer
    cases a with
    | done n =>
        exact iff_of_true (.of_along (send_done hret h hb n).1) fun _ h => by cases h
    | wouldBlock =>
        refine iff_of_false (fun hkeeps => ?_) fun hno => hno h.buffer rfl
        have hheld := hkeeps.held rfl
        rw [send_blocked h hb, hb] at hheld
        simp at hheld
    | fail e =>
        exact iff_of_true (.of_failed _ e) fun _ h => by cases h
  · exact iff_of_true (.of_same (fireBy_of_no_writer hw)) fun h => absurd hb h

theorem poised_send (h : s.Poised) {a : Reply} (ha : s.buffer ≠ [] → a ≠ .wouldBlock) :
    (s.fireBy writeSend (answering ret a)).Poised := by
  rcases h with h | ⟨hb, hw⟩
  · obtain ⟨b, bs, hb⟩ := List.exists_cons_of_ne_nil h.buffer
    cases a with
    | done n => exact (send_done hret h hb n).1.toPoised
    | wouldBlock => exact absurd rfl (ha h.buffer)
    | fail e => exact .inr (send_failed h e)
  · rw [fireBy_of_no_writer hw]
    exact .inr ⟨hb, hw⟩

theorem keepsBytesAlong_send_iff (h : s.Poised)
    (as : List Reply) : KeepsBytesAlong writeSend ret as s ↔ NeverBlocks ret as s := by
  induction as generalizing s with
  | nil => rfl
  | cons a as ih =>
      rw [KeepsBytesAlong, NeverBlocks, keepsBytes_send_iff hret h a]
      exact and_congr_right fun ha => ih (poised_send hret h ha)

theorem along_sendmsg (h : s.Draining) {as : List Reply} (has : ∀ a ∈ as, a.failed = false) :
    Along s (s.firings writeSendmsg ret as) ∧
      ((s.firings writeSendmsg ret as).buffer.getLast? = some [] ↔
        s.buffer.getLast? = some []) := by
  induction as generalizing s with
  | nil => exact ⟨.refl h, Iff.rfl⟩
  | cons a as ih =>
      have has' : ∀ a ∈ as, a.failed = false := fun a ha => has a (List.mem_cons_of_mem _ ha)
      cases a with
      | done n =>
          obtain ⟨halong, hlast⟩ := sendmsg_done hret h n
          refine ⟨halong.then fun ht => (ih ht has').1, ?_⟩
          rw [firings_cons, ← hlast]
          rcases halong.poised with ⟨ht, -⟩ | hdone
          · exact (ih ht has').2
          · rw [firings_of_no_writer hdone.writer]
      | wouldBlock =>
          rw [firings_cons, sendmsg_blocked h]
          exact ih h has'
      | fail e => exact absurd (has _ List.mem_cons_self) Bool.noConfusion

theorem along_send (h : s.Draining) {as : List Reply} (has : ∀ a ∈ as, a.failed = false)
    (hfree : NeverBlocks ret as s) : Along s (s.firings writeSend ret as) := by
  induction as generalizing s with
  | nil => exact .refl h
  | cons a as ih =>
      have has' : ∀ a ∈ as, a.failed = false := fun a ha => has a (List.mem_cons_of_mem _ ha)
      obtain ⟨b, bs, hb⟩ := List.exists_cons_of_ne_nil h.buffer
      cases a with
      | done n => exact (send_done hret h hb n).1.then fun ht => ih ht has' hfree.2
      | wouldBlock => exact absurd rfl (hfree.1 h.buffer)
      | fail e => exact absurd (has _ List.mem_cons_self) Bool.noConfusion

/-- `_write_send` takes empty chunks out one by one. -/
theorem send_finishes
    {t : World} (h : Along s t) (hflat : t.buffer.flatten = []) : Finishes writeSend ret s t := by
  induction hn : t.buffer.length using Nat.strongRecOn generalizing t with
  | _ n ih =>
      rcases h.poised with ⟨ht, -⟩ | hdone
      · obtain ⟨b, bs, hb⟩ := List.exists_cons_of_ne_nil ht.buffer
        rw [hb, List.flatten_cons, List.append_eq_nil_iff] at hflat
        obtain ⟨rfl, hbs⟩ := hflat
        obtain ⟨halong, hbuf⟩ := send_done hret ht hb 0
        rw [headLeft, List.length_nil, if_neg (Nat.lt_irrefl 0)] at hbuf
        apply Finishes.of_fired (n := 0)
        refine ih _ ?_ (h.trans ht halong) ?_ rfl
        · rw [hbuf, ← hn, hb]
          exact Nat.lt_succ_self _
        · rw [hbuf, hbs]
      · exact .of_drained hdone

/-- `_write_sendmsg` never takes out the empty chunks behind the last byte. -/
theorem sendmsg_finishes_iff {t : World} (h : Along s t) (hflat : t.buffer.flatten = []) :
    Finishes writeSendmsg ret s t ↔ t.buffer.getLast? ≠ some [] := by
  rcases h.poised with ⟨ht, -⟩ | hdone
  · have hlast : t.buffer.getLast? = some [] := by
      rw [List.getLast?_eq_some_getLast ht.buffer]
      exact congrArg some (List.flatten_eq_nil_iff.mp hflat _ (List.getLast_mem _))
    refine iff_of_false (fun ⟨as, has, hdone⟩ => ?_) (not_not.mpr hlast)
    have hfree : ∀ a ∈ as, a.failed = false := fun a ha => by
      obtain ⟨n, rfl⟩ := has a ha
      rfl
    have hkept := (along_sendmsg hret ht hfree).2.mpr hlast
    rw [hdone.buffer] at hkept
    cases hkept
  · refine iff_of_true (.of_drained hdone) ?_
    rw [hdone.buffer]
    simp

end Firing

/-- `_write_sendmsg` keeps the bytes whatever the kernel answers, and
`_write_send` does exactly when no send of its is answered with would-block.
Then the two send the same bytes, and once they have sent them all they agree
on whether they get to what waits for an empty buffer exactly when the last
chunk has bytes. -/
theorem handlers_agree_iff {ret : UserCall → World → Except Exc Nat} {s : World}
    (hret : ∀ t x, ret .resumeWriting t = .error x → x.exits = false) (hs : s.Draining)
    (as bs : List Reply) :
    KeepsBytesAlong writeSendmsg ret bs s ∧
    (KeepsBytesAlong writeSend ret as s ↔ NeverBlocks ret as s) ∧
    (NeverBlocks ret as s → (∀ a ∈ as, a.failed = false) → (∀ b ∈ bs, b.failed = false) →
      (s.firings writeSend ret as).buffer.flatten = [] →
      (s.firings writeSendmsg ret bs).buffer.flatten = [] →
      (s.firings writeSend ret as).sent = (s.firings writeSendmsg ret bs).sent ∧
      ((Finishes writeSend ret s (s.firings writeSend ret as) ↔
          Finishes writeSendmsg ret s (s.firings writeSendmsg ret bs)) ↔
        s.buffer.getLast? ≠ some [])) := by
  refine ⟨keepsBytesAlong_sendmsg hret (.inl hs) bs, keepsBytesAlong_send_iff hret (.inl hs) as,
    fun hfree has hbs hsent hsent' => ⟨?_, ?_⟩⟩
  · have hbytes := (along_send hret hs has hfree).bytes
    have hbytes' := (along_sendmsg hret hs hbs).1.bytes
    rw [hsent, List.append_nil] at hbytes
    rw [hsent', List.append_nil] at hbytes'
    exact hbytes.trans hbytes'.symm
  · obtain ⟨halong, hlast⟩ := along_sendmsg hret hs hbs
    rw [iff_true_left (send_finishes hret (along_send hret hs has hfree) hsent),
      sendmsg_finishes_iff hret halong hsent', ne_eq, ne_eq, hlast]

/-- A transport with chunks in its buffer. -/
def World.buffering (bs : List (List UInt8)) : World :=
  { World.new .plain ⟨[], [], none, false⟩ with buffer := bs, writer := some 0 }

theorem World.draining_buffering {bs : List (List UInt8)} (h : bs ≠ []) :
    (World.buffering bs).Draining :=
  ⟨rfl, h, rfl, rfl, by simp [World.buffering, World.new]⟩

/-- Two chunks, the first of which the kernel takes in two parts. -/
theorem handlers_agree_iff_partial : ∃ s t u : World, s = World.buffering [[1, 2], [3]] ∧
    t = s.firings writeSend (fun _ _ => .ok 0) [.done 1, .done 1, .done 1] ∧
    u = s.firings writeSendmsg (fun _ _ => .ok 0) [.done 1, .wouldBlock, .done 2] ∧
    t.sent = u.sent ∧
    (Finishes writeSend (fun _ _ => .ok 0) s t ↔ Finishes writeSendmsg (fun _ _ => .ok 0) s u) := by
  have hs : (World.buffering [[1, 2], [3]]).Draining := World.draining_buffering (by simp)
  obtain ⟨-, -, hagree⟩ := @handlers_agree_iff (fun _ _ => .ok 0) _ (fun _ _ h => by cases h) hs
    [.done 1, .done 1, .done 1] [.done 1, .wouldBlock, .done 2]
  have hfree : NeverBlocks (fun _ _ => .ok 0) [.done 1, .done 1, .done 1]
      (World.buffering [[1, 2], [3]]) := by
    simp [NeverBlocks]
  obtain ⟨hsent, hfinish⟩ :=
    hagree hfree (by decide) (by decide) (by decide +kernel) (by decide +kernel)
  exact ⟨_, _, _, rfl, rfl, rfl, hsent, hfinish.mpr (by decide)⟩

/-- One chunk is buffered and the kernel would block: the chunk is gone. -/
theorem send_blocked_loses : ¬∀ (ret : UserCall → World → Except Exc Nat) (s : World),
    (∀ t x, ret .resumeWriting t = .error x → x.exits = false) → s.Draining →
    ∀ as, KeepsBytesAlong writeSend ret as s := by
  intro hall
  obtain ⟨hkeeps, -⟩ := hall (fun _ _ => .ok 0) (World.buffering [[1]]) (fun _ _ h => by cases h)
    (World.draining_buffering (by simp)) [.wouldBlock]
  have hheld := hkeeps.held rfl
  revert hheld
  decide +kernel

end Tokioop.Transport
