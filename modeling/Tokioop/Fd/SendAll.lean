import Tokioop.Fd.SockOps
import Tokioop.Kit.MemView

/-!
The bytes of `sock_sendall`: the first attempt, the future, and the firings of
the writer that send the rest.

The kernel counts bytes. `sock_sendall` adds its counts up, compares them with
`len(data)` and slices a `memoryview` with them, and these count items.
-/

namespace Tokioop.Fd

open Kit

/-! ### The operation -/

inductive SendFuture
  | pending
  | result
  | exception
  | cancelled
  deriving DecidableEq, Repr

/-- Where `sock_sendall` has got to. -/
inductive SendStatus
  /-- It returned after the first attempt. -/
  | returned
  /-- The first attempt raised. -/
  | raised
  /-- `_ensure_fd_no_transport` or `_add_writer` raised, and nobody waits for
  the future that had been created. -/
  | unregistered
  | waiting (fut : SendFuture)
  deriving DecidableEq, Repr

/-- A call of `sock_sendall`; `sent` is what the kernel has accepted. -/
structure SendAll where
  view : MemView
  -- `pos[0]`.
  pos : Nat
  status : SendStatus
  sent : List UInt8
  deriving DecidableEq

/-- The kernel accepts something. -/
def SockAnswer.sends : SockAnswer → Bool
  | .result n => n ≠ 0
  | .wouldBlock | .error | .exit => false

namespace SendAll

/-- `sock_sendall` once the first attempt has sent `n` bytes; `registers` says
whether the writer gets registered. -/
def afterFirst (view : MemView) (n : Nat) (registers : Bool) : SendAll where
  view := view
  pos := n
  status :=
    if n = view.len then .returned
    else if registers then .waiting .pending
    else .unregistered
  sent := view.bytes.take n

/-- `sock_sendall` up to its `await`. -/
def start (view : MemView) (first : SockAnswer) (registers : Bool) : SendAll :=
  match first with
  | .result n => afterFirst view (min n view.bytes.length) registers
  | .wouldBlock => afterFirst view 0 registers
  | .error | .exit => ⟨view, 0, .raised, []⟩

/-- The end of `_sock_sendall`, after a `send` of `data` that took `n` bytes. -/
def advance (s : SendAll) (data : List UInt8) (n : Nat) : SendAll :=
  if s.pos + n = s.view.len then
    { s with status := .waiting .result, sent := s.sent ++ data.take n }
  else { s with pos := s.pos + n, sent := s.sent ++ data.take n }

/-- `_sock_sendall`. -/
def fire (s : SendAll) (a : SockAnswer) : SendAll :=
  if s.status = .waiting .pending then
    match a with
    | .wouldBlock | .exit => s
    | .error => { s with status := .waiting .exception }
    | .result n =>
        let data := (s.view.drop s.pos).bytes
        s.advance data (min n data.length)
  else s

inductive Move
  -- The writer fires.
  | fire (a : SockAnswer)
  -- The future is cancelled.
  | cancel
  deriving DecidableEq, Repr

def step (s : SendAll) : Move → SendAll
  | .fire a => s.fire a
  | .cancel => if s.status = .waiting .pending then { s with status := .waiting .cancelled } else s

def run (s : SendAll) (ms : List Move) : SendAll := ms.foldl step s

def future (s : SendAll) : Option SendFuture :=
  match s.status with
  | .returned | .raised => none
  | .unregistered => some .pending
  | .waiting fut => some fut

/-- The call is over, or the future is done. -/
def ended (s : SendAll) : Bool := s.status ≠ .waiting .pending

def rest (s : SendAll) : List UInt8 :=
  match s.status with
  | .returned | .waiting .result => []
  | _ => (s.view.drop s.pos).bytes

/-! ### What a call keeps -/

/-- What is passed to `send` when the writer fires. -/
def offered (s : SendAll) : List UInt8 := (s.view.drop s.pos).bytes

/-- A move changes nothing, or completes the future without a result, or
sends. -/
theorem step_cases (s : SendAll) (m : Move) :
    s.step m = s ∨
      s.status = .waiting .pending ∧
        ((∃ fut, fut ≠ .pending ∧ fut ≠ .result ∧ s.step m = { s with status := .waiting fut }) ∨
          ∃ n, m = .fire (.result n) ∧
            s.step m = s.advance s.offered (min n s.offered.length)) := by
  by_cases hstatus : s.status = .waiting .pending
  · cases m with
    | cancel => exact .inr ⟨hstatus, .inl ⟨.cancelled, by decide, by decide, if_pos hstatus⟩⟩
    | fire a =>
        cases a with
        | wouldBlock | exit => exact .inl (if_pos hstatus)
        | error => exact .inr ⟨hstatus, .inl ⟨.exception, by decide, by decide, if_pos hstatus⟩⟩
        | result n => exact .inr ⟨hstatus, .inr ⟨n, rfl, if_pos hstatus⟩⟩
  · cases m with
    | cancel => exact .inl (if_neg hstatus)
    | fire a => exact .inl (if_neg hstatus)

/-- A call that is over sends nothing, and stays over. -/
theorem step_of_ended {s : SendAll} (h : s.ended = true) (m : Move) : s.step m = s := by
  rcases s.step_cases m with hs | ⟨hstatus, -⟩
  · exact hs
  · exact absurd hstatus (of_decide_eq_true h)

@[simp] theorem advance_view (s : SendAll) (data : List UInt8) (n : Nat) :
    (s.advance data n).view = s.view :=
  (apply_ite SendAll.view _ _ _).trans (ite_self _)

@[simp] theorem advance_sent (s : SendAll) (data : List UInt8) (n : Nat) :
    (s.advance data n).sent = s.sent ++ data.take n :=
  (apply_ite SendAll.sent _ _ _).trans (ite_self _)

@[simp] theorem start_view (view : MemView) (first : SockAnswer) (registers : Bool) :
    (start view first registers).view = view := by
  cases first <;> rfl

@[simp] theorem step_view (s : SendAll) (m : Move) : (s.step m).view = s.view := by
  rcases s.step_cases m with hs | ⟨-, ⟨fut, -, -, hs⟩ | ⟨n, -, hs⟩⟩
  · rw [hs]
  · rw [hs]
  · rw [hs, advance_view]

/-- While the call is not over, `pos[0]` is the number of bytes sent. -/
def Counted (s : SendAll) : Prop := s.ended = false → s.sent.length = s.pos

theorem counted_start (view : MemView) (first : SockAnswer) (registers : Bool) :
    (start view first registers).Counted := by
  intro hended
  cases first with
  | result n =>
      show (view.bytes.take _).length = _
      rw [List.length_take, Nat.min_eq_left (Nat.min_le_right _ _)]
      rfl
  | wouldBlock => rfl
  | error | exit => cases hended

theorem Counted.step {s : SendAll} (h : s.Counted) (m : Move) : (s.step m).Counted := by
  rcases s.step_cases m with hs | ⟨hstatus, ⟨fut, hfut, -, hs⟩ | ⟨n, -, hs⟩⟩
  · rwa [hs]
  · intro hended
    rw [hs] at hended
    exact absurd (SendStatus.waiting.inj (of_not_not (of_decide_eq_false hended))) hfut
  · rw [hs]
    intro hended
    have hlen : s.sent.length = s.pos := h (decide_eq_false (not_not_intro hstatus))
    have hne : ¬ s.pos + min n s.offered.length = s.view.len := by
      intro he
      rw [advance, if_pos he] at hended
      cases hended
    rw [advance_sent, List.length_append, List.length_take, hlen, advance, if_neg hne]
    show _ = s.pos + min n s.offered.length
    omega

/-! ### Accounting -/

/-- The bytes that were accepted and those left are the data, and the future
has its result when all were accepted, and only then. -/
structure Accounted (s : SendAll) : Prop where
  whole : s.sent ++ s.rest = s.view.bytes
  result : ∀ fut, s.future = some fut → (fut = .result ↔ s.sent = s.view.bytes)

/-- The view is bytewise, or nothing is sent. -/
def Careful (s : SendAll) : Move → Prop
  | .fire a => s.view.Bytewise ∨ s.ended = true ∨ a.sends = false
  | .cancel => True

theorem careful_of_bytewise {s : SendAll} (h : s.view.Bytewise) : ∀ m, s.Careful m
  | .fire _ => .inl h
  | .cancel => trivial

theorem rest_of_pending {s : SendAll} (h : s.future = some .pending) : s.rest = s.offered := by
  obtain ⟨view, pos, status, sent⟩ := s
  match status, h with
  | .unregistered, _ => rfl
  | .waiting .pending, _ => rfl

namespace Accounted

variable {s : SendAll}

theorem sent_ne (h : s.Accounted) (hfut : s.future = some .pending) : s.sent ≠ s.view.bytes :=
  fun hall => absurd ((h.result .pending hfut).mpr hall) (by decide)

/-- While the future is pending there is something left. -/
theorem offered_ne_nil (h : s.Accounted) (hfut : s.future = some .pending) : s.offered ≠ [] := by
  intro hnil
  have hwhole := h.whole
  rw [rest_of_pending hfut, hnil, List.append_nil] at hwhole
  exact h.sent_ne hfut hwhole

/-- Of a view that is not bytewise nothing has been sent. -/
theorem pos_eq_zero (h : s.Accounted) (hfut : s.future = some .pending)
    (hpos : s.sent.length = s.pos) (hv : ¬ s.view.Bytewise) : s.pos = 0 := by
  have hwhole := h.whole
  rw [rest_of_pending hfut, offered, ← hpos] at hwhole
  rw [← hpos, MemView.eq_nil_of_append_drop hv hwhole (h.sent_ne hfut), List.length_nil]

end Accounted

/-- A call that waits, with a part of the data sent. -/
theorem accounted_pending_iff {s : SendAll} (hfut : s.future = some .pending)
    (hpos : s.sent.length = s.pos) (hfront : s.sent <+: s.view.bytes) (hne : s.pos ≠ s.view.len) :
    s.Accounted ↔ s.view.Bytewise ∨ s.pos = 0 := by
  constructor
  · intro h
    by_cases hv : s.view.Bytewise
    · exact .inl hv
    · exact .inr (h.pos_eq_zero hfut hpos hv)
  · intro h
    have hwhole : s.sent ++ s.offered = s.view.bytes := by
      rcases h with hv | h0
      · rw [offered, hv.bytes_drop, ← hpos, ← List.prefix_iff_eq_append.mp hfront]
        simp
      · rw [h0, List.length_eq_zero_iff] at hpos
        rw [offered, h0, hpos, MemView.drop_zero, List.nil_append]
    have hsent : s.sent ≠ s.view.bytes := by
      intro hall
      rcases h with hv | h0
      · exact hne (by rw [← hpos, hall, hv])
      · rw [← hpos, hall, List.length_eq_zero_iff, MemView.bytes_eq_nil_iff] at h0
        rw [← hpos, hall, h0, (MemView.bytes_eq_nil_iff _).mpr h0] at hne
        exact hne rfl
    refine ⟨by rw [rest_of_pending hfut, hwhole], fun fut hf => ?_⟩
    cases hfut.symm.trans hf
    exact iff_of_false (by decide) hsent

/-- A call that has counted as many bytes as the view has items. -/
theorem accounted_complete_iff {s : SendAll} (hrest : s.rest = [])
    (hfut : ∀ fut, s.future = some fut → fut = .result) (hlen : s.sent.length = s.view.len)
    (hfront : s.sent <+: s.view.bytes) : s.Accounted ↔ s.view.Bytewise := by
  constructor
  · intro h
    have hwhole := h.whole
    rw [hrest, List.append_nil] at hwhole
    rw [MemView.Bytewise, ← hwhole, hlen]
  · intro hv
    have hall : s.sent = s.view.bytes := hfront.eq_of_length (hlen.trans hv.symm)
    exact ⟨by rw [hrest, hall, List.append_nil], fun fut hf => iff_of_true (hfut fut hf) hall⟩

theorem accounted_afterFirst {view : MemView} {n : Nat} (hn : n ≤ view.bytes.length)
    (registers : Bool) : (afterFirst view n registers).Accounted ↔ view.Bytewise ∨ n = 0 := by
  have hlen : (view.bytes.take n).length = n := List.length_take_of_le hn
  by_cases hall : n = view.len
  · have hstatus : (afterFirst view n registers).status = .returned := if_pos hall
    rw [accounted_complete_iff (by rw [rest, hstatus]) (by rw [future, hstatus]; simp)
      (hlen.trans hall) (List.take_prefix n _)]
    refine ⟨.inl, fun h => h.elim id fun h0 => ?_⟩
    exact (MemView.bytewise_iff _).mpr (.inr (hall.symm.trans h0))
  · have hfut : (afterFirst view n registers).future = some .pending := by
      have hstatus : (afterFirst view n registers).status = _ := if_neg hall
      rw [future, hstatus]
      cases registers <;> rfl
    exact accounted_pending_iff hfut hlen (List.take_prefix n _) hall

theorem accounted_start (view : MemView) (first : SockAnswer) (registers : Bool) :
    (start view first registers).Accounted ↔ view.Bytewise ∨ first.sends = false := by
  cases first with
  | result n =>
      refine (accounted_afterFirst (Nat.min_le_right _ _) registers).trans ?_
      show _ ↔ _ ∨ decide (n ≠ 0) = false
      rw [decide_eq_false_iff_not, not_not]
      by_cases hempty : view.bytes = []
      · have hv : view.Bytewise := by
          rw [MemView.Bytewise, (MemView.bytes_eq_nil_iff view).mp hempty, hempty, List.length_nil]
        exact iff_of_true (.inl hv) (.inl hv)
      · have hpos := List.length_pos_of_ne_nil hempty
        refine or_congr_right ?_
        omega
  | wouldBlock =>
      refine (accounted_afterFirst (Nat.zero_le _) registers).trans (or_congr_right ?_)
      simp [SockAnswer.sends]
  | error | exit =>
      refine iff_of_true ⟨rfl, fun fut hf => ?_⟩ (.inr rfl)
      cases hf

theorem accounted_advance {s : SendAll} (h : s.Accounted) (hstatus : s.status = .waiting .pending)
    (hpos : s.sent.length = s.pos) {n : Nat} (hn : n ≤ s.offered.length) :
    (s.advance s.offered n).Accounted ↔ s.view.Bytewise ∨ n = 0 := by
  have hfut : s.future = some .pending := by rw [future, hstatus]
  have hwhole := h.whole
  rw [rest_of_pending hfut] at hwhole
  have hfront : s.sent ++ s.offered.take n <+: s.view.bytes := by
    rw [← hwhole]
    exact (List.prefix_append_right_inj _).mpr (List.take_prefix n _)
  have hlen : (s.sent ++ s.offered.take n).length = s.pos + n := by
    rw [List.length_append, hpos, List.length_take_of_le hn]
  by_cases hall : s.pos + n = s.view.len
  · have hadvance : s.advance s.offered n =
        { s with status := .waiting .result, sent := s.sent ++ s.offered.take n } := if_pos hall
    rw [hadvance, accounted_complete_iff rfl (by rintro fut ⟨⟩; rfl)
      (hlen.trans hall) hfront]
    refine ⟨.inl, fun hor => hor.elim id fun h0 => ?_⟩
    refine Classical.byContradiction fun hv => hv ((MemView.bytewise_iff _).mpr (.inr ?_))
    rw [← hall, h0, h.pos_eq_zero hfut hpos hv]
  · have hadvance : s.advance s.offered n =
        { s with pos := s.pos + n, sent := s.sent ++ s.offered.take n } := if_neg hall
    have hiff := accounted_pending_iff (s := s.advance s.offered n)
      (by rw [hadvance]; exact hfut) (by rw [hadvance]; exact hlen) (by rw [hadvance]; exact hfront)
      (by rw [hadvance]; exact hall)
    rw [hiff, hadvance]
    show s.view.Bytewise ∨ s.pos + n = 0 ↔ _
    by_cases hv : s.view.Bytewise
    · exact iff_of_true (.inl hv) (.inl hv)
    · rw [h.pos_eq_zero hfut hpos hv, Nat.zero_add]

/-- A move keeps the accounts exactly when it is careful. -/
theorem accounted_step {s : SendAll} (h : s.Accounted) (hc : s.Counted) (m : Move) :
    (s.step m).Accounted ↔ s.Careful m := by
  cases hended : s.ended with
  | true =>
      rw [step_of_ended hended]
      cases m with
      | fire a => exact iff_of_true h (.inr (.inl hended))
      | cancel => exact iff_of_true h trivial
  | false =>
      have hstatus : s.status = .waiting .pending := of_not_not (of_decide_eq_false hended)
      have hfut : s.future = some .pending := by rw [future, hstatus]
      have hgiven : ∀ fut : SendFuture, fut ≠ .pending → fut ≠ .result →
          Accounted { s with status := .waiting fut } := by
        intro fut _ hresult
        refine ⟨?_, fun fut' hf => ?_⟩
        · rw [← h.whole, rest_of_pending hfut]
          cases fut <;> first | rfl | exact absurd rfl hresult
        · cases hf
          exact iff_of_false hresult (h.sent_ne hfut)
      cases m with
      | cancel =>
          rw [show s.step .cancel = _ from if_pos hstatus]
          exact iff_of_true (hgiven _ (by decide) (by decide)) trivial
      | fire a =>
          have hfire : s.step (.fire a) = _ := if_pos hstatus
          rw [hfire]
          cases a with
          | wouldBlock | exit => exact iff_of_true h (.inr (.inr rfl))
          | error => exact iff_of_true (hgiven _ (by decide) (by decide)) (.inr (.inr rfl))
          | result n =>
              have hpos := List.length_pos_of_ne_nil (h.offered_ne_nil hfut)
              have hadvance := accounted_advance h hstatus (hc hended)
                (Nat.min_le_right n s.offered.length)
              refine hadvance.trans (or_congr_right ?_)
              rw [hended, or_iff_right Bool.false_ne_true]
              show min n s.offered.length = 0 ↔ decide (n ≠ 0) = false
              rw [decide_eq_false_iff_not, not_not]
              omega

theorem accounted_run {s : SendAll} (h : s.Accounted) (hc : s.Counted) (hv : s.view.Bytewise)
    (ms : List Move) : (s.run ms).Accounted := by
  refine (foldl_keeps (f := step)
    (I := fun t => t.Accounted ∧ t.Counted ∧ t.view.Bytewise) ?_ ⟨h, hc, hv⟩ ms).1
  rintro t m ⟨hacc, hcount, hview⟩
  refine ⟨(accounted_step hacc hcount m).mpr (careful_of_bytewise hview m), hcount.step m, ?_⟩
  rwa [step_view]

theorem run_view (s : SendAll) (ms : List Move) : (s.run ms).view = s.view :=
  foldl_keeps (f := step) (I := fun t => t.view = s.view)
    (fun t m h => (step_view t m).trans h) rfl ms

theorem run_of_ended {s : SendAll} (h : s.ended = true) (ms : List Move) : s.run ms = s :=
  foldl_keeps (f := step) (I := fun t => t = s)
    (fun t m ht => by rw [ht, step_of_ended h]) rfl ms

/-- Of bytes, the kernel has accepted a front, and all of them exactly when the
call or its future has a result. -/
theorem run_exact {view : MemView} (hv : view.Bytewise) (first : SockAnswer) (registers : Bool)
    (ms : List Move) {s : SendAll} (hs : s = (start view first registers).run ms) :
    s.sent <+: view.bytes ∧ (∀ fut, s.future = some fut → (fut = .result ↔ s.sent = view.bytes)) ∧
      (s.status = .returned → s.sent = view.bytes) := by
  have hview : s.view = view := by rw [hs, run_view, start_view]
  have h : s.Accounted := by
    rw [hs]
    refine accounted_run ((accounted_start _ _ _).mpr (.inl hv)) (counted_start _ _ _) ?_ ms
    rwa [start_view]
  have hwhole := h.whole
  rw [hview] at hwhole
  refine ⟨hwhole ▸ List.prefix_append _ _, hview ▸ h.result, fun hstatus => ?_⟩
  rwa [rest, hstatus, List.append_nil] at hwhole

end SendAll

end Tokioop.Fd
