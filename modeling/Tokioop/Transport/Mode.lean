import Tokioop.Transport.Replay

/-!
The read mode and the kind of the protocol.

A `BufferedProtocol` is read through callbacks and a plain protocol by a
drain watcher. The mode is recorded in `_drain_kind`, in the live watcher
and in the payloads that a drain watcher has already read; `set_protocol`
brings the watcher in line only if the transport is not paused, and never the
payloads.
-/

namespace Tokioop.Transport

open Fd Kit Kit.Prog

/-- Bytes that a drain watcher has read are waiting for `data_received`. -/
def World.holdsBytes (s : World) : Bool := s.pending.any fun item => item.bytes ≠ []

/-- The protocol kind and `_drain_kind` agree. -/
def World.inStep (s : World) : Bool := decide (s.protocol = some .plain) = s.drainTcp

/-- A switch to a `BufferedProtocol` that `set_protocol` does not bring to an
end: the watcher stays, or payloads in the old mode do. -/
def World.unsafeSwitch (s : World) : Method → Bool
  | .setProtocol .buffered =>
      s.drainTcp && !s.closing && (s.paused && s.isPolling || s.holdsBytes)
  | _ => false

/-- Methods are called in any order; batches and tasks wait for callbacks to
return. -/
def anyProtocol : TransportPolicy where
  call top m _ := top = false → m.ofBatch = false
  env top h _ := top = false → h.ofKernel = true
  ret _ _ _ := True
  answer _ _ _ := True

/-- No switch to a `BufferedProtocol` finds a paused drain watcher or payloads
on their way, and `set_protocol` does not fail to register. -/
def switchedSafely : TransportPolicy where
  call top m s := anyProtocol.call top m s ∧ s.unsafeSwitch m = false
  env := anyProtocol.env
  ret := anyProtocol.ret
  answer q a s := q = .register true → a.failed = true → s.inStep = true

instance (top : Bool) (m : Method) (s : World) : Decidable (anyProtocol.call top m s) :=
  inferInstanceAs (Decidable (top = false → m.ofBatch = false))

instance (top : Bool) (h : Env) (s : World) : Decidable (anyProtocol.env top h s) :=
  inferInstanceAs (Decidable (top = false → h.ofKernel = true))

instance (e : UserCall) (r : Except Exc Nat) (s : World) : Decidable (anyProtocol.ret e r s) :=
  inferInstanceAs (Decidable True)

instance (q : Query) (a : Reply) (s : World) : Decidable (anyProtocol.answer q a s) :=
  inferInstanceAs (Decidable True)

instance (top : Bool) (m : Method) (s : World) : Decidable (switchedSafely.call top m s) :=
  inferInstanceAs (Decidable (_ ∧ _))

instance (top : Bool) (h : Env) (s : World) : Decidable (switchedSafely.env top h s) :=
  inferInstanceAs (Decidable (anyProtocol.env top h s))

instance (e : UserCall) (r : Except Exc Nat) (s : World) : Decidable (switchedSafely.ret e r s) :=
  inferInstanceAs (Decidable True)

instance (q : Query) (a : Reply) (s : World) : Decidable (switchedSafely.answer q a s) :=
  inferInstanceAs (Decidable (q = .register true → a.failed = true → s.inStep = true))

/-! ### The invariant -/

structure InMode (s : World) : Prop where
  base : Base s
  stopped : s.closing = true → s.reader = none
  kind : s.closing = false → (s.protocol = some .plain ↔ s.drainTcp = true)
  drain : ∀ t, s.reader = some (.drain t) → s.drainTcp = true
  callback : ∀ slot, s.reader = some (.callback slot) → s.drainTcp = false ∧ s.paused = false
  cb : s.closing = false → s.drainTcp = false → s.readReadyCb ≠ some .dataReceived
  clear : s.closing = false → s.drainTcp = false → ∀ item ∈ s.pending, item.bytes = []
  clean : s.misdelivered = []

def modeContract : Contract World UserCall Nat Exc Query Reply where
  Inv := InMode
  Rely s t := s.closing = true → t.closing = true
  Ret _ _ _ := True
  Answer := switchedSafely.answer
  refl := @World.stays_closing_refl
  trans := @World.stays_closing_trans

theorem inMode_quiet {s s' : World} (h : InMode s) (hq : Quiet s s') : InMode s' := by
  refine ⟨hq.base, fun hc => ?_, fun hc => ?_, fun t ht => ?_, fun slot hr => ?_, fun hc hd => ?_,
    fun hc hd => ?_, ?_⟩
  · rcases hq.stopped hc with hold | hnone
    · rcases hq.reader with hsame | hnone
      · rw [hsame, h.stopped hold]
      · exact hnone
    · exact hnone
  · rw [hq.protocol hc, hq.drainTcp]
    exact h.kind (hq.wasOpen hc)
  · rw [hq.drainTcp]
    rcases hq.reader with hsame | hnone
    · exact h.drain t (hsame ▸ ht)
    · rw [hnone] at ht
      cases ht
  · rw [hq.drainTcp, hq.paused]
    rcases hq.reader with hsame | hnone
    · exact h.callback slot (hsame ▸ hr)
    · rw [hnone] at hr
      cases hr
  · rw [hq.drainTcp] at hd
    rcases hq.readReadyCb with hsame | hnone
    · rw [hsame]
      exact h.cb (hq.wasOpen hc) hd
    · rw [hnone]
      simp
  · rw [hq.drainTcp] at hd
    rw [hq.pending]
    exact h.clear (hq.wasOpen hc) hd
  · rw [hq.misdelivered, h.clean]

theorem frames_mode : Frames modeContract fun _ => True :=
  .of_quiet (fun h => h.base) (fun h => h) fun h hq => ⟨inMode_quiet h hq, hq.closing⟩

/-- Steps that hand over payloads, or read some in callback mode. -/
theorem InMode.congr {s s' : World} (h : InMode s)
    (heq : s' = { s with log := s'.log, untimely := s'.untimely, replay := s'.replay,
                         io := s'.io, kernel := s'.kernel, read := s'.read })
    (hp : ∀ item ∈ s'.pending, item ∈ s.pending) : InMode s' := by
  have hclear :
      s'.closing = false → s'.drainTcp = false → ∀ item ∈ s'.pending, item.bytes = [] := by
    intro hc hd item hitem
    refine h.clear ?_ ?_ item (hp item hitem)
    · rw [heq] at hc
      exact hc
    · rw [heq] at hd
      exact hd
  rw [heq] at hclear ⊢
  exact ⟨⟨h.base.lost, h.base.attached, h.base.jobs⟩, h.stopped, h.kind, h.drain, h.callback, h.cb,
    hclear, h.clean⟩

/-- Only plain protocols are owed bytes. -/
theorem InMode.plain_of_bytes {s : World} (h : InMode s) (hc : s.closing = false)
    {item : ReplayItem} (hitem : item ∈ s.pending) (hne : item.bytes ≠ []) :
    s.protocol = some .plain := by
  rw [h.kind hc]
  by_contra hd
  exact hne (h.clear hc (Bool.eq_false_iff.mpr hd) item hitem)

theorem InMode.accepts {s u : World} {item : ReplayItem} (h : InMode s) (hc : s.closing = false)
    (heq : u = { s with replay := u.replay, io := u.io }) (hitem : item ∈ s.pending)
    (hp : ∀ item ∈ u.pending, item ∈ s.pending) : Accepts modeContract s u item := by
  have hproto : u.protocol = s.protocol := by rw [heq]
  have hrely : modeContract.Rely s u := by
    rw [heq]
    exact id
  have hlogged : ∀ e, InMode (u.logged e) := fun e =>
    h.congr (by rw [heq]; rfl) hp
  match item, hitem with
  | .stream [], _ => exact ⟨by rw [hproto]; exact (h.base.attached hc).2, hlogged _, hrely⟩
  | .stream (b :: bs), hitem =>
      exact ⟨by rw [hproto]; exact h.plain_of_bytes hc hitem (by simp [ReplayItem.bytes]),
        hlogged _, hrely⟩
  | .error e, _ => exact ⟨h.congr (by rw [heq]) hp, hrely⟩

theorem reads_mode : Reads modeContract (fun _ => True) fun _ => True where
  toFrames := frames_mode
  fit _ _ := trivial
  fit_unpause _ := trivial
  pause {s} h hreading := by
    refine ⟨⟨⟨h.base.lost, h.base.attached, h.base.jobs⟩, fun hc => ?_, h.kind, fun t ht => ?_,
      fun slot hr => ?_, h.cb, h.clear, h.clean⟩, id⟩
    · have hclosing : s.closing = true := hc
      rw [(s.isReading_iff.mp hreading).1] at hclosing
      cases hclosing
    · unfold World.halted at ht
      split at ht
      · exact h.drain t ht
      · cases ht
    · unfold World.halted at hr
      split at hr
      · rename_i hd
        rw [(h.callback slot hr).1] at hd
        cases hd
      · cases hr
  unpause h hc _ :=
    ⟨⟨h.base.lost, h.base.attached, h.base.jobs⟩, h.stopped, h.kind, h.drain,
      fun slot hr => ⟨(h.callback slot hr).1, rfl⟩, h.cb, h.clear, h.clean⟩
  flushed _ hr _ := hr
  watch {s a} edge h hreading _ _ := by
    obtain ⟨hc, hp⟩ := s.isReading_iff.mp hreading
    have hopen : s.closing = true → ∀ r : Reader, some r = none := by simp [hc]
    by_cases hd : s.drainTcp = true
    · rw [World.watched_drain hd]
      exact ⟨⟨⟨h.base.lost, h.base.attached, h.base.jobs⟩, fun hc' => hopen hc' _, h.kind,
        fun _ _ => hd, fun slot hr => by simp at hr, h.cb, h.clear, h.clean⟩, id⟩
    · rw [World.watched_callback hd]
      exact ⟨⟨⟨h.base.lost, h.base.attached, h.base.jobs⟩, fun hc' => hopen hc' _, h.kind,
        fun t ht => by simp at ht, fun _ _ => ⟨Bool.eq_false_iff.mpr hd, hp⟩, h.cb, h.clear,
        h.clean⟩, id⟩
  deliver {s item rest} h hreplay hreading _ := by
    refine h.accepts (s.isReading_iff.mp hreading).1 rfl ?_ ?_
    · simp [World.pending, hreplay]
    · intro item' hitem'
      simp only [World.pending, hreplay, List.cons_append, List.mem_cons] at hitem' ⊢
      exact .inr hitem'

/-! ### Reading through callbacks -/

theorem keeps_getBuffer : Keeps modeContract getBuffer := by
  refine keeps_bind keeps_get fun s => ?_
  split
  · refine keeps_bind (keeps_invoke frames_mode rfl rfl) fun len => ?_
    exact keeps_ite (keeps_done _) (keeps_done _)
  · exact keeps_done _

theorem keeps_bufferUpdated (nbytes : Nat) : Keeps modeContract (bufferUpdated nbytes) := by
  refine keeps_bind keeps_get fun s => ?_
  split
  · exact keeps_discard_invoke frames_mode rfl rfl
  · exact keeps_done _

theorem keeps_sockRecv (size : Nat) : Keeps modeContract (sockRecv size) := by
  refine keeps_bind keeps_get fun s => keeps_ite ?_ (keeps_done _)
  refine keeps_bind (keeps_query _) fun a => ?_
  cases a with
  | wouldBlock => exact keeps_done _
  | fail e => exact keeps_done _
  | done n =>
      refine keeps_bind keeps_get fun t => keeps_bind (keeps_modify fun u hu => ?_) fun _ =>
        keeps_done _
      exact ⟨hu.congr rfl fun item hitem => hitem, id⟩

theorem keeps_readReadyOnEof : Keeps modeContract readReadyOnEof := by
  intro s hs
  by_cases hp : s.protocol.isSome = true
  · have hlogged : InMode (s.logged .eofReceived) := hs.congr rfl fun item hitem => hitem
    have hends := ends_readReadyOnEof reads_mode hp hlogged (s := s) id
    exact wp_mono _ (fun _ _ ht => ⟨ht.1, ht.2.1⟩) hends
  · unfold readReadyOnEof eofReceived
    rw [wp_andThen, wp_bind, wp_get]
    simp only [hp]
    exact keeps_fatalError frames_mode _ _ s hs

theorem keeps_readReadyGetBuffer : Keeps modeContract readReadyGetBuffer := by
  refine keeps_bind keeps_get fun s => keeps_ite (keeps_done _) ?_
  refine keeps_andThen keeps_getBuffer (keeps_orFatal frames_mode _ fun size => ?_)
  refine keeps_andThen (keeps_sockRecv size) (keeps_orFatal frames_mode _ fun r => ?_)
  match r with
  | .ok [] => exact keeps_readReadyOnEof
  | .ok (b :: bs) =>
      exact keeps_andThen (keeps_bufferUpdated _)
        (keeps_orFatal frames_mode _ fun _ => keeps_done _)
  | .wouldBlock => exact keeps_done _
  | .fail e => exact keeps_fatalError frames_mode _ _

/-- A callback-mode watcher never reads for `data_received`. -/
theorem InMode.readReady {s : World} {slot : Nat} (h : InMode s)
    (hr : s.reader = some (.callback slot)) :
    readReady.wp modeContract (fun _ t => InMode t ∧ modeContract.Rely s t) s := by
  have hc : s.closing = false := by
    by_contra hc
    rw [h.stopped (Bool.not_eq_false _ ▸ hc)] at hr
    cases hr
  have hcb := h.cb hc (h.callback slot hr).1
  unfold Transport.readReady
  rw [wp_bind, wp_get]
  dsimp only
  cases hready : s.readReadyCb with
  | none => exact ⟨h, id⟩
  | some k =>
      cases k with
      | getBuffer => exact keeps_readReadyGetBuffer s h
      | dataReceived => exact absurd hready hcb

theorem keeps_popIo : Keeps modeContract popIo := by
  intro s hs
  have hshorter : ∀ i rest, s.io = i :: rest →
      ∀ item ∈ World.pending { s with io := rest }, item ∈ s.pending := by
    intro i rest hio item hitem
    simp only [World.pending, hio, List.mem_append] at hitem ⊢
    refine hitem.imp_right fun hmem => ?_
    exact ((List.sublist_cons_self i rest).filterMap _).mem hmem
  refine wp_popIo reads_mode hs trivial ?_ ?_ ?_ fun t slot ht hr => ht.readReady hr
  · intro i rest hio _
    exact ⟨InMode.congr hs rfl (hshorter i rest hio), id⟩
  · intro i item rest hio hi _ _
    refine ⟨InMode.congr hs rfl fun item' hitem' => ?_, id⟩
    simpa [World.pending, hio, List.filterMap_cons_some hi] using hitem'
  · intro i item rest hio hi hreading
    refine InMode.accepts hs (s.isReading_iff.mp hreading).1 rfl ?_ (hshorter i rest hio)
    simp [World.pending, hio, List.filterMap_cons_some hi]

/-! ### Changing the protocol -/

/-- The record of the protocol after `set_protocol`, whatever became of the
watcher. -/
def World.switched (s : World) (kind : ProtocolKind) (reader : Option Reader) (nextSlot : Nat) :
    World :=
  { s with
    readReadyCb := some (if kind = .plain then .dataReceived else .getBuffer)
    drainTcp := decide (kind = .plain)
    protocol := some kind
    protocolConnected := true
    reader := reader
    nextSlot := nextSlot }

theorem InMode.switched {s : World} (h : InMode s) (kind : ProtocolKind)
    (reader : Option Reader) (nextSlot : Nat) (hstop : s.closing = true → reader = none)
    (hdrain : ∀ t, reader = some (.drain t) → kind = .plain)
    (hcallback : ∀ slot, reader = some (.callback slot) → kind = .buffered ∧ s.paused = false)
    (hclear : s.closing = false → kind = .buffered → ∀ item ∈ s.pending, item.bytes = []) :
    InMode (s.switched kind reader nextSlot) := by
  have hbuffered : decide (kind = .plain) = false → kind = .buffered := by
    cases kind <;> simp
  refine ⟨⟨h.base.lost, fun hc => ⟨(h.base.attached hc).1, rfl⟩, h.base.jobs⟩, hstop,
    fun _ => by simp [World.switched], fun t ht => ?_, fun slot hr => ?_, fun _ hd => ?_,
    fun hc hd => hclear hc (hbuffered hd), h.clean⟩
  · rw [World.switched, hdrain t ht]
    rfl
  · obtain ⟨hk, hp⟩ := hcallback slot hr
    rw [World.switched, hk]
    exact ⟨rfl, hp⟩
  · rw [World.switched, hbuffered hd]
    simp

/-- A switch leaves no payload in the old mode behind. -/
theorem InMode.clear_of_safe {s : World} {kind : ProtocolKind} (h : InMode s)
    (hsafe : s.unsafeSwitch (.setProtocol kind) = false) (hc : s.closing = false)
    (hk : kind = .buffered) : ∀ item ∈ s.pending, item.bytes = [] := by
  by_cases hd : s.drainTcp = true
  · subst hk
    simp only [World.unsafeSwitch, hd, hc, Bool.not_false, Bool.and_self, Bool.true_and,
      Bool.or_eq_false_iff, World.holdsBytes, List.any_eq_false, decide_eq_true_eq,
      not_not] at hsafe
    exact hsafe.2
  · exact h.clear hc (Bool.eq_false_iff.mpr hd)

/-- When the mode changes, no watcher is left that `set_protocol` does not
replace. -/
theorem InMode.reader_of_safe {s : World} {kind : ProtocolKind} (h : InMode s)
    (hsafe : s.unsafeSwitch (.setProtocol kind) = false)
    (hne : s.drainTcp ≠ decide (kind = .plain))
    (hno : ¬(s.attached && !s.closing && !s.paused && s.isPolling) = true) : s.reader = none := by
  by_cases hc : s.closing = true
  · exact h.stopped hc
  have hopen := Bool.eq_false_iff.mpr hc
  have hatt := (h.base.attached hopen).1
  cases hr : s.reader with
  | none => rfl
  | some r =>
      have hpaused : s.paused = true := by
        by_contra hp
        simp [hatt, hc, hp, World.isPolling, hr] at hno
      cases r with
      | callback slot =>
          rw [(h.callback slot hr).2] at hpaused
          cases hpaused
      | drain t =>
          have hd := h.drain t hr
          cases kind with
          | plain => exact absurd hd hne
          | buffered => simp [World.unsafeSwitch, hd, hopen, hpaused, World.isPolling, hr] at hsafe

theorem InMode.switched_same {s : World} {kind : ProtocolKind} (h : InMode s)
    (hsafe : s.unsafeSwitch (.setProtocol kind) = false)
    (hd : s.drainTcp = decide (kind = .plain)) : InMode (s.switched kind s.reader s.nextSlot) := by
  refine h.switched kind s.reader s.nextSlot h.stopped (fun t ht => ?_) (fun slot hr => ?_)
    (h.clear_of_safe hsafe)
  · have hdrain := h.drain t ht
    rw [hd] at hdrain
    exact of_decide_eq_true hdrain
  · obtain ⟨hcallback, hp⟩ := h.callback slot hr
    rw [hd] at hcallback
    refine ⟨?_, hp⟩
    cases kind with
    | plain => exact absurd rfl (of_decide_eq_false hcallback)
    | buffered => rfl

/-- Between the change of `_drain_kind` and that of the protocol the two
disagree. -/
theorem InMode.out_of_step {s : World} {kind : ProtocolKind} (h : InMode s)
    (hc : s.closing = false) (hne : s.drainTcp ≠ decide (kind = .plain)) :
    decide (s.protocol = some .plain) ≠ decide (kind = .plain) := by
  have hold : s.drainTcp = decide (s.protocol = some .plain) := by
    rw [Bool.eq_iff_iff, decide_eq_true_iff]
    exact (h.kind hc).symm
  rwa [← hold]

theorem wp_setProtocol {s : World} {kind : ProtocolKind} (h : InMode s)
    (hsafe : s.unsafeSwitch (.setProtocol kind) = false) :
    (setProtocol kind).wp modeContract (fun _ t => InMode t ∧ modeContract.Rely s t) s := by
  unfold setProtocol switchReader
  rw [wp_bind, wp_modify, wp_bind, wp_bind, wp_get]
  show wp modeContract (if s.drainTcp ≠ decide (kind = .plain) then _ else _) _ _
  split
  · rename_i hne
    rw [wp_bind, wp_modify, wp_bind, wp_get]
    show wp modeContract
      (if (s.attached && !s.closing && !s.paused && s.isPolling) = true then _ else _) _ _
    split
    · rename_i hgo
      simp only [Bool.and_eq_true, Bool.not_eq_true'] at hgo
      obtain ⟨⟨⟨hatt, hc⟩, hp⟩, -⟩ := hgo
      unfold removeReader
      rw [wp_bind, wp_onLoop]
      refine ⟨fun _ => ?_, fun hno => by simp [hatt] at hno⟩
      refine wp_registerReader (fun hno => ?_) (fun _ hno => ?_) (fun _ e he => ?_) ?_
      · simp [World.isReading, hc, hp] at hno
      · simp [hatt] at hno
      · -- The protocol is still the old one, so a failure breaks the policy.
        exact absurd (of_decide_eq_true (he rfl rfl)) (h.out_of_step hc hne)
      · intro _ a edge _ _
        have hclear := h.clear_of_safe hsafe
        have hstop : ∀ r : Reader, s.closing = true → some r = none := by simp [hc]
        cases kind with
        | plain =>
            have hnew := h.switched .plain (some (.drain (DrainTask.fresh edge))) s.nextSlot
              (hstop _) (fun _ _ => rfl) (fun slot hr => by simp at hr) hclear
            exact ⟨hnew, id⟩
        | buffered =>
            have hnew := h.switched .buffered (some (.callback s.nextSlot)) (s.nextSlot + 1)
              (hstop _) (fun t ht => by simp at ht) (fun _ _ => ⟨rfl, hp⟩) hclear
            exact ⟨hnew, id⟩
    · rename_i hno
      have hnone := h.reader_of_safe hsafe hne hno
      have hnew := h.switched kind s.reader s.nextSlot (fun _ => hnone)
        (fun t ht => by simp [hnone] at ht) (fun slot hr => by simp [hnone] at hr)
        (h.clear_of_safe hsafe)
      exact ⟨hnew, id⟩
  · rename_i heq
    have hd : s.drainTcp = decide (kind = .plain) := Decidable.not_not.mp heq
    have hnew := h.switched_same hsafe hd
    rw [World.switched, ← hd] at hnew
    exact ⟨hnew, id⟩

/-! ### The mode agrees with the protocol -/

theorem inMode_drift {s s' : World} (h : InMode s) (hd : Drift s s') : InMode s' := by
  have heq := hd.eq
  have hclosing : s'.closing = s.closing := by rw [heq]
  have htcp : s'.drainTcp = s.drainTcp := by rw [heq]
  have hpaused : s'.paused = s.paused := by rw [heq]
  refine ⟨?_, fun hc => ?_, fun hc => ?_, fun t' ht' => ?_, fun slot hr => ?_, fun hc hd' => ?_,
    fun hc hd' => ?_, ?_⟩
  · rw [heq]
    exact ⟨h.base.lost, h.base.attached, h.base.jobs⟩
  · rw [hclosing] at hc
    exact hd.idle (h.stopped hc)
  · rw [heq] at hc ⊢
    exact h.kind hc
  · obtain ⟨t, ht, -⟩ := hd.drain t' ht'
    rw [htcp]
    exact h.drain t ht
  · rw [htcp, hpaused]
    exact h.callback slot (hd.callback slot hr)
  · rw [heq] at hc hd' ⊢
    exact h.cb hc hd'
  · rw [hclosing] at hc
    rw [htcp] at hd'
    rw [hd.pending]
    exact h.clear hc hd'
  · rw [heq]
    exact h.clean

theorem inMode_env {s s' : World} {h : Env} (hs : InMode s) (he : s.env h = some s') :
    InMode s' ∧ modeContract.Rely s s' := by
  by_cases hrun : ∃ size, h = .drainRun size
  · obtain ⟨size, rfl⟩ := hrun
    obtain ⟨t, o, hr, -, rfl⟩ := env_drainRun he
    have hd := hs.drain t hr
    refine ⟨⟨⟨hs.base.lost, hs.base.attached, hs.base.jobs⟩, fun hc => ?_, hs.kind, fun _ _ => hd,
      fun slot hr' => by simp [World.afterDrain] at hr', hs.cb, fun _ hd' => ?_, hs.clean⟩, id⟩
    · rw [hs.stopped hc] at hr
      cases hr
    · have hno : s.drainTcp = false := hd'
      rw [hd] at hno
      cases hno
  · have hdrift := drift_of_env he fun size hh => hrun ⟨size, hh⟩
    refine ⟨inMode_drift hs hdrift, fun hc => ?_⟩
    rw [hdrift.eq]
    exact hc

theorem sound_mode : Sound transport switchedSafely modeContract InMode := by
  have hcall : ∀ top m s, InMode s → switchedSafely.call top m s →
      (m.body).wp modeContract (fun _ t => InMode t ∧ modeContract.Rely s t) s := by
    intro top m s hs hm
    by_cases hset : ∃ kind, m = .setProtocol kind
    · obtain ⟨kind, rfl⟩ := hset
      exact wp_setProtocol hs hm.2
    by_cases hio : m = .popIo
    · subst hio
      exact keeps_popIo s hs
    · exact keeps_body reads_mode m (fun kind hk => hset ⟨kind, hk⟩) hio hs (fun _ => trivial)
        fun _ _ => trivial
  exact {
    ret := fun _ => trivial
    answer := id
    call_top := fun m s hs hm => wp_mono _ (fun _ _ ht => ht.1) (hcall true m s hs hm)
    call_inner := fun m s hs hm => hcall false m s hs hm
    env_top := fun h s s' hs _ he => (inMode_env hs he).1
    env_inner := fun h s s' hs _ he => inMode_env hs he }

theorem inMode_new (kind : ProtocolKind) (kernel : Socket) : InMode (World.new kind kernel) := by
  refine ⟨⟨?_, ?_, ?_⟩, ?_, ?_, ?_, ?_, ?_, ?_, ?_⟩
  all_goals simp [World.new, World.pending]

/-- **Mode agreement.** In every run in which each switch to a
`BufferedProtocol` is safe and `set_protocol` does not fail to register,
whenever control is outside the transport and it is neither paused nor
closing, a registered reader is a drain watcher exactly if the protocol is
not a `BufferedProtocol`; and no payload has ever been handed to a
`data_received` that the protocol does not have. -/
theorem mode_agrees {c : Config World UserCall Nat Exc Query Reply}
    (h : Reach transport switchedSafely
      (fun s => ∃ kind kernel, s = World.new kind kernel) c) (ho : c.Outside) :
    (c.state.paused = false → c.state.closing = false → ∀ r, c.state.reader = some r →
      ((∃ t, r = .drain t) ↔ c.state.protocol ≠ some .buffered)) ∧
    c.state.misdelivered = [] := by
  have hmode : InMode c.state := by
    have hinit : ∀ s, (∃ kind kernel, s = World.new kind kernel) → InMode s := by
      rintro s ⟨kind, kernel, rfl⟩
      exact inMode_new kind kernel
    exact sound_mode.inv hinit (fun _ hs => hs) h ho
  refine ⟨fun _ hc r hr => ?_, hmode.clean⟩
  have hsome := (hmode.base.attached hc).2
  have hkind := hmode.kind hc
  constructor
  · rintro ⟨t, rfl⟩ hbuffered
    have hplain := hkind.mpr (hmode.drain t hr)
    rw [hbuffered] at hplain
    cases hplain
  · intro hne
    have hplain : c.state.protocol = some .plain := by
      match hp : c.state.protocol with
      | none => simp [hp] at hsome
      | some .plain => rfl
      | some .buffered => exact absurd hp hne
    cases r with
    | drain t => exact ⟨t, rfl⟩
    | callback slot =>
        have hdrain := hkind.mp hplain
        rw [(hmode.callback slot hr).1] at hdrain
        cases hdrain

/-- A switch on a reading transport, bytes read through the callback, and a
switch back while paused. -/
theorem mode_agrees_example : ∃ (c : Config World UserCall Nat Exc Query Reply) (r : Reader),
    c.state.read = [22, 3, 1] ∧ c.state.reader = some r ∧
      ((∃ t, r = .drain t) ↔ c.state.protocol ≠ some .buffered) ∧ c.state.misdelivered = [] := by
  have hstart : Reach transport switchedSafely (fun s => ∃ kind kernel, s = World.new kind kernel)
      ⟨World.new .plain ⟨[], [], none, false⟩, none, []⟩ := .start ⟨_, ⟨_, _, rfl⟩, rfl⟩
  have hrun := hstart.of_replay [connect, Move.andRun (.call (.setProtocol .buffered)) 8,
    Move.andRun (.answer (.done 0)) 3, [.env (.arriveBytes [22, 3, 1]), .env .fireReader],
    Move.andRun (.call .popIo) 8, Move.andRun (.ret (.ok 100)) 1,
    Move.andRun (.answer (.done 3)) 5, Move.andRun (.ret (.ok 0)) 1,
    Move.andRun (.call .pauseReading) 6, Move.andRun (.call (.setProtocol .plain)) 6,
    Move.andRun (.call .resumeReading) 7, Move.andRun (.answer (.done 0)) 2].flatten rfl
  have hagrees := mode_agrees hrun rfl
  exact ⟨_, _, rfl, rfl, hagrees.1 rfl rfl _ rfl, hagrees.2⟩

/-- `start_tls` pauses, sets a `BufferedProtocol` and resumes: the drain
watcher stays registered, and for the first bytes it reads a `data_received`
is looked up that is not there, which tears the transport down. -/
theorem start_tls_keeps_drain_watcher :
    (∃ c : Config World UserCall Nat Exc Query Reply,
      Reach transport anyProtocol (fun s => ∃ kind kernel, s = World.new kind kernel) c ∧
        c.Outside ∧ c.top = true ∧ c.state.paused = false ∧ c.state.closing = false ∧
        c.state.protocol = some .buffered ∧ ∃ t, c.state.reader = some (.drain t)) ∧
    (∃ c : Config World UserCall Nat Exc Query Reply,
      Reach transport anyProtocol (fun s => ∃ kind kernel, s = World.new kind kernel) c ∧
        c.Outside ∧ c.state.misdelivered = [[22, 3, 1]] ∧ c.state.closing = true) := by
  have hstart : Reach transport anyProtocol (fun s => ∃ kind kernel, s = World.new kind kernel)
      ⟨World.new .plain ⟨[], [], none, false⟩, none, []⟩ := .start ⟨_, ⟨_, _, rfl⟩, rfl⟩
  have htls := hstart.of_replay [connect, Move.andRun (.call .pauseReading) 4,
    Move.andRun (.call (.setProtocol .buffered)) 6,
    Move.andRun (.call .resumeReading) 6].flatten rfl
  have hlost := htls.of_replay [[.env (.arriveBytes [22, 3, 1]), .env (.drainRun 0),
    .env (.drainRun 3), .env (.drainRun 0), .env (.drainRun 0)], Move.andRun (.call .popIo) 9,
    Move.andRun (.ret (.ok 0)) 10].flatten rfl
  exact ⟨⟨_, htls, rfl, rfl, rfl, rfl, rfl, _, rfl⟩, ⟨_, hlost, rfl, rfl, rfl⟩⟩

end Tokioop.Transport
