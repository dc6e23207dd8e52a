import Tokioop.Loop.Timers
import Mathlib.Order.Compare
import Mathlib.Order.WithBot
import Mathlib.Data.Prod.Lex

/-!
The order of the timer heap under every deadline that is accepted.

A deadline other than NaN is a point of the rationals with two ends, and the
entries with such deadlines are linearly ordered by their rank. The timer
phase of a batch takes the entries in the order of their ranks, so one more
entry delays no other. NaN has no place in that order.
-/

namespace Tokioop.Loop

variable {κ : Type}

/-! ### The order -/

def F64.eq (a b : F64) : Bool := a.partialCmp b == some .eq

/-- `PartialEq for TimerEntry`. -/
def TimerEntry.eq (a b : TimerEntry κ) : Bool := a.when.eq b.when && a.seq == b.seq

/-- `TimerEntry::cmp` is a total order of these entries and consistent with
their equality. -/
structure TimerEntry.Ordered (p : TimerEntry κ → Prop) : Prop where
  equal : ∀ a b, p a → p b → (a.cmp b = .eq ↔ a.eq b = true)
  swap : ∀ a b, p a → p b → (a.cmp b).swap = b.cmp a
  trans : ∀ a b c, p a → p b → p c → a.cmp b ≠ .gt → b.cmp c ≠ .gt → a.cmp c ≠ .gt

def F64.place : F64 → WithBot (WithTop ℚ)
  | .fin q => ((q : WithTop ℚ) : WithBot (WithTop ℚ))
  | .posInf => ((⊤ : WithTop ℚ) : WithBot (WithTop ℚ))
  | .negInf | .nan => ⊥

theorem F64.partialCmp_place {a b : F64} (ha : a ≠ .nan) (hb : b ≠ .nan) :
    a.partialCmp b = some (cmp a.place b.place) := by
  cases a with
  | nan => exact absurd rfl ha
  | negInf =>
      cases b with
      | nan => exact absurd rfl hb
      | negInf | fin _ | posInf => rfl
  | posInf =>
      cases b with
      | nan => exact absurd rfl hb
      | negInf | posInf => rfl
      | fin q =>
          have hlt : F64.place (.fin q) < F64.place .posInf :=
            WithBot.coe_lt_coe.mpr (WithTop.coe_lt_top q)
          rw [hlt.cmp_eq_gt]
          rfl
  | fin p =>
      cases b with
      | nan => exact absurd rfl hb
      | negInf => rfl
      | posInf =>
          have hlt : F64.place (.fin p) < F64.place .posInf :=
            WithBot.coe_lt_coe.mpr (WithTop.coe_lt_top p)
          rw [hlt.cmp_eq_lt]
          rfl
      | fin q =>
          have hiff : ∀ x y : ℚ, F64.place (.fin x) < F64.place (.fin y) ↔ x < y := fun x y =>
            WithBot.coe_lt_coe.trans WithTop.coe_lt_coe
          rw [partialCmp]
          rcases lt_trichotomy p q with h | h | h
          · rw [if_pos h, ((hiff p q).mpr h).cmp_eq_lt]
          · rw [h, if_neg (lt_irrefl q), if_pos rfl, cmp_self_eq_eq]
          · rw [if_neg h.not_gt, if_neg h.ne', ((hiff q p).mpr h).cmp_eq_gt]

/-- The pair by which deadlines other than NaN are ordered. -/
def TimerEntry.rank (t : TimerEntry κ) : WithBot (WithTop ℚ) ×ₗ ℕ := toLex (t.when.place, t.seq)

theorem timerCmp_eq {a b : TimerEntry κ} (ha : a.when ≠ .nan) (hb : b.when ≠ .nan) :
    a.cmp b = cmp b.rank a.rank := by
  unfold TimerEntry.cmp
  rw [F64.partialCmp_place hb ha, Option.getD_some]
  rcases lt_trichotomy b.when.place a.when.place with h | h | h
  · have hlt : b.rank < a.rank := Prod.Lex.toLex_lt_toLex.mpr (.inl h)
    rw [hlt.cmp_eq_lt, h.cmp_eq_lt]
    rfl
  · rw [h, cmp_self_eq_eq, Ordering.eq_then]
    rcases lt_trichotomy b.seq a.seq with hs | hs | hs
    · have hlt : b.rank < a.rank := Prod.Lex.toLex_lt_toLex.mpr (.inr ⟨h, hs⟩)
      rw [hlt.cmp_eq_lt]
      exact Nat.compare_eq_lt.mpr hs
    · have heq : b.rank = a.rank := by
        unfold TimerEntry.rank
        rw [h, hs]
      rw [heq, hs, cmp_self_eq_eq]
      exact Nat.compare_eq_eq.mpr rfl
    · have hlt : a.rank < b.rank := Prod.Lex.toLex_lt_toLex.mpr (.inr ⟨h.symm, hs⟩)
      rw [hlt.cmp_eq_gt]
      exact Nat.compare_eq_gt.mpr hs
  · have hlt : a.rank < b.rank := Prod.Lex.toLex_lt_toLex.mpr (.inl h)
    rw [hlt.cmp_eq_gt, h.cmp_eq_gt]
    rfl

theorem TimerEntry.eq_iff_rank {a b : TimerEntry κ} (ha : a.when ≠ .nan) (hb : b.when ≠ .nan) :
    a.eq b = true ↔ a.rank = b.rank := by
  unfold TimerEntry.eq F64.eq rank
  rw [F64.partialCmp_place ha hb, Bool.and_eq_true, beq_iff_eq, beq_iff_eq, Option.some.injEq,
    cmp_eq_eq_iff, toLex_inj, Prod.mk.injEq]

theorem TimerEntry.ordered_of_number {p : TimerEntry κ → Prop} (hp : ∀ a, p a → a.when ≠ .nan) :
    Ordered p := by
  refine ⟨fun a b ha hb => ?_, fun a b ha hb => ?_, fun a b c ha hb hc hab hbc => ?_⟩
  · rw [timerCmp_eq (hp a ha) (hp b hb), eq_iff_rank (hp a ha) (hp b hb), cmp_eq_eq_iff, eq_comm]
  · rw [timerCmp_eq (hp a ha) (hp b hb), timerCmp_eq (hp b hb) (hp a ha), cmp_swap]
  · rw [timerCmp_eq (hp a ha) (hp b hb), Ne, cmp_eq_gt_iff, not_lt] at hab
    rw [timerCmp_eq (hp b hb) (hp c hc), Ne, cmp_eq_gt_iff, not_lt] at hbc
    rw [timerCmp_eq (hp a ha) (hp c hc), Ne, cmp_eq_gt_iff, not_lt]
    exact hbc.trans hab

/-- An entry with a NaN deadline is not even equal to itself. -/
theorem TimerEntry.not_ordered_of_nan {p : TimerEntry κ → Prop} {a : TimerEntry κ} (ha : p a)
    (hnan : a.when = .nan) : ¬Ordered p := by
  intro h
  have hself : a.cmp a = .eq := by
    have hswap := h.swap a a ha ha
    cases hcmp : a.cmp a with
    | eq => rfl
    | lt | gt => simp [hcmp] at hswap
  have heq := (h.equal a a ha ha).mp hself
  simp [TimerEntry.eq, F64.eq, hnan, F64.partialCmp] at heq

/-! ### The top of the heap -/

namespace LoopState

theorem foldl_peek_rank {ts : List (TimerEntry κ)} {t : TimerEntry κ} (ht : t.when ≠ .nan)
    (hts : ∀ u ∈ ts, u.when ≠ .nan) :
    (ts.foldl (fun best u => if best.cmp u = .lt then u else best) t).rank ≤ t.rank ∧
      ∀ u ∈ ts,
        (ts.foldl (fun best u => if best.cmp u = .lt then u else best) t).rank ≤ u.rank := by
  induction ts generalizing t with
  | nil => exact ⟨le_rfl, fun u hu => absurd hu (by simp)⟩
  | cons v ts ih =>
      have hv : v.when ≠ .nan := hts v List.mem_cons_self
      have hts' : ∀ u ∈ ts, u.when ≠ .nan := fun u hu => hts u (List.mem_cons_of_mem _ hu)
      have hcmp : t.cmp v = .lt ↔ v.rank < t.rank := by
        rw [timerCmp_eq ht hv, cmp_eq_lt_iff]
      rw [List.foldl_cons]
      by_cases hlt : t.cmp v = .lt
      · rw [if_pos hlt]
        obtain ⟨hle, hrest⟩ := ih hv hts'
        refine ⟨hle.trans (hcmp.mp hlt).le, fun u hu => ?_⟩
        rcases List.mem_cons.mp hu with rfl | hu
        · exact hle
        · exact hrest u hu
      · rw [if_neg hlt]
        obtain ⟨hle, hrest⟩ := ih ht hts'
        have htv : t.rank ≤ v.rank := not_lt.mp fun h => hlt (hcmp.mpr h)
        refine ⟨hle, fun u hu => ?_⟩
        rcases List.mem_cons.mp hu with rfl | hu
        · exact hle.trans htv
        · exact hrest u hu

/-- Without NaN the top of the heap has the least rank. -/
theorem peek_rank {s : LoopState κ} (hn : ∀ t ∈ s.timers, t.when ≠ .nan) {top : TimerEntry κ}
    (h : s.peek = some top) : ∀ u ∈ s.timers, top.rank ≤ u.rank := by
  intro u hu
  unfold peek at h
  split at h
  · cases h
  · rename_i t ts heq
    rw [heq] at hu hn
    injection h with h
    have hleast := foldl_peek_rank (hn t List.mem_cons_self)
      fun v hv => hn v (List.mem_cons_of_mem _ hv)
    rw [h] at hleast
    rcases List.mem_cons.mp hu with rfl | hu
    · exact hleast.1
    · exact hleast.2 u hu

/-- The entry of least rank is the top. -/
theorem peek_eq_some {s : LoopState κ} (hn : ∀ t ∈ s.timers, t.when ≠ .nan)
    (hnodup : (s.timers.map (·.seq)).Nodup) {top : TimerEntry κ} (hmem : top ∈ s.timers)
    (hleast : ∀ u ∈ s.timers, top.rank ≤ u.rank) : s.peek = some top := by
  cases hpeek : s.peek with
  | none =>
      rw [peek_eq_none hpeek] at hmem
      cases hmem
  | some u =>
      have hu := peek_mem hpeek
      have hrank : u.rank = top.rank := le_antisymm (peek_rank hn hpeek top hmem) (hleast u hu)
      have hseq : u.seq = top.seq := congrArg (fun r => (ofLex r).2) hrank
      rw [List.inj_on_of_nodup_map hnodup hu hmem hseq]

end LoopState

/-- An entry that ranks before a due one is due. -/
theorem TimerEntry.due_of_rank_le {a b : TimerEntry κ} (ha : a.when ≠ .nan) (hb : b.when ≠ .nan)
    (hle : a.rank ≤ b.rank) {now : ℚ} (hdue : b.due now = true) : a.due now = true := by
  have hnow : F64.fin now ≠ .nan := by simp
  have hiff : ∀ t : TimerEntry κ, t.when ≠ .nan →
      (t.due now = true ↔ t.when.place ≤ F64.place (.fin now)) := by
    intro t ht
    unfold TimerEntry.due F64.le
    rw [F64.partialCmp_place ht hnow]
    rcases lt_trichotomy t.when.place (F64.place (.fin now)) with h | h | h
    · rw [h.cmp_eq_lt]
      simp [h.le]
    · rw [h, cmp_self_eq_eq]
      simp
    · rw [h.cmp_eq_gt]
      simp [h]
  rw [hiff a ha]
  rw [hiff b hb] at hdue
  rcases Prod.Lex.le_iff.mp hle with h | h
  · exact (le_of_lt h).trans hdue
  · exact (le_of_eq h.1).trans hdue

/-! ### The timer phase -/

/-- The state with one more timer in the heap. -/
def LoopState.addTimer (s : LoopState κ) (t : TimerEntry κ) : LoopState κ :=
  { s with timers := t :: s.timers }

/-- What the callbacks of the timers do. -/
abbrev TimerAct (κ : Type) := TimerEntry κ → List (Effect κ)

def TimerAct.silence (act : TimerAct κ) (t : TimerEntry κ) : TimerAct κ := fun u =>
  if u.seq = t.seq then [] else act u

def TimerAct.behaviour (act : TimerAct κ) : Behaviour κ := fun _ inv =>
  match inv with
  | .timer t => act t
  | .ready _ | .io _ _ | .data _ _ _ => []

namespace BatchRun

/-- The timer phase of a batch that has sampled the time `now`. -/
def atTimers (s : LoopState κ) (now : ℚ) : BatchRun κ := ⟨s, .timers now, []⟩

def phaseOver (r : BatchRun κ) : Bool :=
  match r.pc with
  | .timers _ => false
  | _ => true

def turn (act : TimerAct κ) (r : BatchRun κ) : BatchRun κ :=
  if r.phaseOver then r else r.next act.behaviour

def turns (act : TimerAct κ) : Nat → BatchRun κ → BatchRun κ
  | 0, r => r
  | n + 1, r => turn act (turns act n r)

/-- The timers whose callbacks were executed, in order. -/
def executed (r : BatchRun κ) : List (TimerEntry κ) :=
  r.calls.filterMap fun inv => match inv with
    | .timer t => some t
    | .ready _ | .io _ _ | .data _ _ _ => none

end BatchRun

/-- With `t` in the heap, whose callback does nothing, the phase executes the
other timers as it does without: as many turns, and at most one more for `t`
itself, execute the same others in the same order, and both phases end. -/
def Undisturbed (act : TimerAct κ) (now : ℚ) (s : LoopState κ) (t : TimerEntry κ) : Prop :=
  ∀ n, ∃ m, (m = n ∨ m = n + 1) ∧
    ((BatchRun.atTimers (s.addTimer t) now).turns (act.silence t) m).executed.filter
        (fun u => u.seq != t.seq) =
      ((BatchRun.atTimers s now).turns act n).executed ∧
    ((BatchRun.atTimers (s.addTimer t) now).turns (act.silence t) m).phaseOver =
      ((BatchRun.atTimers s now).turns act n).phaseOver

/-- The deadlines that may ever be in the heap: those of the timers, and
those at which the callbacks schedule others. -/
inductive Deadline (act : TimerAct κ) (s : LoopState κ) (t : TimerEntry κ) : F64 → Prop
  | added : Deadline act s t t.when
  | timer {u : TimerEntry κ} (hu : u ∈ s.timers) : Deadline act s t u.when
  | callAt {u : TimerEntry κ} {when : F64} {cb : κ} (he : .op (.callAt when cb) ∈ act u) :
      Deadline act s t when
  | callLater {u : TimerEntry κ} {delay : F64} {cb : κ} (clock : ℚ)
      (he : .op (.callLater delay cb) ∈ act u) : Deadline act s t ((F64.fin clock).add delay)

/-! ### One more timer -/

/-- `a` is `b` but for its heap, which has `t` in it as well while `inside`. -/
structure Twin (t : TimerEntry κ) (inside : Bool) (a b : LoopState κ) : Prop where
  rest : a = { b with timers := a.timers }
  timers : a.timers.Perm (if inside then t :: b.timers else b.timers)

/-- The heap that `t` is added to. -/
structure Hosts (t : TimerEntry κ) (b : LoopState κ) : Prop where
  nodup : (b.timers.map (·.seq)).Nodup
  seqs : ∀ u ∈ b.timers, u.seq < b.seq
  other : ∀ u ∈ b.timers, u.seq ≠ t.seq
  old : t.seq < b.seq
  number : ∀ u ∈ b.timers, u.when ≠ .nan

/-- The call schedules nothing at NaN. -/
def Effect.Numeric : Effect κ → Prop
  | .op (.callAt when _) => when ≠ .nan
  | .op (.callLater delay _) => delay ≠ .nan
  | _ => True

theorem Effect.numeric_of_deadline {act : TimerAct κ} {s : LoopState κ} {t u : TimerEntry κ}
    (h : ¬Deadline act s t .nan) {e : Effect κ} (he : e ∈ act u) : e.Numeric := by
  cases e with
  | op o =>
      cases o with
      | callAt when cb =>
          rintro rfl
          exact h (.callAt he)
      | callLater delay cb =>
          rintro rfl
          exact h (.callLater 0 he)
      | callSoon _ | cancel _ | detach _ | watchers _ | close => trivial
  | callSoonThreadsafe _ | stop | elapse _ => trivial

theorem F64.fin_add_ne_nan {q : ℚ} {d : F64} (h : d ≠ .nan) : (F64.fin q).add d ≠ .nan := by
  cases d with
  | nan => exact absurd rfl h
  | negInf | fin _ | posInf => simp [add]

namespace Hosts

variable {t : TimerEntry κ} {b : LoopState κ}

theorem of_eq {b' : LoopState κ} (h : Hosts t b) (htimers : b'.timers.Sublist b.timers)
    (hseq : b'.seq = b.seq) : Hosts t b' := by
  refine ⟨h.nodup.sublist (htimers.map _), fun u hu => ?_,
    fun u hu => h.other u (htimers.subset hu), ?_, fun u hu => h.number u (htimers.subset hu)⟩
  · rw [hseq]
    exact h.seqs u (htimers.subset hu)
  · rw [hseq]
    exact h.old

theorem pushTimer (h : Hosts t b) {when : F64} (hw : when ≠ .nan) (cb : κ) :
    Hosts t (b.pushTimer when cb) := by
  refine ⟨List.nodup_cons.mpr ⟨fun hmem => ?_, h.nodup⟩, fun u hu => ?_, fun u hu => ?_,
    Nat.lt_succ_of_lt h.old, fun u hu => ?_⟩
  · obtain ⟨u, hu, heq⟩ := List.mem_map.mp hmem
    exact (h.seqs u hu).ne heq
  · rcases List.mem_cons.mp hu with rfl | hold
    · exact Nat.lt_succ_self _
    · exact Nat.lt_succ_of_lt (h.seqs u hold)
  · rcases List.mem_cons.mp hu with rfl | hold
    · exact h.old.ne'
    · exact h.other u hold
  · rcases List.mem_cons.mp hu with rfl | hold
    · exact hw
    · exact h.number u hold

theorem apply (h : Hosts t b) {e : Effect κ} (he : e.Numeric) : Hosts t (e.apply b) := by
  have hcallAt : ∀ (when : F64) (cb : κ), when ≠ .nan → Hosts t ((Op.callAt when cb).apply b) := by
    intro when cb hw
    rw [Op.apply_callAt]
    split
    · exact h
    · exact h.pushTimer hw cb
  cases e with
  | op o =>
      cases o with
      | callAt when cb => exact hcallAt when cb he
      | callLater delay cb => exact hcallAt _ cb (F64.fin_add_ne_nan he)
      | callSoon cb =>
          show Hosts t ((Op.callSoon cb).apply b)
          rw [Op.apply_callSoon]
          split
          · exact h
          · exact h.of_eq (List.Sublist.refl _) rfl
      | close =>
          show Hosts t (Op.close.apply b)
          rw [Op.apply_close]
          split
          · exact h
          · exact h.of_eq (List.nil_sublist _) rfl
      | cancel _ | detach _ | watchers _ => exact h.of_eq (List.Sublist.refl _) rfl
  | callSoonThreadsafe cb =>
      rw [Effect.apply_callSoonThreadsafe]
      split
      · exact h
      · exact h.of_eq (List.Sublist.refl _) rfl
  | stop | elapse _ => exact h.of_eq (List.Sublist.refl _) rfl

theorem foldl (h : Hosts t b) {es : List (Effect κ)} (hes : ∀ e ∈ es, e.Numeric) :
    Hosts t (es.foldl Effect.apply b) := by
  induction es generalizing b with
  | nil => exact h
  | cons e es ih =>
      exact ih (h.apply (hes e List.mem_cons_self)) fun e' he' =>
        hes e' (List.mem_cons_of_mem _ he')

end Hosts

namespace Twin

variable {t : TimerEntry κ} {i : Bool} {a b : LoopState κ}

theorem pushTimer {l : List (TimerEntry κ)} (h : Twin t i { b with timers := l } b) (when : F64)
    (cb : κ) : Twin t i (LoopState.pushTimer { b with timers := l } when cb)
      (b.pushTimer when cb) := by
  refine ⟨rfl, ?_⟩
  have hperm := h.timers
  cases i with
  | false => exact List.Perm.cons _ hperm
  | true => exact (List.Perm.cons _ hperm).trans (List.Perm.swap _ _ _)

/-- Both heaps go through what a callback does, or are emptied. -/
theorem apply (h : Twin t i a b) (e : Effect κ) :
    ∃ i', (i = false → i' = false) ∧ Twin t i' (e.apply a) (e.apply b) := by
  obtain ⟨l, rfl⟩ : ∃ l, a = { b with timers := l } := ⟨a.timers, h.rest⟩
  have hperm : l.Perm (if i then t :: b.timers else b.timers) := h.timers
  have hcallAt : ∀ (when : F64) (cb : κ),
      Twin t i ((Op.callAt when cb).apply { b with timers := l })
        ((Op.callAt when cb).apply b) := by
    intro when cb
    rw [Op.apply_callAt, Op.apply_callAt]
    by_cases hc : b.closed = true
    · rw [if_pos hc, if_pos hc]
      exact h
    · rw [if_neg hc, if_neg hc]
      exact h.pushTimer when cb
  cases e with
  | op o =>
      cases o with
      | callAt when cb => exact ⟨i, id, hcallAt when cb⟩
      | callLater delay cb => exact ⟨i, id, hcallAt _ cb⟩
      | callSoon cb =>
          refine ⟨i, id, ?_⟩
          show Twin t i ((Op.callSoon cb).apply _) ((Op.callSoon cb).apply b)
          rw [Op.apply_callSoon, Op.apply_callSoon]
          by_cases hc : b.closed = true
          · rw [if_pos hc, if_pos hc]
            exact h
          · rw [if_neg hc, if_neg hc]
            exact ⟨rfl, hperm⟩
      | close =>
          by_cases hc : b.running = true ∨ b.closed = true
          · refine ⟨i, id, ?_⟩
            show Twin t i (Op.close.apply _) (Op.close.apply b)
            rw [Op.apply_close, Op.apply_close, if_pos hc, if_pos hc]
            exact h
          · refine ⟨false, fun _ => rfl, ?_⟩
            show Twin t false (Op.close.apply _) (Op.close.apply b)
            rw [Op.apply_close, Op.apply_close, if_neg hc, if_neg hc]
            exact ⟨rfl, List.Perm.refl _⟩
      | cancel _ | detach _ | watchers _ => exact ⟨i, id, rfl, hperm⟩
  | callSoonThreadsafe cb =>
      refine ⟨i, id, ?_⟩
      rw [Effect.apply_callSoonThreadsafe, Effect.apply_callSoonThreadsafe]
      by_cases hc : b.closed = true
      · rw [if_pos hc, if_pos hc]
        exact h
      · rw [if_neg hc, if_neg hc]
        exact ⟨rfl, hperm⟩
  | stop | elapse _ => exact ⟨i, id, rfl, hperm⟩

theorem foldl (h : Twin t i a b) (es : List (Effect κ)) :
    ∃ i', (i = false → i' = false) ∧
      Twin t i' (es.foldl Effect.apply a) (es.foldl Effect.apply b) := by
  induction es generalizing i a b with
  | nil => exact ⟨i, id, h⟩
  | cons e es ih =>
      obtain ⟨i', hi, h'⟩ := h.apply e
      obtain ⟨i'', hi', h''⟩ := ih h'
      exact ⟨i'', fun hf => hi' (hi hf), h''⟩

theorem mem_iff (h : Twin t i a b) {u : TimerEntry κ} :
    u ∈ a.timers ↔ (i = true ∧ u = t) ∨ u ∈ b.timers := by
  rw [h.timers.mem_iff]
  cases i with
  | false => simp
  | true => simp

theorem nodup (h : Twin t i a b) (hb : Hosts t b) : (a.timers.map (·.seq)).Nodup := by
  rw [(h.timers.map _).nodup_iff]
  cases i with
  | false => exact hb.nodup
  | true =>
      refine List.nodup_cons.mpr ⟨fun hmem => ?_, hb.nodup⟩
      obtain ⟨u, hu, heq⟩ := List.mem_map.mp hmem
      exact hb.other u hu heq

theorem number (h : Twin t i a b) (hb : Hosts t b) (ht : t.when ≠ .nan) :
    ∀ u ∈ a.timers, u.when ≠ .nan := by
  intro u hu
  rcases h.mem_iff.mp hu with ⟨-, rfl⟩ | hmem
  · exact ht
  · exact hb.number u hmem

theorem popTimer (h : Twin t i a b) (hb : Hosts t b) {top : TimerEntry κ} (htop : top.seq ≠ t.seq) :
    Twin t i (a.popTimer top) (b.popTimer top) := by
  have hpop : (a.popTimer top).timers.Perm
      ((if i then t :: b.timers else b.timers).eraseP fun u => u.seq == top.seq) := by
    refine List.Perm.eraseP _ ?_ h.timers
    refine List.Pairwise.imp ?_ (List.pairwise_map.mp (h.nodup hb))
    intro u v hne hu hv
    exact hne ((eq_of_beq hu).trans (eq_of_beq hv).symm)
  refine ⟨by rw [LoopState.popTimer, h.rest]; rfl, hpop.trans ?_⟩
  cases i with
  | false => exact List.Perm.refl _
  | true =>
      rw [if_pos rfl, if_pos rfl, List.eraseP_cons_of_neg (by simpa using Ne.symm htop)]
      exact List.Perm.refl _

/-- The entry that was added is taken out again. -/
theorem popTimer_self (h : Twin t true a b) (hb : Hosts t b) : Twin t false (a.popTimer t) b := by
  have hpop : (a.popTimer t).timers.Perm ((t :: b.timers).eraseP fun u => u.seq == t.seq) := by
    refine List.Perm.eraseP _ ?_ h.timers
    refine List.Pairwise.imp ?_ (List.pairwise_map.mp (h.nodup hb))
    intro u v hne hu hv
    exact hne ((eq_of_beq hu).trans (eq_of_beq hv).symm)
  rw [List.eraseP_cons_of_pos (by simp)] at hpop
  exact ⟨by rw [LoopState.popTimer, h.rest], hpop⟩

end Twin

/-! ### What the phase takes next -/

/-- The top of the heap, when it is due. -/
def LoopState.dueTop (s : LoopState κ) (now : ℚ) : Option (TimerEntry κ) :=
  s.peek.filter (·.due now)

theorem LoopState.dueTop_eq_some {s : LoopState κ} {now : ℚ} {top : TimerEntry κ} :
    s.dueTop now = some top ↔ s.peek = some top ∧ top.due now = true :=
  Option.filter_eq_some_iff

theorem batchStep_timers (s : LoopState κ) (now : ℚ) :
    batchStep s (.timers now) = match s.dueTop now with
      | none => ⟨s, .io, none⟩
      | some top => ⟨s.popTimer top, .timers now,
          if s.isCancelled top.entry then none else some (.timer top)⟩ := by
  unfold LoopState.dueTop
  simp only [batchStep]
  cases hpeek : s.peek with
  | none => rfl
  | some top =>
      by_cases hdue : top.due now = true
      · simp only [Option.filter_some, hdue, if_true]
      · simp only [Option.filter_some, hdue, if_false, Bool.false_eq_true]

namespace Twin

variable {t : TimerEntry κ} {i : Bool} {a b : LoopState κ}

/-- What is due at the top of the larger heap is the added entry or due at
the top of the other. -/
theorem dueTop_eq (h : Twin t i a b) (hb : Hosts t b) (ht : t.when ≠ .nan) (now : ℚ) :
    (i = true ∧ a.dueTop now = some t) ∨ a.dueTop now = b.dueTop now := by
  have hna := h.number hb ht
  cases htop : a.dueTop now with
  | none =>
      refine .inr (Eq.symm ?_)
      cases hother : b.dueTop now with
      | none => rfl
      | some u =>
          -- The top of the larger heap ranks before `u` and would be due.
          obtain ⟨hpeek, hdue⟩ := LoopState.dueTop_eq_some.mp hother
          have hu : u ∈ a.timers := h.mem_iff.mpr (.inr (LoopState.peek_mem hpeek))
          cases hpeek' : a.peek with
          | none =>
              rw [LoopState.peek_eq_none hpeek'] at hu
              cases hu
          | some v =>
              have hv := LoopState.peek_mem hpeek'
              have hle := LoopState.peek_rank hna hpeek' u hu
              have hdue' := TimerEntry.due_of_rank_le (hna v hv) (hna u hu) hle hdue
              rw [LoopState.dueTop_eq_some.mpr ⟨hpeek', hdue'⟩] at htop
              cases htop
  | some v =>
      obtain ⟨hpeek, hdue⟩ := LoopState.dueTop_eq_some.mp htop
      rcases h.mem_iff.mp (LoopState.peek_mem hpeek) with ⟨hi, rfl⟩ | hmem
      · exact .inl ⟨hi, rfl⟩
      · refine .inr (LoopState.dueTop_eq_some.mpr ⟨?_, hdue⟩).symm
        exact LoopState.peek_eq_some hb.number hb.nodup hmem fun u hu =>
          LoopState.peek_rank hna hpeek u (h.mem_iff.mpr (.inr hu))

theorem isCancelled (h : Twin t i a b) (e : ReadyEntry κ) : a.isCancelled e = b.isCancelled e := by
  rw [h.rest]
  rfl

end Twin

/-! ### The two phases side by side -/

namespace BatchRun

theorem executed_append (r : BatchRun κ) (s : LoopState κ) (pc : BatchPc) (u : TimerEntry κ) :
    executed ⟨s, pc, r.calls ++ [.timer u]⟩ = r.executed ++ [u] := by
  simp [executed]

theorem turn_some (act : TimerAct κ) {r : BatchRun κ} {now : ℚ} (hpc : r.pc = .timers now)
    {top : TimerEntry κ} (htop : r.st.dueTop now = some top) :
    turn act r = if r.st.isCancelled top.entry then ⟨r.st.popTimer top, .timers now, r.calls⟩
      else ⟨(act top).foldl Effect.apply (r.st.popTimer top), .timers now,
        r.calls ++ [.timer top]⟩ := by
  have hstep := batchStep_timers r.st now
  rw [htop] at hstep
  have hover : r.phaseOver = false := by simp only [phaseOver, hpc]
  rw [turn, hover, if_neg Bool.false_ne_true, next, hpc, hstep]
  by_cases hc : r.st.isCancelled top.entry = true
  · simp only [hc, if_true, quiet, hpc, hstep]
  · simp only [hc, if_false, Bool.false_eq_true, quiet, hpc, hstep, invoke, TimerAct.behaviour]

theorem turn_none (act : TimerAct κ) {r : BatchRun κ} {now : ℚ} (hpc : r.pc = .timers now)
    (htop : r.st.dueTop now = none) : turn act r = ⟨r.st, .io, r.calls⟩ := by
  have hstep := batchStep_timers r.st now
  rw [htop] at hstep
  have hover : r.phaseOver = false := by simp only [phaseOver, hpc]
  rw [turn, hover, if_neg Bool.false_ne_true, next, hpc, hstep]
  simp only [quiet, hpc, hstep]

theorem turn_over (act : TimerAct κ) {r : BatchRun κ} (h : r.phaseOver = true) :
    turn act r = r := by
  rw [turn, if_pos h]

end BatchRun

/-- The two phases have executed the same others and go on alike. -/
structure Abreast (t : TimerEntry κ) (now : ℚ) (i : Bool) (ra rb : BatchRun κ) : Prop where
  twin : Twin t i ra.st rb.st
  hosts : Hosts t rb.st
  pc : ra.pc = rb.pc
  phase : rb.pc = .timers now ∨ rb.phaseOver = true
  executed : ra.executed.filter (fun u => u.seq != t.seq) = rb.executed

namespace Abreast

variable {t : TimerEntry κ} {now : ℚ} {i : Bool} {ra rb : BatchRun κ} {act : TimerAct κ}

theorem phaseOver_eq (h : Abreast t now i ra rb) : ra.phaseOver = rb.phaseOver := by
  rw [BatchRun.phaseOver, BatchRun.phaseOver, h.pc]

/-- A turn of both phases that takes the same entry, or none. -/
theorem turn (h : Abreast t now i ra rb) (hact : ∀ u, ∀ e ∈ act u, e.Numeric)
    (hpc : rb.pc = .timers now) (htop : ra.st.dueTop now = rb.st.dueTop now) :
    ∃ i', (i = false → i' = false) ∧
      Abreast t now i' (BatchRun.turn (act.silence t) ra) (BatchRun.turn act rb) := by
  have hpca : ra.pc = .timers now := h.pc.trans hpc
  cases hdue : rb.st.dueTop now with
  | none =>
      rw [hdue] at htop
      rw [BatchRun.turn_none _ hpca htop, BatchRun.turn_none _ hpc hdue]
      exact ⟨i, id, h.twin, h.hosts, rfl, .inr rfl, h.executed⟩
  | some top =>
      rw [hdue] at htop
      have hmem := LoopState.peek_mem (LoopState.dueTop_eq_some.mp hdue).1
      have hne := h.hosts.other top hmem
      have htwin := h.twin.popTimer h.hosts hne
      have hhosts : Hosts t (rb.st.popTimer top) := h.hosts.of_eq List.eraseP_sublist rfl
      rw [BatchRun.turn_some _ hpca htop, BatchRun.turn_some _ hpc hdue,
        h.twin.isCancelled top.entry]
      by_cases hc : rb.st.isCancelled top.entry = true
      · rw [if_pos hc, if_pos hc]
        exact ⟨i, id, htwin, hhosts, rfl, .inl rfl, h.executed⟩
      · rw [if_neg hc, if_neg hc]
        have hsilent : act.silence t top = act top := if_neg hne
        obtain ⟨i', hi, htwin'⟩ := htwin.foldl (act top)
        refine ⟨i', hi, ?_, hhosts.foldl (hact top), rfl, .inl rfl, ?_⟩
        · rw [hsilent]
          exact htwin'
        · rw [BatchRun.executed_append, BatchRun.executed_append, List.filter_append, h.executed,
            List.filter_cons_of_pos (by simpa using hne), List.filter_nil]

/-- A turn of the phase with the added entry, when that is what it takes. -/
theorem turn_self (h : Abreast t now true ra rb) (hpc : rb.pc = .timers now)
    (htop : ra.st.dueTop now = some t) :
    Abreast t now false (BatchRun.turn (act.silence t) ra) rb := by
  have hpca : ra.pc = .timers now := h.pc.trans hpc
  have htwin := h.twin.popTimer_self h.hosts
  have hsilent : act.silence t t = [] := if_pos rfl
  rw [BatchRun.turn_some _ hpca htop, hsilent]
  by_cases hc : ra.st.isCancelled t.entry = true
  · rw [if_pos hc]
    exact ⟨htwin, h.hosts, hpc.symm, .inl hpc, h.executed⟩
  · rw [if_neg hc]
    refine ⟨htwin, h.hosts, hpc.symm, .inl hpc, ?_⟩
    rw [BatchRun.executed_append, List.filter_append, h.executed,
      List.filter_cons_of_neg (by simp), List.filter_nil, List.append_nil]

/-- A turn of the phase without the added entry is matched by a turn of the
phase with it, after at most one turn for the entry itself. -/
theorem step (h : Abreast t now i ra rb) (ht : t.when ≠ .nan)
    (hact : ∀ u, ∀ e ∈ act u, e.Numeric) :
    (∃ i', (i = false → i' = false) ∧
        Abreast t now i' (BatchRun.turn (act.silence t) ra) (BatchRun.turn act rb)) ∨
      (i = true ∧ Abreast t now false
        (BatchRun.turn (act.silence t) (BatchRun.turn (act.silence t) ra))
        (BatchRun.turn act rb)) := by
  rcases h.phase with hpc | hover
  · rcases h.twin.dueTop_eq h.hosts ht now with ⟨rfl, htop⟩ | htop
    · have hself : Abreast t now false (BatchRun.turn (act.silence t) ra) rb :=
        h.turn_self hpc htop
      have htop' := hself.twin.dueTop_eq h.hosts ht now
      rcases htop' with ⟨hfalse, -⟩ | htop'
      · cases hfalse
      · obtain ⟨i', hi, hnext⟩ := hself.turn hact hpc htop'
        rw [hi rfl] at hnext
        exact .inr ⟨rfl, hnext⟩
    · exact .inl (h.turn hact hpc htop)
  · refine .inl ⟨i, id, ?_⟩
    rw [BatchRun.turn_over act hover, BatchRun.turn_over _ (h.phaseOver_eq.trans hover)]
    exact h

end Abreast

theorem abreast_turns {act : TimerAct κ} {now : ℚ} {t : TimerEntry κ} {i : Bool}
    {ra rb : BatchRun κ} (h : Abreast t now i ra rb) (ht : t.when ≠ .nan)
    (hact : ∀ u, ∀ e ∈ act u, e.Numeric) (n : Nat) :
    ∃ m i', (m = n ∨ (m = n + 1 ∧ i' = false)) ∧
      Abreast t now i' (ra.turns (act.silence t) m) (rb.turns act n) := by
  induction n with
  | zero => exact ⟨0, i, .inl rfl, h⟩
  | succ n ih =>
      obtain ⟨m, i', hm, hn⟩ := ih
      rcases hn.step ht hact with ⟨i'', hi, hnext⟩ | ⟨rfl, hnext⟩
      · refine ⟨m + 1, i'', ?_, hnext⟩
        rcases hm with rfl | ⟨rfl, hfalse⟩
        · exact .inl rfl
        · exact .inr ⟨rfl, hi hfalse⟩
      · refine ⟨m + 2, false, ?_, hnext⟩
        rcases hm with rfl | ⟨rfl, hfalse⟩
        · exact .inr ⟨rfl, rfl⟩
        · cases hfalse

theorem undisturbed_of_number {act : TimerAct κ} {s : LoopState κ} {t : TimerEntry κ}
    (hw : (s.addTimer t).Wf) (h : ¬Deadline act s t .nan) (now : ℚ) :
    Undisturbed act now s t := by
  have ht : t.when ≠ .nan := fun heq => h (heq ▸ .added)
  have hact : ∀ u, ∀ e ∈ act u, e.Numeric := fun u e he => Effect.numeric_of_deadline h he
  have hnodup : (t.seq :: s.timers.map (·.seq)).Nodup := hw.nodup
  rw [List.nodup_cons] at hnodup
  have hhosts : Hosts t s := by
    refine ⟨hnodup.2, fun u hu => hw.seqs u (List.mem_cons_of_mem _ hu), fun u hu heq => ?_,
      hw.seqs t List.mem_cons_self, fun u hu hnan => ?_⟩
    · exact hnodup.1 (List.mem_map.mpr ⟨u, hu, heq⟩)
    · exact h (hnan ▸ .timer hu)
  have hstart : Abreast t now true (BatchRun.atTimers (s.addTimer t) now)
      (BatchRun.atTimers s now) :=
    ⟨⟨rfl, List.Perm.refl _⟩, hhosts, rfl, .inl rfl, rfl⟩
  intro n
  obtain ⟨m, i, hm, hn⟩ := abreast_turns hstart ht hact n
  exact ⟨m, hm.imp id And.left, hn.executed, hn.phaseOver_eq⟩

/-- The comparison orders all timers that may be scheduled, and the added one
delays no other: exactly when nothing is scheduled at NaN. -/
theorem timers_unhindered_iff {act : TimerAct κ} {s : LoopState κ} {t : TimerEntry κ}
    (hw : (s.addTimer t).Wf) (now : ℚ) :
    (TimerEntry.Ordered (fun u : TimerEntry κ => Deadline act s t u.when) ∧
      Undisturbed act now s t) ↔ ¬Deadline act s t .nan := by
  constructor
  · rintro ⟨hordered, -⟩ hnan
    exact TimerEntry.not_ordered_of_nan (a := ⟨.nan, 0, t.entry⟩) hnan rfl hordered
  · intro h
    refine ⟨TimerEntry.ordered_of_number fun u hu hnan => h (hnan ▸ hu), ?_⟩
    exact undisturbed_of_number hw h now

/-- A cancelled timer at minus infinity in front of one that is due, and a
callback that schedules a third at once. -/
theorem timers_unhindered_iff_three :
    let t : TimerEntry Nat := ⟨.negInf, 1, ⟨0, 1, false⟩⟩
    let s : LoopState Nat := { LoopState.new Nat 5 with
      timers := [⟨.fin 3, 0, ⟨7, 0, false⟩⟩], seq := 2, nextHandle := 2, cancelled := [1] }
    let act : TimerAct Nat := fun u => if u.seq = 0 then [.op (.callAt .posInf 8)] else []
    (s.addTimer t).Wf ∧ Undisturbed act 5 s t := by
  intro t s act
  have hw : (s.addTimer t).Wf := by
    refine ⟨fun _ he => absurd he (by simp [s, LoopState.addTimer, LoopState.new]), ?_, ?_, ?_⟩
    all_goals simp [s, t, LoopState.addTimer, LoopState.new]
  refine ⟨hw, ((timers_unhindered_iff hw 5).mpr fun h => ?_).2⟩
  generalize hd : F64.nan = d at h
  cases h with
  | added => cases hd
  | timer hu =>
      rw [List.mem_singleton.mp hu] at hd
      cases hd
  | @callAt u _ _ he =>
      simp only [act] at he
      split at he
      · simp only [List.mem_singleton, Effect.op.injEq, Op.callAt.injEq] at he
        rw [he.1] at hd
        cases hd
      · cases he
  | @callLater u _ _ _ he =>
      simp only [act] at he
      split at he
      · simp at he
      · cases he

/-- A NaN deadline scheduled before a timer that is due keeps it from being
executed. The two entries are ordered by their sequence numbers, so every
max-heap has the NaN on top. -/
theorem nan_timer_blocks :
    let t : TimerEntry Nat := ⟨.nan, 0, ⟨7, 0, false⟩⟩
    let s : LoopState Nat := { LoopState.new Nat 5 with
      timers := [⟨.fin 3, 1, ⟨8, 1, false⟩⟩], seq := 2, nextHandle := 2 }
    (s.addTimer t).Wf ∧ ¬Undisturbed (fun _ => []) 5 s t ∧
      ¬TimerEntry.Ordered (fun u => u ∈ (s.addTimer t).timers) := by
  intro t s
  refine ⟨⟨?_, ?_, ?_, ?_⟩, fun h => ?_, ?_⟩
  · exact fun _ he => absurd he (by simp [s, LoopState.addTimer, LoopState.new])
  · simp [s, t, LoopState.addTimer, LoopState.new]
  · simp [s, t, LoopState.addTimer, LoopState.new]
  · simp [s, t, LoopState.addTimer, LoopState.new]
  · obtain ⟨m, rfl | rfl, hexecuted, -⟩ := h 1
    · revert hexecuted
      decide +kernel
    · revert hexecuted
      decide +kernel
  · exact TimerEntry.not_ordered_of_nan (a := t) List.mem_cons_self rfl

end Tokioop.Loop
