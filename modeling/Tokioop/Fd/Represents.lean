import Tokioop.Fd.Registry

/-!
The representation invariant of the fd registry.

The counter, the records, the slots, the flags and the handles held by Python
are kept in step by five operations. What ties them together is that a flag is
clear exactly while the slot allocated with it is in its place in the records:
the invariant carries this from both sides, `held` and `live`.
-/

namespace Tokioop.Fd

open Kit (total total_erase_add total_erase_of_none total_insert)

universe u v

variable {α : Type u} {δ : Type v}

namespace Registry

/-! ### The representation invariant -/

/-- A slot that serves the watcher whose flag is `f`. -/
structure Armed (s : FdSlotState α δ) (f : Nat) : Prop where
  alive : s.dead = false
  flag : s.flag = some f
  mode : s.cb.isSome = !s.drain.isSome

/-- The watcher `d` is in place at `fd`: its slot is armed, its flag is clear,
and the handle returned with it names this descriptor and direction. -/
def Held (r : Registry α δ) (fd : Int) (isRead : Bool) (d : FdDirection) : Prop :=
  r.issued[d.slot]? = some (⟨fd, isRead, d.slot⟩, d.slot) ∧ r.flags[d.slot]? = some false ∧
    ∃ s, r.slots[d.slot]? = some s ∧ Armed s d.slot

structure Ok (r : Registry α δ) : Prop where
  slots_length : r.slots.length = r.flags.length
  issued_length : r.issued.length = r.flags.length
  own : ∀ (i : Nat) (h : FdHandle) (j : Nat), r.issued[i]? = some (h, j) → h.flag = i ∧ j = i
  held : ∀ fd b d, r.direction fd b = some d → r.Held fd b d
  live : ∀ (i : Nat) (h : FdHandle), r.issued[i]? = some (h, i) → r.flags[i]? = some false →
    ∃ d, r.direction h.fd h.isRead = some d ∧ d.slot = i
  cleared : ∀ (i : Nat) (s : FdSlotState α δ), r.slots[i]? = some s → r.flags[i]? ≠ some false →
    s.cb = none
  nonempty : ∀ fd record, r.fds.lookup fd = some record → record.count ≠ 0
  counted : r.nWatchers = r.registered

theorem Held.of_eq {r r' : Registry α δ} {fd : Int} {b : Bool} {d : FdDirection}
    (h : r.Held fd b d) (hi : r'.issued[d.slot]? = r.issued[d.slot]?)
    (hf : r'.flags[d.slot]? = r.flags[d.slot]?) (hs : r'.slots[d.slot]? = r.slots[d.slot]?) :
    r'.Held fd b d := by
  unfold Held at *
  rw [hi, hf, hs]
  exact h

/-- Different places hold different slots. -/
theorem Held.slot_ne {r : Registry α δ} {fd fd' : Int} {b b' : Bool} {d d' : FdDirection}
    (h : r.Held fd b d) (h' : r.Held fd' b' d') (hne : ¬(fd' = fd ∧ b' = b)) :
    d'.slot ≠ d.slot := by
  intro heq
  have hi := h.1
  rw [← heq, h'.1] at hi
  injection hi with hi
  injection hi with hi _
  injection hi with hfd hb
  exact hne ⟨hfd, hb⟩

theorem Held.slot_lt {r : Registry α δ} {fd : Int} {b : Bool} {d : FdDirection}
    (h : r.Held fd b d) : d.slot < r.issued.length :=
  (List.getElem?_eq_some_iff.mp h.1).1

/-! ### Records -/

theorem direction_of_lookup {r : Registry α δ} {fd : Int} {record : FdRecord}
    (h : r.fds.lookup fd = some record) (b : Bool) : r.direction fd b = record.dir b := by
  rw [direction, h, Option.bind_some]

theorem entry_dir (r : Registry α δ) (fd : Int) (b : Bool) :
    (r.entry fd).dir b = r.direction fd b := by
  unfold entry direction
  cases r.fds.lookup fd with
  | none => cases b <;> rfl
  | some record => rfl

/-- The records of `r'` are those of `r` with one direction given the value
`d`. -/
structure Placed (r r' : Registry α δ) (fd : Int) (b : Bool) (d : Option FdDirection) : Prop where
  direction : ∀ fd' b', r'.direction fd' b' =
    if fd' = fd ∧ b' = b then d else r.direction fd' b'
  registered : r'.registered + (r.direction fd b).toList.length =
    r.registered + d.toList.length
  lookup_ne : ∀ fd', fd' ≠ fd → r'.fds.lookup fd' = r.fds.lookup fd'
  nonempty : ∀ record, r'.fds.lookup fd = some record → record.count ≠ 0

/-- The registered directions outside of the record of `fd`. -/
theorem registered_eq (r : Registry α δ) (fd : Int) :
    r.registered = total FdRecord.count (r.fds.erase fd) + (r.entry fd).count := by
  unfold entry
  cases hl : r.fds.lookup fd with
  | none => exact (total_erase_of_none _ hl).symm
  | some record => exact (total_erase_add _ hl).symm

theorem placed_insert {r r' : Registry α δ} {fd : Int} {b : Bool} {d : Option FdDirection}
    (h : r'.fds = r.fds.insert fd ((r.entry fd).setDir b d))
    (hne : ((r.entry fd).setDir b d).count ≠ 0) : Placed r r' fd b d := by
  have hself : r'.fds.lookup fd = some ((r.entry fd).setDir b d) := by
    rw [h, AList.lookup_insert]
  have hother : ∀ fd', fd' ≠ fd → r'.fds.lookup fd' = r.fds.lookup fd' := by
    intro fd' hfd
    rw [h, AList.lookup_insert_ne hfd]
  refine ⟨fun fd' b' => ?_, ?_, hother, fun record hl => ?_⟩
  · by_cases hfd : fd' = fd
    · subst hfd
      rw [direction_of_lookup hself]
      by_cases hb : b' = b
      · subst hb
        simp
      · rw [FdRecord.dir_setDir_ne _ hb, entry_dir, if_neg (fun hc => hb hc.2)]
    · rw [Registry.direction, hother fd' hfd, if_neg (fun hc => hfd hc.1)]
      rfl
  · have hc := FdRecord.count_setDir (r.entry fd) b d
    have hr : r'.registered = ((r.entry fd).setDir b d).count +
        total FdRecord.count (r.fds.erase fd) := by
      rw [Registry.registered, h, total_insert]
    rw [entry_dir] at hc
    rw [hr, registered_eq r fd]
    omega
  · rw [hself] at hl
    injection hl with hl
    exact hl ▸ hne

/-- A record left without directions is removed. -/
theorem placed_erase {r r' : Registry α δ} {fd : Int} {b : Bool}
    (he : (r.entry fd).setDir b none = ⟨none, none⟩) (h : r'.fds = r.fds.erase fd) :
    Placed r r' fd b none := by
  have hself : r'.fds.lookup fd = none := by rw [h, AList.lookup_erase]
  have hother : ∀ fd', fd' ≠ fd → r'.fds.lookup fd' = r.fds.lookup fd' := by
    intro fd' hfd
    rw [h, AList.lookup_erase_ne hfd]
  refine ⟨fun fd' b' => ?_, ?_, hother, fun record hl => ?_⟩
  · by_cases hfd : fd' = fd
    · subst hfd
      have hl : r'.direction fd' b' = none := by rw [Registry.direction, hself, Option.bind_none]
      rw [hl]
      by_cases hb : b' = b
      · rw [if_pos ⟨rfl, hb⟩]
      · rw [if_neg (fun hc => hb hc.2), ← entry_dir, ← FdRecord.dir_setDir_ne _ hb none, he]
        cases b' <;> rfl
    · rw [Registry.direction, hother fd' hfd, if_neg (fun hc => hfd hc.1)]
      rfl
  · have hc := FdRecord.count_setDir (r.entry fd) b none
    have hr : r'.registered = total FdRecord.count (r.fds.erase fd) := by
      rw [Registry.registered, h]
    rw [he, entry_dir] at hc
    have h0 : (⟨none, none⟩ : FdRecord).count = 0 := rfl
    rw [hr, registered_eq r fd]
    omega
  · rw [hself] at hl
    cases hl

/-! ### Every operation keeps it -/

/-- What an operation on the place `(fd, b)` does to the slots and the flags:
the watcher that was there is retired, those of other places are left alone,
and the watcher `d` that is there afterwards has a slot of its own. -/
structure Updates (r r' : Registry α δ) (fd : Int) (b : Bool) (d : Option FdDirection) : Prop where
  placed : Placed r r' fd b d
  slots_length : r'.slots.length = r'.flags.length
  issued_length : r'.issued.length = r'.flags.length
  own : ∀ (i : Nat) (h : FdHandle) (j : Nat), r'.issued[i]? = some (h, j) → h.flag = i ∧ j = i
  issued : ∀ i, i < r.issued.length → r'.issued[i]? = r.issued[i]?
  other : ∀ i, i < r.issued.length → (∀ old, r.direction fd b = some old → i ≠ old.slot) →
    r'.flags[i]? = r.flags[i]? ∧ r'.slots[i]? = r.slots[i]?
  old : ∀ old, r.direction fd b = some old →
    r'.flags[old.slot]? ≠ some false ∧ ∀ s, r'.slots[old.slot]? = some s → s.cb = none
  new : ∀ dnew, d = some dnew → r'.Held fd b dnew
  fresh : ∀ i, r.issued.length ≤ i → i < r'.issued.length → ∃ dnew, d = some dnew ∧ dnew.slot = i
  nWatchers : r'.nWatchers + (r.direction fd b).toList.length = r.nWatchers + d.toList.length

section Updates

variable {r r' : Registry α δ} {fd : Int} {b : Bool} {d : Option FdDirection}

theorem Updates.held (hu : Updates r r' fd b d) (h : r.Ok) {fd' : Int} {b' : Bool}
    {d' : FdDirection} (hd' : r'.direction fd' b' = some d') : r'.Held fd' b' d' := by
  rw [hu.placed.direction] at hd'
  by_cases hplace : fd' = fd ∧ b' = b
  · rw [if_pos hplace] at hd'
    rw [hplace.1, hplace.2]
    exact hu.new d' hd'
  · rw [if_neg hplace] at hd'
    have hheld := h.held fd' b' d' hd'
    have hne : ∀ old, r.direction fd b = some old → d'.slot ≠ old.slot := fun old ho =>
      (h.held fd b old ho).slot_ne hheld hplace
    obtain ⟨hf, hs⟩ := hu.other _ hheld.slot_lt hne
    exact hheld.of_eq (hu.issued _ hheld.slot_lt) hf hs

theorem Updates.live (hu : Updates r r' fd b d) (h : r.Ok) {i : Nat} {k : FdHandle}
    (hi : r'.issued[i]? = some (k, i)) (hf : r'.flags[i]? = some false) :
    ∃ d', r'.direction k.fd k.isRead = some d' ∧ d'.slot = i := by
  have hlt' : i < r'.issued.length := (List.getElem?_eq_some_iff.mp hi).1
  by_cases hlt : i < r.issued.length
  · have hne : ∀ old, r.direction fd b = some old → i ≠ old.slot := by
      rintro old ho rfl
      exact (hu.old old ho).1 hf
    rw [hu.issued i hlt] at hi
    rw [(hu.other i hlt hne).1] at hf
    obtain ⟨d', hd', rfl⟩ := h.live i k hi hf
    have hplace : ¬(k.fd = fd ∧ k.isRead = b) := by
      rintro ⟨hfd, hb⟩
      rw [hfd, hb] at hd'
      exact hne d' hd' rfl
    exact ⟨d', by rw [hu.placed.direction, if_neg hplace, hd'], rfl⟩
  · obtain ⟨dnew, rfl, rfl⟩ := hu.fresh i (Nat.le_of_not_lt hlt) hlt'
    have hk : k = ⟨fd, b, dnew.slot⟩ := by
      have := (hu.new dnew rfl).1
      rw [hi] at this
      injection this with this
      exact congrArg Prod.fst this
    refine ⟨dnew, ?_, rfl⟩
    rw [hk, hu.placed.direction, if_pos ⟨rfl, rfl⟩]

theorem Updates.cleared (hu : Updates r r' fd b d) (h : r.Ok) {i : Nat} {s : FdSlotState α δ}
    (hs : r'.slots[i]? = some s) (hf : r'.flags[i]? ≠ some false) : s.cb = none := by
  have hlt' : i < r'.issued.length := by
    rw [hu.issued_length, ← hu.slots_length]
    exact (List.getElem?_eq_some_iff.mp hs).1
  by_cases hlt : i < r.issued.length
  · by_cases hold : ∃ old, r.direction fd b = some old ∧ i = old.slot
    · obtain ⟨old, ho, rfl⟩ := hold
      exact (hu.old old ho).2 s hs
    · have hne : ∀ old, r.direction fd b = some old → i ≠ old.slot := fun old ho heq =>
        hold ⟨old, ho, heq⟩
      obtain ⟨hfe, hse⟩ := hu.other i hlt hne
      rw [hfe] at hf
      rw [hse] at hs
      exact h.cleared i s hs hf
  · obtain ⟨dnew, hd, rfl⟩ := hu.fresh i (Nat.le_of_not_lt hlt) hlt'
    exact absurd (hu.new dnew hd).2.1 hf

theorem Updates.ok (hu : Updates r r' fd b d) (h : r.Ok) : r'.Ok := by
  refine ⟨hu.slots_length, hu.issued_length, hu.own, fun fd' b' d' hd' => hu.held h hd',
    fun i k hi hf => hu.live h hi hf, fun i s hs hf => hu.cleared h hs hf,
    fun fd' record hl => ?_, ?_⟩
  · by_cases hfd : fd' = fd
    · subst hfd
      exact hu.placed.nonempty record hl
    · rw [hu.placed.lookup_ne fd' hfd] at hl
      exact h.nonempty fd' record hl
  · have hreg := hu.placed.registered
    have hcount := hu.nWatchers
    rw [h.counted] at hcount
    omega

end Updates

theorem setDir_some_count (record : FdRecord) (b : Bool) (d : FdDirection) :
    (record.setDir b (some d)).count ≠ 0 := by
  cases b <;> simp [FdRecord.setDir, FdRecord.count]

/-- The flags and slots after the watcher that was in place, if any, has been
retired. -/
theorem retired_flags {r : Registry α δ} {fd : Int} {b : Bool} {old : FdDirection}
    (h : r.Held fd b old) : (r.retire old).flags = r.flags.set old.slot true := by
  obtain ⟨-, -, s, hs, harmed⟩ := h
  exact retire_flag_self hs harmed.flag

theorem retired_flag_ne {r : Registry α δ} {fd : Int} {b : Bool} {old : FdDirection} {i : Nat}
    (h : r.Held fd b old) (hi : i ≠ old.slot) : (r.retire old).flags[i]? = r.flags[i]? := by
  rw [retired_flags h, List.getElem?_set_ne (Ne.symm hi)]

theorem retired_flag_self {r : Registry α δ} {fd : Int} {b : Bool} {old : FdDirection}
    (h : r.Held fd b old) : (r.retire old).flags[old.slot]? ≠ some false := by
  rw [retired_flags h, List.getElem?_set_self']
  cases r.flags[old.slot]? <;> simp

theorem detachWatcher_of_none {r : Registry α δ} {fd : Int} {b : Bool}
    (h : r.direction fd b = none) : r.detachWatcher fd b = (false, r) := by
  unfold detachWatcher
  split
  · rfl
  · rename_i record hl
    rw [direction_of_lookup hl] at h
    rw [h]

theorem updates_detachWatcher {r : Registry α δ} (h : r.Ok) {fd : Int} {b : Bool}
    {old : FdDirection} (hd : r.direction fd b = some old) :
    Updates r (r.detachWatcher fd b).2 fd b none := by
  unfold detachWatcher
  split
  · rename_i hl
    rw [direction, hl, Option.bind_none] at hd
    cases hd
  · rename_i record hl
    have hdir : record.dir b = some old := by rw [← direction_of_lookup hl, hd]
    rw [hdir]
    have hentry : r.entry fd = record := by rw [entry, hl, Option.getD_some]
    have hheld := h.held fd b old hd
    have hp : Placed r { r.retire old with
        nWatchers := r.nWatchers - 1
        fds := if (record.setDir b none).reader = none ∧ (record.setDir b none).writer = none
          then r.fds.erase fd else r.fds.insert fd (record.setDir b none) } fd b none := by
      by_cases he : (record.setDir b none).reader = none ∧ (record.setDir b none).writer = none
      · refine placed_erase ?_ (if_pos he)
        rw [hentry]
        cases hr : record.setDir b none
        rw [hr] at he
        exact congrArg₂ FdRecord.mk he.1 he.2
      · refine placed_insert (by rw [hentry]; exact if_neg he) ?_
        rw [hentry]
        intro hc
        apply he
        unfold FdRecord.count at hc
        constructor
        · cases hr : (record.setDir b none).reader with
          | none => rfl
          | some _ => simp [hr] at hc
        · cases hr : (record.setDir b none).writer with
          | none => rfl
          | some _ => simp [hr] at hc
    refine ⟨hp, ?_, ?_, ?_, fun i _ => ?_, fun i _ hne => ?_, fun old' ho' => ?_,
      (fun _ hc => by cases hc), fun i hge hlt => ?_, ?_⟩
    · show (r.retire old).slots.length = (r.retire old).flags.length
      rw [retire_slots_length, retire_flags_length, h.slots_length]
    · show (r.retire old).issued.length = (r.retire old).flags.length
      rw [retire_issued, retire_flags_length, h.issued_length]
    · show ∀ (i : Nat) (k : FdHandle) (j : Nat), (r.retire old).issued[i]? = _ → _
      rw [retire_issued]
      exact h.own
    · show (r.retire old).issued[i]? = _
      rw [retire_issued]
    · exact ⟨retired_flag_ne hheld (hne old hd), retire_slot_ne r old (hne old hd)⟩
    · rw [hd] at ho'
      injection ho' with ho'
      subst ho'
      exact ⟨retired_flag_self hheld, fun s hs => retire_slot_self hs⟩
    · have hlen : (r.retire old).issued.length = r.issued.length := by rw [retire_issued]
      exact absurd (show i < (r.retire old).issued.length from hlt) (by omega)
    · rw [hd]
      show r.nWatchers - 1 + ((1 : Nat) : Int) = r.nWatchers + ((0 : Nat) : Int)
      omega

theorem detachWatcher_ok {r : Registry α δ} (h : r.Ok) (fd : Int) (b : Bool) :
    (r.detachWatcher fd b).2.Ok := by
  cases hd : r.direction fd b with
  | none =>
      rw [detachWatcher_of_none hd]
      exact h
  | some old => exact (updates_detachWatcher h hd).ok h

theorem install_slots_length (r : Registry α δ) (fd : Int) (b : Bool) (d : FdDirection) :
    (r.install fd b d).slots.length = r.slots.length := by
  unfold install
  split
  · exact retire_slots_length r _
  · rfl

theorem install_flags_length (r : Registry α δ) (fd : Int) (b : Bool) (d : FdDirection) :
    (r.install fd b d).flags.length = r.flags.length := by
  unfold install
  split
  · exact retire_flags_length r _
  · rfl

theorem install_fds (r : Registry α δ) (fd : Int) (b : Bool) (d : FdDirection) :
    (r.install fd b d).fds = r.fds.insert fd ((r.entry fd).setDir b (some d)) := rfl

/-- Only the watcher that was in place is affected. -/
theorem install_ne (r : Registry α δ) (fd : Int) (b : Bool) (d : FdDirection) {i : Nat}
    (h : ∀ old, r.direction fd b = some old → i ≠ old.slot ∧ r.Held fd b old) :
    (r.install fd b d).flags[i]? = r.flags[i]? ∧ (r.install fd b d).slots[i]? = r.slots[i]? := by
  unfold install
  split
  · rename_i old hd
    obtain ⟨hne, hheld⟩ := h old hd
    exact ⟨retired_flag_ne hheld hne, retire_slot_ne r old hne⟩
  · exact ⟨rfl, rfl⟩

theorem install_old {r : Registry α δ} {fd : Int} {b : Bool} {old : FdDirection}
    (hd : r.direction fd b = some old) (h : r.Held fd b old) (d : FdDirection) :
    (r.install fd b d).flags[old.slot]? ≠ some false ∧
      ∀ s, (r.install fd b d).slots[old.slot]? = some s → s.cb = none := by
  unfold install
  rw [hd]
  exact ⟨retired_flag_self h, fun s hs => retire_slot_self hs⟩

theorem install_nWatchers (r : Registry α δ) (fd : Int) (b : Bool) (d : FdDirection) :
    (r.install fd b d).nWatchers + (r.direction fd b).toList.length = r.nWatchers + 1 := by
  unfold install
  split
  · rename_i old hd
    show (r.retire old).nWatchers + _ = _
    rw [retire_nWatchers, hd]
    rfl
  · rename_i hd
    rw [hd]
    show r.nWatchers + 1 + ((0 : Nat) : Int) = _
    omega

theorem Held.alloc {r : Registry α δ} (h : r.Ok) {fd : Int} {b : Bool} {d : FdDirection}
    (hd : r.Held fd b d) (slot : Nat → FdSlotState α δ) : (r.alloc slot).Held fd b d := by
  have hlt := hd.slot_lt
  refine hd.of_eq rfl (List.getElem?_append_left ?_) (List.getElem?_append_left ?_)
  · rw [← h.issued_length]
    exact hlt
  · rw [h.slots_length, ← h.issued_length]
    exact hlt

/-- The handle of a new registration names its flag and its slot. -/
theorem own_concat {r : Registry α δ} (h : r.Ok) (fd : Int) (b : Bool) {i : Nat} {k : FdHandle}
    {j : Nat} (hi : (r.issued ++ [(⟨fd, b, r.flags.length⟩, r.slots.length)])[i]? = some (k, j)) :
    k.flag = i ∧ j = i := by
  rcases Nat.lt_trichotomy i r.issued.length with hlt | heq | hgt
  · exact h.own i k j (by rwa [List.getElem?_append_left hlt] at hi)
  · subst heq
    simp only [List.getElem?_concat_length, Option.some.injEq, Prod.mk.injEq] at hi
    obtain ⟨rfl, rfl⟩ := hi
    exact ⟨h.issued_length.symm, by rw [h.slots_length, h.issued_length]⟩
  · have : r.issued.length + 1 ≤ i := hgt
    rw [List.getElem?_eq_none (by simpa using this)] at hi
    cases hi

theorem install_ok {r : Registry α δ} (h : r.Ok) (fd : Int) (b : Bool)
    (slot : Nat → FdSlotState α δ) (hslot : ∀ f, Armed (slot f) f) {d : FdDirection}
    (hd : d.slot = r.slots.length) :
    Ok { (r.alloc slot).install fd b d with
      issued := r.issued ++ [(⟨fd, b, r.flags.length⟩, r.slots.length)] } := by
  have hlen : r.slots.length = r.issued.length := by rw [h.slots_length, h.issued_length]
  have hflen : r.flags.length = r.issued.length := h.issued_length.symm
  have hheld : ∀ old, r.direction fd b = some old → (r.alloc slot).Held fd b old :=
    fun old ho => (h.held fd b old ho).alloc h slot
  have hplaced : Placed r { (r.alloc slot).install fd b d with
      issued := r.issued ++ [(⟨fd, b, r.flags.length⟩, r.slots.length)] } fd b (some d) :=
    placed_insert (install_fds (r.alloc slot) fd b d) (setDir_some_count _ _ _)
  refine Updates.ok ⟨hplaced, ?_, ?_, ?_, ?_, ?_, ?_, ?_, ?_, ?_⟩ h
  · show ((r.alloc slot).install fd b d).slots.length = ((r.alloc slot).install fd b d).flags.length
    rw [install_slots_length, install_flags_length]
    simp [alloc, h.slots_length]
  · show (r.issued ++ [_]).length = ((r.alloc slot).install fd b d).flags.length
    rw [install_flags_length]
    simp [alloc, h.issued_length]
  · intro i k j hi
    exact own_concat h fd b hi
  · intro i hi
    exact List.getElem?_append_left hi
  · intro i hi hne
    obtain ⟨hf, hs⟩ := install_ne (r.alloc slot) fd b d
      (fun old ho => ⟨hne old ho, hheld old ho⟩)
    constructor
    · show ((r.alloc slot).install fd b d).flags[i]? = _
      rw [hf]
      exact List.getElem?_append_left (by omega)
    · show ((r.alloc slot).install fd b d).slots[i]? = _
      rw [hs]
      exact List.getElem?_append_left (by omega)
  · intro old ho
    exact install_old (r := r.alloc slot) ho (hheld old ho) d
  · rintro dnew ⟨⟩
    have hne : ∀ old, (r.alloc slot).direction fd b = some old →
        d.slot ≠ old.slot ∧ (r.alloc slot).Held fd b old := by
      intro old ho
      have := (h.held fd b old ho).slot_lt
      exact ⟨by omega, hheld old ho⟩
    obtain ⟨hf, hs⟩ := install_ne (r.alloc slot) fd b d hne
    refine ⟨?_, ?_, slot d.slot, ?_, hslot _⟩
    · show (r.issued ++ [(⟨fd, b, r.flags.length⟩, r.slots.length)])[d.slot]? = _
      rw [hd, hlen, List.getElem?_concat_length, hflen]
    · show ((r.alloc slot).install fd b d).flags[d.slot]? = _
      rw [hf, hd, h.slots_length]
      exact List.getElem?_concat_length
    · show ((r.alloc slot).install fd b d).slots[d.slot]? = _
      rw [hs, hd]
      show (r.slots ++ [slot r.flags.length])[r.slots.length]? = _
      rw [List.getElem?_concat_length, h.slots_length]
  · intro i hge hlt
    have hlt' : i < (r.issued ++ [((⟨fd, b, r.flags.length⟩ : FdHandle), r.slots.length)]).length :=
      hlt
    rw [List.length_append, List.length_singleton] at hlt'
    exact ⟨d, rfl, by omega⟩
  · exact install_nWatchers (r.alloc slot) fd b d

theorem register_ok {r : Registry α δ} (h : r.Ok) (fd : Int) (b : Bool) (setup : Setup)
    (slot : Nat → FdSlotState α δ) (hslot : ∀ f, Armed (slot f) f) :
    (r.register fd b setup slot).2.Ok := by
  unfold register
  split
  · exact h
  · split
    · exact h
    · exact h
    · exact install_ok h fd b slot hslot rfl

/-- Cancelling a handle whose flag is clear detaches its own watcher. -/
theorem cancel_eq_detach {r : Registry α δ} (h : r.Ok) {k : FdHandle} {j : Nat}
    (hk : (k, j) ∈ r.issued) (hf : r.flags[k.flag]? = some false) :
    (r.cancel k).2 = (r.detachWatcher k.fd k.isRead).2 := by
  obtain ⟨i, hi⟩ := List.mem_iff_getElem?.mp hk
  obtain ⟨hflag, rfl⟩ := h.own i k j hi
  obtain ⟨d, hd, hslot⟩ := h.live j k hi (hflag ▸ hf)
  obtain ⟨-, -, s, hs, harmed⟩ := h.held _ _ d hd
  unfold cancel
  rw [if_pos hf]
  cases hl : r.fds.lookup k.fd with
  | none => simp [direction, hl] at hd
  | some record =>
      rw [direction_of_lookup hl] at hd
      -- The detach sets the flag that the swap has already set.
      have hretire : ({ r with flags := r.flags.set k.flag true }.retire d).flags =
          (r.retire d).flags := by
        rw [retire_flag_self (r := { r with flags := r.flags.set k.flag true }) hs harmed.flag,
          retire_flag_self hs harmed.flag, hslot, hflag]
        exact List.set_set _
      have hrest : { r with flags := r.flags.set k.flag true }.retire d =
          { r.retire d with
            flags := ({ r with flags := r.flags.set k.flag true }.retire d).flags } := by
        unfold retire
        rw [hs]
      unfold detachWatcher
      simp only [hl, hd]
      rw [hrest, hretire]

theorem cancel_ok {r : Registry α δ} (h : r.Ok) {k : FdHandle} {j : Nat}
    (hk : (k, j) ∈ r.issued) : (r.cancel k).2.Ok := by
  by_cases hf : r.flags[k.flag]? = some false
  · rw [cancel_eq_detach h hk hf]
    exact detachWatcher_ok h k.fd k.isRead
  · unfold cancel
    rw [if_neg hf]
    exact h

theorem direction_mem_directions {r : Registry α δ} {fd : Int} {b : Bool} {d : FdDirection}
    (h : r.direction fd b = some d) : d ∈ r.directions := by
  unfold direction at h
  obtain ⟨record, hl, hd⟩ := Option.bind_eq_some_iff.mp h
  refine List.mem_flatMap.mpr ⟨⟨fd, record⟩, AList.mem_lookup_iff.mp hl, ?_⟩
  cases b
  · exact List.mem_append_right _ (Option.mem_toList.mpr hd)
  · exact List.mem_append_left _ (Option.mem_toList.mpr hd)

/-- What retiring a whole list of watchers leaves alone. -/
theorem foldl_retire_frame (ds : List FdDirection) (r : Registry α δ) :
    (ds.foldl retire r).slots.length = r.slots.length ∧
      (ds.foldl retire r).flags.length = r.flags.length ∧
      (ds.foldl retire r).issued = r.issued := by
  induction ds generalizing r with
  | nil => exact ⟨rfl, rfl, rfl⟩
  | cons d ds ih =>
      obtain ⟨hs, hf, hi⟩ := ih (r.retire d)
      rw [List.foldl_cons]
      exact ⟨hs.trans (retire_slots_length r d), hf.trans (retire_flags_length r d),
        hi.trans (retire_issued r d)⟩

/-- A slot without a callback does not get one back. -/
theorem cb_of_retire {r : Registry α δ} {old : FdDirection} {i : Nat} {s s' : FdSlotState α δ}
    (hs : r.slots[i]? = some s) (hs' : (r.retire old).slots[i]? = some s') :
    s'.cb = s.cb ∨ s'.cb = none := by
  by_cases hi : i = old.slot
  · subst hi
    exact Or.inr (retire_slot_self hs')
  · rw [retire_slot_ne r old hi, hs] at hs'
    injection hs' with hs'
    exact Or.inl (hs' ▸ rfl)

theorem cb_of_foldl_retire {ds : List FdDirection} {r : Registry α δ} {i : Nat}
    {s s' : FdSlotState α δ} (hs : r.slots[i]? = some s)
    (hs' : (ds.foldl retire r).slots[i]? = some s') : s'.cb = s.cb ∨ s'.cb = none := by
  induction ds generalizing r s with
  | nil =>
      rw [List.foldl_nil, hs] at hs'
      injection hs' with hs'
      exact Or.inl (hs' ▸ rfl)
  | cons d ds ih =>
      have hlt : i < (r.retire d).slots.length := by
        rw [retire_slots_length]
        exact (List.getElem?_eq_some_iff.mp hs).1
      have hmid := List.getElem?_eq_getElem hlt
      rcases ih hmid hs' with h | h
      · rw [h]
        exact cb_of_retire hs hmid
      · exact Or.inr h

theorem foldl_retire_cb {ds : List FdDirection} {r : Registry α δ} {d : FdDirection}
    {s : FdSlotState α δ} (hd : d ∈ ds) (hs : (ds.foldl retire r).slots[d.slot]? = some s) :
    s.cb = none := by
  induction ds generalizing r with
  | nil => cases hd
  | cons d₀ ds ih =>
      rw [List.foldl_cons] at hs
      rcases List.mem_cons.mp hd with rfl | hmem
      · have hlt : d.slot < (r.retire d).slots.length := by
          rw [← (foldl_retire_frame ds (r.retire d)).1]
          exact (List.getElem?_eq_some_iff.mp hs).1
        have hmid := List.getElem?_eq_getElem hlt
        rcases cb_of_foldl_retire hmid hs with h | h
        · rw [h]
          exact retire_slot_self hmid
        · exact h
      · exact ih hmem hs

theorem flag_of_foldl_retire {ds : List FdDirection} {r : Registry α δ} {i : Nat}
    (h : (ds.foldl retire r).flags[i]? = some false) : r.flags[i]? = some false := by
  induction ds generalizing r with
  | nil => exact h
  | cons d ds ih => exact flag_of_retire (ih h)

/-- Every watcher of the list has had its flag set. -/
theorem foldl_retire_flag {ds : List FdDirection} {r : Registry α δ} {d : FdDirection}
    {s : FdSlotState α δ} {f : Nat} (hd : d ∈ ds) (hs : r.slots[d.slot]? = some s)
    (hf : s.flag = some f) : (ds.foldl retire r).flags[f]? ≠ some false := by
  induction ds generalizing r with
  | nil => cases hd
  | cons d₀ ds ih =>
      rw [List.foldl_cons]
      by_cases hslot : d.slot = d₀.slot
      · intro hc
        have hset := flag_of_foldl_retire hc
        rw [retire_flag_self (hslot ▸ hs) hf, List.getElem?_set_self'] at hset
        cases hl : r.flags[f]? <;> simp [hl] at hset
      · have hmem : d ∈ ds := by
          rcases List.mem_cons.mp hd with rfl | hmem
          · exact absurd rfl hslot
          · exact hmem
        exact ih hmem (by rw [retire_slot_ne r d₀ hslot, hs])

/-- A flag that is clear belongs to a watcher that is registered. -/
theorem Ok.registered_of_clear {r : Registry α δ} (h : r.Ok) {i : Nat}
    (hf : r.flags[i]? = some false) :
    ∃ fd b d, r.direction fd b = some d ∧ d.slot = i := by
  have hlt : i < r.issued.length := by
    rw [h.issued_length]
    exact (List.getElem?_eq_some_iff.mp hf).1
  have hi := List.getElem?_eq_getElem hlt
  have hj := (h.own i _ _ hi).2
  rw [show r.issued[i] = (r.issued[i].1, i) from Prod.ext rfl hj] at hi
  obtain ⟨d, hd, hslot⟩ := h.live i _ hi hf
  exact ⟨_, _, d, hd, hslot⟩

theorem abortAll_ok {r : Registry α δ} (h : r.Ok) : r.abortAll.Ok := by
  obtain ⟨hs, hf, hi⟩ := foldl_retire_frame r.directions r
  -- A flag still clear was clear before, so its watcher was registered.
  have hset : ∀ i : Nat, r.abortAll.flags[i]? ≠ some false := by
    intro i hlive
    obtain ⟨fd, b, d, hd, rfl⟩ := h.registered_of_clear (flag_of_foldl_retire hlive)
    obtain ⟨-, -, s, hs, harmed⟩ := h.held _ _ d hd
    exact foldl_retire_flag (direction_mem_directions hd) hs harmed.flag hlive
  refine ⟨?_, ?_, ?_, fun fd b d hd => ?_, fun i k hk hlive => absurd hlive (hset i),
    fun i s hsi _ => ?_, fun fd record hl => ?_, rfl⟩
  · exact hs.trans (h.slots_length.trans hf.symm)
  · exact (congrArg List.length hi).trans (h.issued_length.trans hf.symm)
  · intro i k j hk
    exact h.own i k j (hi ▸ hk)
  · simp [direction, abortAll] at hd
  · have hlt : i < r.slots.length := by
      rw [← hs]
      exact (List.getElem?_eq_some_iff.mp hsi).1
    have hmid := List.getElem?_eq_getElem hlt
    by_cases hlive : r.flags[i]? = some false
    · obtain ⟨fd, b, d, hd, rfl⟩ := h.registered_of_clear hlive
      exact foldl_retire_cb (direction_mem_directions hd) hsi
    · rcases cb_of_foldl_retire hmid hsi with hcb | hcb
      · rw [hcb]
        exact h.cleared i _ hmid hlive
      · exact hcb
  · simp [abortAll] at hl

theorem empty_ok : (empty : Registry α δ).Ok := by
  refine ⟨rfl, rfl, fun i h j hi => ?_, fun fd b d hd => ?_, fun i h hi => ?_,
    fun i s hs => ?_, fun fd record hl => ?_, rfl⟩
  · simp [empty] at hi
  · simp [direction, empty] at hd
  · simp [empty] at hi
  · simp [empty] at hs
  · simp [empty] at hl

theorem step_ok {r r' : Registry α δ} {op : Op α δ} (h : r.Ok) (hs : r.step op = some r') :
    r'.Ok := by
  cases op with
  | addWatcher fd isRead cb setup =>
      cases hs
      exact register_ok h _ _ _ _ fun f => ⟨rfl, rfl, rfl⟩
  | addDrainWatcher fd drain drainErr setup =>
      cases hs
      exact register_ok h _ _ _ _ fun f => ⟨rfl, rfl, rfl⟩
  | detachWatcher fd isRead =>
      cases hs
      exact detachWatcher_ok h fd isRead
  | cancel i =>
      simp only [step, Option.map_eq_some_iff] at hs
      obtain ⟨⟨k, j⟩, hk, rfl⟩ := hs
      exact cancel_ok h (List.mem_of_getElem? hk)
  | abortAll =>
      cases hs
      exact abortAll_ok h

theorem ok_of_reach {r : Registry α δ} (h : Reach r) : r.Ok :=
  Kit.Runs.invariant (fun _ hr => hr ▸ empty_ok) (fun _ _ _ h _ hs => step_ok h hs) h

/-! ### What the invariant says -/

theorem flag_clear_iff {r : Registry α δ} (h : r.Ok) {k : FdHandle} {j : Nat}
    (hk : (k, j) ∈ r.issued) :
    r.flags[k.flag]? = some false ↔ ∃ d, r.direction k.fd k.isRead = some d ∧ d.slot = j := by
  obtain ⟨i, hi⟩ := List.mem_iff_getElem?.mp hk
  obtain ⟨hflag, rfl⟩ := h.own i k j hi
  constructor
  · intro hf
    exact h.live j k hi (hflag ▸ hf)
  · rintro ⟨d, hd, rfl⟩
    rw [hflag]
    exact (h.held _ _ d hd).2.1

theorem isPolling_iff {r : Registry α δ} (h : r.Ok) (fd : Int) (b : Bool) :
    r.isPolling fd b = (r.direction fd b).isSome := by
  unfold isPolling
  cases hd : r.direction fd b with
  | none => rfl
  | some d =>
      obtain ⟨-, -, s, hs, harmed⟩ := h.held fd b d hd
      have hmode := harmed.mode
      cases hdrain : s.drain <;> simp_all [harmed.alive]

/-- A registration fails: negative descriptor, `dup` or `AsyncFd` error. -/
def fails (fd : Int) (setup : Setup) : Prop :=
  fd < 0 ∨ setup.dup ≠ none ∨ setup.asyncFd ≠ none

instance (fd : Int) (setup : Setup) : Decidable (fails fd setup) :=
  inferInstanceAs (Decidable (_ ∨ _ ∨ _))

/-- A registration that fails has touched nothing. -/
theorem register_fails (r : Registry α δ) (fd : Int) (b : Bool) (setup : Setup)
    (slot : Nat → FdSlotState α δ) :
    if fails fd setup then ∃ e, r.register fd b setup slot = (.error e, r)
    else ∃ k, (r.register fd b setup slot).1 = .ok k := by
  by_cases hfd : fd < 0
  · have hfails : fails fd setup := Or.inl hfd
    rw [if_pos hfails, register, if_pos hfd]
    exact ⟨_, rfl⟩
  · cases hdup : setup.dup with
    | some e =>
        have hfails : fails fd setup := Or.inr (Or.inl (by simp [hdup]))
        simp only [if_pos hfails, register, if_neg hfd, hdup]
        exact ⟨_, rfl⟩
    | none =>
        cases hafd : setup.asyncFd with
        | some e =>
            have hfails : fails fd setup := Or.inr (Or.inr (by simp [hafd]))
            simp only [if_pos hfails, register, if_neg hfd, hdup, hafd]
            exact ⟨_, rfl⟩
        | none =>
            have hfails : ¬fails fd setup := by simp [fails, hfd, hdup, hafd]
            simp only [if_neg hfails, register, if_neg hfd, hdup, hafd]
            exact ⟨_, rfl⟩

/-- The representation invariant of the registry, in the terms of the source. -/
structure Represents (r : Registry α δ) : Prop where
  counted : r.nWatchers = r.registered ∧ 0 ≤ r.nWatchers
  no_empty_record : ∀ fd record, r.fds.lookup fd = some record →
    record.reader ≠ none ∨ record.writer ≠ none
  slot : ∀ fd isRead d, r.direction fd isRead = some d → ∃ s f, r.slots[d.slot]? = some s ∧
    s.dead = false ∧ s.flag = some f ∧ r.flags[f]? = some false ∧
    (s.cb ≠ none ∧ s.drain = none ∨ s.cb = none ∧ s.drain ≠ none)
  handle : ∀ k slot, (k, slot) ∈ r.issued →
    (r.flags[k.flag]? = some false ↔
      ∃ d, r.direction k.fd k.isRead = some d ∧ d.slot = slot)
  -- Cancelling a handle whose own watcher is gone changes nothing.
  stale : ∀ k slot, (k, slot) ∈ r.issued →
    (¬∃ d, r.direction k.fd k.isRead = some d ∧ d.slot = slot) → r.cancel k = (false, r)
  polling : ∀ fd isRead, r.isPolling fd isRead = true ↔ r.direction fd isRead ≠ none
  failed_add : ∀ fd isRead cb setup, if fails fd setup
    then ∃ e, r.addWatcher fd isRead cb setup = (.error e, r)
    else ∃ k, (r.addWatcher fd isRead cb setup).1 = .ok k
  failed_add_drain : ∀ fd drain drainErr setup, if fails fd setup
    then ∃ e, r.addDrainWatcher fd drain drainErr setup = (.error e, r)
    else ∃ k, (r.addDrainWatcher fd drain drainErr setup).1 = .ok k

theorem represents_of_reach {r : Registry α δ} (h : Reach r) : Represents r := by
  have hok := ok_of_reach h
  refine ⟨⟨hok.counted, ?_⟩, fun fd record hl => ?_, fun fd b d hd => ?_,
    fun k slot hk => flag_clear_iff hok hk, fun k slot hk hgone => ?_, fun fd b => ?_,
    fun fd b _ setup => register_fails r fd b setup _,
    fun fd _ _ setup => register_fails r fd true setup _⟩
  · rw [hok.counted]
    exact Int.natCast_nonneg _
  · have hc := hok.nonempty fd record hl
    by_contra hnone
    obtain ⟨hr, hw⟩ := not_or.mp hnone
    exact hc (by simp [FdRecord.count, not_not.mp hr, not_not.mp hw])
  · obtain ⟨-, hf, s, hs, harmed⟩ := hok.held fd b d hd
    refine ⟨s, d.slot, hs, harmed.alive, harmed.flag, hf, ?_⟩
    have hmode := harmed.mode
    cases hdrain : s.drain with
    | none => exact Or.inl ⟨fun hc => by simp [hc, hdrain] at hmode, rfl⟩
    | some x => exact Or.inr ⟨by simpa [hdrain] using hmode, by simp⟩
  · rw [← flag_clear_iff hok hk] at hgone
    rw [cancel, if_neg hgone]
  · rw [isPolling_iff hok, Option.isSome_iff_ne_none]

/-- A reader on 5 replaced by a drain watcher, a writer beside it, and a
failed registration: the replaced handle is stale. -/
theorem represents_of_replaced : ∃ r : Registry Nat Nat, Reach r ∧ r.nWatchers = 2 ∧
    r.flags = [true, false, false] ∧ Represents r := by
  have hstart : Reach (empty : Registry Nat Nat) := .start rfl
  have h : ∃ r : Registry Nat Nat, Reach r ∧ r.nWatchers = 2 ∧ r.flags = [true, false, false] :=
    ⟨_, hstart.of_replay
      [.addWatcher 5 true 1 ⟨none, none⟩, .addDrainWatcher 5 7 8 ⟨none, none⟩,
        .addWatcher 5 false 2 ⟨none, none⟩, .cancel 0, .addWatcher (-1) true 3 ⟨none, none⟩] rfl,
      rfl, rfl⟩
  obtain ⟨r, hr, hn, hf⟩ := h
  exact ⟨r, hr, hn, hf, represents_of_reach hr⟩

end Registry

end Tokioop.Fd
