import Mathlib.Data.Bool.Basic
import Mathlib.Data.List.Basic
import Mathlib.Tactic.Common

/-!
A cell through which tasks are notified one at a time.

`notifyOne` hands a notification to the task that has waited longest. When
nobody waits it stores a permit, which the next task that asks takes without
waiting; there is never more than one permit. A task that has been handed a
notification has it until it is polled, and passes it on if it gives up
before that.
-/

namespace Tokioop.Kit

universe u

/-- `handed` are the tasks that have been notified and not polled since. A
permit is not kept back from a task that waits. -/
structure Notify (ι : Type u) where
  permit : Bool
  waiting : List ι
  handed : List ι
  exclusive : permit = true → waiting = []

namespace Notify

variable {ι : Type u}

def new : Notify ι :=
  { permit := false, waiting := [], handed := [], exclusive := fun _ => rfl }

def notifyOne (n : Notify ι) : Notify ι :=
  match n.waiting with
  | [] => { permit := true, waiting := [], handed := n.handed, exclusive := fun _ => rfl }
  | i :: rest =>
      { permit := false, waiting := rest, handed := n.handed ++ [i], exclusive := nofun }

/-- The notifications that nobody has consumed. -/
def held (n : Notify ι) : Nat := n.permit.toNat + n.handed.length

@[simp] theorem held_new : (new : Notify ι).held = 0 := rfl

theorem held_notifyOne_le (n : Notify ι) : n.notifyOne.held ≤ n.held + 1 := by
  unfold notifyOne
  split
  · have := Bool.toNat_le n.permit
    simp only [held, Bool.toNat_true]
    omega
  · simp only [held, Bool.toNat_false, List.length_append, List.length_singleton]
    omega

/-- A notification is lost only on a permit that is there already. -/
theorem held_notifyOne {n : Notify ι} (h : n.permit = false) : n.notifyOne.held = n.held + 1 := by
  unfold notifyOne
  split
  · simp only [held, h, Bool.toNat_true, Bool.toNat_false]
    omega
  · simp only [held, h, Bool.toNat_false, List.length_append, List.length_singleton]
    omega

theorem permit_of_held {n : Notify ι} (h : n.held = 0) : n.permit = false := by
  cases hp : n.permit with
  | false => rfl
  | true =>
      simp only [held, hp, Bool.toNat_true] at h
      omega

variable [DecidableEq ι]

/-- The task is polled, and whether it has been notified. The first poll makes
it wait, unless it finds a permit. -/
def poll (n : Notify ι) (i : ι) : Bool × Notify ι :=
  if i ∈ n.handed then (true, { n with handed := n.handed.erase i })
  else if i ∈ n.waiting then (false, n)
  else if hp : n.permit then
    (true, { permit := false, waiting := n.waiting, handed := n.handed, exclusive := nofun })
  else
    (false, { n with waiting := n.waiting ++ [i], exclusive := fun h => absurd h hp })

/-- The task gives up. -/
def leave (n : Notify ι) (i : ι) : Notify ι :=
  if i ∈ n.handed then { n with handed := n.handed.erase i }.notifyOne
  else
    { n with
      waiting := n.waiting.erase i
      exclusive := fun h => by rw [n.exclusive h]; rfl }

/-- A task goes on for one notification, and waiting costs none. -/
theorem held_poll (n : Notify ι) (i : ι) : (n.poll i).2.held + (n.poll i).1.toNat = n.held := by
  unfold poll
  split
  · rename_i hi
    have hlength := List.length_erase_add_one hi
    simp only [held, Bool.toNat_true]
    omega
  split
  · rfl
  split
  · rename_i hp
    simp only [held, hp, Bool.toNat_true, Bool.toNat_false]
    omega
  · rfl

/-- No notification comes into being when a task gives up. -/
theorem held_leave_le (n : Notify ι) (i : ι) : (n.leave i).held ≤ n.held := by
  unfold leave
  split
  · rename_i hi
    have hlength := List.length_erase_add_one hi
    have hnotified := held_notifyOne_le { n with handed := n.handed.erase i }
    simp only [held] at hnotified ⊢
    omega
  · exact Nat.le_refl _

end Notify

end Tokioop.Kit
