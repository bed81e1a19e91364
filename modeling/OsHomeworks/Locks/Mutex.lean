import Mathlib

/-!
# `Locks.Mutex` — the blocking mutex of `pa3.c`

`struct mutex` is a counter `key` with a wait queue, guarded by a spinlock. `acquire_mutex`
decrements `key` and sleeps on the queue when the result is negative; `release_mutex` increments it
and, when the result is not positive, wakes the first waiter with `SIGINT`. Both run their
bookkeeping with the spinlock held, so each is one atomic step here (`acquireMutex`,
`releaseMutex`); the sleep itself (`sigwaitinfo`) is a separate step of the waiter, taken in
`Locks.Machine`.

`key` is an `int`. C leaves a signed overflow undefined, so `--mutex->key` below `INT_MIN` and
`++mutex->key` above `INT_MAX` end the run: `acquireMutex` and `releaseMutex` return `none` there
(compiled with wrap-around, the key of `release_mutex` from `INT_MAX` becomes `INT_MIN`).
`release_mutex` also takes `list_first_entry` of the queue without checking that it is non-empty;
`releaseMutex` returns `none` there too.
-/

namespace OsHomeworks
namespace Locks

/-- `INT_MIN`. -/
def intMin : Int := -2147483648

/-- `INT_MAX`. -/
def intMax : Int := 2147483647

/-- `struct mutex`: `key`, and the waiting threads in queue order. A queue entry is a
    `struct thread` on its waiter's stack, named here by the thread. -/
structure Mutex (τ : Type) where
  key : Int
  waitqueue : List τ

variable {τ : Type}

/-- `init_mutex`. -/
def initMutex : Mutex τ := ⟨1, []⟩

/-- The spinlock-held part of `acquire_mutex` (lines 141–156) for thread `t`: the new mutex, and
    whether `t` goes to sleep on it; `none` where `--key` overflows. -/
def acquireMutex (t : τ) (m : Mutex τ) : Option (Mutex τ × Bool) :=
  if m.key - 1 < intMin then none
  else if 0 ≤ m.key - 1 then some (⟨m.key - 1, m.waitqueue⟩, false)
  else some (⟨m.key - 1, m.waitqueue ++ [t]⟩, true)

/-- The spinlock-held part of `release_mutex` (lines 175–183): the new mutex and the thread it
    signals, if any; `none` where `++key` overflows, and where `list_first_entry` would read an
    empty wait queue. -/
def releaseMutex (m : Mutex τ) : Option (Mutex τ × Option τ) :=
  if intMax < m.key + 1 then none
  else if 0 < m.key + 1 then some (⟨m.key + 1, m.waitqueue⟩, none)
  else match m.waitqueue with
    | [] => none
    | t :: rest => some (⟨m.key + 1, rest⟩, some t)

/-- **What `acquire_mutex` can do.** The key drops by one within `int`; the thread goes on if it
    stays non-negative, and joins the tail of the queue to sleep otherwise. -/
theorem acquireMutex_cases {t : τ} {m m' : Mutex τ} {b : Bool}
    (h : acquireMutex t m = some (m', b)) : intMin ≤ m.key - 1 ∧
    ((0 ≤ m.key - 1 ∧ m' = ⟨m.key - 1, m.waitqueue⟩ ∧ b = false) ∨
      (m.key - 1 < 0 ∧ m' = ⟨m.key - 1, m.waitqueue ++ [t]⟩ ∧ b = true)) := by
  unfold acquireMutex at h
  split at h
  · cases h
  · split at h <;> cases h
    · exact ⟨by omega, .inl ⟨‹_›, rfl, rfl⟩⟩
    · exact ⟨by omega, .inr ⟨by omega, rfl, rfl⟩⟩

theorem acquireMutex_of_pass {t : τ} {m : Mutex τ} (hk : intMin ≤ m.key - 1) (h : 0 ≤ m.key - 1) :
    acquireMutex t m = some (⟨m.key - 1, m.waitqueue⟩, false) := by
  rw [acquireMutex, if_neg (not_lt.mpr hk), if_pos h]

theorem acquireMutex_of_sleep {t : τ} {m : Mutex τ} (hk : intMin ≤ m.key - 1)
    (h : ¬ 0 ≤ m.key - 1) : acquireMutex t m = some (⟨m.key - 1, m.waitqueue ++ [t]⟩, true) := by
  rw [acquireMutex, if_neg (not_lt.mpr hk), if_neg h]

/-- **What `release_mutex` can do.** Within `int`, either the key becomes positive and nobody is
    woken, or the first waiter leaves the queue and is woken. -/
theorem releaseMutex_cases {m m' : Mutex τ} {w : Option τ} (h : releaseMutex m = some (m', w)) :
    m.key + 1 ≤ intMax ∧
    ((0 < m.key + 1 ∧ m' = ⟨m.key + 1, m.waitqueue⟩ ∧ w = none) ∨
      (¬ 0 < m.key + 1 ∧ ∃ u rest, m.waitqueue = u :: rest ∧ m' = ⟨m.key + 1, rest⟩ ∧
        w = some u)) := by
  unfold releaseMutex at h
  split at h
  · cases h
  · refine ⟨by omega, ?_⟩
    split at h
    · cases h; exact .inl ⟨‹_›, rfl, rfl⟩
    · split at h
      · cases h
      · cases h; exact .inr ⟨‹_›, _, _, ‹_›, rfl, rfl⟩

theorem releaseMutex_of_pass {m : Mutex τ} (hk : m.key + 1 ≤ intMax) (h : 0 < m.key + 1) :
    releaseMutex m = some (⟨m.key + 1, m.waitqueue⟩, none) := by
  rw [releaseMutex, if_neg (not_lt.mpr hk), if_pos h]

theorem releaseMutex_of_wake {m : Mutex τ} {u : τ} {rest : List τ} (hk : m.key + 1 ≤ intMax)
    (h : ¬ 0 < m.key + 1) (hq : m.waitqueue = u :: rest) :
    releaseMutex m = some (⟨m.key + 1, rest⟩, some u) := by
  rw [releaseMutex, if_neg (not_lt.mpr hk), if_neg h, hq]

/-- `release_mutex` is undefined exactly when `++key` overflows, or when the key stays
    non-positive and no thread waits. -/
theorem releaseMutex_eq_none {m : Mutex τ} :
    releaseMutex m = none ↔ intMax < m.key + 1 ∨ (¬ 0 < m.key + 1 ∧ m.waitqueue = []) := by
  unfold releaseMutex
  split
  · simp [*]
  · split
    · simp [*]
    · split <;> simp [*]

end Locks
end OsHomeworks
