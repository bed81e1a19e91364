import OsHomeworks.Locks.Machine

/-!
# `Locks.MutexInv` — the semaphore invariant of the blocking mutex

For threads running any code, from mutexes whose keys start at `k m ≥ 0` with empty queues, every
reachable state keeps `MutexInv`, for each mutex `m`:

* the wait queue holds each thread at most once, and exactly the threads asleep in
  `acquire_mutex(&m)` (`SleepsOn`);
* its length is `max 0 (-key)`;
* the ledger `key + length + woken = k - passed + released`, where `woken` counts the threads
  signalled but not yet returned.

Hence `release_mutex`, unless its `++key` overflows, never reads an empty queue and wakes a
sleeping thread, and the returns from `acquire_mutex` exceed the calls of `release_mutex` by at most
the initial key (`mutex_semaphore`). A run is the run up to an overflow, which C leaves undefined.

Apart from the keys, the wait queue is first in, first out: `acquire_mutex` adds a sleeper at the
tail and `release_mutex` signals the head, so on every run the threads that went to sleep on a
mutex are those it signalled, in the same order, followed by its queue (`mutex_wakes_in_order`).
-/

namespace OsHomeworks
namespace Locks

variable {n : Nat} (code : Fin n → List Instr)

/-- Thread `t` sleeps in `acquire_mutex(&m)`: enqueued, not yet signalled. -/
def SleepsOn (s : Machine n) (m : Mx) (t : Fin n) : Prop :=
  (s.threads t).wait = .asleep ∧ (code t)[(s.threads t).pc]? = some (.acquire m)

/-- `1` for a thread signalled in `acquire_mutex(&m)` that has yet to return. -/
def wokenWeight (m : Mx) (t : Fin n) (th : Thread) : Int :=
  if th.wait = .signalled ∧ (code t)[th.pc]? = some (.acquire m) then 1 else 0

/-- The threads signalled in `acquire_mutex(&m)` that have yet to return. -/
def woken (s : Machine n) (m : Mx) : Int := tally (wokenWeight code m) s

/-- The invariant of mutex `m`, from initial key `k`. -/
structure MutexOk (k : Int) (s : Machine n) (m : Mx) : Prop where
  nodup : (s.mutexes m).waitqueue.Nodup
  mem_iff : ∀ t, t ∈ (s.mutexes m).waitqueue ↔ SleepsOn code s m t
  length_eq : ((s.mutexes m).waitqueue.length : Int) = max 0 (-(s.mutexes m).key)
  ledger : (s.mutexes m).key + (s.mutexes m).waitqueue.length + woken code s m =
    k - s.passed m + s.released m

/-- The invariant of the mutexes, from initial keys `k`: a thread that is not running waits in an
    `acquire_mutex`, and every mutex keeps `MutexOk`. -/
structure MutexInv (k : Mx → Int) (s : Machine n) : Prop where
  waits : ∀ t, (s.threads t).wait ≠ .running →
    ∃ m, (code t)[(s.threads t).pc]? = some (.acquire m)
  ok : ∀ m, MutexOk code (k m) s m

variable {code}

/-! ## Threads and tallies -/

theorem tally_update {w : Fin n → Thread → Int} {s s' : Machine n} {t : Fin n} {th : Thread}
    (h : s'.threads = Function.update s.threads t th) :
    tally w s' = tally w s - w t (s.threads t) + w t th := by
  have : s' = { s' with threads := Function.update s.threads t th } := by rw [← h]
  rw [this]
  exact tally_setThread w s t th

theorem wokenWeight_nonneg (m : Mx) (t : Fin n) (th : Thread) : 0 ≤ wokenWeight code m t th := by
  unfold wokenWeight; split <;> omega

theorem sleepsOn_of_update_ne {s s' : Machine n} {t u : Fin n} {th : Thread} {m : Mx}
    (h : s'.threads = Function.update s.threads t th) (hu : u ≠ t) :
    SleepsOn code s' m u ↔ SleepsOn code s m u := by
  simp [SleepsOn, h, Function.update_noteq hu]

/-- A mutex whose record and counters a step leaves alone, and whose sleeping and woken threads it
    leaves alone, keeps its invariant. -/
theorem MutexOk.frame {k : Int} {s s' : Machine n} {m : Mx} (h : MutexOk code k s m)
    (hm : s'.mutexes m = s.mutexes m) (hp : s'.passed m = s.passed m)
    (hr : s'.released m = s.released m) (hs : ∀ t, SleepsOn code s' m t ↔ SleepsOn code s m t)
    (hw : woken code s' m = woken code s m) : MutexOk code k s' m :=
  ⟨hm ▸ h.nodup, fun t => by rw [hm, hs]; exact h.mem_iff t, hm ▸ h.length_eq,
    by rw [hm, hp, hr, hw]; exact h.ledger⟩

/-- A step that moves the key of `m` between non-negative values, keeps its queue, sleepers and woken
    threads, and moves `passed` or `released` to match, keeps the invariant of `m`. -/
theorem MutexOk.of_same_queue {k : Int} {s s' : Machine n} {m : Mx} (h : MutexOk code k s m)
    (hq : (s'.mutexes m).waitqueue = (s.mutexes m).waitqueue)
    (hs : ∀ t, SleepsOn code s' m t ↔ SleepsOn code s m t) (hw : woken code s' m = woken code s m)
    (hk : 0 ≤ (s.mutexes m).key) (hk' : 0 ≤ (s'.mutexes m).key)
    (hled : (s'.mutexes m).key + s'.passed m - s'.released m =
      (s.mutexes m).key + s.passed m - s.released m) : MutexOk code k s' m := by
  have hl := h.length_eq
  have hd := h.ledger
  refine ⟨hq ▸ h.nodup, fun t => by rw [hq, hs]; exact h.mem_iff t, ?_, ?_⟩ <;> rw [hq]
  · omega
  · rw [hw]; omega

variable (code) in
/-- When only thread `t` changes and it does not start or stop sleeping on `m`, the sleepers of
    `m` do not change. -/
theorem sleepsOn_of_update {s s' : Machine n} {t : Fin n} {th : Thread} {m : Mx}
    (h : s'.threads = Function.update s.threads t th)
    (hsl : (th.wait = .asleep ∧ (code t)[th.pc]? = some (.acquire m)) ↔ SleepsOn code s m t)
    (u : Fin n) : SleepsOn code s' m u ↔ SleepsOn code s m u := by
  by_cases hu : u = t
  · subst hu; simp only [SleepsOn, h, Function.update_same] at hsl ⊢; exact hsl
  · exact sleepsOn_of_update_ne h hu

variable (code) in
/-- When only thread `t` changes and its standing on mutex `m` (asleep there, or signalled there)
    does not, the sleepers and the woken count of `m` do not change. -/
theorem frame_of_update {s s' : Machine n} {t : Fin n} {th : Thread} {m : Mx}
    (h : s'.threads = Function.update s.threads t th)
    (hsl : (th.wait = .asleep ∧ (code t)[th.pc]? = some (.acquire m)) ↔ SleepsOn code s m t)
    (hwk : wokenWeight code m t th = wokenWeight code m t (s.threads t)) :
    (∀ u, SleepsOn code s' m u ↔ SleepsOn code s m u) ∧ woken code s' m = woken code s m :=
  ⟨sleepsOn_of_update code h hsl, by rw [woken, tally_update h, hwk, woken]; ring⟩


theorem MutexInv.not_mem_of_running {k : Mx → Int} {s : Machine n} (h : MutexInv code k s)
    {t : Fin n} (hr : (s.threads t).wait = .running) (m : Mx) : t ∉ (s.mutexes m).waitqueue := by
  rw [(h.ok m).mem_iff]
  simp [SleepsOn, hr]

/-- A thread on the line `acquire_mutex(&m₀)` stands on no other mutex. -/
theorem standing_of_at_acquire {t : Fin n} (th : Thread) {m₀ m : Mx} (hm : m ≠ m₀)
    (hc : (code t)[th.pc]? = some (.acquire m₀)) :
    ¬ (th.wait = .asleep ∧ (code t)[th.pc]? = some (.acquire m)) ∧ wokenWeight code m t th = 0 := by
  have hne : (code t)[th.pc]? ≠ some (.acquire m) := by rw [hc]; simp [Ne.symm hm]
  exact ⟨fun h => hne h.2, by simp [wokenWeight, hne]⟩

/-- The other threads keep their wait states. -/
theorem waits_of_update {k : Mx → Int} {s s' : Machine n} {t : Fin n} (h : MutexInv code k s)
    (hth : s'.threads = Function.update s.threads t (s'.threads t))
    (ht : (s'.threads t).wait ≠ .running →
      ∃ m, (code t)[(s'.threads t).pc]? = some (.acquire m)) :
    ∀ u, (s'.threads u).wait ≠ .running → ∃ m, (code u)[(s'.threads u).pc]? = some (.acquire m) := by
  intro u hu
  by_cases hut : u = t
  · subst hut; exact ht hu
  · rw [hth, Function.update_noteq hut] at hu ⊢; exact h.waits u hu

/-- A step of a running thread that stays running and touches no mutex and no ghost counter. -/
theorem MutexInv.running_step {k : Mx → Int} {s s' : Machine n} {t : Fin n}
    (h : MutexInv code k s) (hr : (s.threads t).wait = .running)
    (hth : s'.threads = Function.update s.threads t (s'.threads t))
    (hr' : (s'.threads t).wait = .running) (hm : s'.mutexes = s.mutexes)
    (hp : s'.passed = s.passed) (hrel : s'.released = s.released) : MutexInv code k s' := by
  refine ⟨waits_of_update h hth fun h' => absurd hr' h', fun m => ?_⟩
  obtain ⟨hs, hw⟩ := frame_of_update code (m := m) hth (by simp [SleepsOn, hr, hr'])
    (by simp [wokenWeight, hr, hr'])
  exact (h.ok m).frame (by rw [hm]) (by rw [hp]) (by rw [hrel]) hs hw

theorem MutexInv.acquire {k : Mx → Int} {s : Machine n} {t : Fin n} {m₀ : Mx}
    {mx : Mutex (Fin n)} {b : Bool} (h : MutexInv code k s) (hat : At code s t (.acquire m₀))
    (ha : acquireMutex t (s.mutexes m₀) = some (mx, b)) :
    MutexInv code k (s.acquire t m₀ mx b) := by
  obtain ⟨hr, hc⟩ := hat
  have hq := h.not_mem_of_running hr m₀
  have ok₀ := h.ok m₀
  obtain ⟨-, ⟨hk, rfl, rfl⟩ | ⟨hk, rfl, rfl⟩⟩ := acquireMutex_cases ha
  · -- the key stays non-negative: the thread goes on
    simp only [Machine.acquire, Bool.false_eq_true, if_false]
    set s' : Machine n := { (s.setMutex m₀ ⟨(s.mutexes m₀).key - 1, (s.mutexes m₀).waitqueue⟩).next t
      with passed := Function.update s.passed m₀ (s.passed m₀ + 1) }
    have hth : s'.threads = Function.update s.threads t (s'.threads t) := by simp [s']
    have hr' : (s'.threads t).wait = .running := by simp [s']
    refine ⟨waits_of_update h hth fun h' => absurd hr' h', fun m => ?_⟩
    obtain ⟨hs, hw⟩ := frame_of_update code (m := m) hth (by simp [SleepsOn, hr, hr'])
      (by simp [wokenWeight, hr, hr'])
    by_cases hm : m = m₀
    · subst hm
      exact ok₀.of_same_queue (by simp [s']) hs hw (by omega) (by simp [s']; omega) (by simp [s'])
    · exact (h.ok m).frame (by simp [s', hm]) (by simp [s', hm]) rfl hs hw
  · -- the key goes negative: the thread sleeps on the queue
    simp only [Machine.acquire, if_true]
    set s' : Machine n := { (s.setMutex m₀ ⟨(s.mutexes m₀).key - 1,
      (s.mutexes m₀).waitqueue ++ [t]⟩).setThread t { s.threads t with wait := .asleep } with
      slept := Function.update s.slept m₀ (s.slept m₀ ++ [t]) }
    have hth : s'.threads = Function.update s.threads t (s'.threads t) := by simp [s']
    have hst : s'.threads t = { s.threads t with wait := .asleep } := by simp [s']
    refine ⟨waits_of_update h hth fun _ => ⟨m₀, by rw [hst]; exact hc⟩, fun m => ?_⟩
    by_cases hm : m = m₀
    · subst hm
      have hmx : s'.mutexes m = ⟨(s.mutexes m).key - 1, (s.mutexes m).waitqueue ++ [t]⟩ := by
        simp [s']
      have hwk : woken code s' m = woken code s m := by
        rw [woken, tally_update hth, woken, hst]; simp [wokenWeight, hr]
      have hl := ok₀.length_eq
      have hd := ok₀.ledger
      refine ⟨?_, fun u => ?_, ?_, ?_⟩
      · rw [hmx]
        exact ok₀.nodup.append (List.nodup_singleton t) (List.disjoint_singleton.mpr hq)
      · rw [hmx]
        by_cases hut : u = t
        · subst hut; simp [SleepsOn, hst, hc]
        · simp only [List.mem_append, List.mem_singleton, hut, or_false]
          rw [sleepsOn_of_update_ne hth hut]; exact ok₀.mem_iff u
      · rw [hmx]; simp only [List.length_append, List.length_singleton] at hl ⊢
        push_cast; omega
      · rw [hmx, hwk]
        simp only [List.length_append, List.length_singleton]
        simp only [s', Machine.setThread, Machine.setMutex]
        push_cast; omega
    · obtain ⟨hsl, hwk⟩ := standing_of_at_acquire (s'.threads t) hm (by rw [hst]; exact hc)
      obtain ⟨hsl₀, hwk₀⟩ := standing_of_at_acquire (s.threads t) hm hc
      obtain ⟨hs, hw⟩ := frame_of_update code (m := m) hth (iff_of_false hsl hsl₀) (by rw [hwk, hwk₀])
      exact (h.ok m).frame (by simp [s', hm]) rfl rfl hs hw

theorem MutexInv.resume {k : Mx → Int} {s : Machine n} {t : Fin n} {m₀ : Mx}
    (h : MutexInv code k s) (hs : (s.threads t).wait = .signalled)
    (hc : (code t)[(s.threads t).pc]? = some (.acquire m₀)) :
    MutexInv code k (s.resume t m₀) := by
  set s' := s.resume t m₀
  have hth : s'.threads = Function.update s.threads t (s'.threads t) := by simp [s', Machine.resume]
  have hr' : (s'.threads t).wait = .running := by simp [s', Machine.resume]
  refine ⟨waits_of_update h hth fun h' => absurd hr' h', fun m => ?_⟩
  have hsl := sleepsOn_of_update code (m := m) hth (by simp [SleepsOn, hs, hr'])
  by_cases hm : m = m₀
  · subst hm
    have ok₀ := h.ok m
    have hwk : woken code s' m = woken code s m - 1 := by
      rw [woken, tally_update hth, woken]; simp [wokenWeight, hs, hc, hr']
    have hd := ok₀.ledger
    refine ⟨ok₀.nodup, fun u => by rw [hsl]; exact ok₀.mem_iff u, ok₀.length_eq, ?_⟩
    rw [hwk]
    simp only [s', Machine.resume, Machine.next, Machine.setThread, Function.update_same]
    push_cast; omega
  · have hne : (code t)[(s.threads t).pc]? ≠ some (.acquire m) := by rw [hc]; simp [Ne.symm hm]
    obtain ⟨-, hw⟩ := frame_of_update code (m := m) hth (by simp [SleepsOn, hs, hr'])
      (by simp [wokenWeight, hne, hr'])
    exact (h.ok m).frame rfl (by simp [s', Machine.resume, hm]) rfl hsl hw

theorem MutexInv.release {k : Mx → Int} {s : Machine n} {t : Fin n} {m₀ : Mx}
    {mx : Mutex (Fin n)} {w : Option (Fin n)} (h : MutexInv code k s)
    (hat : At code s t (.release m₀)) (hrel : releaseMutex (s.mutexes m₀) = some (mx, w)) :
    MutexInv code k (s.release t m₀ mx w) := by
  obtain ⟨hr, hc⟩ := hat
  have ok₀ := h.ok m₀
  -- the releasing thread's own line, before any waiter is touched
  set s₁ : Machine n := { (s.setMutex m₀ mx).next t with
    released := Function.update s.released m₀ (s.released m₀ + 1) }
  have hth₁ : s₁.threads = Function.update s.threads t (s₁.threads t) := by simp [s₁]
  have hr₁ : (s₁.threads t).wait = .running := by simp [s₁]
  have fr₁ := fun m => frame_of_update code (m := m) hth₁ (by simp [SleepsOn, hr, hr₁])
    (by simp [wokenWeight, hr, hr₁])
  have hm₁ : ∀ m, m ≠ m₀ → s₁.mutexes m = s.mutexes m := fun m hm => by simp [s₁, hm]
  have hrel₁ : ∀ m, m ≠ m₀ → s₁.released m = s.released m := fun m hm => by simp [s₁, hm]
  have hmx₁ : s₁.mutexes m₀ = mx := by simp [s₁]
  have hled₁ : (s₁.released m₀ : Int) = s.released m₀ + 1 := by simp [s₁]
  rcases (releaseMutex_cases hrel).2 with ⟨hpos, rfl, rfl⟩ | ⟨hneg, u, rest, hq, rfl, rfl⟩
  · -- the key becomes positive: nobody waits, nobody is woken
    show MutexInv code k s₁
    refine ⟨waits_of_update h hth₁ fun h' => absurd hr₁ h', fun m => ?_⟩
    obtain ⟨hs, hw⟩ := fr₁ m
    by_cases hm : m = m₀
    · subst hm
      have hp : s₁.passed m = s.passed m := rfl
      refine ok₀.of_same_queue (by rw [hmx₁]) hs hw (by omega) (by rw [hmx₁]; dsimp only; omega) ?_
      rw [hmx₁, hled₁, hp]
      dsimp only
      omega
    · exact (h.ok m).frame (hm₁ m hm) rfl (hrel₁ m hm) hs hw
  · -- the first waiter `u` leaves the queue and is signalled
    have hu : SleepsOn code s m₀ u := (ok₀.mem_iff u).mp (by rw [hq]; exact List.mem_cons_self _ _)
    have hut : u ≠ t := fun e => by subst e; have h₁ := hu.1; rw [hr] at h₁; cases h₁
    set s' : Machine n := { s₁.setThread u { s₁.threads u with wait := .signalled } with
      woke := Function.update s.woke m₀ (s.woke m₀ ++ [u]) }
    show MutexInv code k s'
    have hth₁u : s₁.threads u = s.threads u := by rw [hth₁, Function.update_noteq hut]
    have hth' : s'.threads = Function.update s₁.threads u (s'.threads u) := by simp [s']
    have hu' : s'.threads u = { s.threads u with wait := .signalled } := by
      simp only [s', Machine.setThread, Function.update_same]; rw [hth₁u]
    refine ⟨fun v hv => ?_, fun m => ?_⟩
    · by_cases hvu : v = u
      · subst hvu; rw [hu']; exact ⟨m₀, hu.2⟩
      · rw [hth', Function.update_noteq hvu] at hv ⊢
        exact waits_of_update h hth₁ (fun h' => absurd hr₁ h') v hv
    obtain ⟨hs₁, hw₁⟩ := fr₁ m
    by_cases hm : m = m₀
    · subst hm
      have hwk : woken code s' m = woken code s m + 1 := by
        rw [woken, tally_update hth', ← woken, hw₁, hu', hth₁u]
        simp [wokenWeight, hu.1, hu.2]
      have hmx' : s'.mutexes m = ⟨(s.mutexes m).key + 1, rest⟩ := by simp [s', hmx₁]
      have hnd := ok₀.nodup
      have hl := ok₀.length_eq
      have hd := ok₀.ledger
      rw [hq] at hnd hl hd
      refine ⟨by rw [hmx']; exact hnd.of_cons, fun v => ?_, ?_, ?_⟩
      · rw [hmx']
        by_cases hvu : v = u
        · subst hvu
          simp only [List.nodup_cons] at hnd
          simp [SleepsOn, hu', hnd.1]
        · rw [sleepsOn_of_update_ne hth' hvu, hs₁, ← ok₀.mem_iff, hq]; simp [hvu]
      · rw [hmx']; simp only [List.length_cons] at hl ⊢; push_cast at hl; omega
      · rw [hmx', hwk]
        have hp : s'.passed m = s.passed m := rfl
        have hrl : (s'.released m : Int) = s.released m + 1 := hled₁
        rw [hp, hrl]
        simp only [List.length_cons] at hd ⊢
        push_cast at hd ⊢; omega
    · have ok₁ := (h.ok m).frame (hm₁ m hm) rfl (hrel₁ m hm) hs₁ hw₁
      have hne : (code u)[(s.threads u).pc]? ≠ some (.acquire m) := by rw [hu.2]; simp [Ne.symm hm]
      obtain ⟨hs, hw⟩ := frame_of_update code (m := m) hth'
        (by rw [SleepsOn, hth₁u, hu']; simp [hne])
        (by rw [hu', hth₁u]; simp [wokenWeight, hne])
      exact ok₁.frame (by simp [s']) rfl rfl hs hw

/-- **One step keeps the invariant of the mutexes.** -/
theorem MutexInv.step {k : Mx → Int} {s s' : Machine n} (h : MutexInv code k s)
    (hs : Step code s s') : MutexInv code k s' := by
  cases hs with
  | call t v hr _ => exact h.running_step hr (by simp [Machine.call]) (by simp [Machine.call]) rfl rfl rfl
  | acquire t m hat ha => exact h.acquire hat ha
  | resume t m hs hc => exact h.resume hs hc
  | release t m hat hr => exact h.release hat hr
  | store t hat =>
    exact h.running_step hat.1 (by simp [Machine.store]) (by simp [Machine.store]) rfl rfl rfl
  | advanceIn t hat =>
    exact h.running_step hat.1 (by simp [Machine.advanceIn]) (by simp [Machine.advanceIn]) rfl rfl rfl
  | load t hat =>
    exact h.running_step hat.1 (by simp [Machine.load]) (by simp [Machine.load, hat.1]) rfl rfl rfl
  | advanceOut t hat =>
    exact h.running_step hat.1 (by simp [Machine.advanceOut]) (by simp [Machine.advanceOut])
      rfl rfl rfl

/-- From non-negative keys, every thread between calls, the invariant holds. -/
theorem mutexInv_init {keys : Mx → Int} (hk : ∀ m, 0 ≤ keys m) (nr : Nat) (slots : Nat → Int) :
    MutexInv code keys (Machine.init code keys nr slots) := by
  refine ⟨fun t h => absurd rfl h, fun m => ⟨List.nodup_nil, fun t => ?_, ?_, ?_⟩⟩
  · simp [SleepsOn, Machine.init]
  · have := hk m; simp [Machine.init, this]
  · have : woken code (Machine.init code keys nr slots) m = 0 := by
      simp [woken, tally, wokenWeight, Machine.init]
    rw [this]; simp [Machine.init]

/-- **The invariant of the mutexes holds in every state of every run.** -/
theorem mutexInv_reachable {keys : Mx → Int} (hk : ∀ m, 0 ≤ keys m) {nr : Nat}
    {slots : Nat → Int} {s : Machine n} (h : Reachable code (Machine.init code keys nr slots) s) :
    MutexInv code keys s :=
  Reachable.induct code _ (mutexInv_init hk nr slots) (fun _ _ hi hs => hi.step hs) h

/-! ## Consequences -/

/-- Unless its `++key` overflows, `release_mutex` never reaches the empty-queue read, and the thread
    it signals sleeps on the mutex. -/
theorem MutexOk.releaseMutex_some {k : Int} {s : Machine n} {m : Mx} (h : MutexOk code k s m)
    (hk : (s.mutexes m).key + 1 ≤ intMax) :
    ∃ mx w, releaseMutex (s.mutexes m) = some (mx, w) ∧ ∀ u, w = some u → SleepsOn code s m u := by
  cases hr : releaseMutex (s.mutexes m) with
  | none =>
    obtain hk' | ⟨hk', hq⟩ := releaseMutex_eq_none.mp hr
    · omega
    have := h.length_eq
    rw [hq] at this
    simp only [List.length_nil, Nat.cast_zero] at this
    omega
  | some r =>
    obtain ⟨mx, w⟩ := r
    refine ⟨mx, w, rfl, fun u hu => ?_⟩
    subst hu
    rcases (releaseMutex_cases hr).2 with ⟨-, -, h'⟩ | ⟨-, v, rest, hq, -, hw⟩
    · cases h'
    · cases hw; exact (h.mem_iff _).mp (by rw [hq]; exact List.mem_cons_self _ _)

/-- The returns from `acquire_mutex(&m)` exceed the calls of `release_mutex(&m)` by at most the
    initial key. -/
theorem MutexOk.passed_sub_released_le {k : Int} {s : Machine n} {m : Mx} (h : MutexOk code k s m) :
    (s.passed m : Int) - s.released m ≤ k := by
  have hl := h.length_eq
  have hd := h.ledger
  have : 0 ≤ woken code s m := tally_nonneg (fun t th => wokenWeight_nonneg m t th) s
  omega

/-- The ghost logs of mutex `m` account for its queue: the threads that went to sleep on `m` are
    those signalled, then those still waiting. -/
def QueueLogged (s : Machine n) (m : Mx) : Prop :=
  s.slept m = s.woke m ++ (s.mutexes m).waitqueue

/-- `list_add_tail`: a thread that goes to sleep joins the log and the queue at the tail. -/
theorem queueLogged_acquire {s : Machine n} (h : ∀ m, QueueLogged s m) (t : Fin n) {m₀ : Mx}
    {mx : Mutex (Fin n)} {b : Bool} (ha : acquireMutex t (s.mutexes m₀) = some (mx, b)) (m : Mx) :
    QueueLogged (s.acquire t m₀ mx b) m := by
  unfold Machine.acquire
  by_cases hm : m = m₀
  · subst hm
    obtain ⟨-, ⟨-, rfl, rfl⟩ | ⟨-, rfl, rfl⟩⟩ := acquireMutex_cases ha
    · simpa [QueueLogged] using h m
    · simp [QueueLogged, show s.slept m = _ from h m]
  · split <;> simpa [QueueLogged, hm] using h m

/-- `list_first_entry`: the thread signalled leaves the head of the queue for the tail of the log. -/
theorem queueLogged_release {s : Machine n} (h : ∀ m, QueueLogged s m) (t : Fin n) {m₀ : Mx}
    {mx : Mutex (Fin n)} {w : Option (Fin n)} (hr : releaseMutex (s.mutexes m₀) = some (mx, w))
    (m : Mx) : QueueLogged (s.release t m₀ mx w) m := by
  by_cases hm : m = m₀
  · subst hm
    rcases (releaseMutex_cases hr).2 with ⟨-, rfl, rfl⟩ | ⟨-, u, rest, hq, rfl, rfl⟩
    · simpa [QueueLogged, Machine.release] using h m
    · simpa [QueueLogged, Machine.release, hq] using h m
  · unfold Machine.release; split <;> simpa [QueueLogged, hm] using h m

theorem QueueLogged.step {s s' : Machine n} (h : ∀ m, QueueLogged s m) (hs : Step code s s')
    (m : Mx) : QueueLogged s' m := by
  cases hs with
  | acquire t m₀ _ ha => exact queueLogged_acquire h t ha m
  | release t m₀ _ hr => exact queueLogged_release h t hr m
  | call | resume | store | advanceIn | load | advanceOut => exact h m

theorem queueLogged_reachable {keys : Mx → Int} {nr : Nat} {slots : Nat → Int} {s : Machine n}
    (h : Reachable code (Machine.init code keys nr slots) s) (m : Mx) : QueueLogged s m :=
  Reachable.induct code (fun s => ∀ m, QueueLogged s m) (fun _ => by exact rfl)
    (fun _ _ hi hs => QueueLogged.step hi hs) h m

/-- **Waiters are woken in the order they went to sleep.** On every run, for any code, the threads
    that went to sleep in `acquire_mutex(&m)`, in the order they enqueued themselves, are the
    threads `release_mutex(&m)` signalled, in the order it signalled them, followed by the wait
    queue. -/
theorem mutex_wakes_in_order {keys : Mx → Int} {nr : Nat} {slots : Nat → Int} {s : Machine n}
    (h : Reachable code (Machine.init code keys nr slots) s) (m : Mx) :
    s.slept m = s.woke m ++ (s.mutexes m).waitqueue :=
  queueLogged_reachable h m

/-- Three threads on one mutex: the first passes, the other two sleep, and its release wakes the
    first sleeper. -/
theorem mutex_wakes_in_order_three_threads :
    let code := fun _ : Fin 3 => [Instr.acquire .mutex, .release .mutex]
    ∃ s, Reachable code (Machine.init code (fun _ => 1) 1 fun _ => 0) s ∧
      s.woke .mutex = [1] ∧ (s.mutexes .mutex).waitqueue = [2] ∧
      s.slept .mutex = s.woke .mutex ++ (s.mutexes .mutex).waitqueue := by
  intro code
  have r₀ : Reachable code (Machine.init code (fun _ => 1) 1 fun _ => 0)
      (Machine.init code (fun _ => 1) 1 fun _ => 0) := .init
  have r := ((((((r₀.step (.call 0 0 rfl (by decide))).step (.call 1 0 rfl (by decide))).step
    (.call 2 0 rfl (by decide))).step (.acquire 0 .mutex ⟨rfl, rfl⟩ rfl)).step
    (.acquire 1 .mutex ⟨rfl, rfl⟩ rfl)).step (.acquire 2 .mutex ⟨rfl, rfl⟩ rfl)).step
    (.release 0 .mutex ⟨rfl, rfl⟩ rfl)
  exact ⟨_, r, rfl, rfl, mutex_wakes_in_order r .mutex⟩

end Locks
end OsHomeworks
