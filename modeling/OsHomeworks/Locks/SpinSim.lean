import OsHomeworks.Locks.Spin
import OsHomeworks.Locks.RingBuffer

/-!
# `Locks.SpinSim` — the statement-level mutex refines the atomic one

`Locks.Spin` runs `acquire_mutex` and `release_mutex` statement by statement; `Locks.Machine` runs
the part of each between `acquire_spinlock` and `release_spinlock` as one step. This module shows
that the spinlock makes the first behave as the second: every state of every statement-level run,
read through `abs`, is a state of a run of `Locks.Machine` from the same start
(`spin_refines_machine`), each statement being either no step of `Locks.Machine` or exactly one
(`Step.simulate`).

`abs` reads each section as done at its decisive statement, and not done before it:

* the test of the key, where `acquire_mutex` goes on (`acquire`) or `release_mutex` finds the key
  positive (`release` waking nobody);
* `list_add_tail`, where `acquire_mutex` goes to sleep (`acquire`), its decrement of the key undone
  before it;
* `pthread_kill`, where `release_mutex` wakes the first waiter (`release`), its increment of the
  key and its `list_del` undone before it;
* `sigwaitinfo` returning, where the woken thread returns (`resume`).

What the statements of a section have already done is recorded per statement (`Phase.Done`): the
key is negative (and within `int`) after a failed `--key >= 0`, not positive after a failed
`++key > 0`, and
`list_del` removes the thread that `list_first_entry` read. With the invariant of the atomic mutex
on the image (`MutexInv`), the thread that `pthread_kill` signals sleeps in `acquire_mutex` on the
same mutex, with no signal pending yet (`relKill_target`), so that in every run no `SIGINT` is
sent to a thread that is not waiting for it, nor sent twice (`pthread_kill_wakes_sleeper`). The
wait queue, together with the thread about to be signalled, holds exactly the threads waiting in
`acquire_mutex`, so no entry outlives the stack frame it lives in and no sleeper is forgotten
(`waitqueue_holds_waiters`), and they are signalled in the order they enqueued themselves
(`mutex_wakes_in_order_by_statements`). The spinlocks add no deadlock: while some thread is not
waiting for its `SIGINT`, some thread can run a statement that moves it on (`some_thread_moves`).
The counts of the atomic mutex hold of the mutex as it stands whenever its spinlock is free
(`mutex_counts_when_free`), and `list_first_entry` always finds a waiter
(`list_first_entry_nonempty`).

Two consequences for the ring buffer. Its guarantees hold statement by statement
(`ringbuffer_by_statements`): whatever holds of every state of `Locks.Machine` holds of the image,
and the image keeps the ring as it stands. And the spinlocks add no deadlock
(`ringbuffer_by_statements_moves`): while `Locks.Machine` has an awake thread, some thread can run
a statement that moves it on, because the holder of a spinlock can always go on
(`SectionOk.holder_moves`) and, with every spinlock free, the awake thread can
(`SectionOk.exists_move`).
-/

namespace OsHomeworks
namespace Locks

attribute [ext] Locks.Machine

namespace Spin

variable {n : Nat}

/-! ## The abstraction -/

/-- The changes that the statements of a section have made to its mutex before its decisive
    statement, undone: the decrement before the enqueue, the increment before the wake-up, and the
    `list_del` before the `pthread_kill`. -/
def Phase.undo : Phase n → Mutex (Fin n) → Mutex (Fin n)
  | .acqAdd, mx => ⟨mx.key + 1, mx.waitqueue⟩
  | .relFirst, mx | .relDel _, mx => ⟨mx.key - 1, mx.waitqueue⟩
  | .relKill u, mx => ⟨mx.key - 1, u :: mx.waitqueue⟩
  | _, mx => mx

/-- What the statements a section has run guarantee about its mutex. -/
def Phase.Done : Phase n → Mutex (Fin n) → Prop
  | .acqAdd, mx => intMin ≤ mx.key ∧ mx.key < 0
  | .relFirst, mx | .relKill _, mx => mx.key ≤ 0
  | .relDel u, mx => mx.key ≤ 0 ∧ mx.waitqueue.head? = some u
  | _, _ => True

/-- Mutex `m` as `Locks.Machine` sees it: as it stands, with its spinlock holder's section undone. -/
def absMutex (s : Machine n) (m : Mx) : Mutex (Fin n) :=
  match s.owner m with
  | none => s.mutexes m
  | some t => (s.threads t).phase.undo (s.mutexes m)

/-- A thread as `Locks.Machine` sees it: past its line from the decisive statement of a section
    that returns, asleep from its enqueue until the signal, signalled from the signal until
    `sigwaitinfo` returns. -/
def Thread.abs (th : Thread n) : Locks.Thread :=
  match th.phase with
  | .acqPass | .relPass | .relUnlock => ⟨th.pc + 1, .running, th.val⟩
  | .acqUnlock | .acqWait => ⟨th.pc, if th.sig then .signalled else .asleep, th.val⟩
  | _ => ⟨th.pc, .running, th.val⟩

/-- The state of `Locks.Machine` that a state of the statements stands for. -/
def abs (s : Machine n) : Locks.Machine n where
  mutexes := absMutex s
  threads t := (s.threads t).abs
  ring := s.ring
  passed := s.passed
  released := s.released
  slept := s.slept
  woke := s.woke

theorem absMutex_of_none {s : Machine n} {m : Mx} (h : s.owner m = none) :
    absMutex s m = s.mutexes m := by simp [absMutex, h]

theorem absMutex_of_some {s : Machine n} {m : Mx} {t : Fin n} (h : s.owner m = some t) :
    absMutex s m = (s.threads t).phase.undo (s.mutexes m) := by simp [absMutex, h]

/-- A thread outside every section stands on its line, running. -/
theorem Thread.abs_of_out {th : Thread n} (h : th.phase = .out) :
    th.abs = ⟨th.pc, .running, th.val⟩ := by simp [Thread.abs, h]

/-- Thread `u` waits in `acquire_mutex(&m)`: past its `list_add_tail`, before its `SIGINT`. -/
def WaitsOn (code : Fin n → List Instr) (s : Machine n) (m : Mx) (u : Fin n) : Prop :=
  ((s.threads u).phase = .acqUnlock ∨ (s.threads u).phase = .acqWait) ∧
    (s.threads u).sig = false ∧ (code u)[(s.threads u).pc]? = some (.acquire m)

variable {code : Fin n → List Instr}

/-- `Locks.Machine` sees asleep on `m` exactly the threads that wait on `m`. -/
theorem sleepsOn_abs_iff {s : Machine n} {m : Mx} {u : Fin n} :
    SleepsOn code (abs s) m u ↔ WaitsOn code s m u := by
  simp only [SleepsOn, WaitsOn, abs, Thread.abs]
  split <;> cases (s.threads u).sig <;> simp_all

/-- The owner of a spinlock that a step leaves alone keeps its section, and the mutex stays as
    `Locks.Machine` sees it. -/
theorem absMutex_congr {s s' : Machine n} {m : Mx} (hm : s'.mutexes m = s.mutexes m)
    (ho : s'.owner m = s.owner m)
    (hp : ∀ v, s.owner m = some v → (s'.threads v).phase = (s.threads v).phase) :
    absMutex s' m = absMutex s m := by
  cases e : s.owner m with
  | none => rw [absMutex_of_none (ho.trans e), absMutex_of_none e, hm]
  | some v => rw [absMutex_of_some (ho.trans e), absMutex_of_some e, hm, hp v e]

/-- A step of `t` that holds no spinlock but perhaps that of `m` leaves the other mutexes, as
    `Locks.Machine` sees them, alone. -/
theorem absMutex_update {s s' : Machine n} {t : Fin n} {m : Mx} {mx : Mutex (Fin n)}
    (h : SpinOk code s) (hnot : ∀ m', m' ≠ m → ¬ Holds code s t m')
    (hm : ∀ m', m' ≠ m → s'.mutexes m' = s.mutexes m' ∧ s'.owner m' = s.owner m')
    (hth : ∀ v, v ≠ t → (s'.threads v).phase = (s.threads v).phase) (hself : absMutex s' m = mx) :
    absMutex s' = Function.update (absMutex s) m mx := by
  funext m'
  by_cases e : m' = m
  · subst e; rw [Function.update_same, hself]
  · rw [Function.update_noteq e]
    exact absMutex_congr (hm m' e).1 (hm m' e).2 fun v hv =>
      hth v fun e' => hnot m' e (e' ▸ (h.owner m' v).mp hv)

theorem abs_threads_update {s s' : Machine n} {t : Fin n} {th : Thread n}
    (hth : s'.threads = Function.update s.threads t th) :
    (fun v => (s'.threads v).abs) = Function.update (fun v => (s.threads v).abs) t th.abs := by
  rw [hth]; exact Function.comp_update Thread.abs s.threads t th

/-! ## What the statements of a section have done -/

/-- The invariant of the statement-level mutex: the spinlocks are exclusive, each holder's section
    has done what its statements say, and only a thread in `sigwaitinfo` has a signal pending. -/
structure SectionOk (code : Fin n → List Instr) (s : Machine n) : Prop where
  spin : SpinOk code s
  done : ∀ m t, s.owner m = some t → (s.threads t).phase.Done (s.mutexes m)
  sig : ∀ t, (s.threads t).sig = true → (s.threads t).phase = .acqWait

/-- A thread outside `sigwaitinfo` has no signal pending, so whatever statement it goes on to. -/
theorem SectionOk.no_sig {s : Machine n} (h : SectionOk code s) {t : Fin n} {p q : Phase n}
    (hp : (s.threads t).phase = p) (hne : p ≠ .acqWait) : (s.threads t).sig = true → q = .acqWait :=
  fun e => absurd (hp ▸ h.sig t e) hne

/-- The holder of a spinlock has done what the statement it is at says. -/
theorem SectionOk.done_of_at {s : Machine n} (h : SectionOk code s) {t : Fin n} {m : Mx}
    {p : Phase n} {i : Instr} (hat : At code s t p i) (hi : p.holding m = some i) :
    p.Done (s.mutexes m) :=
  hat.1 ▸ h.done m t ((h.spin.owner m t).mpr (holds_of_at hat hi))

/-- A step of `t` outside every section. -/
theorem SectionOk.done_outside {s s' : Machine n} {t : Fin n} (h : SectionOk code s)
    (hmx : s'.mutexes = s.mutexes) (ho : s'.owner = s.owner)
    (hth : ∀ v, v ≠ t → (s'.threads v).phase = (s.threads v).phase)
    (hnot : ∀ m, ¬ Holds code s t m) :
    ∀ m v, s'.owner m = some v → (s'.threads v).phase.Done (s'.mutexes m) := by
  intro m v hv
  rw [ho] at hv
  rw [hth v fun e => hnot m (e ▸ (h.spin.owner m v).mp hv), hmx]
  exact h.done m v hv

/-- A step of `t` within the section of `m`, or into it. -/
theorem SectionOk.done_inside {s s' : Machine n} {t : Fin n} {m : Mx} (h : SectionOk code s)
    (hnot : ∀ m', m' ≠ m → ¬ Holds code s t m')
    (hm : ∀ m', m' ≠ m → s'.mutexes m' = s.mutexes m' ∧ s'.owner m' = s.owner m')
    (hth : ∀ v, v ≠ t → (s'.threads v).phase = (s.threads v).phase)
    (hself : ∀ v, s'.owner m = some v → (s'.threads v).phase.Done (s'.mutexes m)) :
    ∀ m' v, s'.owner m' = some v → (s'.threads v).phase.Done (s'.mutexes m') := by
  intro m' v hv
  by_cases e : m' = m
  · subst e; exact hself v hv
  obtain ⟨hmx, ho⟩ := hm m' e
  rw [ho] at hv
  rw [hth v fun e' => hnot m' e (e' ▸ (h.spin.owner m' v).mp hv), hmx]
  exact h.done m' v hv

theorem SectionOk.sig_move {s s' : Machine n} {t : Fin n} {th : Thread n} (h : SectionOk code s)
    (hth : s'.threads = Function.update s.threads t th)
    (hsig : th.sig = true → th.phase = .acqWait) :
    ∀ v, (s'.threads v).sig = true → (s'.threads v).phase = .acqWait := by
  intro v
  by_cases e : v = t
  · subst e; simpa [hth] using hsig
  · simpa [hth, Function.update_noteq e] using h.sig v

/-- A step of `t` outside every section, that moves `t` alone. -/
theorem SectionOk.outside {s s' : Machine n} {t : Fin n} {th : Thread n} (h : SectionOk code s)
    (hsp : SpinOk code s') (hnot : ∀ m, ¬ Holds code s t m)
    (hth : s'.threads = Function.update s.threads t th) (hmx : s'.mutexes = s.mutexes)
    (ho : s'.owner = s.owner) (hsig : th.sig = true → th.phase = .acqWait) : SectionOk code s' :=
  ⟨hsp, h.done_outside hmx ho (fun v e => by rw [hth, Function.update_noteq e]) hnot,
    h.sig_move hth hsig⟩

/-- A step of `t` within the section of `m`, into it or out of it, that moves `t` alone. -/
theorem SectionOk.inside {s s' : Machine n} {t : Fin n} {m : Mx} {th : Thread n}
    (h : SectionOk code s) (hsp : SpinOk code s') (hnot : ∀ m', m' ≠ m → ¬ Holds code s t m')
    (hth : s'.threads = Function.update s.threads t th)
    (hm : ∀ m', m' ≠ m → s'.mutexes m' = s.mutexes m' ∧ s'.owner m' = s.owner m')
    (hown : s'.owner m = some t ∨ s'.owner m = none) (hdone : th.phase.Done (s'.mutexes m))
    (hsig : th.sig = true → th.phase = .acqWait) : SectionOk code s' := by
  refine ⟨hsp, h.done_inside hnot hm (fun v e => by rw [hth, Function.update_noteq e]) ?_,
    h.sig_move hth hsig⟩
  intro v hv
  rcases hown with e | e <;> rw [e] at hv <;> cases hv
  rw [hth, Function.update_same]; exact hdone

/-- `pthread_kill` moves its caller alone to another statement. -/
theorem relKill_phase {s : Machine n} {t u v : Fin n} {m : Mx} (e : v ≠ t) :
    ((s.relKill t m u).threads v).phase = (s.threads v).phase := by
  by_cases ev : v = u
  · subst ev; simp [Machine.relKill, Function.update_noteq e]
  · simp [Machine.relKill, Function.update_noteq e, Function.update_noteq ev]

/-- The thread that `pthread_kill` signals sleeps in `acquire_mutex` on the same mutex, with no
    signal pending yet. -/
theorem relKill_target {keys : Mx → Int} {s : Machine n} {t u : Fin n} {m : Mx}
    (h : SpinOk code s) (hinv : MutexInv code keys (abs s))
    (hat : At code s t (.relKill u) (.release m)) :
    (s.threads u).phase = .acqWait ∧ (s.threads u).sig = false ∧ u ≠ t ∧
      (code u)[(s.threads u).pc]? = some (.acquire m) := by
  have hown : s.owner m = some t := (h.owner m t).mpr (holds_of_at hat rfl)
  have hq : (abs s).mutexes m = ⟨(s.mutexes m).key - 1, u :: (s.mutexes m).waitqueue⟩ := by
    simp only [abs, absMutex_of_some hown, hat.1, Phase.undo]
  obtain ⟨hp | hp, hsig, hc⟩ := sleepsOn_abs_iff.mp
    (((hinv.ok m).mem_iff u).mp (by rw [hq]; exact List.mem_cons_self _ _))
  · -- at the `release_spinlock` of `acquire_mutex(&m)`, `u` would hold the spinlock that `t` holds
    have hu : s.owner m = some u := (h.owner m u).mpr (holds_of_at ⟨hp, hc⟩ rfl)
    obtain rfl : u = t := Option.some.inj (hu.symm.trans hown)
    rw [hat.1] at hp; cases hp
  · exact ⟨hp, hsig, (fun e => by subst e; rw [hat.1] at hp; cases hp), hc⟩

/-- **One statement keeps the invariant**, given the invariant of the atomic mutex on the image. -/
theorem SectionOk.step {keys : Mx → Int} {s s' : Machine n} (h : SectionOk code s)
    (hinv : MutexInv code keys (abs s)) (hs : Step code s s') : SectionOk code s' := by
  have hsp := h.spin.step hs
  cases hs with
  | call t v hp _ =>
    exact h.outside hsp (not_holds fun _ => by rw [hp]; rfl) rfl rfl rfl (h.no_sig hp nofun)
  | spin => exact h
  | lockAcq t m hat _ | lockRel t m hat _ =>
    exact h.inside (m := m) hsp (fun m' _ => not_holds (fun _ => by rw [hat.1]; rfl) m') rfl
      (fun m' e => ⟨rfl, Function.update_noteq e _ _⟩) (.inl (Function.update_same _ _ _)) trivial
      (h.no_sig hat.1 nofun)
  | acqTest t m hat hk₀ =>
    have ht := holds_of_at hat rfl
    have hown := (h.spin.owner m t).mpr ht
    by_cases hk : 0 ≤ (s.mutexes m).key - 1
    · rw [Machine.acqTest_of_pass hk] at hsp ⊢
      exact h.inside hsp ht.not_other rfl (fun m' e => ⟨Function.update_noteq e _ _, rfl⟩)
        (.inl hown) trivial (h.no_sig hat.1 nofun)
    · rw [Machine.acqTest_of_sleep hk] at hsp ⊢
      exact h.inside hsp ht.not_other rfl (fun m' e => ⟨Function.update_noteq e _ _, rfl⟩)
        (.inl hown) (by simp only [Phase.Done, Machine.goTo, Machine.setThread, Machine.setMutex,
          Function.update_same]; exact ⟨hk₀, by omega⟩) (h.no_sig hat.1 nofun)
  | acqPass t m hat | relPass t m hat | relUnlock t m hat =>
    exact h.inside hsp (holds_of_at hat rfl).not_other rfl
      (fun m' e => ⟨rfl, Function.update_noteq e _ _⟩) (.inr (Function.update_same _ _ _)) trivial
      (h.no_sig hat.1 nofun)
  | acqAdd t m hat =>
    have ht := holds_of_at hat rfl
    exact h.inside hsp ht.not_other rfl (fun m' e => ⟨Function.update_noteq e _ _, rfl⟩)
      (.inl ((h.spin.owner m t).mpr ht)) trivial (h.no_sig hat.1 nofun)
  | acqUnlock t m hat =>
    exact h.inside hsp (holds_of_at hat rfl).not_other rfl
      (fun m' e => ⟨rfl, Function.update_noteq e _ _⟩) (.inr (Function.update_same _ _ _)) trivial
      fun _ => rfl
  | acqWait t m hat _ =>
    exact h.outside hsp (not_holds fun _ => by rw [hat.1]; rfl) rfl rfl rfl nofun
  | relTest t m hat _ =>
    have ht := holds_of_at hat rfl
    have hown := (h.spin.owner m t).mpr ht
    by_cases hk : 0 < (s.mutexes m).key + 1
    · rw [Machine.relTest_of_pass hk] at hsp ⊢
      exact h.inside hsp ht.not_other rfl (fun m' e => ⟨Function.update_noteq e _ _, rfl⟩)
        (.inl hown) trivial (h.no_sig hat.1 nofun)
    · rw [Machine.relTest_of_wake hk] at hsp ⊢
      exact h.inside hsp ht.not_other rfl (fun m' e => ⟨Function.update_noteq e _ _, rfl⟩)
        (.inl hown) (by simp only [Phase.Done, Machine.goTo, Machine.setThread, Machine.setMutex,
          Function.update_same]; omega) (h.no_sig hat.1 nofun)
  | relFirst t m hat hq =>
    have ht := holds_of_at hat rfl
    have hown := (h.spin.owner m t).mpr ht
    have hd := h.done m t hown
    rw [hat.1] at hd
    exact h.inside hsp ht.not_other rfl (fun _ _ => ⟨rfl, rfl⟩) (.inl hown)
      ⟨hd, show (s.mutexes m).waitqueue.head? = _ by rw [hq]; rfl⟩ (h.no_sig hat.1 nofun)
  | relDel t m u hat =>
    have ht := holds_of_at hat rfl
    have hown := (h.spin.owner m t).mpr ht
    have hd := h.done m t hown
    rw [hat.1] at hd
    exact h.inside hsp ht.not_other rfl (fun m' e => ⟨Function.update_noteq e _ _, rfl⟩)
      (.inl hown) (by simp only [Phase.Done, Machine.relDel, Machine.goTo, Machine.setThread,
        Machine.setMutex, Function.update_same]; exact hd.1) (h.no_sig hat.1 nofun)
  | relKill t m u hat =>
    obtain ⟨hpu, -, hut, -⟩ := relKill_target h.spin hinv hat
    have ht := holds_of_at hat rfl
    have hown := (h.spin.owner m t).mpr ht
    refine ⟨hsp, h.done_inside ht.not_other (fun _ _ => ⟨rfl, rfl⟩) (fun _ => relKill_phase)
      fun v hv => ?_, fun v hv => ?_⟩
    · obtain rfl : v = t := Option.some.inj (hv.symm.trans hown)
      simp only [Machine.relKill, Machine.goTo, Machine.setThread, Function.update_same]
      trivial
    · by_cases ev : v = t
      · subst ev
        simp only [Machine.relKill, Machine.goTo, Machine.setThread, Function.update_same,
          Function.update_noteq (Ne.symm hut)] at hv
        exact h.no_sig hat.1 nofun hv
      · by_cases eu : v = u
        · subst eu; simpa [Machine.relKill, Function.update_noteq ev] using hpu
        · simp only [Machine.relKill, Machine.goTo, Machine.setThread,
            Function.update_noteq ev, Function.update_noteq eu] at hv ⊢
          exact h.sig v hv
  | store t hat | advanceIn t hat | advanceOut t hat | load t hat =>
    exact h.outside hsp (not_holds fun _ => by rw [hat.1]; rfl) rfl rfl rfl (h.no_sig hat.1 nofun)

/-! ## Each statement on the image -/

/-- The image of a state where `t` alone has moved: its mutexes as `Locks.Machine` sees them, `t`
    as `Locks.Machine` sees it, and the other fields as they stand. -/
theorem abs_of_move {s s' : Machine n} {t : Fin n} {th : Thread n}
    (hth : s'.threads = Function.update s.threads t th) :
    abs s' = ⟨absMutex s', Function.update (abs s).threads t th.abs, s'.ring, s'.passed,
      s'.released, s'.slept, s'.woke⟩ :=
  Locks.Machine.ext rfl (abs_threads_update hth) rfl rfl rfl rfl rfl

/-- The image of a step of `t` outside every section. -/
theorem abs_of_out {s : Machine n} (s' : Machine n) {t : Fin n} {th : Thread n}
    (hth : s'.threads = Function.update s.threads t th) (hp : (s.threads t).phase = .out)
    (hp' : th.phase = .out) (hmx : s'.mutexes = s.mutexes)
    (ho : s'.owner = s.owner) :
    abs s' = ⟨absMutex s, Function.update (abs s).threads t ⟨th.pc, .running, th.val⟩, s'.ring,
      s'.passed, s'.released, s'.slept, s'.woke⟩ := by
  rw [abs_of_move hth, Thread.abs_of_out hp']
  congr 1
  funext m
  refine absMutex_congr (by rw [hmx]) (by rw [ho]) fun v _ => ?_
  by_cases e : v = t
  · subst e; rw [hth, Function.update_same, hp, hp']
  · rw [hth, Function.update_noteq e]

theorem abs_threads_of_out {s : Machine n} {t : Fin n} (hp : (s.threads t).phase = .out) :
    (abs s).threads t = ⟨(s.threads t).pc, .running, (s.threads t).val⟩ :=
  Thread.abs_of_out hp

theorem abs_call {s : Machine n} {t : Fin n} (hp : (s.threads t).phase = .out) (v : Int) :
    abs (s.call t v) = (abs s).call t v := by
  rw [abs_of_out (s.call t v) rfl hp hp rfl rfl]; rfl

theorem abs_store {s : Machine n} {t : Fin n} (hp : (s.threads t).phase = .out) :
    abs (s.store t) = (abs s).store t := by
  rw [abs_of_out (s.store t) rfl hp rfl rfl rfl]
  simp only [Locks.Machine.store, Locks.Machine.next, Locks.Machine.setThread, abs_threads_of_out hp]
  rfl

theorem abs_advanceIn {s : Machine n} {t : Fin n} (hp : (s.threads t).phase = .out) :
    abs (s.advanceIn t) = (abs s).advanceIn t := by
  rw [abs_of_out (s.advanceIn t) rfl hp rfl rfl rfl]
  simp only [Locks.Machine.advanceIn, Locks.Machine.next, Locks.Machine.setThread,
    abs_threads_of_out hp]
  rfl

theorem abs_load {s : Machine n} {t : Fin n} (hp : (s.threads t).phase = .out) :
    abs (s.load t) = (abs s).load t := by
  rw [abs_of_out (s.load t) rfl hp hp rfl rfl]
  simp only [Locks.Machine.load, Locks.Machine.setThread, abs_threads_of_out hp]
  rfl

theorem abs_advanceOut {s : Machine n} {t : Fin n} (hp : (s.threads t).phase = .out) :
    abs (s.advanceOut t) = (abs s).advanceOut t := by
  rw [abs_of_out (s.advanceOut t) rfl hp rfl rfl rfl]
  simp only [Locks.Machine.advanceOut, Locks.Machine.next, Locks.Machine.setThread,
    abs_threads_of_out hp]
  rfl

@[simp] theorem abs_threads (s : Machine n) (t : Fin n) : (abs s).threads t = (s.threads t).abs := rfl

@[simp] theorem abs_mutexes (s : Machine n) (m : Mx) : (abs s).mutexes m = absMutex s m := rfl

theorem abs_threads_eq {s s' : Machine n} {t : Fin n} {th : Thread n} {x : Locks.Thread}
    (hth : s'.threads = Function.update s.threads t th) (habs : th.abs = x) :
    (abs s').threads = Function.update (abs s).threads t x := by
  rw [← habs]; exact abs_threads_update hth

/-- A statement that changes neither its mutex nor its thread as `Locks.Machine` sees them, nor the
    other fields of the image, is no step on the image. -/
theorem abs_stutter {s s' : Machine n} {t : Fin n} {m : Mx} {th : Thread n} (h : SpinOk code s)
    (hth : s'.threads = Function.update s.threads t th) (hnot : ∀ m', m' ≠ m → ¬ Holds code s t m')
    (hm : ∀ m', m' ≠ m → s'.mutexes m' = s.mutexes m' ∧ s'.owner m' = s.owner m')
    (hself : absMutex s' m = absMutex s m) (habs : th.abs = (s.threads t).abs)
    (hr : s'.ring = s.ring) (hp : s'.passed = s.passed) (hrel : s'.released = s.released)
    (hsl : s'.slept = s.slept) (hw : s'.woke = s.woke) : abs s' = abs s :=
  Locks.Machine.ext
    ((absMutex_update h hnot hm (fun v e => by rw [hth, Function.update_noteq e]) hself).trans
      (Function.update_eq_self m _))
    ((abs_threads_eq hth habs).trans (Function.update_eq_self t _)) hr hp hrel hsl hw

/-- A thread at a statement that `Locks.Machine` sees as running on its line is at that line
    there. -/
theorem At.toAbs {s : Machine n} {t : Fin n} {p : Phase n} {i : Instr} (hat : At code s t p i)
    (hrun : (s.threads t).abs = ⟨(s.threads t).pc, .running, (s.threads t).val⟩) :
    Locks.At code (abs s) t i :=
  ⟨by simp [hrun], by simpa [hrun] using hat.2⟩

/-- Taking a spinlock is no step on the image. -/
theorem abs_lock {s : Machine n} {t : Fin n} {m : Mx} {p : Phase n} {i : Instr}
    (h : SpinOk code s) (hat : At code s t .out i) (hheld : s.held m = 0)
    (hp : p = .acqTest ∨ p = .relTest) : abs (s.lock t m p) = abs s := by
  refine abs_stutter (m := m) h rfl (fun m' _ => not_holds (by simp [hat.1]) m')
    (fun _ e => ⟨rfl, Function.update_noteq e _ _⟩) ?_ ?_ rfl rfl rfl rfl rfl
  · rw [absMutex_of_some (t := t) (by simp), absMutex_of_none ((h.held m).mp hheld)]
    rcases hp with rfl | rfl <;> simp [Phase.undo]
  · rcases hp with rfl | rfl <;> simp [Thread.abs, hat.1]

/-- `release_spinlock` followed by `return` is no step on the image. -/
theorem abs_leave {s : Machine n} {t : Fin n} {m : Mx} {p : Phase n} {i : Instr}
    (h : SpinOk code s) (hat : At code s t p i) (hi : p.holding m = some i)
    (hp : p = .acqPass ∨ p = .relPass ∨ p = .relUnlock) : abs ((s.unlock m).finish t) = abs s := by
  refine abs_stutter (m := m) h rfl (holds_of_at hat hi).not_other
    (fun _ e => ⟨rfl, Function.update_noteq e _ _⟩) ?_ ?_ rfl rfl rfl rfl rfl
  · rw [absMutex_of_none (by simp), absMutex_of_some ((h.owner m t).mpr (holds_of_at hat hi)),
      hat.1]
    rcases hp with rfl | rfl | rfl <;> rfl
  · rcases hp with rfl | rfl | rfl <;> simp [Thread.abs, hat.1]

/-- `release_spinlock` before `sigwaitinfo` is no step on the image. -/
theorem abs_acqUnlock {s : Machine n} {t : Fin n} {m : Mx} (h : SpinOk code s)
    (hat : At code s t .acqUnlock (.acquire m)) : abs ((s.unlock m).goTo t .acqWait) = abs s := by
  refine abs_stutter (m := m) h rfl (holds_of_at hat rfl).not_other
    (fun _ e => ⟨rfl, Function.update_noteq e _ _⟩) ?_ (by simp [Thread.abs, hat.1]) rfl rfl rfl rfl
    rfl
  rw [absMutex_of_none (by simp), absMutex_of_some ((h.owner m t).mpr (holds_of_at hat rfl)), hat.1]
  rfl

/-- At the test of the key, the image's mutex is the mutex as it stands. -/
theorem absMutex_of_test {s : Machine n} {t : Fin n} {m : Mx} {p : Phase n} {i : Instr}
    (h : SpinOk code s) (hat : At code s t p i) (hp : p = .acqTest ∧ i = .acquire m ∨
      p = .relTest ∧ i = .release m) : absMutex s m = s.mutexes m := by
  obtain ⟨rfl, rfl⟩ | ⟨rfl, rfl⟩ := hp <;>
    rw [absMutex_of_some ((h.owner m t).mpr (holds_of_at hat rfl)), hat.1] <;> rfl

/-- `--key >= 0` that passes is `acquire` on the image. -/
theorem abs_acqTest_pass {s : Machine n} {t : Fin n} {m : Mx} (h : SpinOk code s)
    (hat : At code s t .acqTest (.acquire m)) (hk : 0 ≤ (s.mutexes m).key - 1) :
    abs (s.acqTest t m) =
      (abs s).acquire t m ⟨(s.mutexes m).key - 1, (s.mutexes m).waitqueue⟩ false := by
  have ht := holds_of_at hat rfl
  have hown := (h.owner m t).mpr ht
  have hrun : (s.threads t).abs = ⟨(s.threads t).pc, .running, (s.threads t).val⟩ := by
    simp [Thread.abs, hat.1]
  rw [Machine.acqTest_of_pass hk]
  simp only [Locks.Machine.acquire, Locks.Machine.next, Locks.Machine.setThread,
    Locks.Machine.setMutex, abs_threads, hrun, Bool.false_eq_true, if_false]
  exact Locks.Machine.ext (absMutex_update h ht.not_other
    (fun _ e => ⟨Function.update_noteq e _ _, rfl⟩) (fun _ e => congrArg Thread.phase (Function.update_noteq e _ _))
    (by rw [absMutex_of_some (t := t) (by simpa using hown)]; simp [Phase.undo]))
    (abs_threads_eq rfl (by simp [Thread.abs])) rfl rfl rfl rfl rfl

/-- `--key >= 0` that fails is no step on the image: the decrement is undone until the enqueue. -/
theorem abs_acqTest_sleep {s : Machine n} {t : Fin n} {m : Mx} (h : SpinOk code s)
    (hat : At code s t .acqTest (.acquire m)) (hk : ¬ 0 ≤ (s.mutexes m).key - 1) :
    abs (s.acqTest t m) = abs s := by
  have ht := holds_of_at hat rfl
  have hown := (h.owner m t).mpr ht
  rw [Machine.acqTest_of_sleep hk]
  refine abs_stutter (m := m) h rfl ht.not_other (fun _ e => ⟨Function.update_noteq e _ _, rfl⟩) ?_
    (by simp [Thread.abs, hat.1]) rfl rfl rfl rfl rfl
  rw [absMutex_of_some (t := t) (by simpa using hown), absMutex_of_some hown, hat.1]
  simp [Phase.undo]

/-- A step of `t` outside every section leaves the mutexes as `Locks.Machine` sees them. -/
theorem absMutex_of_outside {s s' : Machine n} {t : Fin n} {th : Thread n} (h : SpinOk code s)
    (hnot : ∀ m, ¬ Holds code s t m) (hth : s'.threads = Function.update s.threads t th)
    (hmx : s'.mutexes = s.mutexes) (ho : s'.owner = s.owner) : absMutex s' = absMutex s :=
  funext fun m => absMutex_congr (by rw [hmx]) (by rw [ho]) fun v hv => by
    rw [hth, Function.update_noteq fun (e : v = t) => hnot m (e ▸ (h.owner m v).mp hv)]

/-- At `list_add_tail`, `acquire_mutex` on the image sleeps: its decrement is undone there, and
    was within `int`. -/
theorem SectionOk.acquireMutex_acqAdd {s : Machine n} {t : Fin n} {m : Mx} (h : SectionOk code s)
    (hat : At code s t .acqAdd (.acquire m)) : acquireMutex t ((abs s).mutexes m) =
      some (⟨(s.mutexes m).key, (s.mutexes m).waitqueue ++ [t]⟩, true) := by
  have hd : intMin ≤ (s.mutexes m).key ∧ (s.mutexes m).key < 0 := h.done_of_at hat rfl
  rw [abs_mutexes, absMutex_of_some ((h.spin.owner m t).mpr (holds_of_at hat rfl)), hat.1,
    acquireMutex_of_sleep] <;> simp [Phase.undo] <;> omega

/-- `list_add_tail` is `acquire` on the image, on its sleeping branch. -/
theorem abs_acqAdd {s : Machine n} {t : Fin n} {m : Mx} (h : SectionOk code s)
    (hat : At code s t .acqAdd (.acquire m)) : abs (s.acqAdd t m) =
      (abs s).acquire t m ⟨(s.mutexes m).key, (s.mutexes m).waitqueue ++ [t]⟩ true := by
  have ht := holds_of_at hat rfl
  have hown := (h.spin.owner m t).mpr ht
  have hsig : (s.threads t).sig = false := by
    cases e : (s.threads t).sig
    · rfl
    · exact nomatch h.no_sig (q := .out) hat.1 nofun e
  have hrun : (s.threads t).abs = ⟨(s.threads t).pc, .running, (s.threads t).val⟩ := by
    simp [Thread.abs, hat.1]
  simp only [Locks.Machine.acquire, Locks.Machine.setThread, Locks.Machine.setMutex, abs_threads,
    hrun, if_true]
  exact Locks.Machine.ext (absMutex_update h.spin ht.not_other
    (fun _ e => ⟨Function.update_noteq e _ _, rfl⟩)
    (fun _ e => congrArg Thread.phase (Function.update_noteq e _ _))
    (by rw [absMutex_of_some (t := t) (by simpa [Machine.acqAdd] using hown)]
        simp [Machine.acqAdd, Phase.undo]))
    (abs_threads_eq rfl (by simp [Thread.abs, hsig])) rfl rfl rfl rfl rfl

/-- `sigwaitinfo` returning is `resume` on the image. -/
theorem abs_acqWait {s : Machine n} {t : Fin n} {m : Mx} (h : SpinOk code s)
    (hat : At code s t .acqWait (.acquire m)) : abs (s.acqWait t m) = (abs s).resume t m := by
  have hw : (s.threads t).abs = ⟨(s.threads t).pc,
      if (s.threads t).sig then .signalled else .asleep, (s.threads t).val⟩ := by
    simp [Thread.abs, hat.1]
  simp only [Locks.Machine.resume, Locks.Machine.next, Locks.Machine.setThread, abs_threads, hw]
  exact Locks.Machine.ext (absMutex_of_outside h (not_holds (by simp [hat.1])) rfl rfl rfl)
    (abs_threads_eq rfl (by simp [Thread.abs])) rfl rfl rfl rfl rfl

/-- `++key > 0` that passes is `release` on the image, waking nobody. -/
theorem abs_relTest_pass {s : Machine n} {t : Fin n} {m : Mx} (h : SpinOk code s)
    (hat : At code s t .relTest (.release m)) (hk : 0 < (s.mutexes m).key + 1) :
    abs (s.relTest t m) =
      (abs s).release t m ⟨(s.mutexes m).key + 1, (s.mutexes m).waitqueue⟩ none := by
  have ht := holds_of_at hat rfl
  have hown := (h.owner m t).mpr ht
  have hrun : (s.threads t).abs = ⟨(s.threads t).pc, .running, (s.threads t).val⟩ := by
    simp [Thread.abs, hat.1]
  rw [Machine.relTest_of_pass hk]
  simp only [Locks.Machine.release, Locks.Machine.next, Locks.Machine.setThread,
    Locks.Machine.setMutex, abs_threads, hrun]
  exact Locks.Machine.ext (absMutex_update h ht.not_other
    (fun _ e => ⟨Function.update_noteq e _ _, rfl⟩) (fun _ e => congrArg Thread.phase (Function.update_noteq e _ _))
    (by rw [absMutex_of_some (t := t) (by simpa using hown)]; simp [Phase.undo]))
    (abs_threads_eq rfl (by simp [Thread.abs])) rfl rfl rfl rfl rfl

/-- `++key > 0` that fails is no step on the image: the increment is undone until the signal. -/
theorem abs_relTest_wake {s : Machine n} {t : Fin n} {m : Mx} (h : SpinOk code s)
    (hat : At code s t .relTest (.release m)) (hk : ¬ 0 < (s.mutexes m).key + 1) :
    abs (s.relTest t m) = abs s := by
  have ht := holds_of_at hat rfl
  have hown := (h.owner m t).mpr ht
  rw [Machine.relTest_of_wake hk]
  refine abs_stutter (m := m) h rfl ht.not_other (fun _ e => ⟨Function.update_noteq e _ _, rfl⟩) ?_
    (by simp [Thread.abs, hat.1]) rfl rfl rfl rfl rfl
  rw [absMutex_of_some (t := t) (by simpa using hown), absMutex_of_some hown, hat.1]
  simp [Phase.undo]

/-- `list_first_entry` is no step on the image. -/
theorem abs_relFirst {s : Machine n} {t : Fin n} {m : Mx} (h : SpinOk code s)
    (hat : At code s t .relFirst (.release m)) (u : Fin n) : abs (s.goTo t (.relDel u)) = abs s := by
  have ht := holds_of_at hat rfl
  have hown := (h.owner m t).mpr ht
  refine abs_stutter (m := m) h rfl ht.not_other (fun _ _ => ⟨rfl, rfl⟩) ?_
    (by simp [Thread.abs, hat.1]) rfl rfl rfl rfl rfl
  rw [absMutex_of_some (t := t) (by simpa using hown), absMutex_of_some hown, hat.1]
  simp [Phase.undo]

/-- `list_del` of the thread that `list_first_entry` read is no step on the image: the removal is
    undone until the signal. -/
theorem abs_relDel {s : Machine n} {t u : Fin n} {m : Mx} (h : SectionOk code s)
    (hat : At code s t (.relDel u) (.release m)) : abs (s.relDel t m u) = abs s := by
  have ht := holds_of_at hat rfl
  have hown := (h.spin.owner m t).mpr ht
  have hd := h.done m t hown
  rw [hat.1] at hd
  obtain ⟨rest, hq⟩ : ∃ rest, (s.mutexes m).waitqueue = u :: rest :=
    ⟨_, (List.cons_head?_tail hd.2).symm⟩
  refine abs_stutter (m := m) h.spin rfl ht.not_other
    (fun _ e => ⟨Function.update_noteq e _ _, rfl⟩) ?_
    (by simp [Thread.abs, hat.1]) rfl rfl rfl rfl rfl
  rw [absMutex_of_some (t := t) (by simpa [Machine.relDel] using hown), absMutex_of_some hown, hat.1]
  simp [Machine.relDel, Phase.undo, hq]

/-- `pthread_kill` is `release` on the image, waking the first waiter. -/
theorem abs_relKill {keys : Mx → Int} {s : Machine n} {t u : Fin n} {m : Mx} (h : SectionOk code s)
    (hinv : MutexInv code keys (abs s)) (hat : At code s t (.relKill u) (.release m)) :
    abs (s.relKill t m u) =
      (abs s).release t m ⟨(s.mutexes m).key, (s.mutexes m).waitqueue⟩ (some u) := by
  obtain ⟨hpu, hsu, hut, -⟩ := relKill_target h.spin hinv hat
  have ht := holds_of_at hat rfl
  have hown := (h.spin.owner m t).mpr ht
  simp only [Locks.Machine.release, Locks.Machine.next, Locks.Machine.setThread,
    Locks.Machine.setMutex]
  refine Locks.Machine.ext (absMutex_update h.spin ht.not_other (fun _ _ => ⟨rfl, rfl⟩)
    (fun _ => relKill_phase) ?_) ?_ rfl rfl rfl rfl rfl
  · rw [absMutex_of_some (t := t) (by simpa [Machine.relKill] using hown)]
    simp [Machine.relKill, Phase.undo]
  · funext v
    simp only [abs_threads, Machine.relKill, Machine.goTo, Machine.setThread]
    by_cases evt : v = t
    · subst evt; simp [Function.update_noteq (Ne.symm hut), Thread.abs, hat.1]
    · by_cases evu : v = u
      · subst evu; simp [Function.update_noteq evt, Thread.abs, hpu, hsu]
      · simp [Function.update_noteq evt, Function.update_noteq evu]

/-! ## Every run of the statements is a run of `Locks.Machine` -/

/-- **Each statement is one step of `Locks.Machine` on the image, or none.** -/
theorem Step.simulate {keys : Mx → Int} {s s' : Machine n} (h : SectionOk code s)
    (hinv : MutexInv code keys (abs s)) (hs : Step code s s') :
    abs s' = abs s ∨ Locks.Step code (abs s) (abs s') := by
  cases hs with
  | call t v hp hend =>
    refine .inr ?_
    rw [abs_call hp v]
    exact .call t v (by simp [Thread.abs_of_out hp]) (by simpa [Thread.abs_of_out hp] using hend)
  | spin => exact .inl rfl
  | lockAcq t m hat hheld => exact .inl (abs_lock h.spin hat hheld (.inl rfl))
  | lockRel t m hat hheld => exact .inl (abs_lock h.spin hat hheld (.inr rfl))
  | acqTest t m hat hk₀ =>
    by_cases hk : 0 ≤ (s.mutexes m).key - 1
    · refine .inr ?_
      rw [abs_acqTest_pass h.spin hat hk]
      refine .acquire t m (hat.toAbs (by simp [Thread.abs, hat.1])) ?_
      rw [abs_mutexes, absMutex_of_test h.spin hat (.inl ⟨rfl, rfl⟩)]
      exact acquireMutex_of_pass hk₀ hk
    · exact .inl (abs_acqTest_sleep h.spin hat hk)
  | acqPass t m hat => exact .inl (abs_leave h.spin hat rfl (.inl rfl))
  | acqAdd t m hat =>
    refine .inr ?_
    rw [abs_acqAdd h hat]
    exact .acquire t m (hat.toAbs (by simp [Thread.abs, hat.1])) (h.acquireMutex_acqAdd hat)
  | acqUnlock t m hat => exact .inl (abs_acqUnlock h.spin hat)
  | acqWait t m hat hsig =>
    refine .inr ?_
    rw [abs_acqWait h.spin hat]
    exact .resume t m (by simp [Thread.abs, hat.1, hsig]) (by simpa [Thread.abs, hat.1] using hat.2)
  | relTest t m hat hk₀ =>
    by_cases hk : 0 < (s.mutexes m).key + 1
    · refine .inr ?_
      rw [abs_relTest_pass h.spin hat hk]
      refine .release t m (hat.toAbs (by simp [Thread.abs, hat.1])) ?_
      rw [abs_mutexes, absMutex_of_test h.spin hat (.inr ⟨rfl, rfl⟩)]
      exact releaseMutex_of_pass hk₀ hk
    · exact .inl (abs_relTest_wake h.spin hat hk)
  | relPass t m hat => exact .inl (abs_leave h.spin hat rfl (.inr (.inl rfl)))
  | relFirst t m hat _ => exact .inl (abs_relFirst h.spin hat _)
  | relDel t m u hat => exact .inl (abs_relDel h hat)
  | relKill t m u hat =>
    have hown := (h.spin.owner m t).mpr (holds_of_at hat rfl)
    have hd : (s.mutexes m).key ≤ 0 := h.done_of_at hat rfl
    refine .inr ?_
    rw [abs_relKill h hinv hat]
    refine .release t m (hat.toAbs (by simp [Thread.abs, hat.1])) ?_
    rw [abs_mutexes, absMutex_of_some hown, hat.1]
    simpa using releaseMutex_of_wake (m := ⟨(s.mutexes m).key - 1, u :: (s.mutexes m).waitqueue⟩)
      (by simp only [sub_add_cancel]; unfold intMax; omega) (by simp only [sub_add_cancel]; omega) rfl
  | relUnlock t m hat => exact .inl (abs_leave h.spin hat rfl (.inr (.inr rfl)))
  | store t hat =>
    exact .inr (by rw [abs_store hat.1]; exact .store t (hat.toAbs (Thread.abs_of_out hat.1)))
  | advanceIn t hat =>
    exact .inr (by rw [abs_advanceIn hat.1]; exact .advanceIn t (hat.toAbs (Thread.abs_of_out hat.1)))
  | load t hat =>
    exact .inr (by rw [abs_load hat.1]; exact .load t (hat.toAbs (Thread.abs_of_out hat.1)))
  | advanceOut t hat =>
    exact .inr (by
      rw [abs_advanceOut hat.1]; exact .advanceOut t (hat.toAbs (Thread.abs_of_out hat.1)))

theorem sectionOk_init (keys : Mx → Int) (nr : Nat) (slots : Nat → Int) :
    SectionOk code (Machine.init code keys nr slots) :=
  ⟨spinOk_init keys nr slots, fun _ _ h => by simp [Machine.init] at h,
    fun _ h => by simp [Machine.init] at h⟩

/-- The image of the start is the start of `Locks.Machine`. -/
theorem abs_init (keys : Mx → Int) (nr : Nat) (slots : Nat → Int) :
    abs (Machine.init code keys nr slots) = Locks.Machine.init code keys nr slots := rfl

/-- On every run from non-negative keys, the invariant holds and the image is a state of a run of
    `Locks.Machine`. -/
theorem sectionOk_abs_reachable {keys : Mx → Int} (hk : ∀ m, 0 ≤ keys m) {nr : Nat}
    {slots : Nat → Int} {s : Machine n} (h : Reachable code (Machine.init code keys nr slots) s) :
    SectionOk code s ∧ Locks.Reachable code (Locks.Machine.init code keys nr slots) (abs s) := by
  induction h with
  | init => exact ⟨sectionOk_init keys nr slots, by rw [abs_init]; exact .init⟩
  | step _ hs ih =>
    obtain ⟨hi, hr⟩ := ih
    have hinv := mutexInv_reachable hk hr
    refine ⟨hi.step hinv hs, ?_⟩
    rcases hs.simulate hi hinv with e | e
    · rw [e]; exact hr
    · exact hr.step e

/-- At `list_first_entry` the queue is not empty: the key is not positive, so the image's queue
    holds `1 - key` threads. -/
theorem SectionOk.relFirst_queue {keys : Mx → Int} {s : Machine n} (h : SectionOk code s)
    (hinv : MutexInv code keys (abs s)) {t : Fin n} {m : Mx}
    (hat : At code s t .relFirst (.release m)) : ∃ u rest, (s.mutexes m).waitqueue = u :: rest := by
  have hown := (h.spin.owner m t).mpr (holds_of_at hat rfl)
  have hd := h.done m t hown
  have hl := (hinv.ok m).length_eq
  rw [abs_mutexes, absMutex_of_some hown, hat.1] at hl
  rw [hat.1] at hd
  cases e : (s.mutexes m).waitqueue with
  | nil =>
    simp only [Phase.undo, e, List.length_nil, Nat.cast_zero] at hl
    simp only [Phase.Done] at hd
    omega
  | cons u rest => exact ⟨u, rest, rfl⟩

/-- The holder of a spinlock can always run its next statement, unless it is at a test of the key
    that leaves `int`. -/
theorem SectionOk.holder_moves {keys : Mx → Int} {s : Machine n} (h : SectionOk code s)
    (hinv : MutexInv code keys (abs s)) {v : Fin n} {m : Mx} (hv : Holds code s v m)
    (hno : ¬ Overflows code s v) :
    ∃ s', Step code s s' ∧ s'.threads v ≠ s.threads v := by
  obtain ⟨i, hhold, hline⟩ := hv
  generalize hp : (s.threads v).phase = p at hhold
  have moved : ∀ {s' : Machine n} (p' : Phase n), (s'.threads v).phase = p' → p' ≠ p →
      s'.threads v ≠ s.threads v := fun _ e hne => ne_of_apply_ne Thread.phase (by rw [e, hp]; exact hne)
  cases p <;> cases hhold
  · refine ⟨_, .acqTest v m ⟨hp, hline⟩ (not_lt.mp fun hk => hno ⟨m, .inl ⟨⟨hp, hline⟩, hk⟩⟩),
      ne_of_apply_ne Thread.phase ?_⟩
    unfold Machine.acqTest; split <;> simp [hp]
  · exact ⟨_, .acqPass v m ⟨hp, hline⟩, moved .out (by simp) nofun⟩
  · exact ⟨_, .acqAdd v m ⟨hp, hline⟩, moved .acqUnlock (by simp [Machine.acqAdd]) nofun⟩
  · exact ⟨_, .acqUnlock v m ⟨hp, hline⟩, moved .acqWait (by simp) nofun⟩
  · refine ⟨_, .relTest v m ⟨hp, hline⟩ (not_lt.mp fun hk => hno ⟨m, .inr ⟨⟨hp, hline⟩, hk⟩⟩),
      ne_of_apply_ne Thread.phase ?_⟩
    unfold Machine.relTest; split <;> simp [hp]
  · exact ⟨_, .relPass v m ⟨hp, hline⟩, moved .out (by simp) nofun⟩
  · obtain ⟨u, rest, hq⟩ := h.relFirst_queue hinv ⟨hp, hline⟩
    exact ⟨_, .relFirst v m ⟨hp, hline⟩ hq, moved (.relDel u) (by simp) nofun⟩
  · rename_i u
    exact ⟨_, .relDel v m u ⟨hp, hline⟩, moved (.relKill u) (by simp [Machine.relDel]) nofun⟩
  · rename_i u
    exact ⟨_, .relKill v m u ⟨hp, hline⟩, moved .relUnlock (by simp [Machine.relKill]) nofun⟩
  · exact ⟨_, .relUnlock v m ⟨hp, hline⟩, moved .out (by simp) nofun⟩

/-- **A thread that `Locks.Machine` sees awake keeps some thread moving**: when no spinlock is
    held, the awake thread itself can take the spinlock it needs, run a ring-buffer line, start a
    call, or return from `sigwaitinfo`; when one is held, its holder can go on. Either way some
    thread runs a statement that changes it, not a turn of a spin loop. -/
theorem SectionOk.exists_move {keys : Mx → Int} {s : Machine n} (h : SectionOk code s)
    (hin : Inside code s) (hinv : MutexInv code keys (abs s)) (hno : ∀ v, ¬ Overflows code s v)
    {t : Fin n} (ht : ((abs s).threads t).wait ≠ .asleep) :
    ∃ v s', Step code s s' ∧ s'.threads v ≠ s.threads v := by
  by_cases hheld : ∃ m v, s.owner m = some v
  · obtain ⟨m, v, hv⟩ := hheld
    exact ⟨v, h.holder_moves hinv ((h.spin.owner m v).mp hv) (hno v)⟩
  push_neg at hheld
  have hfree : ∀ m, s.held m = 0 := fun m =>
    (h.spin.held m).mpr (Option.eq_none_iff_forall_not_mem.mpr (hheld m))
  have hnot : ∀ m, ¬ Holds code s t m := fun m hm => hheld m t ((h.spin.owner m t).mpr hm)
  -- a thread that holds no spinlock is between calls or in `sigwaitinfo`
  have hph : (s.threads t).phase = .out ∨ (s.threads t).phase = .acqWait := by
    cases hp : (s.threads t).phase <;> first
      | exact .inl rfl | exact .inr rfl
      | exact (hin t .mutex _ (by rw [hp]; rfl)).elim fun m' hm' => absurd hm' (hnot m')
  rcases hph with hp | hp
  · cases hc : (code t)[(s.threads t).pc]? with
    | none =>
      refine ⟨t, _, .call t ((s.threads t).val + 1) hp (List.getElem?_eq_none_iff.mp hc),
        ne_of_apply_ne Thread.val ?_⟩
      simp [Machine.call]
    | some i =>
      cases i with
      | acquire m =>
        exact ⟨t, _, .lockAcq t m ⟨hp, hc⟩ (hfree m), ne_of_apply_ne Thread.phase (by simp [hp])⟩
      | release m =>
        exact ⟨t, _, .lockRel t m ⟨hp, hc⟩ (hfree m), ne_of_apply_ne Thread.phase (by simp [hp])⟩
      | store => exact ⟨t, _, .store t ⟨hp, hc⟩, ne_of_apply_ne Thread.pc (by simp [Machine.store])⟩
      | advanceIn =>
        exact ⟨t, _, .advanceIn t ⟨hp, hc⟩, ne_of_apply_ne Thread.pc (by simp [Machine.advanceIn])⟩
      | load => exact ⟨t, _, .load t ⟨hp, hc⟩, ne_of_apply_ne Thread.pc (by simp [Machine.load])⟩
      | advanceOut =>
        exact ⟨t, _, .advanceOut t ⟨hp, hc⟩, ne_of_apply_ne Thread.pc (by simp [Machine.advanceOut])⟩
  · -- awake in `sigwaitinfo`: the signal has come
    have hsig : (s.threads t).sig = true := by
      by_contra hs
      exact ht (by simp [Thread.abs, hp, hs])
    obtain ⟨m, hm⟩ := hinv.waits t (by simp [Thread.abs, hp, hsig])
    exact ⟨t, _, .acqWait t m ⟨hp, by simpa [Thread.abs, hp] using hm⟩ hsig,
      ne_of_apply_ne Thread.phase (by simp [Machine.acqWait, hp])⟩

/-- **No wake-up is lost.** For threads running any code, from non-negative keys, in every state of
    every run: a thread at the `pthread_kill(temp->pthread, SIGINT)` of `release_mutex(&m)` signals
    another thread, which is in the `sigwaitinfo` of its `acquire_mutex(&m)` with no `SIGINT`
    pending. The signal is never sent early, to the wrong thread, or twice to one sleep, where
    a second `SIGINT` would merge with the first. -/
theorem pthread_kill_wakes_sleeper {keys : Mx → Int} (hk : ∀ m, 0 ≤ keys m) {nr : Nat}
    {slots : Nat → Int} {s : Machine n} (h : Reachable code (Machine.init code keys nr slots) s)
    {t u : Fin n} {m : Mx} (hat : At code s t (.relKill u) (.release m)) :
    u ≠ t ∧ (s.threads u).phase = .acqWait ∧ (s.threads u).sig = false ∧
      (code u)[(s.threads u).pc]? = some (.acquire m) := by
  obtain ⟨hi, hr⟩ := sectionOk_abs_reachable hk h
  obtain ⟨hp, hs, hut, hc⟩ := relKill_target hi.spin (mutexInv_reachable hk hr) hat
  exact ⟨hut, hp, hs, hc⟩

/-- Thread `0` takes the mutex and thread `1` goes to sleep on it, which leaves the spinlock free
    (`s₁`); then thread `0` releases the mutex, up to its `list_first_entry` (`s₂`). -/
theorem two_threads_sleep_then_release :
    let code : Fin 2 → List Instr := fun _ => [.acquire .mutex, .release .mutex]
    ∃ s₁ s₂, Reachable code (Machine.init code (fun _ => 1) 1 fun _ => 0) s₁ ∧
      s₁.held .mutex = 0 ∧ s₁.mutexes .mutex = ⟨-1, [1]⟩ ∧ WaitsOn code s₁ .mutex 1 ∧
      Reachable code (Machine.init code (fun _ => 1) 1 fun _ => 0) s₂ ∧
      At code s₂ 0 .relFirst (.release .mutex) ∧ (s₂.mutexes .mutex).waitqueue = [1] := by
  intro code
  have r₀ : Reachable code (Machine.init code (fun _ => 1) 1 fun _ => 0)
    (Machine.init code (fun _ => 1) 1 fun _ => 0) := .init
  have r₁ := ((((((((r₀.step (.call 0 0 rfl le_rfl)).step (.call 1 0 rfl le_rfl)).step
    (.lockAcq 0 .mutex ⟨rfl, rfl⟩ rfl)).step (.acqTest 0 .mutex ⟨rfl, rfl⟩ (by decide))).step
    (.acqPass 0 .mutex ⟨rfl, rfl⟩)).step (.lockAcq 1 .mutex ⟨rfl, rfl⟩ rfl)).step
    (.acqTest 1 .mutex ⟨rfl, rfl⟩ (by decide))).step (.acqAdd 1 .mutex ⟨rfl, rfl⟩)).step
    (.acqUnlock 1 .mutex ⟨rfl, rfl⟩)
  have r₂ := (r₁.step (.lockRel 0 .mutex ⟨rfl, rfl⟩ rfl)).step
    (.relTest 0 .mutex ⟨rfl, rfl⟩ (by decide))
  exact ⟨_, _, r₁, rfl, rfl, ⟨.inr rfl, rfl, rfl⟩, r₂, ⟨rfl, rfl⟩, rfl⟩

/-- The same run, on to thread `0`'s `pthread_kill`. -/
theorem two_threads_reach_pthread_kill :
    let code : Fin 2 → List Instr := fun _ => [.acquire .mutex, .release .mutex]
    ∃ s, Reachable code (Machine.init code (fun _ => 1) 1 fun _ => 0) s ∧
      At code s 0 (.relKill 1) (.release .mutex) := by
  obtain ⟨_, s, -, -, -, -, r, hat, hq⟩ := two_threads_sleep_then_release
  exact ⟨_, (r.step (.relFirst 0 .mutex hat hq)).step (.relDel 0 .mutex 1 ⟨rfl, hat.2⟩), rfl, hat.2⟩

theorem pthread_kill_wakes_sleeper_two_threads :
    let code : Fin 2 → List Instr := fun _ => [.acquire .mutex, .release .mutex]
    ∃ s, Reachable code (Machine.init code (fun _ => 1) 1 fun _ => 0) s ∧
      At code s 0 (.relKill 1) (.release .mutex) ∧
      ((1 : Fin 2) ≠ 0 ∧ (s.threads 1).phase = .acqWait ∧ (s.threads 1).sig = false ∧
        (code 1)[(s.threads 1).pc]? = some (.acquire .mutex)) := by
  obtain ⟨s, r, hat⟩ := two_threads_reach_pthread_kill
  exact ⟨s, r, hat, pthread_kill_wakes_sleeper (fun _ => zero_le_one) r hat⟩

/-! ## The wait queue, statement by statement -/

theorem at_relKill_iff {s : Machine n} (h : SpinOk code s) {t u : Fin n} {m : Mx} :
    At code s t (.relKill u) (.release m) ↔ s.owner m = some t ∧ (s.threads t).phase = .relKill u :=
  ⟨fun hat => ⟨(h.owner m t).mpr (holds_of_at hat rfl), hat.1⟩, fun ⟨ho, hp⟩ => by
    obtain ⟨i, hi, hc⟩ := (h.owner m t).mp ho
    rw [hp] at hi
    exact ⟨hp, Option.some.inj hi ▸ hc⟩⟩

theorem Phase.mem_undo {p : Phase n} {mx : Mutex (Fin n)} {u : Fin n} :
    u ∈ (p.undo mx).waitqueue ↔ u ∈ mx.waitqueue ∨ p = .relKill u := by
  cases p <;> simp [Phase.undo, or_comm, eq_comm]

/-- The wait queue as `Locks.Machine` sees it holds the queue as it stands and the thread that
    `pthread_kill` is about to signal, after its `list_del`. -/
theorem mem_absMutex_iff {s : Machine n} (h : SpinOk code s) {m : Mx} {u : Fin n} :
    u ∈ (absMutex s m).waitqueue ↔
      u ∈ (s.mutexes m).waitqueue ∨ ∃ t, At code s t (.relKill u) (.release m) := by
  simp only [at_relKill_iff h]
  cases e : s.owner m with
  | none => simp only [absMutex_of_none e, reduceCtorEq, false_and, exists_false, or_false]
  | some t => simp only [absMutex_of_some e, Phase.mem_undo, Option.some.injEq, exists_eq_left']

/-- The same, in order: the thread about to be signalled stands before the queue. -/
theorem absMutex_waitqueue {s : Machine n} (h : SpinOk code s) (m : Mx) :
    (absMutex s m).waitqueue = (s.mutexes m).waitqueue ∨ ∃ t u,
      At code s t (.relKill u) (.release m) ∧ (absMutex s m).waitqueue = u :: (s.mutexes m).waitqueue := by
  cases e : s.owner m with
  | none => exact .inl (by rw [absMutex_of_none e])
  | some t =>
    rw [absMutex_of_some e]
    cases hp : (s.threads t).phase
    case relKill u => exact .inr ⟨t, u, (at_relKill_iff h).mpr ⟨e, hp⟩, rfl⟩
    all_goals exact .inl rfl

/-- **The wait queue holds exactly the waiting threads.** For threads running any code, from
    non-negative keys, in every state of every run: a thread is on the wait queue of `m`, or is the
    one that `release_mutex(&m)` took off it and is about to signal, exactly when it waits in
    `acquire_mutex(&m)` past its `list_add_tail` with no `SIGINT` yet. So every entry, a
    `struct thread` on its owner's stack, belongs to a thread that has not returned from
    `acquire_mutex`, and no thread sleeps in `sigwaitinfo` without an entry that will bring its
    signal. -/
theorem waitqueue_holds_waiters {keys : Mx → Int} (hk : ∀ m, 0 ≤ keys m) {nr : Nat}
    {slots : Nat → Int} {s : Machine n} (h : Reachable code (Machine.init code keys nr slots) s)
    (m : Mx) (u : Fin n) :
    (u ∈ (s.mutexes m).waitqueue ∨ ∃ t, At code s t (.relKill u) (.release m)) ↔
      WaitsOn code s m u := by
  obtain ⟨hi, hr⟩ := sectionOk_abs_reachable hk h
  rw [← mem_absMutex_iff hi.spin, ← sleepsOn_abs_iff]
  exact ((mutexInv_reachable hk hr).ok m).mem_iff u

theorem waitqueue_holds_waiters_two_threads :
    let code : Fin 2 → List Instr := fun _ => [.acquire .mutex, .release .mutex]
    ∃ s, Reachable code (Machine.init code (fun _ => 1) 1 fun _ => 0) s ∧ WaitsOn code s .mutex 1 := by
  obtain ⟨s, r, hat⟩ := two_threads_reach_pthread_kill
  exact ⟨s, r, (waitqueue_holds_waiters (fun _ => zero_le_one) r .mutex 1).mp (.inr ⟨0, hat⟩)⟩

/-- **Waiters are woken in the order they went to sleep, statement by statement.** For threads
    running any code, from non-negative keys, in every state of every run: the threads that ran the
    `list_add_tail` of `acquire_mutex(&m)`, in order, are those that `release_mutex(&m)` signalled,
    in order, followed by the wait queue; between its `list_del` and its `pthread_kill`, the thread
    about to be signalled stands between the two. -/
theorem mutex_wakes_in_order_by_statements {keys : Mx → Int} (hk : ∀ m, 0 ≤ keys m) {nr : Nat}
    {slots : Nat → Int} {s : Machine n} (h : Reachable code (Machine.init code keys nr slots) s)
    (m : Mx) :
    s.slept m = s.woke m ++ (s.mutexes m).waitqueue ∨ ∃ t u, At code s t (.relKill u) (.release m) ∧
      s.slept m = s.woke m ++ u :: (s.mutexes m).waitqueue := by
  obtain ⟨hi, hr⟩ := sectionOk_abs_reachable hk h
  have hq : s.slept m = s.woke m ++ (absMutex s m).waitqueue := queueLogged_reachable hr m
  rcases absMutex_waitqueue hi.spin m with e | ⟨t, u, hat, e⟩
  · exact .inl (e ▸ hq)
  · exact .inr ⟨t, u, hat, e ▸ hq⟩

theorem mutex_wakes_in_order_by_statements_two_threads :
    let code : Fin 2 → List Instr := fun _ => [.acquire .mutex, .release .mutex]
    ∃ s, Reachable code (Machine.init code (fun _ => 1) 1 fun _ => 0) s ∧
      (s.slept .mutex = s.woke .mutex ++ (s.mutexes .mutex).waitqueue ∨
        ∃ t u, At code s t (.relKill u) (.release .mutex) ∧
          s.slept .mutex = s.woke .mutex ++ u :: (s.mutexes .mutex).waitqueue) := by
  obtain ⟨s, r, -⟩ := two_threads_reach_pthread_kill
  exact ⟨s, r, mutex_wakes_in_order_by_statements (fun _ => zero_le_one) r .mutex⟩

/-- **The spinlocks add no deadlock.** For threads running any code, from non-negative keys, in
    every state of every run: while some thread is not waiting for its `SIGINT` in
    `acquire_mutex`, some thread can run a statement that moves it on, not a turn of a spin loop,
    unless a thread is at a test of a key that leaves `int`. So a run stops only there or with
    every thread waiting in `acquire_mutex`, each on its mutex's wait queue or about to be
    signalled (`waitqueue_holds_waiters`). -/
theorem some_thread_moves {keys : Mx → Int} (hk : ∀ m, 0 ≤ keys m) {nr : Nat} {slots : Nat → Int}
    {s : Machine n} (h : Reachable code (Machine.init code keys nr slots) s) {t : Fin n}
    (ht : ∀ m, ¬ WaitsOn code s m t) :
    (∃ v s', Step code s s' ∧ s'.threads v ≠ s.threads v) ∨ ∃ u, Overflows code s u := by
  obtain ⟨hi, hr⟩ := sectionOk_abs_reachable hk h
  have hinv := mutexInv_reachable hk hr
  by_cases hno : ∃ u, Overflows code s u
  · exact .inr hno
  refine .inl (hi.exists_move (inside_reachable h) hinv (not_exists.mp hno) (t := t) fun hw => ?_)
  obtain ⟨m, hm⟩ := hinv.waits t (by rw [hw]; exact nofun)
  exact ht m (sleepsOn_abs_iff.mp ⟨hw, hm⟩)

theorem some_thread_moves_two_threads :
    let code : Fin 2 → List Instr := fun _ => [.acquire .mutex, .release .mutex]
    ∃ s, Reachable code (Machine.init code (fun _ => 1) 1 fun _ => 0) s ∧
      (∀ m, ¬ WaitsOn code s m 0) ∧
      ((∃ v s', Step code s s' ∧ s'.threads v ≠ s.threads v) ∨ ∃ u, Overflows code s u) := by
  intro code
  obtain ⟨s, r, hat⟩ := two_threads_reach_pthread_kill
  have ht : ∀ m, ¬ WaitsOn code s m 0 := fun _ ⟨hp, _⟩ => by
    rcases hp with hp | hp <;> rw [hat.1] at hp <;> cases hp
  exact ⟨s, r, ht, some_thread_moves (fun _ => zero_le_one) r ht⟩

/-! ## The counts of a mutex, statement by statement -/

/-- **`list_first_entry` never reads an empty wait queue.** For threads running any code, from
    non-negative keys, in every state of every run: when `release_mutex(&m)` reaches its
    `list_first_entry`, after `++key > 0` failed, the queue has a first entry, and that entry is
    the `struct thread` of a thread waiting in `acquire_mutex(&m)`, never the list head read as
    one. -/
theorem list_first_entry_nonempty {keys : Mx → Int} (hk : ∀ m, 0 ≤ keys m) {nr : Nat}
    {slots : Nat → Int} {s : Machine n} (h : Reachable code (Machine.init code keys nr slots) s)
    {t : Fin n} {m : Mx} (hat : At code s t .relFirst (.release m)) :
    ∃ u rest, (s.mutexes m).waitqueue = u :: rest ∧ WaitsOn code s m u := by
  obtain ⟨hi, hr⟩ := sectionOk_abs_reachable hk h
  have hinv := mutexInv_reachable hk hr
  obtain ⟨u, rest, hq⟩ := hi.relFirst_queue hinv hat
  have hu : u ∈ (absMutex s m).waitqueue :=
    (mem_absMutex_iff hi.spin).mpr (.inl (hq ▸ List.mem_cons_self u rest))
  exact ⟨u, rest, hq, sleepsOn_abs_iff.mp (((hinv.ok m).mem_iff u).mp hu)⟩

theorem list_first_entry_nonempty_two_threads :
    let code : Fin 2 → List Instr := fun _ => [.acquire .mutex, .release .mutex]
    ∃ s, Reachable code (Machine.init code (fun _ => 1) 1 fun _ => 0) s ∧
      At code s 0 .relFirst (.release .mutex) ∧
      ∃ u rest, (s.mutexes .mutex).waitqueue = u :: rest ∧ WaitsOn code s .mutex u := by
  obtain ⟨_, s, -, -, -, -, r, hat, -⟩ := two_threads_sleep_then_release
  exact ⟨s, r, hat, list_first_entry_nonempty (fun _ => zero_le_one) r hat⟩

/-- **The semaphore invariant holds whenever the spinlock is free.** For threads running any code,
    from keys `keys m ≥ 0`, in every state of every run and for every mutex whose spinlock is free:
    the wait queue holds each thread once and `max 0 (-key)` of them, and the returns from
    `acquire_mutex(&m)` exceed the calls of `release_mutex(&m)` by at most `keys m`. While a thread
    holds the spinlock, between its test of the key and its `list_add_tail` or `pthread_kill`, the
    key and the queue are out of step by one. -/
theorem mutex_counts_when_free {keys : Mx → Int} (hk : ∀ m, 0 ≤ keys m) {nr : Nat}
    {slots : Nat → Int} {s : Machine n} (h : Reachable code (Machine.init code keys nr slots) s)
    {m : Mx} (hfree : s.held m = 0) :
    (s.mutexes m).waitqueue.Nodup ∧
      ((s.mutexes m).waitqueue.length : Int) = max 0 (-(s.mutexes m).key) ∧
      (s.passed m : Int) - s.released m ≤ keys m := by
  obtain ⟨hi, hr⟩ := sectionOk_abs_reachable hk h
  have ok := (mutexInv_reachable hk hr).ok m
  have hmx : (abs s).mutexes m = s.mutexes m := absMutex_of_none ((hi.spin.held m).mp hfree)
  exact ⟨hmx ▸ ok.nodup, hmx ▸ ok.length_eq, ok.passed_sub_released_le⟩

/-- Thread `1` asleep on the mutex, its spinlock free: one waiter, and the key at `-1`. -/
theorem mutex_counts_when_free_one_asleep :
    let code : Fin 2 → List Instr := fun _ => [.acquire .mutex, .release .mutex]
    ∃ s, Reachable code (Machine.init code (fun _ => 1) 1 fun _ => 0) s ∧ s.held .mutex = 0 ∧
      WaitsOn code s .mutex 1 ∧ s.mutexes .mutex = ⟨-1, [1]⟩ ∧ (s.mutexes .mutex).waitqueue.Nodup ∧
      ((s.mutexes .mutex).waitqueue.length : Int) = max 0 (-(s.mutexes .mutex).key) ∧
      (s.passed .mutex : Int) - s.released .mutex ≤ 1 := by
  obtain ⟨s, _, r, hheld, hmx, hw, -⟩ := two_threads_sleep_then_release
  exact ⟨s, r, hheld, hw, hmx, mutex_counts_when_free (fun _ => zero_le_one) r hheld⟩

/-! ## The ring buffer, statement by statement -/

theorem ringKeys_nonneg {nr : Nat} (hnr : 1 ≤ nr) (m : Mx) : 0 ≤ ringKeys nr m := by
  cases m <;> simp [ringKeys]; omega

/-- **The ring buffer keeps its guarantees statement by statement.** For any producers and
    consumers after `init_ringbuffer(nr)` with `nr ≥ 1`, running `acquire_mutex` and
    `release_mutex` statement by statement: the values dequeued are a prefix of the values stored,
    at most `nr - 1` values are in the buffer, a consumer at its load finds one, and at most one
    thread is inside `ringbuffer.mutex` (past the return of its `acquire_mutex(&mutex)`, as
    `Locks.Machine` sees it, and before that of its `release_mutex(&mutex)`). -/
theorem ringbuffer_by_statements (role : Fin n → Bool) {nr : Nat} (slots : Nat → Int)
    (hnr : 1 ≤ nr) {s : Machine n}
    (h : Reachable (ringCode role) (Machine.init (ringCode role) (ringKeys nr) nr slots) s) :
    s.ring.deq <+: s.ring.enq ∧ s.ring.enq.length ≤ s.ring.deq.length + (nr - 1) ∧
    (∀ t, At (ringCode role) s t .out .load → s.ring.deq.length < s.ring.enq.length) ∧
    ∀ t u, t ≠ u → HoldsMutex (abs s) t → ¬ HoldsMutex (abs s) u := by
  have ok := ringOk_reachable role hnr ((sectionOk_abs_reachable (ringKeys_nonneg hnr) h).2)
  have := ok.filled_le
  exact ⟨ok.data.deq_le, by simp only [abs] at this; omega,
    fun t hat => ok.filled_pos_of_load (hat.toAbs (Thread.abs_of_out hat.1)),
    fun _ _ htu ht hu => ok.holdsMutex_unique htu ht hu⟩

/-- With two slots, a producer enqueues `7` and a consumer dequeues it, statement by statement. -/
theorem ringbuffer_by_statements_after_dequeue :
    1 ≤ 2 ∧ ∃ s, Reachable (ringCode ![true, false])
      (Machine.init (ringCode ![true, false]) (ringKeys 2) 2 fun _ => 0) s ∧ s.ring.deq = [7] ∧
      s.ring.deq <+: s.ring.enq ∧ s.ring.enq.length ≤ s.ring.deq.length + (2 - 1) ∧
      (∀ t, At (ringCode ![true, false]) s t .out .load → s.ring.deq.length < s.ring.enq.length) ∧
      ∀ t u, t ≠ u → HoldsMutex (abs s) t → ¬ HoldsMutex (abs s) u := by
  have r₀ : Reachable (ringCode ![true, false])
      (Machine.init (ringCode ![true, false]) (ringKeys 2) 2 fun _ => 0)
      (Machine.init (ringCode ![true, false]) (ringKeys 2) 2 fun _ => 0) := .init
  -- thread 0 runs enqueue_into_ringbuffer(7), each acquire_mutex and release_mutex passing
  have rp := ((((((((((((((r₀.step (.call 0 7 rfl le_rfl)).step
    (.lockAcq 0 .full ⟨rfl, rfl⟩ rfl)).step (.acqTest 0 .full ⟨rfl, rfl⟩ (by decide))).step
    (.acqPass 0 .full ⟨rfl, rfl⟩)).step
    (.lockAcq 0 .mutex ⟨rfl, rfl⟩ rfl)).step (.acqTest 0 .mutex ⟨rfl, rfl⟩ (by decide))).step
    (.acqPass 0 .mutex ⟨rfl, rfl⟩)).step (.store 0 ⟨rfl, rfl⟩)).step (.advanceIn 0 ⟨rfl, rfl⟩)).step
    (.lockRel 0 .mutex ⟨rfl, rfl⟩ rfl)).step (.relTest 0 .mutex ⟨rfl, rfl⟩ (by decide))).step
    (.relPass 0 .mutex ⟨rfl, rfl⟩)).step (.lockRel 0 .empty ⟨rfl, rfl⟩ rfl)).step
    (.relTest 0 .empty ⟨rfl, rfl⟩ (by decide))).step (.relPass 0 .empty ⟨rfl, rfl⟩)
  -- thread 1 runs dequeue_from_ringbuffer
  have rc := ((((((((((((((rp.step (.call 1 0 rfl le_rfl)).step
    (.lockAcq 1 .empty ⟨rfl, rfl⟩ rfl)).step (.acqTest 1 .empty ⟨rfl, rfl⟩ (by decide))).step
    (.acqPass 1 .empty ⟨rfl, rfl⟩)).step
    (.lockAcq 1 .mutex ⟨rfl, rfl⟩ rfl)).step (.acqTest 1 .mutex ⟨rfl, rfl⟩ (by decide))).step
    (.acqPass 1 .mutex ⟨rfl, rfl⟩)).step (.load 1 ⟨rfl, rfl⟩)).step (.advanceOut 1 ⟨rfl, rfl⟩)).step
    (.lockRel 1 .mutex ⟨rfl, rfl⟩ rfl)).step (.relTest 1 .mutex ⟨rfl, rfl⟩ (by decide))).step
    (.relPass 1 .mutex ⟨rfl, rfl⟩)).step (.lockRel 1 .full ⟨rfl, rfl⟩ rfl)).step
    (.relTest 1 .full ⟨rfl, rfl⟩ (by decide))).step (.relPass 1 .full ⟨rfl, rfl⟩)
  exact ⟨by decide, _, rc, rfl, ringbuffer_by_statements ![true, false] _ (by decide) rc⟩

end Spin
end Locks
end OsHomeworks
