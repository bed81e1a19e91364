import OsHomeworks.Locks.Machine

/-!
# `Locks.Spin` — the mutex code of `pa3.c` statement by statement, with its spinlock

`Locks.Machine` runs the spinlock-held part of `acquire_mutex` and of `release_mutex` as one step.
This module runs the code as written: each statement of the two functions is a step, and the other
threads' steps may come between any two of them.

* **The spinlock.** `struct spinlock` is the word `held`. `acquire_spinlock` loops on
  `compare_and_swap(&lock->held, 0, 1)` (from `atomic.h`, which is not in the sources: it writes `1`
  when it reads `0`, and returns what it read), so each try is a step: it takes the lock when `held`
  is `0` (`Step.lockAcq`, `Step.lockRel`) and changes nothing otherwise (`Step.spin`).
  `release_spinlock` stores `0`. The ghost `owner` names the thread whose try took the lock.
* **The statements** (`Phase`). `acquire_mutex`: `--key >= 0` (`acqTest`); then either
  `release_spinlock; return` (`acqPass`), or the blocking of `SIGINT` with `list_add_tail`
  (`acqAdd`), `release_spinlock` (`acqUnlock`) and `sigwaitinfo` (`acqWait`). `release_mutex`:
  `++key > 0` (`relTest`); then either `release_spinlock; return` (`relPass`), or
  `list_first_entry` (`relFirst`), `list_del` (`relDel`), `pthread_kill` (`relKill`) and
  `release_spinlock; return` (`relUnlock`). The statements that touch only the thread's own
  variables (`sigemptyset`, `sigaddset`, `sigprocmask`, `pthread_self`) run with `list_add_tail`:
  no other thread can see them, and no `SIGINT` can be sent to the thread before it is on the
  queue. A `SIGINT` sent by `pthread_kill` stays pending (`Thread.sig`) until `sigwaitinfo` takes
  it. `list_first_entry` of an empty queue has no step, and neither has a `--key` below `INT_MIN`
  or a `++key` above `INT_MAX`, which C leaves undefined (`Overflows`).

The ring-buffer lines are the steps of `Locks.Machine`.

The spinlock is exclusive (`SpinOk`, `spinlock_exclusive`): on every run `held` is `0` exactly when
no thread holds it, and at most one thread at a time runs the statements between the
`compare_and_swap` that takes it and the `release_spinlock`. A thread at such a statement stands on
the line of its call, so it holds a spinlock (`Inside`).
-/

namespace OsHomeworks
namespace Locks
namespace Spin

variable {n : Nat}

/-- Where a thread stands in `acquire_mutex` or `release_mutex`, by statement. -/
inductive Phase (n : Nat) where
  /-- Not inside a call of either; on such a line, the `compare_and_swap` of `acquire_spinlock`. -/
  | out
  /-- `acquire_mutex`, spinlock taken: `if (--mutex->key >= 0)`. -/
  | acqTest
  /-- `release_spinlock(&mutex->spinlock); return;` after a non-negative key. -/
  | acqPass
  /-- The blocking of `SIGINT`, and `list_add_tail(&t.list, &mutex->waitqueue)`. -/
  | acqAdd
  /-- `release_spinlock(&mutex->spinlock)` before the sleep. -/
  | acqUnlock
  /-- `sigwaitinfo(&set, NULL)`. -/
  | acqWait
  /-- `release_mutex`, spinlock taken: `if (++mutex->key > 0)`. -/
  | relTest
  /-- `release_spinlock(&mutex->spinlock); return;` after a positive key. -/
  | relPass
  /-- `temp = list_first_entry(&mutex->waitqueue, struct thread, list)`. -/
  | relFirst
  /-- `list_del(&temp->list)`. -/
  | relDel (temp : Fin n)
  /-- `pthread_kill(temp->pthread, SIGINT)`. -/
  | relKill (temp : Fin n)
  /-- `release_spinlock(&mutex->spinlock); return;` after the signal. -/
  | relUnlock
  deriving DecidableEq, Repr

/-- The line of a thread at statement `p` that holds the spinlock of `m`: the call on `m` the
    statement belongs to; `none` at the statements that run without the spinlock. -/
def Phase.holding : Phase n → Mx → Option Instr
  | .acqTest, m | .acqPass, m | .acqAdd, m | .acqUnlock, m => some (.acquire m)
  | .relTest, m | .relPass, m | .relFirst, m | .relDel _, m | .relKill _, m | .relUnlock, m =>
    some (.release m)
  | .out, _ | .acqWait, _ => none

@[simp] theorem Phase.holding_out : (Phase.out : Phase n).holding = fun _ => none := rfl

@[simp] theorem Phase.holding_acqWait : (Phase.acqWait : Phase n).holding = fun _ => none := rfl

/-- A statement that holds a spinlock holds the one of its line's mutex. -/
theorem Phase.holding_inj {p : Phase n} {m m' : Mx} {i : Instr} (h : p.holding m = some i)
    (h' : p.holding m' = some i) : m = m' := by
  cases p <;> simp only [Phase.holding, Option.some.injEq, reduceCtorEq] at h h' <;>
    (subst h; simpa [eq_comm] using h')

/-- A thread: its line, its statement within a mutex call, whether a `SIGINT` is pending, and its
    local value. -/
structure Thread (n : Nat) where
  pc : Nat
  phase : Phase n
  sig : Bool
  val : Int
  deriving DecidableEq

/-- The shared state of `n` threads. -/
structure Machine (n : Nat) where
  mutexes : Mx → Mutex (Fin n)
  /-- `mutex->spinlock.held`. -/
  held : Mx → Int
  /-- Ghost: the thread whose `compare_and_swap` took each spinlock. -/
  owner : Mx → Option (Fin n)
  threads : Fin n → Thread n
  ring : Ring
  /-- Ghost: the returns from `acquire_mutex`, per mutex. -/
  passed : Mx → Nat
  /-- Ghost: the calls of `release_mutex` past their test of the key, per mutex. -/
  released : Mx → Nat
  /-- Ghost: the threads that `acquire_mutex` put on the queue, per mutex, in order. -/
  slept : Mx → List (Fin n)
  /-- Ghost: the threads that `release_mutex` signalled, per mutex, in order. -/
  woke : Mx → List (Fin n)

namespace Machine

/-- Replace thread `t`. -/
@[simp] def setThread (s : Machine n) (t : Fin n) (th : Thread n) : Machine n :=
  { s with threads := Function.update s.threads t th }

/-- Replace mutex `m`. -/
@[simp] def setMutex (s : Machine n) (m : Mx) (mx : Mutex (Fin n)) : Machine n :=
  { s with mutexes := Function.update s.mutexes m mx }

/-- Thread `t` goes on to statement `p` of its line. -/
@[simp] def goTo (s : Machine n) (t : Fin n) (p : Phase n) : Machine n :=
  s.setThread t { s.threads t with phase := p }

/-- Thread `t` returns from its line. -/
@[simp] def finish (s : Machine n) (t : Fin n) : Machine n :=
  s.setThread t { s.threads t with pc := (s.threads t).pc + 1, phase := .out }

/-- A `compare_and_swap(&mutex->spinlock.held, 0, 1)` of thread `t` that reads `0`; `t` goes on to
    statement `p`. -/
@[simp] def lock (s : Machine n) (t : Fin n) (m : Mx) (p : Phase n) : Machine n :=
  { s.goTo t p with held := Function.update s.held m 1,
                    owner := Function.update s.owner m (some t) }

/-- `release_spinlock(&mutex->spinlock)`. -/
@[simp] def unlock (s : Machine n) (m : Mx) : Machine n :=
  { s with held := Function.update s.held m 0, owner := Function.update s.owner m none }

/-- `if (--mutex->key >= 0)` by thread `t`; `Step.acqTest` takes it only where `--key` stays in
    `int`. -/
def acqTest (s : Machine n) (t : Fin n) (m : Mx) : Machine n :=
  let s' := s.setMutex m { s.mutexes m with key := (s.mutexes m).key - 1 }
  if 0 ≤ (s.mutexes m).key - 1 then
    { s'.goTo t .acqPass with passed := Function.update s.passed m (s.passed m + 1) }
  else s'.goTo t .acqAdd

/-- `list_add_tail(&t.list, &mutex->waitqueue)` by thread `t`. -/
def acqAdd (s : Machine n) (t : Fin n) (m : Mx) : Machine n :=
  { (s.setMutex m { s.mutexes m with waitqueue := (s.mutexes m).waitqueue ++ [t] }).goTo t
      .acqUnlock with
    slept := Function.update s.slept m (s.slept m ++ [t]) }

/-- `sigwaitinfo` takes the pending `SIGINT`, and `acquire_mutex(&m)` returns. -/
def acqWait (s : Machine n) (t : Fin n) (m : Mx) : Machine n :=
  { s.setThread t { s.threads t with pc := (s.threads t).pc + 1, phase := .out, sig := false } with
    passed := Function.update s.passed m (s.passed m + 1) }

/-- `if (++mutex->key > 0)` by thread `t`; `Step.relTest` takes it only where `++key` stays in
    `int`. -/
def relTest (s : Machine n) (t : Fin n) (m : Mx) : Machine n :=
  let s' := s.setMutex m { s.mutexes m with key := (s.mutexes m).key + 1 }
  if 0 < (s.mutexes m).key + 1 then
    { s'.goTo t .relPass with released := Function.update s.released m (s.released m + 1) }
  else s'.goTo t .relFirst

/-- `list_del(&temp->list)` by thread `t`, with `temp` naming thread `u`. -/
def relDel (s : Machine n) (t : Fin n) (m : Mx) (u : Fin n) : Machine n :=
  (s.setMutex m { s.mutexes m with waitqueue := (s.mutexes m).waitqueue.erase u }).goTo t (.relKill u)

/-- `pthread_kill(temp->pthread, SIGINT)` by thread `t`: a `SIGINT` is pending at `u`. -/
def relKill (s : Machine n) (t : Fin n) (m : Mx) (u : Fin n) : Machine n :=
  { (s.setThread u { s.threads u with sig := true }).goTo t .relUnlock with
    released := Function.update s.released m (s.released m + 1),
    woke := Function.update s.woke m (s.woke m ++ [u]) }

/-- The store of `enqueue_into_ringbuffer` by thread `t`. -/
def store (s : Machine n) (t : Fin n) : Machine n :=
  { s.finish t with
    ring := { s.ring with slots := Function.update s.ring.slots s.ring.in' (s.threads t).val } }

/-- The advance of `in` by thread `t`; its value joins `enq`. -/
def advanceIn (s : Machine n) (t : Fin n) : Machine n :=
  { s.finish t with
    ring := { s.ring with in' := advance s.ring.in' s.ring.nrSlots,
                          enq := s.ring.enq ++ [(s.threads t).val] } }

/-- The load of `dequeue_from_ringbuffer` by thread `t`. -/
def load (s : Machine n) (t : Fin n) : Machine n :=
  s.setThread t { s.threads t with pc := (s.threads t).pc + 1, val := s.ring.slots s.ring.out }

/-- The advance of `out` by thread `t`; its `data` joins `deq`. -/
def advanceOut (s : Machine n) (t : Fin n) : Machine n :=
  { s.finish t with
    ring := { s.ring with out := advance s.ring.out s.ring.nrSlots,
                          deq := s.ring.deq ++ [(s.threads t).val] } }

/-- Thread `t` starts a new call with argument `v`. -/
def call (s : Machine n) (t : Fin n) (v : Int) : Machine n :=
  s.setThread t { s.threads t with pc := 0, val := v }

theorem acqTest_of_pass {s : Machine n} {t : Fin n} {m : Mx} (h : 0 ≤ (s.mutexes m).key - 1) :
    s.acqTest t m = { (s.setMutex m { s.mutexes m with key := (s.mutexes m).key - 1 }).goTo t .acqPass
      with passed := Function.update s.passed m (s.passed m + 1) } := if_pos h

theorem acqTest_of_sleep {s : Machine n} {t : Fin n} {m : Mx} (h : ¬ 0 ≤ (s.mutexes m).key - 1) :
    s.acqTest t m =
      (s.setMutex m { s.mutexes m with key := (s.mutexes m).key - 1 }).goTo t .acqAdd := if_neg h

theorem relTest_of_pass {s : Machine n} {t : Fin n} {m : Mx} (h : 0 < (s.mutexes m).key + 1) :
    s.relTest t m = { (s.setMutex m { s.mutexes m with key := (s.mutexes m).key + 1 }).goTo t .relPass
      with released := Function.update s.released m (s.released m + 1) } := if_pos h

theorem relTest_of_wake {s : Machine n} {t : Fin n} {m : Mx} (h : ¬ 0 < (s.mutexes m).key + 1) :
    s.relTest t m =
      (s.setMutex m { s.mutexes m with key := (s.mutexes m).key + 1 }).goTo t .relFirst := if_neg h

end Machine

variable (code : Fin n → List Instr)

/-- Thread `t` is at statement `p` of its line `i`. -/
def At (s : Machine n) (t : Fin n) (p : Phase n) (i : Instr) : Prop :=
  (s.threads t).phase = p ∧ (code t)[(s.threads t).pc]? = some i

/-- One statement of one thread. -/
inductive Step : Machine n → Machine n → Prop where
  | call {s : Machine n} (t : Fin n) (v : Int) (hp : (s.threads t).phase = .out)
      (hend : (code t).length ≤ (s.threads t).pc) : Step s (s.call t v)
  /-- `compare_and_swap` reads `1`: `acquire_spinlock` goes round its loop. -/
  | spin {s : Machine n} (t : Fin n) (m : Mx) {i : Instr} (h : At code s t .out i)
      (hi : i = .acquire m ∨ i = .release m) (hheld : s.held m ≠ 0) : Step s s
  | lockAcq {s : Machine n} (t : Fin n) (m : Mx) (h : At code s t .out (.acquire m))
      (hheld : s.held m = 0) : Step s (s.lock t m .acqTest)
  | lockRel {s : Machine n} (t : Fin n) (m : Mx) (h : At code s t .out (.release m))
      (hheld : s.held m = 0) : Step s (s.lock t m .relTest)
  | acqTest {s : Machine n} (t : Fin n) (m : Mx) (h : At code s t .acqTest (.acquire m))
      (hk : intMin ≤ (s.mutexes m).key - 1) : Step s (s.acqTest t m)
  | acqPass {s : Machine n} (t : Fin n) (m : Mx) (h : At code s t .acqPass (.acquire m)) :
      Step s ((s.unlock m).finish t)
  | acqAdd {s : Machine n} (t : Fin n) (m : Mx) (h : At code s t .acqAdd (.acquire m)) :
      Step s (s.acqAdd t m)
  | acqUnlock {s : Machine n} (t : Fin n) (m : Mx) (h : At code s t .acqUnlock (.acquire m)) :
      Step s ((s.unlock m).goTo t .acqWait)
  | acqWait {s : Machine n} (t : Fin n) (m : Mx) (h : At code s t .acqWait (.acquire m))
      (hsig : (s.threads t).sig = true) : Step s (s.acqWait t m)
  | relTest {s : Machine n} (t : Fin n) (m : Mx) (h : At code s t .relTest (.release m))
      (hk : (s.mutexes m).key + 1 ≤ intMax) : Step s (s.relTest t m)
  | relPass {s : Machine n} (t : Fin n) (m : Mx) (h : At code s t .relPass (.release m)) :
      Step s ((s.unlock m).finish t)
  | relFirst {s : Machine n} (t : Fin n) (m : Mx) {u : Fin n} {rest : List (Fin n)}
      (h : At code s t .relFirst (.release m)) (hq : (s.mutexes m).waitqueue = u :: rest) :
      Step s (s.goTo t (.relDel u))
  | relDel {s : Machine n} (t : Fin n) (m : Mx) (u : Fin n)
      (h : At code s t (.relDel u) (.release m)) : Step s (s.relDel t m u)
  | relKill {s : Machine n} (t : Fin n) (m : Mx) (u : Fin n)
      (h : At code s t (.relKill u) (.release m)) : Step s (s.relKill t m u)
  | relUnlock {s : Machine n} (t : Fin n) (m : Mx) (h : At code s t .relUnlock (.release m)) :
      Step s ((s.unlock m).finish t)
  | store {s : Machine n} (t : Fin n) (h : At code s t .out .store) : Step s (s.store t)
  | advanceIn {s : Machine n} (t : Fin n) (h : At code s t .out .advanceIn) :
      Step s (s.advanceIn t)
  | load {s : Machine n} (t : Fin n) (h : At code s t .out .load) : Step s (s.load t)
  | advanceOut {s : Machine n} (t : Fin n) (h : At code s t .out .advanceOut) :
      Step s (s.advanceOut t)

/-- Thread `t` is at a test of the key that leaves `int`: there is no step. -/
def Overflows (s : Machine n) (t : Fin n) : Prop :=
  ∃ m, (At code s t .acqTest (.acquire m) ∧ (s.mutexes m).key - 1 < intMin) ∨
    (At code s t .relTest (.release m) ∧ intMax < (s.mutexes m).key + 1)

/-- The states of the runs from `s₀`. -/
inductive Reachable (s₀ : Machine n) : Machine n → Prop where
  | init : Reachable s₀ s₀
  | step {s s' : Machine n} : Reachable s₀ s → Step code s s' → Reachable s₀ s'

/-- Every thread between calls with no signal pending, the mutexes' keys `keys` with empty queues
    and free spinlocks (`init_mutex`), `nr` slots holding what `malloc` returned, and
    `in = out = 0`. -/
def Machine.init (keys : Mx → Int) (nr : Nat) (slots : Nat → Int) : Machine n where
  mutexes m := ⟨keys m, []⟩
  held _ := 0
  owner _ := none
  threads t := ⟨(code t).length, .out, false, 0⟩
  ring := ⟨nr, slots, 0, 0, [], []⟩
  passed _ := 0
  released _ := 0
  slept _ := []
  woke _ := []

/-- A property that holds of `s₀` and that every step keeps holds of every state of every run. -/
theorem Reachable.induct {s₀ : Machine n} (P : Machine n → Prop) (h₀ : P s₀)
    (hstep : ∀ s s', P s → Step code s s' → P s') {s : Machine n} (h : Reachable code s₀ s) :
    P s := by
  induction h with
  | init => exact h₀
  | step _ hs ih => exact hstep _ _ ih hs

/-! ## The spinlock is exclusive -/

/-- Thread `t` runs a statement of a call on `m` that holds the spinlock of `m`. -/
def Holds (s : Machine n) (t : Fin n) (m : Mx) : Prop :=
  ∃ i, (s.threads t).phase.holding m = some i ∧ (code t)[(s.threads t).pc]? = some i

/-- The invariant of the spinlocks: `held` is `0` exactly when the spinlock has no owner, and the
    owner is the thread that holds it. -/
structure SpinOk (s : Machine n) : Prop where
  held : ∀ m, s.held m = 0 ↔ s.owner m = none
  owner : ∀ m t, s.owner m = some t ↔ Holds code s t m

variable {code}

theorem holds_congr {s s' : Machine n} {t : Fin n}
    (hp : (s'.threads t).phase.holding = (s.threads t).phase.holding)
    (hc : (s'.threads t).pc = (s.threads t).pc) (m : Mx) : Holds code s' t m ↔ Holds code s t m := by
  simp only [Holds, hp, hc]

theorem not_holds {s : Machine n} {t : Fin n} (hp : ∀ m, (s.threads t).phase.holding m = none)
    (m : Mx) : ¬ Holds code s t m := fun ⟨_, h, _⟩ => by rw [hp] at h; cases h

/-- A thread holds at most one spinlock. -/
theorem Holds.unique {s : Machine n} {t : Fin n} {m m' : Mx} (h : Holds code s t m)
    (h' : Holds code s t m') : m = m' := by
  obtain ⟨i, hi, hc⟩ := h
  obtain ⟨i', hi', hc'⟩ := h'
  rw [hc, Option.some.injEq] at hc'
  subst hc'
  exact Phase.holding_inj hi hi'

theorem holds_of_at {s : Machine n} {t : Fin n} {p : Phase n} {i : Instr} {m : Mx}
    (hat : At code s t p i) (hp : p.holding m = some i) : Holds code s t m :=
  ⟨i, hat.1 ▸ hp, hat.2⟩

theorem Holds.not_other {s : Machine n} {t : Fin n} {m : Mx} (h : Holds code s t m) :
    ∀ m', m' ≠ m → ¬ Holds code s t m' := fun _ e h' => e (h'.unique h)

/-- A step that changes the line or statement of no thread but `t`, that keeps the spinlock words
    and their owners as `SpinOk` asks, and whose owners other than `t` are the owners before. -/
theorem SpinOk.of_step {s s' : Machine n} {t : Fin n} (h : SpinOk code s)
    (hth : ∀ u, u ≠ t → (s'.threads u).phase = (s.threads u).phase ∧
      (s'.threads u).pc = (s.threads u).pc)
    (hheld : ∀ m, s'.held m = 0 ↔ s'.owner m = none)
    (ht : ∀ m, s'.owner m = some t ↔ Holds code s' t m)
    (ho : ∀ m u, u ≠ t → (s'.owner m = some u ↔ s.owner m = some u)) : SpinOk code s' := by
  refine ⟨hheld, fun m u => ?_⟩
  by_cases hu : u = t
  · subst hu; exact ht m
  · rw [ho m u hu, h.owner, holds_congr (by rw [(hth u hu).1]) (hth u hu).2]

/-- A step of `t` that takes or drops no spinlock. -/
theorem SpinOk.keep {s s' : Machine n} {t : Fin n} (h : SpinOk code s)
    (hth : ∀ u, u ≠ t → (s'.threads u).phase = (s.threads u).phase ∧
      (s'.threads u).pc = (s.threads u).pc)
    (hheld : s'.held = s.held) (howner : s'.owner = s.owner)
    (ht : ∀ m, Holds code s' t m ↔ Holds code s t m) : SpinOk code s' :=
  h.of_step hth (by rw [hheld, howner]; exact h.held) (fun m => by rw [howner, ht]; exact h.owner m t)
    (fun m u _ => by rw [howner])

/-- A step that moves thread `t` alone, within one section or outside every section, and takes or
    drops no spinlock. -/
theorem SpinOk.move {s s' : Machine n} {t : Fin n} {th : Thread n} (h : SpinOk code s)
    (hth : s'.threads = Function.update s.threads t th) (hheld : s'.held = s.held)
    (howner : s'.owner = s.owner)
    (hin : (th.phase.holding = (s.threads t).phase.holding ∧ th.pc = (s.threads t).pc) ∨
      (th.phase.holding = (fun _ => none) ∧ (s.threads t).phase.holding = (fun _ => none))) :
    SpinOk code s' := by
  have ht : s'.threads t = th := by rw [hth, Function.update_same]
  refine h.keep (t := t) (fun u hu => by simp [hth, Function.update_noteq hu]) hheld howner fun m => ?_
  rcases hin with ⟨hp, hc⟩ | ⟨hp, hp'⟩
  · exact holds_congr (by rw [ht, hp]) (by rw [ht, hc]) m
  · exact iff_of_false (not_holds (by simp [ht, hp]) m) (not_holds (by simp [hp']) m)

/-- The `compare_and_swap` that takes the spinlock of `m`. -/
theorem SpinOk.lock {s : Machine n} {t : Fin n} {m : Mx} {p : Phase n} {i : Instr}
    (h : SpinOk code s) (hat : At code s t .out i) (hp : p.holding m = some i)
    (hheld : s.held m = 0) : SpinOk code (s.lock t m p) := by
  have hfree : s.owner m = none := (h.held m).mp hheld
  have hnot : ∀ m', ¬ Holds code s t m' := not_holds (by simp [hat.1, Phase.holding])
  -- after the step, `t` holds exactly the spinlock of `m`
  have hholds : ∀ m', Holds code (s.lock t m p) t m' ↔ m' = m := fun m' => by
    simp only [Holds, Machine.lock, Machine.goTo, Machine.setThread, Function.update_same, hat.2,
      Option.some.injEq]
    exact ⟨fun ⟨_, hi', e⟩ => (Phase.holding_inj hp (e ▸ hi')).symm, fun e => ⟨i, e ▸ hp, rfl⟩⟩
  refine h.of_step (t := t) (fun u hu => by simp [Function.update_noteq hu]) (fun m' => ?_) (fun m' => ?_)
    (fun m' u hu => ?_) <;> by_cases e : m' = m
  · subst e; simp
  · simp [Function.update_noteq e, h.held]
  · subst e; rw [hholds]; simp
  · rw [hholds]
    simp only [e, iff_false, Machine.lock, Machine.goTo, Machine.setThread, Function.update_noteq e]
    exact fun ho => hnot m' ((h.owner m' t).mp ho)
  · subst e; simp [hfree, Ne.symm hu]
  · simp [Function.update_noteq e]

/-- The `release_spinlock` of `m` by its holder `t`, which goes on to a statement outside every
    section. -/
theorem SpinOk.unlock {s : Machine n} {t : Fin n} {m : Mx} (h : SpinOk code s)
    (ht : Holds code s t m) {th : Thread n} (hth : ∀ m, th.phase.holding m = none) :
    SpinOk code ((s.unlock m).setThread t th) := by
  have hown : s.owner m = some t := (h.owner m t).mpr ht
  refine h.of_step (t := t) (fun u hu => by simp [Function.update_noteq hu]) (fun m' => ?_)
    (fun m' => iff_of_false ?_ (not_holds (by simpa using hth) m')) (fun m' u hu => ?_) <;>
    by_cases e : m' = m
  · subst e; simp
  · simp [Function.update_noteq e, h.held]
  · subst e; simp
  · simp only [Machine.setThread, Machine.unlock, Function.update_noteq e]
    exact fun ho => e (((h.owner m' t).mp ho).unique ht)
  · subst e; simp [hown, Ne.symm hu]
  · simp [Function.update_noteq e]

/-- **One step keeps the invariant of the spinlocks.** -/
theorem SpinOk.step {s s' : Machine n} (h : SpinOk code s) (hs : Step code s s') :
    SpinOk code s' := by
  cases hs with
  | call t v hp _ =>
    exact h.move rfl rfl rfl (.inr ⟨by simp [Machine.call, hp], by simp [hp]⟩)
  | spin => exact h
  | lockAcq t m hat hheld | lockRel t m hat hheld => exact h.lock hat rfl hheld
  | acqTest t m hat _ =>
    unfold Machine.acqTest; dsimp only
    split <;> exact h.move rfl rfl rfl (.inl ⟨by rw [hat.1]; rfl, rfl⟩)
  | acqPass t m hat | acqUnlock t m hat | relPass t m hat | relUnlock t m hat =>
    exact h.unlock ⟨_, by rw [hat.1]; rfl, hat.2⟩ fun _ => rfl
  | acqAdd t m hat | relFirst t m hat _ | relDel t m _ hat =>
    exact h.move rfl rfl rfl (.inl ⟨by rw [hat.1]; rfl, rfl⟩)
  | relTest t m hat _ =>
    unfold Machine.relTest; dsimp only
    split <;> exact h.move rfl rfl rfl (.inl ⟨by rw [hat.1]; rfl, rfl⟩)
  | relKill t m u hat =>
    -- the signal changes no thread's line or statement
    have hsame : ∀ v, ((s.setThread u { s.threads u with sig := true }).threads v).phase =
        (s.threads v).phase ∧ ((s.setThread u { s.threads u with sig := true }).threads v).pc =
        (s.threads v).pc := fun v => by
      by_cases hv : v = u
      · subst hv; simp
      · simp [Function.update_noteq hv]
    refine h.keep (t := t) (fun v hv => ?_) rfl rfl fun m' => holds_congr ?_ ?_ m'
    · simpa [Machine.relKill, Function.update_noteq hv] using hsame v
    · simp only [Machine.relKill, Machine.goTo, Machine.setThread, Function.update_same, hat.1]; rfl
    · simpa [Machine.relKill] using (hsame t).2
  | acqWait t m hat _ | store t hat | advanceIn t hat | advanceOut t hat =>
    exact h.move rfl rfl rfl (.inr ⟨by simp, by simp [hat.1]⟩)
  | load t hat => exact h.move rfl rfl rfl (.inr ⟨by simp [hat.1], by simp [hat.1]⟩)

theorem spinOk_init (keys : Mx → Int) (nr : Nat) (slots : Nat → Int) :
    SpinOk code (Machine.init code keys nr slots) :=
  ⟨fun _ => by simp [Machine.init], fun m t => iff_of_false (by simp [Machine.init])
    (not_holds (by simp [Machine.init]) m)⟩

/-- **The spinlocks are exclusive on every run.** -/
theorem spinOk_reachable {keys : Mx → Int} {nr : Nat} {slots : Nat → Int} {s : Machine n}
    (h : Reachable code (Machine.init code keys nr slots) s) : SpinOk code s :=
  Reachable.induct code _ (spinOk_init keys nr slots) (fun _ _ hi hs => hi.step hs) h

variable (code) in
/-- A thread at a statement that runs with a spinlock holds one: it stands on a line of the call
    its statement belongs to. -/
def Inside (s : Machine n) : Prop :=
  ∀ t m i, (s.threads t).phase.holding m = some i → ∃ m', Holds code s t m'

/-- A step that moves thread `t` alone keeps `Inside` if `t` ends inside a section only holding its
    spinlock. -/
theorem Inside.move {s s' : Machine n} {t : Fin n} {th : Thread n} (h : Inside code s)
    (hth : s'.threads = Function.update s.threads t th)
    (ht : ∀ m i, th.phase.holding m = some i → ∃ m', Holds code s' t m') : Inside code s' := by
  intro v m i hv
  by_cases e : v = t
  · subst e; rw [hth, Function.update_same] at hv; exact ht m i hv
  · have hv' : s'.threads v = s.threads v := by rw [hth, Function.update_noteq e]
    rw [hv'] at hv
    obtain ⟨m', hm'⟩ := h v m i hv
    exact ⟨m', (holds_congr (by rw [hv']) (by rw [hv']) m').mpr hm'⟩

/-- A thread that stays in its section keeps holding its spinlock. -/
theorem Holds.move {s s' : Machine n} {t : Fin n} {m : Mx} {th : Thread n} (h : Holds code s t m)
    (hth : s'.threads = Function.update s.threads t th)
    (hp : th.phase.holding = (s.threads t).phase.holding) (hc : th.pc = (s.threads t).pc) :
    ∀ m' i, th.phase.holding m' = some i → ∃ m'', Holds code s' t m'' :=
  fun _ _ _ => ⟨m, (holds_congr (by rw [hth, Function.update_same, hp])
    (by rw [hth, Function.update_same, hc]) m).mpr h⟩

/-- A thread that leaves every section holds nothing to account for. -/
theorem outside_move {s' : Machine n} {t : Fin n} {th : Thread n}
    (hp : th.phase.holding = fun _ => none) :
    ∀ m i, th.phase.holding m = some i → ∃ m', Holds code s' t m' :=
  fun m i h => by rw [hp] at h; cases h

theorem Inside.step {s s' : Machine n} (h : Inside code s) (hs : Step code s s') :
    Inside code s' := by
  cases hs with
  | call t v hp _ => exact h.move rfl (outside_move (by simp [hp]))
  | spin => exact h
  | lockAcq t m hat _ =>
    exact h.move rfl fun _ _ _ => ⟨m, .acquire m, by simp [Phase.holding], by simpa using hat.2⟩
  | lockRel t m hat _ =>
    exact h.move rfl fun _ _ _ => ⟨m, .release m, by simp [Phase.holding], by simpa using hat.2⟩
  | acqTest t m hat _ =>
    unfold Machine.acqTest; dsimp only
    split <;> exact h.move rfl ((holds_of_at hat rfl).move rfl (by rw [hat.1]; rfl) rfl)
  | acqAdd t m hat | relFirst t m hat _ | relDel t m _ hat =>
    exact h.move rfl ((holds_of_at hat rfl).move rfl (by rw [hat.1]; rfl) rfl)
  | relTest t m hat _ =>
    unfold Machine.relTest; dsimp only
    split <;> exact h.move rfl ((holds_of_at hat rfl).move rfl (by rw [hat.1]; rfl) rfl)
  | relKill t m u hat =>
    -- the signal moves no thread; then `t` goes on within its section
    have hsig : Inside code (s.setThread u { s.threads u with sig := true }) :=
      h.move rfl fun m' i hu => h u m' i hu |>.imp fun m'' hm =>
        (holds_congr (by simp) (by simp) m'').mpr hm
    refine hsig.move rfl fun _ _ _ => ⟨m, .release m, by simp [Machine.relKill, Phase.holding], ?_⟩
    by_cases e : t = u
    · subst e; simpa [Machine.relKill] using hat.2
    · simpa [Machine.relKill, Function.update_noteq e] using hat.2
  | acqPass t m hat | acqUnlock t m hat | relPass t m hat | relUnlock t m hat | acqWait t m hat _
  | store t hat | advanceIn t hat | advanceOut t hat => exact h.move rfl (outside_move rfl)
  | load t hat => exact h.move rfl (outside_move (by simp [hat.1]))

theorem inside_reachable {keys : Mx → Int} {nr : Nat} {slots : Nat → Int} {s : Machine n}
    (h : Reachable code (Machine.init code keys nr slots) s) : Inside code s :=
  Reachable.induct code _ (fun _ _ _ h => by simp [Machine.init] at h) (fun _ _ hi hs => hi.step hs) h

/-- **The spinlock is exclusive.** On every run, for each mutex, at most one thread runs the
    statements between the `compare_and_swap` that takes `mutex->spinlock` and its
    `release_spinlock`, and `held` is `0` exactly when none does. -/
theorem spinlock_exclusive {keys : Mx → Int} {nr : Nat} {slots : Nat → Int} {s : Machine n}
    (h : Reachable code (Machine.init code keys nr slots) s) (m : Mx) :
    ∃ o : Option (Fin n), (∀ t, Holds code s t m ↔ o = some t) ∧ (s.held m = 0 ↔ o = none) :=
  ⟨s.owner m, fun t => ((spinOk_reachable h).owner m t).symm, (spinOk_reachable h).held m⟩

/-- Two threads on `acquire_mutex(&mutex)`: thread `0` calls and takes the spinlock. -/
theorem spinlock_exclusive_after_lock :
    let code : Fin 2 → List Instr := fun _ => [.acquire .mutex]
    let s := ((Machine.init code (fun _ => 1) 1 fun _ => 0).call 0 0).lock 0 .mutex .acqTest
    ∃ o : Option (Fin 2), (∀ t, Holds code s t .mutex ↔ o = some t) ∧
      (s.held .mutex = 0 ↔ o = none) := by
  intro code s
  exact spinlock_exclusive (show Reachable code (Machine.init code (fun _ => 1) 1 fun _ => 0) s from
    (Reachable.init.step (.call 0 0 rfl le_rfl)).step (.lockAcq 0 .mutex ⟨rfl, rfl⟩ rfl)) .mutex

end Spin
end Locks
end OsHomeworks
