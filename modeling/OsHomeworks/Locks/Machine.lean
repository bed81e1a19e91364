import OsHomeworks.Locks.Mutex

/-!
# `Locks.Machine` — threads running the mutex and ring-buffer code of `pa3.c`

A thread runs a list of lines (`Instr`): a call of `acquire_mutex` or `release_mutex` on one of the
three mutexes of `struct ringbuffer`, or one line of the ring buffer's critical sections. Any thread
may take its next step at any time (`Step`):

* an `acquire` line runs the spinlock-held part of `acquire_mutex`; a thread that goes to sleep
  stays on the line (`Wait.asleep`) until a `release_mutex` signals it (`Wait.signalled`), and only
  then returns from `sigwaitinfo` (`Step.resume`). `SIGINT` is blocked before the thread enqueues
  itself, so a signal sent before `sigwaitinfo` is not lost: sleeping from the enqueue on is exact;
* a `release` line runs the spinlock-held part of `release_mutex`; it has no step where
  `list_first_entry` would read an empty queue;
* neither has a step where its `--key` or `++key` overflows `int`, which C leaves undefined
  (`Overflows` names such a thread);
* the ring-buffer lines are the statements of the critical sections: the store into
  `slots[in]`, the advance of `in` (lines 223–226, whose intermediate value no other thread can
  read), the load of `slots[out]`, and the advance of `out`;
* past its last line a thread returns, and may start its next call with any argument
  (`Step.call`).

The ghost fields record the values that pass through the buffer (`enq`, `deq`: appended when `in` and
`out` advance) and, per mutex, the returns from `acquire_mutex` (`passed`), the calls of
`release_mutex` (`released`), the threads that enqueue themselves (`slept`: the `list_add_tail` of
`acquire_mutex`) and the threads signalled (`woke`: the `list_first_entry` of `release_mutex`).
-/

namespace OsHomeworks
namespace Locks

/-- The three mutexes of `struct ringbuffer`. -/
inductive Mx where
  | mutex
  | empty
  | full
  deriving DecidableEq, Repr

/-- One line of a thread's code. -/
inductive Instr where
  /-- `acquire_mutex(&ringbuffer.m)`. -/
  | acquire (m : Mx)
  /-- `release_mutex(&ringbuffer.m)`. -/
  | release (m : Mx)
  /-- `ringbuffer.slots[ringbuffer.in] = value;` -/
  | store
  /-- `ringbuffer.in = ringbuffer.in + 1; if (ringbuffer.in >= ringbuffer.nr_slots) ...in = 0;` -/
  | advanceIn
  /-- `data = ringbuffer.slots[ringbuffer.out];` -/
  | load
  /-- `ringbuffer.out = ringbuffer.out + 1; if (...out >= ...nr_slots) ...out = 0;` -/
  | advanceOut
  deriving DecidableEq, Repr

/-- Where a thread stands with respect to the signal of `acquire_mutex`. -/
inductive Wait where
  | running
  /-- Enqueued, in `sigwaitinfo`, not yet signalled. -/
  | asleep
  /-- Signalled; `sigwaitinfo` has yet to return. -/
  | signalled
  deriving DecidableEq, Repr

/-- A thread: its next line, its wait state, and its local value (the argument of
    `enqueue_into_ringbuffer`, or the `data` of `dequeue_from_ringbuffer`). -/
structure Thread where
  pc : Nat
  wait : Wait
  val : Int
  deriving DecidableEq, Repr

/-- The data fields of `struct ringbuffer` (`nr_slots`, `slots`, `in`, `out`), with ghost logs of
    the values that pass through. -/
structure Ring where
  nrSlots : Nat
  slots : Nat → Int
  in' : Nat
  out : Nat
  /-- Ghost: the values stored, in the order `in` passes them. -/
  enq : List Int
  /-- Ghost: the values dequeued, in the order `out` passes them. -/
  deq : List Int

/-- The shared state of `n` threads. -/
structure Machine (n : Nat) where
  mutexes : Mx → Mutex (Fin n)
  threads : Fin n → Thread
  ring : Ring
  /-- Ghost: the returns from `acquire_mutex`, per mutex. -/
  passed : Mx → Nat
  /-- Ghost: the calls of `release_mutex`, per mutex. -/
  released : Mx → Nat
  /-- Ghost: the threads that went to sleep in `acquire_mutex`, per mutex, in order. -/
  slept : Mx → List (Fin n)
  /-- Ghost: the threads that `release_mutex` signalled, per mutex, in order. -/
  woke : Mx → List (Fin n)

/-- `i = i + 1; if (i >= nr_slots) i = 0;` -/
def advance (i nr : Nat) : Nat := if nr ≤ i + 1 then 0 else i + 1

variable {n : Nat}

namespace Machine

/-- Replace thread `t`. -/
@[simp] def setThread (s : Machine n) (t : Fin n) (th : Thread) : Machine n :=
  { s with threads := Function.update s.threads t th }

/-- Replace mutex `m`. -/
@[simp] def setMutex (s : Machine n) (m : Mx) (mx : Mutex (Fin n)) : Machine n :=
  { s with mutexes := Function.update s.mutexes m mx }

/-- Thread `t` past its current line, running. -/
@[simp] def next (s : Machine n) (t : Fin n) : Machine n :=
  s.setThread t { s.threads t with pc := (s.threads t).pc + 1, wait := .running }

/-- `acquire_mutex(&m)` by thread `t`, up to its sleep, with `acquireMutex` giving `mx` and whether
    `t` sleeps. -/
def acquire (s : Machine n) (t : Fin n) (m : Mx) (mx : Mutex (Fin n)) (sleeps : Bool) : Machine n :=
  if sleeps then { (s.setMutex m mx).setThread t { s.threads t with wait := .asleep } with
    slept := Function.update s.slept m (s.slept m ++ [t]) }
  else { (s.setMutex m mx).next t with passed := Function.update s.passed m (s.passed m + 1) }

/-- A signalled thread returns from `acquire_mutex(&m)`. -/
def resume (s : Machine n) (t : Fin n) (m : Mx) : Machine n :=
  { s.next t with passed := Function.update s.passed m (s.passed m + 1) }

/-- `release_mutex(&m)` by thread `t`, with `releaseMutex` giving `mx` and the woken `w`. -/
def release (s : Machine n) (t : Fin n) (m : Mx) (mx : Mutex (Fin n)) (w : Option (Fin n)) :
    Machine n :=
  let s' := { (s.setMutex m mx).next t with
    released := Function.update s.released m (s.released m + 1) }
  match w with
  | none => s'
  | some u => { s'.setThread u { s'.threads u with wait := .signalled } with
    woke := Function.update s.woke m (s.woke m ++ [u]) }

/-- The store of `enqueue_into_ringbuffer` by thread `t`. -/
def store (s : Machine n) (t : Fin n) : Machine n :=
  { s.next t with
    ring := { s.ring with slots := Function.update s.ring.slots s.ring.in' (s.threads t).val } }

/-- The advance of `in` by thread `t`; its value joins `enq`. -/
def advanceIn (s : Machine n) (t : Fin n) : Machine n :=
  { s.next t with
    ring := { s.ring with in' := advance s.ring.in' s.ring.nrSlots,
                          enq := s.ring.enq ++ [(s.threads t).val] } }

/-- The load of `dequeue_from_ringbuffer` by thread `t`. -/
def load (s : Machine n) (t : Fin n) : Machine n :=
  s.setThread t { s.threads t with pc := (s.threads t).pc + 1, val := s.ring.slots s.ring.out }

/-- The advance of `out` by thread `t`; its `data` joins `deq`. -/
def advanceOut (s : Machine n) (t : Fin n) : Machine n :=
  { s.next t with
    ring := { s.ring with out := advance s.ring.out s.ring.nrSlots,
                          deq := s.ring.deq ++ [(s.threads t).val] } }

/-- Thread `t` starts a new call with argument `v`. -/
def call (s : Machine n) (t : Fin n) (v : Int) : Machine n :=
  s.setThread t ⟨0, .running, v⟩

/-! The mutex lines leave the ring buffer's data alone, and `release_mutex` moves no other thread's
line counter: the woken thread stays on its line. -/

@[simp] theorem acquire_ring (s : Machine n) (t : Fin n) (m : Mx) (mx : Mutex (Fin n)) (b : Bool) :
    (s.acquire t m mx b).ring = s.ring := by
  unfold acquire; split <;> rfl

@[simp] theorem release_ring (s : Machine n) (t : Fin n) (m : Mx) (mx : Mutex (Fin n))
    (w : Option (Fin n)) : (s.release t m mx w).ring = s.ring := by
  unfold release; split <;> rfl

@[simp] theorem release_passed (s : Machine n) (t : Fin n) (m : Mx) (mx : Mutex (Fin n))
    (w : Option (Fin n)) : (s.release t m mx w).passed = s.passed := by
  unfold release; split <;> rfl

@[simp] theorem release_released (s : Machine n) (t : Fin n) (m : Mx) (mx : Mutex (Fin n))
    (w : Option (Fin n)) :
    (s.release t m mx w).released = Function.update s.released m (s.released m + 1) := by
  unfold release; split <;> rfl

theorem acquire_threads_ne (s : Machine n) (m : Mx) (mx : Mutex (Fin n)) (b : Bool) {t u : Fin n}
    (h : u ≠ t) : (s.acquire t m mx b).threads u = s.threads u := by
  unfold acquire; split <;> simp [Function.update_noteq h]

theorem acquire_pc_le (s : Machine n) (t : Fin n) (m : Mx) (mx : Mutex (Fin n)) (b : Bool) :
    ((s.acquire t m mx b).threads t).pc ≤ (s.threads t).pc + 1 := by
  unfold acquire; split <;> simp

theorem release_threads (s : Machine n) (t : Fin n) (m : Mx) (mx : Mutex (Fin n))
    (w : Option (Fin n)) (u : Fin n) :
    ((s.release t m mx w).threads u).pc = ((s.next t).threads u).pc ∧
    ((s.release t m mx w).threads u).val = ((s.next t).threads u).val := by
  unfold release
  split
  · exact ⟨rfl, rfl⟩
  · rename_i v
    by_cases hv : u = v
    · subst hv; simp
    · simp [Function.update_noteq hv]

end Machine

variable (code : Fin n → List Instr)

/-- Thread `t` is running and its next line is `i`. -/
def At (s : Machine n) (t : Fin n) (i : Instr) : Prop :=
  (s.threads t).wait = .running ∧ (code t)[(s.threads t).pc]? = some i

/-- One step of one thread. -/
inductive Step : Machine n → Machine n → Prop where
  | call {s : Machine n} (t : Fin n) (v : Int) (hr : (s.threads t).wait = .running)
      (hend : (code t).length ≤ (s.threads t).pc) : Step s (s.call t v)
  | acquire {s : Machine n} (t : Fin n) (m : Mx) {mx : Mutex (Fin n)} {b : Bool}
      (h : At code s t (.acquire m)) (ha : acquireMutex t (s.mutexes m) = some (mx, b)) :
      Step s (s.acquire t m mx b)
  | resume {s : Machine n} (t : Fin n) (m : Mx) (hs : (s.threads t).wait = .signalled)
      (hc : (code t)[(s.threads t).pc]? = some (.acquire m)) : Step s (s.resume t m)
  | release {s : Machine n} (t : Fin n) (m : Mx) {mx : Mutex (Fin n)} {w : Option (Fin n)}
      (h : At code s t (.release m)) (hr : releaseMutex (s.mutexes m) = some (mx, w)) :
      Step s (s.release t m mx w)
  | store {s : Machine n} (t : Fin n) (h : At code s t .store) : Step s (s.store t)
  | advanceIn {s : Machine n} (t : Fin n) (h : At code s t .advanceIn) : Step s (s.advanceIn t)
  | load {s : Machine n} (t : Fin n) (h : At code s t .load) : Step s (s.load t)
  | advanceOut {s : Machine n} (t : Fin n) (h : At code s t .advanceOut) :
      Step s (s.advanceOut t)

/-- Thread `t` is at `acquire_mutex(&m)` and its `--key` leaves `int`, or at `release_mutex(&m)` and
    its `++key` does: the run is undefined from there, and `Step` has no step for `t`. -/
def Overflows (s : Machine n) (t : Fin n) : Prop :=
  ∃ m, (At code s t (.acquire m) ∧ (s.mutexes m).key - 1 < intMin) ∨
    (At code s t (.release m) ∧ intMax < (s.mutexes m).key + 1)

/-- The states of the runs from `s₀`. -/
inductive Reachable (s₀ : Machine n) : Machine n → Prop where
  | init : Reachable s₀ s₀
  | step {s s' : Machine n} : Reachable s₀ s → Step code s s' → Reachable s₀ s'

/-- Every thread between calls, the mutexes' keys `keys` with empty queues, `nr` slots holding what
    `malloc` returned, and `in = out = 0`. -/
def Machine.init (keys : Mx → Int) (nr : Nat) (slots : Nat → Int) : Machine n where
  mutexes m := ⟨keys m, []⟩
  threads t := ⟨(code t).length, .running, 0⟩
  ring := ⟨nr, slots, 0, 0, [], []⟩
  passed _ := 0
  released _ := 0
  slept _ := []
  woke _ := []

/-- Every step is taken by a thread that is not asleep. -/
theorem Step.exists_awake {s s' : Machine n} (h : Step code s s') :
    ∃ t, (s.threads t).wait ≠ .asleep := by
  cases h with
  | call t _ hr _ => exact ⟨t, by simp [hr]⟩
  | acquire t _ h _ => exact ⟨t, by simp [h.1]⟩
  | resume t _ hs _ => exact ⟨t, by simp [hs]⟩
  | release t _ h _ => exact ⟨t, by simp [h.1]⟩
  | store t h => exact ⟨t, by simp [h.1]⟩
  | advanceIn t h => exact ⟨t, by simp [h.1]⟩
  | load t h => exact ⟨t, by simp [h.1]⟩
  | advanceOut t h => exact ⟨t, by simp [h.1]⟩

/-- A property that holds of `s₀` and that every step keeps holds of every state of every run. -/
theorem Reachable.induct {s₀ : Machine n} (P : Machine n → Prop) (h₀ : P s₀)
    (hstep : ∀ s s', P s → Step code s s' → P s') {s : Machine n} (h : Reachable code s₀ s) :
    P s := by
  induction h with
  | init => exact h₀
  | step _ hs ih => exact hstep _ _ ih hs

/-! ## Tallies over threads -/

/-- The sum over threads of a weight of each thread's state. -/
def tally (w : Fin n → Thread → Int) (s : Machine n) : Int := ∑ t, w t (s.threads t)

theorem tally_setThread (w : Fin n → Thread → Int) (s : Machine n) (t : Fin n) (th : Thread) :
    tally w (s.setThread t th) = tally w s - w t (s.threads t) + w t th := by
  unfold tally Machine.setThread
  dsimp only
  rw [Finset.sum_eq_add_sum_diff_singleton (Finset.mem_univ t),
    Finset.sum_eq_add_sum_diff_singleton (Finset.mem_univ t) (fun x => w x (s.threads x)),
    Function.update_same, Finset.sum_congr rfl fun x hx => by
      rw [Function.update_noteq (by simpa using hx)]]
  ring

theorem tally_nonneg {w : Fin n → Thread → Int} (hw : ∀ t th, 0 ≤ w t th) (s : Machine n) :
    0 ≤ tally w s :=
  Finset.sum_nonneg fun t _ => hw t _

theorem single_le_tally {w : Fin n → Thread → Int} (hw : ∀ t th, 0 ≤ w t th) (s : Machine n)
    (t : Fin n) : w t (s.threads t) ≤ tally w s :=
  Finset.single_le_sum (fun u _ => hw u (s.threads u)) (Finset.mem_univ t)

theorem tally_pair_le {w : Fin n → Thread → Int} (hw : ∀ t th, 0 ≤ w t th) (s : Machine n)
    {t u : Fin n} (htu : t ≠ u) : w t (s.threads t) + w u (s.threads u) ≤ tally w s := by
  have hsub := Finset.sum_le_sum_of_subset_of_nonneg (Finset.subset_univ {t, u})
    fun v _ _ => hw v (s.threads v)
  rwa [Finset.sum_pair htu] at hsub

end Locks
end OsHomeworks
