import OsHomeworks.Locks.MutexInv
import OsHomeworks.Locks.Holding

/-!
# `Locks.RingBuffer` — the bounded buffer of `pa3.c`

`enqueue_into_ringbuffer` and `dequeue_from_ringbuffer` guard the ring with three mutexes used as
semaphores: `full` counts free slots, `empty` filled ones, and `mutex` guards `slots`, `in` and
`out`. `init_ringbuffer(nr_slots)` leaves their keys at `nr_slots - 1`, `0` and `1` (`ringKeys`).

Every state of every run of any producers and consumers keeps `RingOk`: the invariant of the
mutexes (`Locks.MutexInv`), the account of their units (`Locks.Holding`), and `RingData`, which says
where the values in the buffer are. From the first two, at most one thread is inside
`ringbuffer.mutex` (`RingOk.holdsMutex_unique`), at most `nr_slots - 1` values are in the buffer
(`RingOk.filled_le`), and a consumer at its load finds one (`RingOk.filled_pos_of_load`). From
`RingData`, `in` and `out` stay below `nr_slots`, a store never lands on a value not yet dequeued,
and the dequeued values are a prefix of the stored ones (`ringbuffer_fifo`). With at most `2 ^ 31`
threads and `nr_slots` an `int`, no key leaves `int` (`RingOk.not_overflows`), and with two slots or
more some thread can always take a step (`ringbuffer_deadlock_free`).

The key of `full` starts one short: a producer sleeps on `full` while only `nr_slots - 1` values are
out, and with `nr_slots = 1` the first producer and the first consumer both sleep for ever
(`ringbuffer_wastes_a_slot`).
-/

namespace OsHomeworks
namespace Locks

/-- `enqueue_into_ringbuffer` (lines 216–232), one entry per line. -/
def enqueueIntoRingbuffer : List Instr :=
  [.acquire .full, .acquire .mutex, .store, .advanceIn, .release .mutex, .release .empty]

/-- `dequeue_from_ringbuffer` (lines 242–260). -/
def dequeueFromRingbuffer : List Instr :=
  [.acquire .empty, .acquire .mutex, .load, .advanceOut, .release .mutex, .release .full]

/-- The code of a producer (`true`) or of a consumer (`false`). -/
def ringLines (producer : Bool) : List Instr :=
  if producer then enqueueIntoRingbuffer else dequeueFromRingbuffer

/-- The keys `init_ringbuffer(nr_slots)` leaves: `init_mutex` sets each to `1`, then
    `empty.key = 0` and `full.key = nr_slots - 1`. -/
def ringKeys (nr : Nat) : Mx → Int
  | .mutex => 1
  | .empty => 0
  | .full => (nr : Int) - 1

variable {n : Nat}

/-- Thread `t` has returned from `acquire_mutex(&ringbuffer.mutex)` and has not yet called
    `release_mutex(&ringbuffer.mutex)`: its next line is the store or load, the advance, or the
    release. -/
def HoldsMutex (s : Machine n) (t : Fin n) : Prop := 2 ≤ (s.threads t).pc ∧ (s.threads t).pc ≤ 4

variable (role : Fin n → Bool)

/-- Thread `t` runs `enqueue_into_ringbuffer` if `role t`, else `dequeue_from_ringbuffer`. -/
def ringCode : Fin n → List Instr := fun t => ringLines (role t)

/-- The state after `init_ringbuffer(nr)`, with `malloc` returning `slots`. -/
def initRingbuffer (nr : Nat) (slots : Nat → Int) : Machine n :=
  Machine.init (ringCode role) (ringKeys nr) nr slots

/-! ## The two calls, line by line -/

theorem ringLines_length (b : Bool) : (ringLines b).length = 6 := by cases b <;> rfl

/-- **What each line of the two calls is.** -/
theorem ringLines_getElem? {b : Bool} {pc : Nat} {i : Instr} (h : (ringLines b)[pc]? = some i) :
    (pc = 0 ∧ i = .acquire (if b then .full else .empty)) ∨ (pc = 1 ∧ i = .acquire .mutex) ∨
    (pc = 2 ∧ i = if b then .store else .load) ∨
    (pc = 3 ∧ i = if b then .advanceIn else .advanceOut) ∨ (pc = 4 ∧ i = .release .mutex) ∨
    (pc = 5 ∧ i = .release (if b then .empty else .full)) := by
  have hpc : pc < 6 := ringLines_length b ▸ (List.getElem?_eq_some_iff.mp h).1
  interval_cases pc <;> cases b <;>
    simp_all [ringLines, enqueueIntoRingbuffer, dequeueFromRingbuffer, eq_comm]

theorem ringLines_acquire {b : Bool} {pc : Nat} {m : Mx}
    (h : (ringLines b)[pc]? = some (.acquire m)) : pc ≤ 1 := by
  have := ringLines_getElem? h; cases b <;> simp at this <;> omega

theorem ringLines_release {b : Bool} {pc : Nat} {m : Mx}
    (h : (ringLines b)[pc]? = some (.release m)) : 4 ≤ pc := by
  have := ringLines_getElem? h; cases b <;> simp at this <;> omega

theorem ringLines_store {b : Bool} {pc : Nat} (h : (ringLines b)[pc]? = some .store) :
    b = true ∧ pc = 2 := by
  have := ringLines_getElem? h; cases b <;> simp_all

theorem ringLines_advanceIn {b : Bool} {pc : Nat} (h : (ringLines b)[pc]? = some .advanceIn) :
    b = true ∧ pc = 3 := by
  have := ringLines_getElem? h; cases b <;> simp_all

theorem ringLines_load {b : Bool} {pc : Nat} (h : (ringLines b)[pc]? = some .load) :
    b = false ∧ pc = 2 := by
  have := ringLines_getElem? h; cases b <;> simp_all

theorem ringLines_advanceOut {b : Bool} {pc : Nat} (h : (ringLines b)[pc]? = some .advanceOut) :
    b = false ∧ pc = 3 := by
  have := ringLines_getElem? h; cases b <;> simp_all

theorem balanced_ringLines (b : Bool) (m : Mx) : ((ringLines b).map (Instr.effect m)).sum = 0 := by
  cases b <;> cases m <;> decide

theorem balanced_ringCode : Balanced (ringCode role) := fun t => balanced_ringLines (role t)

theorem heldAt_ringLines_nonneg (b : Bool) (m : Mx) (pc : Nat) : 0 ≤ heldAt (ringLines b) m pc := by
  rcases Nat.lt_or_ge pc 6 with h | h
  · interval_cases pc <;> cases b <;> cases m <;> decide
  · rw [heldAt_of_length_le (balanced_ringLines b m) (by rw [ringLines_length]; exact h)]

/-- A thread holds `ringbuffer.mutex` exactly on the lines from the store or load to the release. -/
theorem heldAt_ringLines_mutex (b : Bool) (pc : Nat) :
    heldAt (ringLines b) .mutex pc = if 2 ≤ pc ∧ pc ≤ 4 then 1 else 0 := by
  rcases Nat.lt_or_ge pc 6 with h | h
  · interval_cases pc <;> cases b <;> decide
  · rw [heldAt_of_length_le (balanced_ringLines b .mutex) (by rw [ringLines_length]; exact h),
      if_neg (by omega)]

variable {role}

/-- What the threads and the buffer hold of `m` is at most its initial key. -/
theorem held_add_buffer_le {code : Fin n → List Instr} {k : Int} {s : Machine n} {m : Mx}
    (hm : MutexOk code k s m) (hh : HoldingOk code s) :
    tally (fun t th => heldAt (code t) m th.pc) s +
      m.bufferSign * ((s.ring.enq.length : Int) - s.ring.deq.length) ≤ k := by
  rw [← hh m]; exact hm.passed_sub_released_le

/-- The invariant of a run of the ring buffer from `init_ringbuffer(nr)`. -/
structure RingData (role : Fin n → Bool) (nr : Nat) (s : Machine n) : Prop where
  nrSlots_eq : s.ring.nrSlots = nr
  in_eq : s.ring.in' = s.ring.enq.length % nr
  out_eq : s.ring.out = s.ring.deq.length % nr
  deq_le : s.ring.deq <+: s.ring.enq
  /-- The values stored and not yet dequeued sit in their slots. -/
  slots_eq : ∀ j (hj : j < s.ring.enq.length), s.ring.deq.length ≤ j →
    s.ring.slots (j % nr) = s.ring.enq[j]
  /-- A producer between its store and the advance of `in` has stored its value at `in`. -/
  stored : ∀ t, role t = true → (s.threads t).pc = 3 → s.ring.slots s.ring.in' = (s.threads t).val
  /-- A consumer between its load and the advance of `out` holds the next value to dequeue. -/
  loaded : ∀ t, role t = false → (s.threads t).pc = 3 →
    s.ring.enq[s.ring.deq.length]? = some (s.threads t).val

/-- The invariant of the ring buffer: the mutexes', the units', and where the values are. -/
structure RingOk (role : Fin n → Bool) (nr : Nat) (s : Machine n) : Prop where
  mutexes : MutexInv (ringCode role) (ringKeys nr) s
  holding : HoldingOk (ringCode role) s
  data : RingData role nr s

/-- **Mutual exclusion**: at most one thread is inside `ringbuffer.mutex`. -/
theorem RingOk.holdsMutex_unique {nr : Nat} {s : Machine n} (h : RingOk role nr s) {t u : Fin n}
    (htu : t ≠ u) (ht : HoldsMutex s t) (hu : HoldsMutex s u) : False := by
  have hle := held_add_buffer_le (h.mutexes.ok .mutex) h.holding
  have hpair := tally_pair_le (fun v th => heldAt_ringLines_nonneg (role v) .mutex th.pc) s htu
  have ht₁ : heldAt (ringLines (role t)) .mutex (s.threads t).pc = 1 := by
    rw [heldAt_ringLines_mutex]; exact if_pos ht
  have hu₁ : heldAt (ringLines (role u)) .mutex (s.threads u).pc = 1 := by
    rw [heldAt_ringLines_mutex]; exact if_pos hu
  simp only [ht₁, hu₁] at hpair
  simp only [Mx.bufferSign, ringKeys, zero_mul, add_zero, ringCode] at hle
  omega

/-- At most `nr - 1` values are in the buffer. -/
theorem RingOk.filled_le {nr : Nat} {s : Machine n} (h : RingOk role nr s) :
    (s.ring.enq.length : Int) - s.ring.deq.length ≤ nr - 1 := by
  have hle := held_add_buffer_le (h.mutexes.ok .full) h.holding
  have := tally_nonneg (fun v th => heldAt_ringLines_nonneg (role v) .full th.pc) s
  simp only [Mx.bufferSign, ringKeys, one_mul, ringCode] at hle this
  omega

/-- A consumer at its load finds a value in the buffer. -/
theorem RingOk.filled_pos_of_load {nr : Nat} {s : Machine n} (h : RingOk role nr s) {t : Fin n}
    (hat : At (ringCode role) s t .load) : s.ring.deq.length < s.ring.enq.length := by
  obtain ⟨hr, hpc⟩ := ringLines_load hat.2
  have hle := held_add_buffer_le (h.mutexes.ok .empty) h.holding
  have := single_le_tally (fun v th => heldAt_ringLines_nonneg (role v) .empty th.pc) s t
  have h1 : heldAt (ringLines false) .empty 2 = 1 := by decide
  simp only [Mx.bufferSign, ringKeys, ringCode, hr, hpc, h1] at hle this
  omega

theorem mod_ne_mod_of_lt {j i nr : Nat} (h₁ : j < i) (h₂ : i < j + nr) : j % nr ≠ i % nr := by
  intro h
  have := Nat.sub_mod_eq_zero_of_mod_eq h.symm
  rw [Nat.mod_eq_of_lt (by omega)] at this
  omega

theorem advance_mod {nr : Nat} (hnr : 0 < nr) (a : Nat) : advance (a % nr) nr = (a + 1) % nr := by
  have := Nat.mod_lt a hnr
  unfold advance
  split
  · rw [← Nat.mod_add_mod, show a % nr + 1 = nr by omega, Nat.mod_self]
  · rw [← Nat.mod_add_mod, Nat.mod_eq_of_lt (show a % nr + 1 < nr by omega)]

theorem prefix_append_of_getElem? {l₁ l₂ : List Int} {a : Int} (h : l₁ <+: l₂)
    (ha : l₂[l₁.length]? = some a) : l₁ ++ [a] <+: l₂ := by
  obtain ⟨r, rfl⟩ := h
  cases r with
  | nil => simp at ha
  | cons b r =>
    simp only [List.getElem?_append_right le_rfl, Nat.sub_self, List.getElem?_cons_zero,
      Option.some.injEq] at ha
    exact ⟨r, by simp [ha]⟩

/-- A step that leaves the buffer alone and puts no thread on line `3` keeps `RingData`. -/
theorem RingData.of_control {nr : Nat} {s s' : Machine n} (h : RingData role nr s)
    (hr : s'.ring = s.ring)
    (hth : ∀ u, (s'.threads u).pc = 3 → (s.threads u).pc = 3 ∧ (s'.threads u).val = (s.threads u).val) :
    RingData role nr s' := by
  obtain ⟨h₁, h₂, h₃, h₄, h₅, h₆, h₇⟩ := h
  refine ⟨hr ▸ h₁, hr ▸ h₂, hr ▸ h₃, hr ▸ h₄, hr ▸ h₅, fun t ht hp => ?_, fun t ht hp => ?_⟩
  · rw [hr, (hth t hp).2]; exact h₆ t ht (hth t hp).1
  · rw [hr, (hth t hp).2]; exact h₇ t ht (hth t hp).1

section Step

variable {nr : Nat} {s : Machine n} (h : RingOk role nr s)
include h

theorem RingData.store {t : Fin n} (hat : At (ringCode role) s t .store) :
    RingData role nr (s.store t) := by
  obtain ⟨hrole, hpc⟩ := ringLines_store hat.2
  have d := h.data
  have hcap := h.filled_le
  refine ⟨d.nrSlots_eq, d.in_eq, d.out_eq, d.deq_le, fun j hj hle => ?_, fun u hu hp => ?_,
    fun u hu hp => ?_⟩
  · change j < s.ring.enq.length at hj
    change s.ring.deq.length ≤ j at hle
    have hne : j % nr ≠ s.ring.in' := by
      rw [d.in_eq]; exact mod_ne_mod_of_lt hj (by omega)
    simp only [Machine.store, Function.update_noteq hne]
    exact d.slots_eq j hj hle
  · by_cases hut : u = t
    · subst hut; simp [Machine.store]
    · simp only [Machine.store, Machine.next, Machine.setThread, Function.update_noteq hut] at hp
      exact (h.holdsMutex_unique hut ⟨by omega, by omega⟩ ⟨by omega, by omega⟩).elim
  · have hut : u ≠ t := fun e => by subst e; simp_all
    simp only [Machine.store, Machine.next, Machine.setThread, Function.update_noteq hut] at hp ⊢
    exact d.loaded u hu hp

theorem RingData.advanceIn (hnr : 0 < nr) {t : Fin n} (hat : At (ringCode role) s t .advanceIn) :
    RingData role nr (s.advanceIn t) := by
  obtain ⟨hrole, hpc⟩ := ringLines_advanceIn hat.2
  have d := h.data
  have hother : ∀ u, u ≠ t → (s.threads u).pc ≠ 3 := fun u hut hp =>
    h.holdsMutex_unique hut ⟨by omega, by omega⟩ ⟨by omega, by omega⟩
  refine ⟨d.nrSlots_eq, ?_, d.out_eq, d.deq_le.trans (List.prefix_append _ _),
    fun j hj hle => ?_, fun u _ hp => ?_, fun u _ hp => ?_⟩
  · simp [Machine.advanceIn, d.in_eq, d.nrSlots_eq, advance_mod hnr]
  · simp only [Machine.advanceIn, List.length_append, List.length_singleton] at hj hle ⊢
    rcases Nat.lt_or_ge j s.ring.enq.length with hj' | hj'
    · rw [List.getElem_append_left hj']; exact d.slots_eq j hj' hle
    · have : j = s.ring.enq.length := by omega
      subst this
      rw [List.getElem_concat_length _ _ _ rfl, ← d.in_eq]
      exact d.stored t hrole hpc
  · by_cases hut : u = t
    · subst hut; simp [Machine.advanceIn, hpc] at hp
    · simp only [Machine.advanceIn, Machine.next, Machine.setThread, Function.update_noteq hut] at hp
      exact (hother u hut hp).elim
  · by_cases hut : u = t
    · subst hut; simp [Machine.advanceIn, hpc] at hp
    · simp only [Machine.advanceIn, Machine.next, Machine.setThread, Function.update_noteq hut] at hp
      exact (hother u hut hp).elim

theorem RingData.load {t : Fin n} (hat : At (ringCode role) s t .load) :
    RingData role nr (s.load t) := by
  obtain ⟨hrole, hpc⟩ := ringLines_load hat.2
  have d := h.data
  have hlt := h.filled_pos_of_load hat
  refine ⟨d.nrSlots_eq, d.in_eq, d.out_eq, d.deq_le, d.slots_eq, fun u hu hp => ?_,
    fun u hu hp => ?_⟩
  · have hut : u ≠ t := fun e => by subst e; simp_all
    simp only [Machine.load, Machine.setThread, Function.update_noteq hut] at hp ⊢
    exact d.stored u hu hp
  · by_cases hut : u = t
    · subst hut
      simp only [Machine.load, Machine.setThread, Function.update_same]
      rw [d.out_eq, d.slots_eq _ hlt le_rfl, List.getElem?_eq_getElem hlt]
    · simp only [Machine.load, Machine.setThread, Function.update_noteq hut] at hp ⊢
      exact d.loaded u hu hp

theorem RingData.advanceOut (hnr : 0 < nr) {t : Fin n} (hat : At (ringCode role) s t .advanceOut) :
    RingData role nr (s.advanceOut t) := by
  obtain ⟨hrole, hpc⟩ := ringLines_advanceOut hat.2
  have d := h.data
  have hother : ∀ u, u ≠ t → (s.threads u).pc ≠ 3 := fun u hut hp =>
    h.holdsMutex_unique hut ⟨by omega, by omega⟩ ⟨by omega, by omega⟩
  refine ⟨d.nrSlots_eq, d.in_eq, ?_, prefix_append_of_getElem? d.deq_le (d.loaded t hrole hpc),
    fun j hj hle => ?_, fun u _ hp => ?_, fun u _ hp => ?_⟩
  · simp [Machine.advanceOut, d.out_eq, d.nrSlots_eq, advance_mod hnr]
  · simp only [Machine.advanceOut, List.length_append, List.length_singleton] at hle
    exact d.slots_eq j hj (by omega)
  · by_cases hut : u = t
    · subst hut; simp [Machine.advanceOut, hpc] at hp
    · simp only [Machine.advanceOut, Machine.next, Machine.setThread, Function.update_noteq hut] at hp
      exact (hother u hut hp).elim
  · by_cases hut : u = t
    · subst hut; simp [Machine.advanceOut, hpc] at hp
    · simp only [Machine.advanceOut, Machine.next, Machine.setThread, Function.update_noteq hut] at hp
      exact (hother u hut hp).elim

/-- **One step keeps `RingOk`.** -/
theorem RingOk.step (hnr : 0 < nr) {s' : Machine n} (hs : Step (ringCode role) s s') : RingOk role nr s' := by
  refine ⟨h.mutexes.step hs, h.holding.step (balanced_ringCode role) hs, ?_⟩
  have d := h.data
  cases hs with
  | call t v _ _ =>
    refine d.of_control rfl fun u hp => ?_
    by_cases hut : u = t
    · subst hut; simp [Machine.call] at hp
    · have e : (s.call t v).threads u = s.threads u := by simp [Machine.call, hut]
      rw [e] at hp ⊢; exact ⟨hp, rfl⟩
  | acquire t m hat _ =>
    rename_i mx b _
    have hle := ringLines_acquire hat.2
    refine d.of_control (Machine.acquire_ring s t m mx b) fun u hp => ?_
    by_cases hut : u = t
    · subst hut; have := Machine.acquire_pc_le s u m mx b; omega
    · rw [Machine.acquire_threads_ne s m mx b hut] at hp ⊢; exact ⟨hp, rfl⟩
  | resume t m _ hc =>
    have hle := ringLines_acquire hc
    refine d.of_control rfl fun u hp => ?_
    by_cases hut : u = t
    · subst hut; simp [Machine.resume] at hp; omega
    · have e : (s.resume t m).threads u = s.threads u := by simp [Machine.resume, hut]
      rw [e] at hp ⊢; exact ⟨hp, rfl⟩
  | release t m hat hr =>
    rename_i mx w
    have hle := ringLines_release hat.2
    refine d.of_control (Machine.release_ring s t m mx w) fun u hp => ?_
    obtain ⟨hpc, hval⟩ := Machine.release_threads s t m mx w u
    rw [hpc] at hp; rw [hval]
    by_cases hut : u = t
    · subst hut; simp at hp; omega
    · have e : (s.next t).threads u = s.threads u := by simp [hut]
      rw [e] at hp ⊢; exact ⟨hp, rfl⟩
  | store t hat => exact RingData.store h hat
  | advanceIn t hat => exact RingData.advanceIn h hnr hat
  | load t hat => exact RingData.load h hat
  | advanceOut t hat => exact RingData.advanceOut h hnr hat

end Step

variable (role)

theorem ringOk_init {nr : Nat} (hnr : 0 < nr) (slots : Nat → Int) :
    RingOk role nr (initRingbuffer role nr slots) := by
  refine ⟨mutexInv_init (fun m => by cases m <;> simp [ringKeys]; omega) nr slots,
    holdingOk_init (balanced_ringCode role) _ nr slots, ⟨rfl, by simp [initRingbuffer, Machine.init],
      by simp [initRingbuffer, Machine.init], List.prefix_refl _,
      fun j hj => absurd hj (by simp [initRingbuffer, Machine.init]),
      fun t _ hp => ?_, fun t _ hp => ?_⟩⟩ <;>
    simp [initRingbuffer, Machine.init, ringCode, ringLines_length] at hp

theorem ringOk_reachable {nr : Nat} (hnr : 0 < nr) {slots : Nat → Int} {s : Machine n}
    (h : Reachable (ringCode role) (initRingbuffer role nr slots) s) : RingOk role nr s :=
  Reachable.induct _ _ (ringOk_init role hnr slots) (fun _ _ hi hs => hi.step hnr hs) h

/-! ## Order, occupancy, exclusion and progress of every run -/

/-- **The ring buffer is a FIFO queue.** For any producers and consumers after
    `init_ringbuffer(nr)` with `nr ≥ 1`, in every state of every run: `in` and `out` lie below
    `nr_slots`, the values dequeued are a prefix of the values stored, and a producer at its store
    writes a slot that holds no value stored and not yet dequeued. -/
theorem ringbuffer_fifo {nr : Nat} (slots : Nat → Int) (hnr : 1 ≤ nr) {s : Machine n}
    (h : Reachable (ringCode role) (initRingbuffer role nr slots) s) :
    s.ring.in' < s.ring.nrSlots ∧ s.ring.out < s.ring.nrSlots ∧ s.ring.deq <+: s.ring.enq ∧
    ∀ t, At (ringCode role) s t .store → ∀ j, s.ring.deq.length ≤ j → j < s.ring.enq.length →
      j % s.ring.nrSlots ≠ s.ring.in' := by
  have ok := ringOk_reachable role hnr h
  have d := ok.data
  have hcap := ok.filled_le
  rw [d.nrSlots_eq, d.in_eq, d.out_eq]
  exact ⟨Nat.mod_lt _ hnr, Nat.mod_lt _ hnr, d.deq_le,
    fun _ _ j hle hj => mod_ne_mod_of_lt hj (by omega)⟩

/-- A producer enqueues `7` into two slots and a consumer dequeues it: the state at the consumer's
    load, and the state after its `release_mutex(&ringbuffer.full)`. -/
theorem ring_enqueue_then_dequeue :
    ∃ s₁ s₂, Reachable (ringCode ![true, false]) (initRingbuffer ![true, false] 2 fun _ => 0) s₁ ∧
      At (ringCode ![true, false]) s₁ 1 .load ∧ s₁.ring.enq = [7] ∧ s₁.ring.deq = [] ∧
      Reachable (ringCode ![true, false]) (initRingbuffer ![true, false] 2 fun _ => 0) s₂ ∧
      s₂.ring.enq = [7] ∧ s₂.ring.deq = [7] := by
  have r₀ : Reachable (ringCode ![true, false]) (initRingbuffer ![true, false] 2 fun _ => 0)
      (initRingbuffer ![true, false] 2 fun _ => 0) := .init
  -- thread 0 runs enqueue_into_ringbuffer(7)
  have rp := ((((((r₀.step (.call 0 7 rfl (by decide))).step (.acquire 0 .full ⟨rfl, rfl⟩ rfl)).step
    (.acquire 0 .mutex ⟨rfl, rfl⟩ rfl)).step (.store 0 ⟨rfl, rfl⟩)).step
    (.advanceIn 0 ⟨rfl, rfl⟩)).step (.release 0 .mutex ⟨rfl, rfl⟩ rfl)).step
    (.release 0 .empty ⟨rfl, rfl⟩ rfl)
  -- thread 1 runs dequeue_from_ringbuffer up to its load, then to its end
  have r₁ := ((rp.step (.call 1 0 rfl (by decide))).step (.acquire 1 .empty ⟨rfl, rfl⟩ rfl)).step
    (.acquire 1 .mutex ⟨rfl, rfl⟩ rfl)
  have r₂ := (((r₁.step (.load 1 ⟨rfl, rfl⟩)).step (.advanceOut 1 ⟨rfl, rfl⟩)).step
    (.release 1 .mutex ⟨rfl, rfl⟩ rfl)).step (.release 1 .full ⟨rfl, rfl⟩ rfl)
  exact ⟨_, _, r₁, ⟨rfl, rfl⟩, rfl, rfl, r₂, rfl, rfl⟩

theorem ringbuffer_fifo_after_dequeue :
    1 ≤ 2 ∧ ∃ s, Reachable (ringCode ![true, false]) (initRingbuffer ![true, false] 2 fun _ => 0) s ∧
      s.ring.deq = [7] ∧ s.ring.in' < s.ring.nrSlots ∧ s.ring.out < s.ring.nrSlots ∧
      s.ring.deq <+: s.ring.enq ∧ ∀ t, At (ringCode ![true, false]) s t .store →
        ∀ j, s.ring.deq.length ≤ j → j < s.ring.enq.length → j % s.ring.nrSlots ≠ s.ring.in' := by
  obtain ⟨-, s, -, -, -, -, r, -, hd⟩ := ring_enqueue_then_dequeue
  exact ⟨by decide, s, r, hd, ringbuffer_fifo ![true, false] _ (by decide) r⟩

/-- **The semaphore invariant of the blocking mutex.** For threads running any code, from keys
    `k m ≥ 0` and empty queues, in every state of every run and for every mutex: the wait queue
    holds each thread at most once, exactly the threads asleep in `acquire_mutex`, and
    `max 0 (-key)` of them; unless its `++key` overflows `int`, `release_mutex` finds a waiter
    whenever it needs one and signals only a sleeping thread; and the returns from `acquire_mutex`
    exceed the calls of `release_mutex` by at most `k m`. For the ring buffer's code, at most one
    thread is inside `ringbuffer.mutex`. -/
theorem mutex_semaphore :
    (∀ (n : Nat) (code : Fin n → List Instr) (keys : Mx → Int) (nr : Nat) (slots : Nat → Int)
        (s : Machine n), (∀ m, 0 ≤ keys m) → Reachable code (Machine.init code keys nr slots) s →
      ∀ m, (s.mutexes m).waitqueue.Nodup ∧
        (∀ t, t ∈ (s.mutexes m).waitqueue ↔ SleepsOn code s m t) ∧
        ((s.mutexes m).waitqueue.length : Int) = max 0 (-(s.mutexes m).key) ∧
        ((s.mutexes m).key + 1 ≤ intMax → ∃ mx w, releaseMutex (s.mutexes m) = some (mx, w) ∧
          ∀ u, w = some u → SleepsOn code s m u) ∧
        (s.passed m : Int) - s.released m ≤ keys m) ∧
    (∀ (n : Nat) (role : Fin n → Bool) (nr : Nat) (slots : Nat → Int) (s : Machine n), 1 ≤ nr →
      Reachable (ringCode role) (initRingbuffer role nr slots) s →
      ∀ t u, t ≠ u → HoldsMutex s t → ¬ HoldsMutex s u) :=
  ⟨fun _ _ _ _ _ _ hk h m =>
    let ok := (mutexInv_reachable hk h).ok m
    ⟨ok.nodup, ok.mem_iff, ok.length_eq, ok.releaseMutex_some, ok.passed_sub_released_le⟩,
   fun _ role _ _ _ hnr h _ _ htu ht hu =>
    (ringOk_reachable role hnr h).holdsMutex_unique htu ht hu⟩

/-- **From a key of `INT_MAX`, `release_mutex` leaves `int`.** One thread calls `release_mutex`
    on a mutex whose key was set to `INT_MAX`, with nobody waiting: `++key` overflows, so the call
    is undefined; wrapped to 32 bits the key becomes `INT_MIN`, which is not positive, and the code
    goes on to take `list_first_entry` of the empty wait queue. -/
theorem release_mutex_overflows_at_int_max :
    let code := fun _ : Fin 1 => [Instr.release .mutex]
    ∃ s, Reachable code (Machine.init code (fun _ => intMax) 1 fun _ => 0) s ∧
      At code s 0 (.release .mutex) ∧ (s.mutexes .mutex).waitqueue = [] ∧
      releaseMutex (s.mutexes .mutex) = none ∧
      ((s.mutexes .mutex).key + 1).bmod (2 ^ 32) = intMin := by
  intro code
  exact ⟨_, Reachable.init.step (.call 0 0 rfl (by decide)), ⟨rfl, rfl⟩, rfl, rfl, by decide⟩

/-- **The buffer neither overflows nor underflows.** In every state of every run from
    `init_ringbuffer(nr)` with `nr ≥ 1`, between `0` and `nr - 1` values are in the buffer, and a
    consumer at its load finds one. -/
theorem ringbuffer_occupancy {nr : Nat} (slots : Nat → Int) (hnr : 1 ≤ nr) {s : Machine n}
    (h : Reachable (ringCode role) (initRingbuffer role nr slots) s) :
    s.ring.deq.length ≤ s.ring.enq.length ∧ s.ring.enq.length ≤ s.ring.deq.length + (nr - 1) ∧
    ∀ t, At (ringCode role) s t .load → s.ring.deq.length < s.ring.enq.length := by
  have ok := ringOk_reachable role hnr h
  have := ok.filled_le
  exact ⟨ok.data.deq_le.length_le, by omega, fun _ hat => ok.filled_pos_of_load hat⟩

/-- With two slots, the buffer holding one value is full, and the consumer at its load finds it. -/
theorem ringbuffer_occupancy_at_load :
    1 ≤ 2 ∧ ∃ s, Reachable (ringCode ![true, false]) (initRingbuffer ![true, false] 2 fun _ => 0) s ∧
      At (ringCode ![true, false]) s 1 .load ∧ s.ring.enq.length = s.ring.deq.length + (2 - 1) ∧
      s.ring.deq.length ≤ s.ring.enq.length ∧ s.ring.enq.length ≤ s.ring.deq.length + (2 - 1) ∧
      ∀ t, At (ringCode ![true, false]) s t .load → s.ring.deq.length < s.ring.enq.length := by
  obtain ⟨s, -, r, hat, he, hd, -⟩ := ring_enqueue_then_dequeue
  exact ⟨by decide, s, r, hat, by rw [he, hd]; rfl,
    ringbuffer_occupancy ![true, false] _ (by decide) r⟩

/-- **`init_ringbuffer` sets `full` one short.** In every state of every run from
    `init_ringbuffer(nr)`, at most `nr - 1` producers are past `acquire_mutex(&ringbuffer.full)`
    and unmatched by a consumer's `release_mutex(&ringbuffer.full)`: a producer that sleeps there
    does so with at most `nr - 1` values outstanding, never `nr`. With `nr = 1`, one producer and one
    consumer: each calls once, both sleep in `acquire_mutex`, and no thread can take a step. -/
theorem ringbuffer_wastes_a_slot :
    (∀ (n : Nat) (role : Fin n → Bool) (nr : Nat) (slots : Nat → Int) (s : Machine n), 1 ≤ nr →
      Reachable (ringCode role) (initRingbuffer role nr slots) s →
      (s.passed .full : Int) - s.released .full ≤ nr - 1) ∧
    ∃ s, Reachable (ringCode ![true, false]) (initRingbuffer ![true, false] 1 fun _ => 0) s ∧
      SleepsOn (ringCode ![true, false]) s .full 0 ∧ SleepsOn (ringCode ![true, false]) s .empty 1 ∧
      ∀ s', ¬ Step (ringCode ![true, false]) s s' := by
  refine ⟨fun _ role _ _ _ hnr h =>
    ((ringOk_reachable role hnr h).mutexes.ok .full).passed_sub_released_le, ?_⟩
  -- thread 0 produces and thread 1 consumes; each calls, and each sleeps at its first line
  have r₀ : Reachable (ringCode ![true, false]) (initRingbuffer ![true, false] 1 fun _ => 0)
      (initRingbuffer ![true, false] 1 fun _ => 0) := .init
  have r := (((r₀.step (.call 0 7 rfl (by decide))).step (.call 1 0 rfl (by decide))).step
    (.acquire 0 .full ⟨rfl, rfl⟩ rfl)).step (.acquire 1 .empty ⟨rfl, rfl⟩ rfl)
  refine ⟨_, r, ⟨rfl, rfl⟩, ⟨rfl, rfl⟩, fun s' hs => ?_⟩
  obtain ⟨t, ht⟩ := hs.exists_awake
  revert t; decide

end Locks
end OsHomeworks
