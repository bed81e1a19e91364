import OsHomeworks.Locks.Machine

/-!
# `Locks.Holding` — who holds the units each mutex has handed out

A mutex used as a semaphore hands out one unit at each return from `acquire_mutex` and takes one
back at each call of `release_mutex`; `passed m - released m` is the number of units of `m` out. This
module says where they are. A thread holds what the lines it has passed in its current call add up
to (`heldAt`: `+1` for an acquire of `m`, `-1` for a release); a value in the buffer holds one unit of
`full` and owes one of `empty` (`Mx.bufferSign`), so the advance of `in` moves a unit of `full` from
the producer to the value and one of `empty` from the value to the producer, and the advance of `out`
moves them back.

For any code whose every call hands back what it takes (`Balanced`), every reachable state keeps
`HoldingOk`: the units out are the sum of what the threads hold and what the buffer holds.
-/

namespace OsHomeworks
namespace Locks

/-- What a value in the buffer holds of mutex `m`: a unit of `full`, minus one of `empty`. -/
def Mx.bufferSign : Mx → Int
  | .mutex => 0
  | .empty => -1
  | .full => 1

/-- What passing line `i` adds to what its thread holds of mutex `m`. -/
def Instr.effect (m : Mx) : Instr → Int
  | .acquire m' => if m' = m then 1 else 0
  | .release m' => if m' = m then -1 else 0
  | .store => 0
  | .advanceIn => -m.bufferSign
  | .load => 0
  | .advanceOut => m.bufferSign

/-- What a thread of code `c` holds of mutex `m` before line `pc`. -/
def heldAt (c : List Instr) (m : Mx) (pc : Nat) : Int :=
  ((c.take pc).map (Instr.effect m)).sum

variable {n : Nat} (code : Fin n → List Instr)

/-- Every call of every thread hands back what it takes. -/
def Balanced : Prop := ∀ t m, ((code t).map (Instr.effect m)).sum = 0

/-- The units of `m` out are what the threads hold plus what the buffer holds. -/
def HoldingOk (s : Machine n) : Prop :=
  ∀ m, (s.passed m : Int) - s.released m =
    tally (fun t th => heldAt (code t) m th.pc) s +
      m.bufferSign * ((s.ring.enq.length : Int) - s.ring.deq.length)

variable {code}

theorem heldAt_zero (c : List Instr) (m : Mx) : heldAt c m 0 = 0 := rfl

theorem heldAt_succ {l : List Instr} {m : Mx} {pc : Nat} {i : Instr} (h : l[pc]? = some i) :
    heldAt l m (pc + 1) = heldAt l m pc + i.effect m := by
  simp [heldAt, List.take_succ, h]

theorem heldAt_of_length_le {c : List Instr} {m : Mx} {pc : Nat} (hb : (c.map (Instr.effect m)).sum = 0)
    (h : c.length ≤ pc) : heldAt c m pc = 0 := by
  rw [heldAt, List.take_of_length_le h, hb]

/-- Only thread `t`'s line counter changes: the sum of what the threads hold moves by the change
    of what `t` holds. -/
theorem tally_heldAt {s s' : Machine n} {t : Fin n} {m : Mx}
    (hpc : ∀ u, u ≠ t → (s'.threads u).pc = (s.threads u).pc) :
    tally (fun u th => heldAt (code u) m th.pc) s' =
      tally (fun u th => heldAt (code u) m th.pc) s - heldAt (code t) m (s.threads t).pc +
        heldAt (code t) m (s'.threads t).pc := by
  unfold tally
  have hrest : ∑ u in Finset.univ.erase t, heldAt (code u) m (s'.threads u).pc =
      ∑ u in Finset.univ.erase t, heldAt (code u) m (s.threads u).pc :=
    Finset.sum_congr rfl fun u hu => by rw [hpc u (Finset.ne_of_mem_erase hu)]
  rw [← Finset.add_sum_erase _ _ (Finset.mem_univ t), ← Finset.add_sum_erase _ _ (Finset.mem_univ t),
    hrest]
  ring

/-- A step that moves thread `t` past line `i`, leaves the other line counters alone, and changes
    the counters and the buffer by what `i` hands out, keeps `HoldingOk`. -/
theorem HoldingOk.advance {s s' : Machine n} {t : Fin n} {i : Instr} (h : HoldingOk code s)
    (hpc : ∀ u, u ≠ t → (s'.threads u).pc = (s.threads u).pc)
    (ht : (s'.threads t).pc = (s.threads t).pc + 1) (hc : (code t)[(s.threads t).pc]? = some i)
    (hcount : ∀ m, (s'.passed m : Int) - s'.released m -
        m.bufferSign * ((s'.ring.enq.length : Int) - s'.ring.deq.length) =
      (s.passed m : Int) - s.released m - m.bufferSign * ((s.ring.enq.length : Int) - s.ring.deq.length) +
        i.effect m) :
    HoldingOk code s' := by
  intro m
  have hm := hcount m
  have hs := h m
  rw [tally_heldAt hpc, ht, heldAt_succ hc]
  linarith

/-- A step that changes no line counter, no counter and neither log keeps `HoldingOk`. -/
theorem HoldingOk.same {s s' : Machine n} {t : Fin n} {m : Mx} (h : HoldingOk code s)
    (hpc : ∀ u, u ≠ t → (s'.threads u).pc = (s.threads u).pc)
    (ht : heldAt (code t) m (s'.threads t).pc = heldAt (code t) m (s.threads t).pc)
    (hp : s'.passed = s.passed) (hr : s'.released = s.released) (hg : s'.ring = s.ring) : (s'.passed m : Int) - s'.released m =
      tally (fun t th => heldAt (code t) m th.pc) s' +
        m.bufferSign * ((s'.ring.enq.length : Int) - s'.ring.deq.length) := by
  rw [tally_heldAt hpc, ht, hp, hr, hg, h m]
  ring

/-- **One step keeps `HoldingOk`**, for balanced code. -/
theorem HoldingOk.step (hb : Balanced code) {s s' : Machine n} (h : HoldingOk code s)
    (hs : Step code s s') : HoldingOk code s' := by
  cases hs with
  | call t v hr hend =>
    intro m
    refine h.same (t := t) (fun u hu => by simp [Machine.call, Machine.setThread, hu]) ?_
      rfl rfl rfl
    simp [Machine.call, Machine.setThread, heldAt_zero, heldAt_of_length_le (hb t m) hend]
  | acquire t m₀ hat _ =>
    unfold Machine.acquire
    split
    · intro m
      exact h.same (t := t) (fun u hu => by simp [Machine.setThread, hu])
        (by simp [Machine.setThread]) rfl rfl rfl
    · refine h.advance (t := t) (fun u hu => by simp [Machine.next, Machine.setThread, hu])
        (by simp [Machine.next, Machine.setThread]) hat.2 fun m => ?_
      by_cases hm : m = m₀
      · subst hm; simp [Instr.effect]; ring
      · simp [Instr.effect, hm, Ne.symm hm]
  | resume t m₀ _ hc =>
    refine h.advance (t := t) (fun u hu => by simp [Machine.resume, Machine.next, Machine.setThread, hu])
      (by simp [Machine.resume, Machine.next, Machine.setThread]) hc fun m => ?_
    by_cases hm : m = m₀
    · subst hm; simp [Machine.resume, Instr.effect]; ring
    · simp [Machine.resume, Instr.effect, hm, Ne.symm hm]
  | release t m₀ hat hr =>
    rename_i mx w
    have hpc := fun u => (Machine.release_threads s t m₀ mx w u).1
    refine h.advance (t := t) (fun u hu => by simp [hpc, hu]) (by simp [hpc]) hat.2 fun m => ?_
    by_cases hm : m = m₀
    · subst hm; simp [Instr.effect]; ring
    · simp [Instr.effect, hm, Ne.symm hm]
  | store t hat =>
    exact h.advance (t := t) (fun u hu => by simp [Machine.store, Machine.next, Machine.setThread, hu])
      (by simp [Machine.store, Machine.next, Machine.setThread]) hat.2
      fun m => by simp [Machine.store, Machine.next, Machine.setThread, Instr.effect]
  | advanceIn t hat =>
    exact h.advance (t := t)
      (fun u hu => by simp [Machine.advanceIn, Machine.next, Machine.setThread, hu])
      (by simp [Machine.advanceIn, Machine.next, Machine.setThread]) hat.2
      fun m => by simp [Machine.advanceIn, Machine.next, Machine.setThread, Instr.effect]; ring
  | load t hat =>
    exact h.advance (t := t) (fun u hu => by simp [Machine.load, Machine.setThread, hu])
      (by simp [Machine.load, Machine.setThread]) hat.2
      fun m => by simp [Machine.load, Machine.setThread, Instr.effect]
  | advanceOut t hat =>
    exact h.advance (t := t)
      (fun u hu => by simp [Machine.advanceOut, Machine.next, Machine.setThread, hu])
      (by simp [Machine.advanceOut, Machine.next, Machine.setThread]) hat.2
      fun m => by simp [Machine.advanceOut, Machine.next, Machine.setThread, Instr.effect]; ring

theorem holdingOk_init (hb : Balanced code) (keys : Mx → Int) (nr : Nat) (slots : Nat → Int) :
    HoldingOk code (Machine.init code keys nr slots) := fun m => by
  simp [Machine.init, tally, heldAt_of_length_le (hb _ m) le_rfl]

end Locks
end OsHomeworks
