import OsHomeworks.Vm.Run

/-!
# `Vm.Fork` — the copy loops of `switch_process`

The fork branch copies the parent's page table into a `malloc`'d child with two nested loops. The
inner loop's pass on one entry pair is `forkedParent` (the parent's new entry) and `forkedChild` (the
child's); `forkTable_fst` and `forkTable_snd` give the whole result slot by slot.

The loops write only what the parent has: a child slot whose parent slot is `NULL`, and in a copied
directory the child's `writable` bit, its entries where the parent's are invalid, and its `private`
where the parent's entry is neither writable nor marked, all keep what `malloc` returned
(`fork_copies_unset_memory`).
-/

namespace OsHomeworks
namespace Vm

variable (cfg : Config)

/-! ## One entry -/

/-- The parent's entry after its pass: a valid entry that is writable or marked becomes read-only
    and marked. -/
def forkedParent (p : Pte) : Pte :=
  if p.valid ∧ (p.writable ∨ p.private' = 1) then { p with writable := false, private' := 1 } else p

/-- The child's entry after its pass over the parent's `p`, from what `malloc` left in `c`. -/
def forkedChild (p c : Pte) : Pte :=
  if p.valid then
    { c with private' := if p.writable ∨ p.private' = 1 then 1 else c.private', valid := true,
             pfn := p.pfn }
  else c

@[simp] theorem forkPte_fst (p c : Pte) (mapcounts : Nat → Nat) :
    (forkPte p c mapcounts).1 = forkedParent p := by
  unfold forkPte forkedParent
  by_cases hv : p.valid <;> by_cases hw : p.writable ∨ p.private' = 1 <;> simp [hv, hw]

@[simp] theorem forkPte_snd (p c : Pte) (mapcounts : Nat → Nat) :
    (forkPte p c mapcounts).2.1 = forkedChild p c := by
  unfold forkPte forkedChild
  by_cases hv : p.valid <;> by_cases hw : p.writable ∨ p.private' = 1 <;> simp [hv, hw]

/-! ## The loops -/

theorem forkDir_fst (pd cd : PteDirectory) (mapcounts : Nat → Nat) (j : Nat) :
    (forkDir pd cd mapcounts j).1 = fun x => if x < j then forkedParent (pd x) else pd x := by
  induction j with
  | zero => rfl
  | succ j ih =>
    funext x
    simp only [forkDir, forkPte_fst, ih]
    rcases Nat.lt_trichotomy x j with h | rfl | h
    · simp [Function.update_noteq (Nat.ne_of_lt h), h, Nat.lt_succ_of_lt h]
    · simp
    · simp [Function.update_noteq (Nat.ne_of_gt h), Nat.not_lt.mpr (Nat.le_of_lt h),
        Nat.not_lt.mpr (Nat.succ_le_of_lt h)]

theorem forkDir_snd (pd cd : PteDirectory) (mapcounts : Nat → Nat) (j : Nat) :
    (forkDir pd cd mapcounts j).2.1 =
      fun x => if x < j then forkedChild (pd x) (cd x) else cd x := by
  induction j with
  | zero => rfl
  | succ j ih =>
    funext x
    simp only [forkDir, forkPte_snd, ih, forkDir_fst]
    rcases Nat.lt_trichotomy x j with h | rfl | h
    · simp [Function.update_noteq (Nat.ne_of_lt h), h, Nat.lt_succ_of_lt h]
    · simp
    · simp [Function.update_noteq (Nat.ne_of_gt h), Nat.not_lt.mpr (Nat.le_of_lt h),
        Nat.not_lt.mpr (Nat.succ_le_of_lt h)]

/-- The parent's slot `i` after `k` passes of the outer loop. -/
theorem forkTable_fst (pt ct : Pagetable) (dirs : Nat → PteDirectory) (mapcounts : Nat → Nat)
    (k i : Nat) :
    (forkTable cfg pt ct dirs mapcounts k).1 i =
      if i < k then (pt i).map fun pd x =>
        if x < cfg.nrPtesPerPage then forkedParent (pd x) else pd x
      else pt i := by
  induction k generalizing i with
  | zero => simp [forkTable]
  | succ k ih =>
    have hk : (forkTable cfg pt ct dirs mapcounts k).1 k = pt k := by simp [ih]
    simp only [forkTable]
    split
    · rename_i hnone
      rw [ih]
      rcases Nat.lt_trichotomy i k with h | rfl | h
      · simp [h, Nat.lt_succ_of_lt h]
      · rw [hk] at hnone; simp [hnone]
      · simp [Nat.not_lt.mpr (Nat.le_of_lt h), Nat.not_lt.mpr (Nat.succ_le_of_lt h)]
    · rename_i pd hpd
      rw [hk] at hpd
      rcases Nat.lt_trichotomy i k with h | rfl | h
      · simp [Function.update_noteq (Nat.ne_of_lt h), ih, h, Nat.lt_succ_of_lt h]
      · simp [hpd, forkDir_fst]
      · simp [Function.update_noteq (Nat.ne_of_gt h), ih, Nat.not_lt.mpr (Nat.le_of_lt h),
          Nat.not_lt.mpr (Nat.succ_le_of_lt h)]

/-- The child's slot `i` after `k` passes of the outer loop: what `malloc` left there when the
    parent's slot is `NULL`. -/
theorem forkTable_snd (pt ct : Pagetable) (dirs : Nat → PteDirectory) (mapcounts : Nat → Nat)
    (k i : Nat) :
    (forkTable cfg pt ct dirs mapcounts k).2.1 i =
      if i < k then (pt i).elim (ct i) fun pd => some fun x =>
        if x < cfg.nrPtesPerPage then forkedChild (pd x) (dirs i x) else dirs i x
      else ct i := by
  induction k with
  | zero => simp [forkTable]
  | succ k ih =>
    have hk : (forkTable cfg pt ct dirs mapcounts k).1 k = pt k := by simp [forkTable_fst]
    simp only [forkTable]
    split
    · rename_i hnone
      rw [ih]
      rcases Nat.lt_trichotomy i k with h | rfl | h
      · simp [h, Nat.lt_succ_of_lt h]
      · rw [hk] at hnone; simp [hnone]
      · simp [Nat.not_lt.mpr (Nat.le_of_lt h), Nat.not_lt.mpr (Nat.succ_le_of_lt h)]
    · rename_i pd hpd
      rw [hk] at hpd
      rcases Nat.lt_trichotomy i k with h | rfl | h
      · simp [Function.update_noteq (Nat.ne_of_lt h), ih, h, Nat.lt_succ_of_lt h]
      · simp [hpd, forkDir_snd]
      · simp [Function.update_noteq (Nat.ne_of_gt h), ih, Nat.not_lt.mpr (Nat.le_of_lt h),
          Nat.not_lt.mpr (Nat.succ_le_of_lt h)]

/-! ## Entry by entry -/

theorem index_lt {v : Nat} (hv : v < nrVpns cfg) :
    outerIndex cfg v < cfg.nrPtesPerPage ∧ innerIndex cfg v < cfg.nrPtesPerPage :=
  ⟨Nat.div_lt_of_lt_mul hv, Nat.mod_lt _ cfg.nrPtesPerPage_pos⟩

/-- **The parent's entries after the loops**: every entry of the address space has had its pass. -/
theorem pteOf_forkTable_fst (pt ct : Pagetable) (dirs : Nat → PteDirectory) (mapcounts : Nat → Nat)
    {v : Nat} (hv : v < nrVpns cfg) :
    pteOf cfg (forkTable cfg pt ct dirs mapcounts cfg.nrPtesPerPage).1 v =
      (pteOf cfg pt v).map forkedParent := by
  obtain ⟨ho, hi⟩ := index_lt cfg hv
  cases h : pt (outerIndex cfg v) <;> simp [pteOf, forkTable_fst, ho, hi, h]

/-- **The child's entries after the loops, on zeroed memory**: the child has a directory exactly
    where the parent has one, and each entry is the pass of the parent's over a zero entry. -/
theorem pteOf_forkTable_snd_zero (pt : Pagetable) (mapcounts : Nat → Nat) {v : Nat}
    (hv : v < nrVpns cfg) :
    pteOf cfg (forkTable cfg pt Pagetable.empty (fun _ => PteDirectory.zero) mapcounts
      cfg.nrPtesPerPage).2.1 v = (pteOf cfg pt v).map fun p => forkedChild p Pte.zero := by
  obtain ⟨ho, hi⟩ := index_lt cfg hv
  cases h : pt (outerIndex cfg v) <;>
    simp [pteOf, forkTable_snd, ho, hi, h, Pagetable.empty, PteDirectory.zero]

/-! ## The child -/

/-- **The child's page table after a fork.** Its slot `i` is what `malloc` left in `table i` when
    the parent's slot is `NULL`, and otherwise a directory whose entry `x` is `forkedChild` of the
    parent's entry and of what `malloc` left in `dirs i x`. -/
theorem forkProcess_child_slot (table : Pagetable) (dirs : Nat → PteDirectory) (pid : Nat)
    (s : System) {i : Nat} (hi : i < cfg.nrPtesPerPage) :
    let s' := forkProcess cfg table dirs pid s
    s'.table s'.current i = (s.table s.ptbr i).elim (table i) fun pd => some fun x =>
      if x < cfg.nrPtesPerPage then forkedChild (pd x) (dirs i x) else dirs i x := by
  simp [forkProcess, System.table, forkTable_snd, hi]

/-- **A fork copies unset memory into the child.** On `smallConfig`, with `malloc` handing back
    memory that is not zero: forking the initial process leaves the child's outer slot `0`
    non-`NULL` though the parent's is `NULL`; and forking a process that maps vpn `0` read-only gives
    the child a writable entry for the parent's frame, so the child's writes reach a frame the parent
    still maps. -/
theorem fork_copies_unset_memory :
    (let s := switchProcess smallConfig (fun _ => some PteDirectory.zero)
        (fun _ => PteDirectory.zero) 1 (System.init 0);
      (System.init 0).table 0 0 = none ∧ (s.table s.current 0).isSome) ∧
    (∃ s, Reachable smallConfig s ∧ mappers smallConfig s 0 = 2 ∧
      translate smallConfig (s.table s.current) 0 smallConfig.rwWrite = some 0) := by
  have h₁ := (Reachable.init smallConfig 0).step smallConfig
    (Step.alloc PteDirectory.zero 0 1 (by decide) rfl)
  have h₂ := h₁.step smallConfig
    (Step.switch Pagetable.empty (fun _ _ => { Pte.zero with writable := true }) 1)
  exact ⟨⟨rfl, rfl⟩, ⟨_, h₂, by decide, by decide⟩⟩

end Vm
end OsHomeworks
