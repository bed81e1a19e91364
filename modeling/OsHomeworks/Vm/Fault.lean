import OsHomeworks.Vm.Run

/-!
# `Vm.Fault` — what `handle_page_fault` does with a fault

The handler is called after a translation failed, and is meant to report whether it resolved the
fault. Three of its paths go wrong, each for every state it is reached from:

* `handlePageFault_null` — line 148 reads `pfn` through the outer slot before line 149 tests the
  slot for `NULL`, so a fault on a vpn without a directory dereferences `NULL`;
* `handlePageFault_translated` — when the access translates and the entry carries no copy-on-write
  mark, control reaches the end of the function without a `return`;
* `handlePageFault_cow_full` — a copy-on-write break lowers the old frame's count before calling
  `alloc_page`, and ignores its `-1`: when no frame is free the handler reports success, the entry
  still maps the shared frame read-only, and the count is one short of the entries that map it.

The runs after each theorem reach these paths on `smallConfig`, with zeroed memory from `malloc`.
-/

namespace OsHomeworks
namespace Vm

variable (cfg : Config)

theorem handlePageFault_null {vpn rw : Nat} {s : System}
    (h : s.table s.ptbr (outerIndex cfg vpn) = none) :
    handlePageFault cfg vpn rw s = .error .nullDeref := by
  simp [handlePageFault, h]

theorem handlePageFault_translated {vpn rw : Nat} {s : System} {dir : PteDirectory}
    (hdir : s.table s.ptbr (outerIndex cfg vpn) = some dir)
    (hv : (dir (innerIndex cfg vpn)).valid = true)
    (hw : rw = cfg.rwWrite → (dir (innerIndex cfg vpn)).writable = true)
    (hp : (dir (innerIndex cfg vpn)).private' ≠ 1) :
    handlePageFault cfg vpn rw s = .error .noReturn := by
  have hn : ¬ (rw = cfg.rwWrite ∧ (dir (innerIndex cfg vpn)).writable = false ∧
      (dir (innerIndex cfg vpn)).private' = 0) := fun ⟨hrw, hf, _⟩ => by
    rw [hw hrw] at hf; cases hf
  simp [handlePageFault, hdir, hv, hp, hn]

theorem handlePageFault_cow_full {vpn rw : Nat} {s : System} {dir : PteDirectory}
    (hdir : s.table s.ptbr (outerIndex cfg vpn) = some dir)
    (hv : (dir (innerIndex cfg vpn)).valid = true) (hp : (dir (innerIndex cfg vpn)).private' = 1)
    (hc : 1 < s.mapcounts (dir (innerIndex cfg vpn)).pfn)
    (hfull : cfg.nrPageframes ≤
      scanFree (s.decr (dir (innerIndex cfg vpn)).pfn).mapcounts 0 cfg.nrPageframes) :
    handlePageFault cfg vpn rw s = .ok (true, s.decr (dir (innerIndex cfg vpn)).pfn) := by
  simp [handlePageFault, hdir, hv, hp, hc, allocPage_of_full cfg hfull]

/-- **A copy-on-write break without a free frame puts the counts out of step.** On `smallConfig`,
    after a process maps vpn `0` writable and forks, a write fault in the child leaves frame `0`
    mapped by two valid entries with a count of `1`; freeing vpn `0` in the child and then in the
    parent decrements the count of frame `0` from `0`. -/
theorem share_count_drift :
    (∃ s, Reachable smallConfig s ∧ s.mapcounts 0 = 1 ∧ mappers smallConfig s 0 = 2) ∧
    (∃ s s', Reachable smallConfig s ∧ Step smallConfig s (.free 0) s' ∧
      s.mapcounts 0 = 0 ∧ s'.mapcounts 0 = uintMinusOne) := by
  have h₁ := (Reachable.init smallConfig 0).step smallConfig
    (Step.alloc PteDirectory.zero 0 2 (by decide) rfl)
  have h₂ := h₁.step smallConfig (Step.switch Pagetable.empty (fun _ => PteDirectory.zero) 1)
  have h₃ := h₂.step smallConfig (Step.fault 0 2 (by decide) (by decide) rfl)
  have h₄ := h₃.step smallConfig (Step.free 0 (by decide) (by decide) rfl)
  have h₅ := h₄.step smallConfig (Step.switch Pagetable.empty (fun _ => PteDirectory.zero) 0)
  exact ⟨⟨_, h₃, by decide, by decide⟩,
    ⟨_, _, h₅, Step.free 0 (by decide) (by decide) rfl, by decide, by decide⟩⟩

/-- **After such a break a write lands in a shared frame.** On `smallConfig`, a second write fault
    in the child finds the count `1` and makes the entry writable: the child's writes to vpn `0` now
    translate to frame `0`, which the parent's valid entry still maps. -/
theorem cow_write_reaches_shared_frame :
    ∃ s, Reachable smallConfig s ∧ mappers smallConfig s 0 = 2 ∧
      translate smallConfig (s.table s.current) 0 smallConfig.rwWrite = some 0 := by
  have h₁ := (Reachable.init smallConfig 0).step smallConfig
    (Step.alloc PteDirectory.zero 0 2 (by decide) rfl)
  have h₂ := h₁.step smallConfig (Step.switch Pagetable.empty (fun _ => PteDirectory.zero) 1)
  have h₃ := h₂.step smallConfig (Step.fault 0 2 (by decide) (by decide) rfl)
  have h₄ := h₃.step smallConfig (Step.fault 0 2 (by decide) (by decide) rfl)
  exact ⟨_, h₄, by decide, by decide⟩

/-- **The handler's contract fails on three paths.** On `smallConfig`: a read fault in the initial
    state, whose vpn has no directory, dereferences `NULL`; after a process maps vpn `0` writable, a
    write that already translates runs off the end of the handler; and after a fork of that process,
    a write fault in the child reports success while the write still does not translate. -/
theorem fault_contract_broken :
    (translate smallConfig ((System.init 0).table 0) 0 1 = none ∧
      handlePageFault smallConfig 0 1 (System.init 0) = .error .nullDeref) ∧
    (∃ s, Reachable smallConfig s ∧ translate smallConfig (s.table s.current) 0 2 = some 0 ∧
      handlePageFault smallConfig 0 2 s = .error .noReturn) ∧
    (∃ s s', Reachable smallConfig s ∧ translate smallConfig (s.table s.current) 0 2 = none ∧
      handlePageFault smallConfig 0 2 s = .ok (true, s') ∧
      translate smallConfig (s'.table s'.current) 0 2 = none) := by
  have h₁ := (Reachable.init smallConfig 0).step smallConfig
    (Step.alloc PteDirectory.zero 0 2 (by decide) rfl)
  have h₂ := h₁.step smallConfig (Step.switch Pagetable.empty (fun _ => PteDirectory.zero) 1)
  exact ⟨⟨rfl, handlePageFault_null smallConfig rfl⟩, ⟨_, h₁, rfl, rfl⟩,
    ⟨_, _, h₂, by decide, rfl, by decide⟩⟩

end Vm
end OsHomeworks
