import OsHomeworks.Vm.Run

/-!
# `Vm.Alloc` — what `alloc_page` and `free_page` do to frames and entries

* `allocPage_spec` — `alloc_page` takes the lowest frame whose *count* is `0`, or returns
  `(unsigned)-1` with nothing changed when no count is `0`. It trusts `mapcounts`: once a count has
  drifted below the number of entries mapping the frame, it hands out a frame that is still mapped
  (`alloc_hands_out_mapped_frame`).
* `freePage_spec` — `free_page` clears `valid`, `writable` and `pfn` of the entry but keeps its
  `private` mark, and `mapPage` writes neither `private` nor, for a read-only request, `writable`.
  A copy-on-write mark therefore survives a free and a read-only re-allocation, and a later write
  fault takes it for a copy-on-write page (`read_only_page_becomes_writable`).
-/

namespace OsHomeworks
namespace Vm

variable (cfg : Config)

/-! ## The scan -/

/-- The scan stops early only at a count of `0`. -/
theorem scanFree_zero {mapcounts : Nat → Nat} {i k : Nat} (h : scanFree mapcounts i k < i + k) :
    mapcounts (scanFree mapcounts i k) = 0 := by
  induction k generalizing i with
  | zero => simp [scanFree] at h
  | succ k ih =>
    simp only [scanFree] at h ⊢
    split
    · assumption
    · rw [if_neg ‹_›] at h
      exact ih (by omega)

/-- Every count the scan passes over is non-zero. -/
theorem scanFree_min {mapcounts : Nat → Nat} {i k j : Nat} (hij : i ≤ j)
    (hj : j < scanFree mapcounts i k) : mapcounts j ≠ 0 := by
  induction k generalizing i with
  | zero => simp [scanFree] at hj; omega
  | succ k ih =>
    simp only [scanFree] at hj
    split at hj
    · omega
    · rcases Nat.eq_or_lt_of_le hij with rfl | hlt
      · assumption
      · exact ih hlt hj

/-- **`alloc_page` takes the lowest frame whose count is `0`**, and maps `vpn` to it; when no count
    below `NR_PAGEFRAMES` is `0` it returns `(unsigned)-1` and changes nothing. -/
theorem allocPage_spec (fresh : PteDirectory) (vpn rw : Nat) (s : System) :
    ((∀ f < cfg.nrPageframes, s.mapcounts f ≠ 0) ∧
      allocPage cfg fresh vpn rw s = (uintMinusOne, s)) ∨
    (∃ f < cfg.nrPageframes, s.mapcounts f = 0 ∧ (∀ g < f, s.mapcounts g ≠ 0) ∧
      allocPage cfg fresh vpn rw s = (f, mapPage cfg fresh vpn rw f s)) := by
  by_cases h : cfg.nrPageframes ≤ scanFree s.mapcounts 0 cfg.nrPageframes
  · exact .inl ⟨fun f hf => scanFree_min (k := cfg.nrPageframes) (Nat.zero_le f) (by omega),
      allocPage_of_full cfg h⟩
  · have hlt := Nat.lt_of_not_le h
    exact .inr ⟨_, hlt, scanFree_zero (by omega),
      fun g hg => scanFree_min (Nat.zero_le g) hg, allocPage_of_lt cfg hlt⟩

/-- **`alloc_page` can hand out a frame that is still mapped.** On `smallConfig`, after a
    copy-on-write break without a free frame (a write fault in a forked child) and a free of vpn `0`
    in the child, the only frame is still mapped by the parent's valid entry, yet `alloc_page` in
    the child returns it instead of `-1`. -/
theorem alloc_hands_out_mapped_frame :
    ∃ s, Reachable smallConfig s ∧ isValid smallConfig (s.table s.current) 0 = false ∧
      (∀ f < smallConfig.nrPageframes, 0 < mappers smallConfig s f) ∧
      (allocPage smallConfig PteDirectory.zero 0 smallConfig.rwRead s).1 = 0 := by
  have h₁ := (Reachable.init smallConfig 0).step smallConfig
    (Step.alloc PteDirectory.zero 0 2 (by decide) rfl)
  have h₂ := h₁.step smallConfig (Step.switch Pagetable.empty (fun _ => PteDirectory.zero) 1)
  have h₃ := h₂.step smallConfig (Step.fault 0 2 (by decide) (by decide) rfl)
  have h₄ := h₃.step smallConfig (Step.free 0 (by decide) (by decide) rfl)
  exact ⟨_, h₄, by decide, by decide, by decide⟩

/-! ## `free_page` and the copy-on-write mark -/

/-- **What `free_page` does.** The directory of `vpn` exists; the entry loses `valid`, `writable`
    and `pfn` and keeps `private`; the count of its old frame is decremented. -/
theorem freePage_spec {vpn : Nat} {s s' : System} (h : freePage cfg vpn s = .ok s') :
    ∃ dir, s.table s.ptbr (outerIndex cfg vpn) = some dir ∧
      s' = (writePte cfg s s.ptbr dir vpn { dir (innerIndex cfg vpn) with
        valid := false, writable := false, pfn := 0 }).decr (dir (innerIndex cfg vpn)).pfn := by
  unfold freePage at h
  split at h
  · cases h
  · cases h
    exact ⟨_, ‹_›, rfl⟩

/-- **A page allocated read-only becomes writable.** On `smallConfig`: a process maps vpn `0`
    writable and forks, so both entries carry the copy-on-write mark; both processes free vpn `0`,
    and the parent maps it again with `RW_READ`. Its entry still carries the mark, so a write fault
    right after `alloc_page(0, RW_READ)` is handled as a copy-on-write page with count `1`: it
    succeeds and the page becomes writable. -/
theorem read_only_page_becomes_writable :
    ∃ s₀ s₁ s₂, Reachable smallConfig s₀ ∧ Step smallConfig s₀ (.alloc 0 smallConfig.rwRead) s₁ ∧
      translate smallConfig (s₁.table s₁.current) 0 smallConfig.rwWrite = none ∧
      handlePageFault smallConfig 0 smallConfig.rwWrite s₁ = .ok (true, s₂) ∧
      translate smallConfig (s₂.table s₂.current) 0 smallConfig.rwWrite = some 0 := by
  have h₁ := (Reachable.init smallConfig 0).step smallConfig
    (Step.alloc PteDirectory.zero 0 2 (by decide) rfl)
  have h₂ := h₁.step smallConfig (Step.switch Pagetable.empty (fun _ => PteDirectory.zero) 1)
  have h₃ := h₂.step smallConfig (Step.free 0 (by decide) (by decide) rfl)
  have h₄ := h₃.step smallConfig (Step.switch Pagetable.empty (fun _ => PteDirectory.zero) 0)
  have h₅ := h₄.step smallConfig (Step.free 0 (by decide) (by decide) rfl)
  exact ⟨_, _, _, h₅, Step.alloc PteDirectory.zero 0 1 (by decide) rfl, by decide, rfl, by decide⟩

end Vm
end OsHomeworks
