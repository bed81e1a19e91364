import OsHomeworks.Vm.Entries
import OsHomeworks.Vm.Cow

/-!
# `Vm.Contracts` — `alloc_page`, `free_page` and `handle_page_fault` on clean runs

`Vm.Alloc` and `Vm.Fault` show how the two entry points break their contracts: `alloc_page` can hand
out a frame that a valid entry maps, and `handle_page_fault` reads through a `NULL` directory, runs
off its end, or breaks copy-on-write without finding a frame. This module shows that on clean runs
(`Vm.Counts`) with fewer than `2^32` entries in all, these are the only ways, and that `free_page`
does what it should:

* `alloc_page` on an invalid entry hands out the lowest frame that no valid entry maps, maps it
  writable exactly when `rw` is `2` or `3`, counts it once, and touches nothing else; it returns
  `(unsigned)-1` exactly when every frame is mapped (`clean_alloc_unmapped`);
* `free_page` on a valid entry unmaps it for every access, takes exactly one from its frame's count,
  and touches nothing else (`clean_free_unmaps`);
* a fault on a vpn whose directory exists, while some frame is free, returns; a refusal leaves the
  state alone, and a handled fault leaves the access translating when `RW_WRITE` is `2` or `3`
  (`handlePageFault_contract_clean`).

What clean runs give here: the counts are exact (`Vm.Counts`), every mark is `0` or `1` and an invalid
entry is not writable (`Vm.Entries`).
-/

namespace OsHomeworks
namespace Vm

variable (cfg : Config)

/-! ## The entry just written -/

/-- The translation of the entry just written. -/
theorem translate_writePte_self (s : System) (a : Nat) (dir : PteDirectory) (vpn rw : Nat)
    {pte : Pte} (hv : pte.valid = true) (hw : pte.writable = true) :
    translate cfg ((writePte cfg s a dir vpn pte).table a) vpn rw = some pte.pfn := by
  rw [translate, pteOf_writePte_self]
  simp [hv, hw]

/-- The entry `alloc_page(vpn, rw)` maps translates for every access when `rw` is `2` or `3`. -/
theorem translate_mapPage_self {s : System} {fresh : PteDirectory} {vpn rw : Nat} (ppn rw' : Nat)
    (hrw : rw = 2 ∨ rw = 3) :
    translate cfg ((mapPage cfg fresh vpn rw ppn s).table s.ptbr) vpn rw' = some ppn := by
  simp only [mapPage, System.table_incr]
  exact translate_writePte_self cfg _ _ _ _ _ rfl (by simp [hrw])

/-- The entry `alloc_page(vpn, rw)` writes: valid, on frame `ppn`, writable when `rw` is `2` or `3`
    and otherwise as the entry was. -/
theorem mapPage_entry (s : System) (fresh : PteDirectory) (vpn rw ppn : Nat) :
    ∃ p, pteOf cfg ((mapPage cfg fresh vpn rw ppn s).table s.ptbr) vpn = some p ∧ p.valid = true ∧
      p.pfn = ppn ∧ p.writable = if rw = 2 ∨ rw = 3 then true
        else ((s.table s.ptbr (outerIndex cfg vpn)).getD fresh (innerIndex cfg vpn)).writable :=
  ⟨⟨true, if rw = 2 ∨ rw = 3 then true
      else ((s.table s.ptbr (outerIndex cfg vpn)).getD fresh (innerIndex cfg vpn)).writable, ppn,
    ((s.table s.ptbr (outerIndex cfg vpn)).getD fresh (innerIndex cfg vpn)).private'⟩,
    by simp only [mapPage, System.table_incr, pteOf_writePte_self], rfl, rfl, rfl⟩

variable {cfg}

/-! ## Exact counts -/

/-- On a clean run with fewer than `2^32` entries in all, `mapcounts` counts the valid entries. -/
theorem mapcounts_eq_mappers {s : System} (h : ReachableClean cfg s)
    (hsmall : s.nprocs * nrVpns cfg < uintSize) (f : Nat) : s.mapcounts f = mappers cfg s f := by
  rw [countsExact_of_reachableClean h f,
    Nat.mod_eq_of_lt ((mappers_le cfg (bookkeeping_reachable h.reachable) f).trans_lt hsmall)]

/-- **A valid entry's frame has a positive count** on a clean run with fewer than `2^32` entries. -/
theorem one_le_mapcounts {s : System} (h : ReachableClean cfg s)
    (hsmall : s.nprocs * nrVpns cfg < uintSize) {vpn : Nat} (hv : vpn < nrVpns cfg) {p : Pte}
    (hp : pteOf cfg (s.table s.current) vpn = some p) (hvalid : p.valid = true) :
    1 ≤ s.mapcounts p.pfn := by
  have hb := bookkeeping_reachable h.reachable
  have hm : 0 < mapsIn cfg (s.table s.current) p.pfn :=
    (mapsIn_pos_iff cfg).mpr ⟨vpn, hv, by rw [mapsAt_of_pteOf cfg hp]; simp [hvalid]⟩
  have hle := mapsIn_le_mappers cfg hb (List.mem_cons_self _ _) p.pfn
  rw [mapcounts_eq_mappers h hsmall]
  omega

/-! ## `alloc_page` -/

/-- **`alloc_page` keeps its contract on clean runs.** On a clean run with fewer than `2^32` entries
    in all, `alloc_page(vpn, rw)` on a vpn not valid in `current` either returns the lowest frame no
    valid entry maps, maps `vpn` to it, valid and writable exactly when `rw` is `2` or `3`, raises its
    count from `0` to `1`, and changes no other count and no other valid entry; or it returns
    `(unsigned)-1` and changes nothing, and then every frame is mapped. -/
theorem clean_alloc_unmapped {s : System} (h : ReachableClean cfg s)
    (hsmall : s.nprocs * nrVpns cfg < uintSize) {vpn : Nat} (rw : Nat) (hv : vpn < nrVpns cfg)
    (hn : isValid cfg (s.table s.current) vpn = false) :
    let r := allocPage cfg PteDirectory.zero vpn rw s
    (r.1 < cfg.nrPageframes ∧ mappers cfg s r.1 = 0 ∧ (∀ g < r.1, 0 < mappers cfg s g) ∧
        (∃ p, pteOf cfg (r.2.table r.2.current) vpn = some p ∧ p.valid = true ∧ p.pfn = r.1 ∧
          (p.writable = true ↔ rw = 2 ∨ rw = 3)) ∧
        r.2.mapcounts r.1 = 1 ∧ (∀ g, g ≠ r.1 → r.2.mapcounts g = s.mapcounts g) ∧
        ∀ q : Pte → Bool, (∀ p, q p = true → p.valid = true) → ∀ a v, (a ≠ s.current ∨ v ≠ vpn) →
          (pteOf cfg (r.2.table a) v).any q = (pteOf cfg (s.table a) v).any q) ∨
      (r.1 = uintMinusOne ∧ r.2 = s ∧ ∀ f < cfg.nrPageframes, 0 < mappers cfg s f) := by
  have hb := bookkeeping_reachable h.reachable
  have hexact := mapcounts_eq_mappers h hsmall
  dsimp only
  rcases allocPage_spec cfg PteDirectory.zero vpn rw s with ⟨hall, he⟩ | ⟨f, hf, hz, hmin, he⟩ <;>
    rw [he]
  · exact .inr ⟨rfl, rfl, fun g hg => Nat.pos_of_ne_zero fun h0 => hall g hg (by rw [hexact, h0])⟩
  · obtain ⟨p, hp, hpv, hpf, hpw⟩ := mapPage_entry cfg s PteDirectory.zero vpn rw f
    refine .inl ⟨hf, by rw [← hexact, hz],
      fun g hg => Nat.pos_of_ne_zero fun h0 => hmin g hg (by rw [hexact, h0]),
      ⟨p, by rw [show (mapPage cfg _ vpn rw f s).current = s.ptbr from hb.ptbr_eq.symm]; exact hp,
        hpv, hpf, ?_⟩, by simp [mapcounts_mapPage, bump, hz, uintInc, uintSize],
      fun g hg => by simp [mapcounts_mapPage, bump, hg], fun q hq a v hne => ?_⟩
    · -- the writable bit: set for `rw` `2` or `3`, and otherwise the old entry's, which is invalid
      rw [hpw]
      split_ifs with hrw
      · exact iff_of_true rfl hrw
      · refine iff_of_false ?_ hrw
        cases hs : s.table s.ptbr (outerIndex cfg vpn) with
        | none => simp [PteDirectory.zero, Pte.zero]
        | some d =>
          have hpd : pteOf cfg (s.table s.current) vpn = some (d (innerIndex cfg vpn)) := by
            simp [pteOf, ← hb.ptbr_eq, hs]
          have hinv : (d (innerIndex cfg vpn)).valid = false := by simpa [isValid, hpd] using hn
          simpa using entriesOk_of_reachableClean readOnlyRule h _ (List.mem_cons_self _ _) vpn hv _
            hpd hinv
    · -- every other entry: the write went through the existing directory or a zeroed new one
      simp only [mapPage, System.table_incr]
      exact any_pteOf_writePte cfg _ (dirOf_getD_zero cfg _ _) hq (by rwa [hb.ptbr_eq])

/-- After a fork and the child's copy-on-write break, both frames are taken: `alloc_page` in the
    child returns `(unsigned)-1`. -/
theorem clean_alloc_unmapped_after_cow_break :
    ∃ s, ReachableClean twoFrameConfig s ∧ s.nprocs * nrVpns twoFrameConfig < uintSize ∧
      isValid twoFrameConfig (s.table s.current) 1 = false ∧
      (allocPage twoFrameConfig PteDirectory.zero 1 2 s).1 = uintMinusOne ∧
      let r := allocPage twoFrameConfig PteDirectory.zero 1 2 s
      (r.1 < twoFrameConfig.nrPageframes ∧ mappers twoFrameConfig s r.1 = 0 ∧
          (∀ g < r.1, 0 < mappers twoFrameConfig s g) ∧
          (∃ p, pteOf twoFrameConfig (r.2.table r.2.current) 1 = some p ∧ p.valid = true ∧
            p.pfn = r.1 ∧ (p.writable = true ↔ 2 = 2 ∨ 2 = 3)) ∧
          r.2.mapcounts r.1 = 1 ∧ (∀ g, g ≠ r.1 → r.2.mapcounts g = s.mapcounts g) ∧
          ∀ q : Pte → Bool, (∀ p, q p = true → p.valid = true) → ∀ a v, (a ≠ s.current ∨ v ≠ 1) →
            (pteOf twoFrameConfig (r.2.table a) v).any q = (pteOf twoFrameConfig (s.table a) v).any q) ∨
        (r.1 = uintMinusOne ∧ r.2 = s ∧ ∀ f < twoFrameConfig.nrPageframes, 0 < mappers twoFrameConfig s f) := by
  obtain ⟨_, s, r, hs, -, -, -, hn, -, -, hv, hfull⟩ := clean_cow_break_run
  have hsmall : s.nprocs * nrVpns twoFrameConfig < uintSize := by rw [hn]; decide
  exact ⟨s, r.step hs, hsmall, hv, hfull, clean_alloc_unmapped (r.step hs) hsmall 2 (by decide) hv⟩

/-! ## `free_page` -/

/-- **`free_page` keeps its contract on clean runs.** On a clean run with fewer than `2^32` entries
    in all, `free_page(vpn)` on a vpn valid in `current` finds its directory and returns; afterwards
    `vpn` translates for no access, the count of its old frame is one less, and no other count and no
    other valid entry changes. -/
theorem clean_free_unmaps {s : System} (h : ReachableClean cfg s)
    (hsmall : s.nprocs * nrVpns cfg < uintSize) {vpn : Nat} (hv : vpn < nrVpns cfg)
    (hval : isValid cfg (s.table s.current) vpn = true) :
    ∃ p s', pteOf cfg (s.table s.current) vpn = some p ∧ p.valid = true ∧
      freePage cfg vpn s = .ok s' ∧ (∀ rw, translate cfg (s'.table s'.current) vpn rw = none) ∧
      s'.mapcounts p.pfn + 1 = s.mapcounts p.pfn ∧ (∀ g, g ≠ p.pfn → s'.mapcounts g = s.mapcounts g) ∧
      ∀ q : Pte → Bool, (∀ p, q p = true → p.valid = true) → ∀ a v, (a ≠ s.current ∨ v ≠ vpn) →
        (pteOf cfg (s'.table a) v).any q = (pteOf cfg (s.table a) v).any q := by
  have hb := bookkeeping_reachable h.reachable
  obtain ⟨dir, hd, hpv⟩ : ∃ dir, s.table s.ptbr (outerIndex cfg vpn) = some dir ∧
      (dir (innerIndex cfg vpn)).valid = true := by
    rw [hb.ptbr_eq]
    cases hs : s.table s.current (outerIndex cfg vpn) with
    | none => simp [isValid, pteOf, hs] at hval
    | some d => exact ⟨d, rfl, by simpa [isValid, pteOf, hs] using hval⟩
  have hp : pteOf cfg (s.table s.current) vpn = some (dir (innerIndex cfg vpn)) := by
    simp [pteOf, ← hb.ptbr_eq, hd]
  have hpos := one_le_mapcounts h hsmall hv hp hpv
  have hlt : s.mapcounts (dir (innerIndex cfg vpn)).pfn < uintSize := by
    rw [mapcounts_eq_mappers h hsmall]; exact (mappers_le cfg hb _).trans_lt hsmall
  refine ⟨_, (writePte cfg s s.ptbr dir vpn ⟨false, false, 0, (dir (innerIndex cfg vpn)).private'⟩).decr
    (dir (innerIndex cfg vpn)).pfn, hp, hpv, by simp only [freePage, hd], fun rw => ?_, ?_,
    fun g hg => ?_, fun q hq a v hne => ?_⟩
  · -- the entry is now invalid
    rw [show ((writePte cfg s s.ptbr dir vpn _).decr _).current = s.ptbr from hb.ptbr_eq.symm,
      System.table_decr, translate, pteOf_writePte_self]
    simp
  · simp [System.decr, writePte, System.setTable, uintDec_of_pos hpos hlt]
    omega
  · simp [System.decr, writePte, System.setTable, hg]
  · -- every other entry: the write went through the existing directory
    rw [System.table_decr]
    exact any_pteOf_writePte cfg _ (.inl hd) hq (by rwa [hb.ptbr_eq])

theorem clean_free_unmaps_after_alloc :
    let s := (allocPage smallConfig PteDirectory.zero 0 2 (System.init 0)).2
    ∃ p s', pteOf smallConfig (s.table s.current) 0 = some p ∧ p.valid = true ∧
      freePage smallConfig 0 s = .ok s' ∧
      (∀ rw, translate smallConfig (s'.table s'.current) 0 rw = none) ∧
      s'.mapcounts p.pfn + 1 = s.mapcounts p.pfn ∧ (∀ g, g ≠ p.pfn → s'.mapcounts g = s.mapcounts g) ∧
      ∀ q : Pte → Bool, (∀ p, q p = true → p.valid = true) → ∀ a v, (a ≠ s.current ∨ v ≠ 0) →
        (pteOf smallConfig (s'.table a) v).any q = (pteOf smallConfig (s.table a) v).any q :=
  clean_free_unmaps (.step (.init 0) (.alloc 0 2 (by decide) rfl)) (by decide) (by decide)
    (by decide)

/-! ## `handle_page_fault` -/

/-- **`handle_page_fault` keeps its contract on clean runs.** On a clean run with fewer than `2^32`
    entries in all, where `RW_WRITE` is `2` or `3`, a fault whose translation failed on a vpn whose
    directory exists, taken while some frame is free, returns: with `false` it leaves the state as it
    was, and with `true` the access translates afterwards. -/
theorem handlePageFault_contract_clean {s : System} (h : ReachableClean cfg s)
    (hsmall : s.nprocs * nrVpns cfg < uintSize) (hrw : cfg.rwWrite = 2 ∨ cfg.rwWrite = 3)
    {vpn rw : Nat} (hv : vpn < nrVpns cfg) (ht : translate cfg (s.table s.current) vpn rw = none)
    (hdir : (s.table s.current (outerIndex cfg vpn)).isSome)
    (hfree : ∃ g < cfg.nrPageframes, s.mapcounts g = 0) :
    ∃ r s', handlePageFault cfg vpn rw s = .ok (r, s') ∧ (r = false → s' = s) ∧
      (r = true → ∃ f, translate cfg (s'.table s'.current) vpn rw = some f) := by
  have hb := bookkeeping_reachable h.reachable
  obtain ⟨dir, hd⟩ := Option.isSome_iff_exists.mp hdir
  have hp : pteOf cfg (s.table s.current) vpn = some (dir (innerIndex cfg vpn)) := by
    simp [pteOf, hd]
  have hd' : s.table s.ptbr (outerIndex cfg vpn) = some dir := by rw [hb.ptbr_eq]; exact hd
  unfold handlePageFault
  rw [hd']
  dsimp only
  split_ifs with h₁ h₂ h₃ h₄
  · exact ⟨false, s, rfl, fun _ => rfl, nofun⟩
  · exact ⟨false, s, rfl, fun _ => rfl, nofun⟩
  · -- the copy-on-write break finds a frame, and the new entry is valid and writable
    have hlt : s.mapcounts (dir (innerIndex cfg vpn)).pfn < uintSize := by
      rw [countsExact_of_reachableClean h]; exact Nat.mod_lt _ (by decide)
    obtain ⟨ppn, -, -, he⟩ := allocPage_after_decr cfg dir vpn cfg.rwWrite h₃.2 hlt hfree
    refine ⟨true, _, rfl, nofun, fun _ => ⟨ppn, ?_⟩⟩
    rw [he]
    dsimp only
    rw [show (mapPage cfg dir vpn cfg.rwWrite ppn (s.decr _)).current = (s.decr _).ptbr
      from hb.ptbr_eq.symm]
    exact translate_mapPage_self cfg ppn rw hrw
  · -- the only sharer: the entry is made writable in place
    refine ⟨true, _, rfl, nofun, fun _ => ⟨(dir (innerIndex cfg vpn)).pfn, ?_⟩⟩
    rw [show (writePte cfg s s.ptbr dir vpn _).current = s.ptbr from hb.ptbr_eq.symm]
    exact translate_writePte_self cfg _ _ _ _ _ (by simpa using h₁) rfl
  · -- no other case: the entry is valid and marked `1` with a positive count
    exfalso
    have hvalid : (dir (innerIndex cfg vpn)).valid = true := by simpa using h₁
    have hwr : rw = cfg.rwWrite ∧ (dir (innerIndex cfg vpn)).writable = false := by
      simp only [translate, hp, hvalid, true_and, ite_eq_right_iff] at ht
      by_contra hc
      refine absurd (ht fun e => ?_) (Option.some_ne_none _)
      cases hw : (dir (innerIndex cfg vpn)).writable
      · exact absurd ⟨e, hw⟩ hc
      · rfl
    have hmark := entriesOk_of_reachableClean marksRule h _ (List.mem_cons_self _ _) vpn hv _ hp
    have hpos := one_le_mapcounts h hsmall hv hp hvalid
    have h₂' : (dir (innerIndex cfg vpn)).private' ≠ 0 := fun e => h₂ ⟨hwr.1, hwr.2, e⟩
    omega

theorem handlePageFault_contract_clean_after_fork :
    ∃ r s', handlePageFault twoFrameConfig 0 2
        (switchProcess twoFrameConfig Pagetable.empty (fun _ => PteDirectory.zero) 1
          (allocPage twoFrameConfig PteDirectory.zero 0 2 (System.init 0)).2) = .ok (r, s') ∧
      (r = false → s' = switchProcess twoFrameConfig Pagetable.empty (fun _ => PteDirectory.zero) 1
          (allocPage twoFrameConfig PteDirectory.zero 0 2 (System.init 0)).2) ∧
      (r = true → ∃ f, translate twoFrameConfig (s'.table s'.current) 0 2 = some f) :=
  handlePageFault_contract_clean (.step (.step (.init 0) (.alloc 0 2 (by decide) rfl)) (.switch 1))
    (by decide) (.inl rfl) (by decide) (by decide) (by decide) ⟨1, by decide, by decide⟩

end Vm
end OsHomeworks
