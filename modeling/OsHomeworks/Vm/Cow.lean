import OsHomeworks.Vm.Counts

/-!
# `Vm.Cow` — a writable page is mapped once

Copy-on-write in `pa4.c` exists so that a process never writes a frame that another mapping can
read. A fork makes every writable entry of the parent read-only and marks it `private`; a write fault
on a marked entry copies the frame while it is shared (`mapcounts > 1`) and makes the entry writable
in place only when its count is `1`. This module proves that the scheme does that on the clean runs
of `Vm.Counts`: in every state, a frame that a valid writable entry maps is mapped by that entry
alone, and its count is `1` (`cow_write_exclusive`).

The invariant is `WriteExclusive`: the frame of every valid writable entry has exactly one mapper.
`WriteExclusive.of_write` says once what a request that writes one entry must show, and each request
shows it:

* `alloc_page` maps a frame of count `0`, which no entry maps;
* `free_page` clears an entry, and no writable entry shares its frame;
* the copy-on-write break moves the entry to a frame no entry maps, off the shared frame, which no
  writable entry maps;
* making an entry writable needs its count to be `1`;
* a fork leaves no writable entry in the parent or the child, and a frame that the parent maps is
  not the frame of a writable entry elsewhere.

The counts are exact on these runs only as `unsigned int`s, so reading "count `0`" as "no mapper"
needs fewer than `2^32` mappers of a frame; `nprocs * nrVpns < 2^32` bounds them (`mappers_le`).
-/

namespace OsHomeworks
namespace Vm

variable (cfg : Config)

/-- Whether the entry of `v` in `pt` is valid and writable and maps frame `f`. -/
def writesAt (pt : Pagetable) (f v : Nat) : Bool :=
  (pteOf cfg pt v).any fun p => p.valid && p.writable && p.pfn == f

/-- **Writable frames are private**: the frame of every valid writable entry of a process has exactly
    one mapper. -/
def WriteExclusive (s : System) : Prop :=
  ∀ a ∈ s.current :: s.processes, ∀ v < nrVpns cfg, ∀ f,
    writesAt cfg (s.table a) f v = true → mappers cfg s f = 1

/-! ## Entries -/

theorem mapsAt_of_writesAt {pt : Pagetable} {f v : Nat} (h : writesAt cfg pt f v = true) :
    mapsAt cfg pt f v = true := by
  unfold writesAt at h
  unfold mapsAt
  cases hp : pteOf cfg pt v <;> simp_all

theorem writesAt_writePte {s : System} {a : Nat} {dir : PteDirectory} {vpn : Nat} (pte : Pte)
    (hdir : DirOf cfg (s.table a) vpn dir) {b v f : Nat} (h : b ≠ a ∨ v ≠ vpn) :
    writesAt cfg ((writePte cfg s a dir vpn pte).table b) f v = writesAt cfg (s.table b) f v :=
  any_pteOf_writePte cfg pte hdir (fun p hp => by simp_all) h

theorem writesAt_writePte_self (s : System) (a : Nat) (dir : PteDirectory) (vpn f : Nat) (pte : Pte) :
    writesAt cfg ((writePte cfg s a dir vpn pte).table a) f vpn =
      (pte.valid && pte.writable && pte.pfn == f) := by
  rw [writesAt, pteOf_writePte_self]; rfl

theorem writesAt_mapPage {s : System} {fresh : PteDirectory} {vpn : Nat} (rw ppn : Nat)
    (hdir : DirOf cfg (s.table s.ptbr) vpn ((s.table s.ptbr (outerIndex cfg vpn)).getD fresh))
    {b v f : Nat} (h : b ≠ s.ptbr ∨ v ≠ vpn) :
    writesAt cfg ((mapPage cfg fresh vpn rw ppn s).table b) f v = writesAt cfg (s.table b) f v := by
  simp only [mapPage, System.table_incr]
  exact writesAt_writePte cfg _ hdir h

/-- The entry `alloc_page` writes can write only the frame it maps. -/
theorem writesAt_mapPage_self {s : System} {fresh : PteDirectory} {vpn rw ppn f : Nat}
    (h : writesAt cfg ((mapPage cfg fresh vpn rw ppn s).table s.ptbr) f vpn = true) : ppn = f := by
  simp only [mapPage, System.table_incr, writesAt_writePte_self] at h
  simp at h
  exact h.2

@[simp] theorem forkedParent_writable (p : Pte) : (p.valid && (forkedParent p).writable) = false := by
  unfold forkedParent
  split_ifs with h
  · simp
  · cases hv : p.valid <;> simp_all

@[simp] theorem forkedChild_zero_writable (p : Pte) : (forkedChild p Pte.zero).writable = false := by
  unfold forkedChild; split_ifs <;> rfl

/-- After the copy loops the parent has no valid writable entry. -/
theorem writesAt_forkTable_fst (pt ct : Pagetable) (dirs : Nat → PteDirectory)
    (mapcounts : Nat → Nat) {v : Nat} (hv : v < nrVpns cfg) (f : Nat) :
    writesAt cfg (forkTable cfg pt ct dirs mapcounts cfg.nrPtesPerPage).1 f v = false := by
  rw [writesAt, pteOf_forkTable_fst cfg _ _ _ _ hv]
  cases pteOf cfg pt v <;> simp

/-- Nor has the child, built on zeroed memory. -/
theorem writesAt_forkTable_snd (pt : Pagetable) (mapcounts : Nat → Nat) {v : Nat}
    (hv : v < nrVpns cfg) (f : Nat) :
    writesAt cfg (forkTable cfg pt Pagetable.empty (fun _ => PteDirectory.zero) mapcounts
      cfg.nrPtesPerPage).2.1 f v = false := by
  rw [writesAt, pteOf_forkTable_snd_zero cfg _ _ hv]
  cases pteOf cfg pt v <;> simp

/-! ## Counting mappers -/

theorem mapsIn_pos_iff {pt : Pagetable} {f : Nat} :
    0 < mapsIn cfg pt f ↔ ∃ v < nrVpns cfg, mapsAt cfg pt f v = true := by
  simp only [mapsIn, List.countP_pos_iff, List.mem_range]
  exact Iff.rfl

/-- Two entries of one table that map `f`. -/
theorem two_le_mapsIn {pt : Pagetable} {f v w : Nat} (hv : v < nrVpns cfg) (hw : w < nrVpns cfg)
    (hvw : v ≠ w) (h₁ : mapsAt cfg pt f v = true) (h₂ : mapsAt cfg pt f w = true) :
    2 ≤ mapsIn cfg pt f := by
  set l := (List.range (nrVpns cfg)).filter (mapsAt cfg pt f)
  have hsub : ({v, w} : Finset Nat) ⊆ l.toFinset := by
    intro x hx
    rcases Finset.mem_insert.mp hx with rfl | hx
    · simp [l, hv, h₁]
    · rw [Finset.mem_singleton.mp hx]; simp [l, hw, h₂]
  calc 2 = ({v, w} : Finset Nat).card := (Finset.card_pair hvw).symm
    _ ≤ l.toFinset.card := Finset.card_le_card hsub
    _ = mapsIn cfg pt f := by
      rw [List.toFinset_card_of_nodup ((List.nodup_range _).filter _), ← List.countP_eq_length_filter]
      rfl

theorem mappers_eq_sum {s : System} (hnd : (s.current :: s.processes).Nodup) (f : Nat) :
    mappers cfg s f = ∑ a in (s.current :: s.processes).toFinset, mapsIn cfg (s.table a) f :=
  (List.sum_toFinset _ hnd).symm

theorem mapsIn_le_mappers {s : System} (hb : Bookkeeping s) {a : Nat}
    (ha : a ∈ s.current :: s.processes) (f : Nat) : mapsIn cfg (s.table a) f ≤ mappers cfg s f := by
  rw [mappers_eq_sum cfg hb.nodup]
  exact Finset.single_le_sum (f := fun x => mapsIn cfg (s.table x) f) (fun _ _ => Nat.zero_le _)
    (List.mem_toFinset.mpr ha)

/-- **Two different entries that map `f` make two mappers**, in one process or in two. -/
theorem two_le_mappers {s : System} (hb : Bookkeeping s) {a b v w f : Nat}
    (ha : a ∈ s.current :: s.processes) (ha' : b ∈ s.current :: s.processes)
    (hv : v < nrVpns cfg) (hw : w < nrVpns cfg) (hne : b ≠ a ∨ w ≠ v)
    (h₁ : mapsAt cfg (s.table a) f v = true) (h₂ : mapsAt cfg (s.table b) f w = true) :
    2 ≤ mappers cfg s f := by
  by_cases hab : b = a
  · rw [hab] at h₂
    have hvw : v ≠ w := fun e => hne.elim (· hab) (· e.symm)
    exact (two_le_mapsIn cfg hv hw hvw h₁ h₂).trans (mapsIn_le_mappers cfg hb ha f)
  · rw [mappers_eq_sum cfg hb.nodup]
    have hpair : ({a, b} : Finset Nat) ⊆ (s.current :: s.processes).toFinset := by
      intro x hx
      rcases Finset.mem_insert.mp hx with rfl | hx
      · exact List.mem_toFinset.mpr ha
      · rw [Finset.mem_singleton.mp hx]; exact List.mem_toFinset.mpr ha'
    have hsum := Finset.sum_le_sum_of_subset (f := fun x => mapsIn cfg (s.table x) f) hpair
    rw [Finset.sum_pair (Ne.symm hab)] at hsum
    dsimp only at hsum
    have := (mapsIn_pos_iff cfg).mpr ⟨v, hv, h₁⟩
    have := (mapsIn_pos_iff cfg).mpr ⟨w, hw, h₂⟩
    omega

theorem length_procs {s : System} (hb : Bookkeeping s) :
    (s.current :: s.processes).length = s.nprocs := by
  have h : (s.current :: s.processes).toFinset = Finset.range s.nprocs := by
    ext a; rw [List.mem_toFinset, Finset.mem_range]; exact hb.mem_iff a
  rw [← List.toFinset_card_of_nodup hb.nodup, h, Finset.card_range]

/-- A frame has at most one mapper per entry of each process. -/
theorem mappers_le {s : System} (hb : Bookkeeping s) (f : Nat) :
    mappers cfg s f ≤ s.nprocs * nrVpns cfg := by
  have h := List.sum_le_card_nsmul ((s.current :: s.processes).map fun a => mapsIn cfg (s.table a) f)
    (nrVpns cfg) (by
      simp only [List.mem_map]
      rintro _ ⟨a, -, rfl⟩
      exact (List.countP_le_length _).trans (List.length_range _).le)
  rwa [List.length_map, length_procs hb, smul_eq_mul] at h

theorem CleanStep.nprocs_le {s s' : System} {op : Op} (h : CleanStep cfg s op s') :
    s.nprocs ≤ s'.nprocs := by
  cases h with
  | alloc => exact (sameProcs_allocPage cfg _ _ _ _).nprocs.ge
  | free _ _ _ h => exact (sameProcs_freePage cfg h).nprocs.ge
  | fault _ _ _ _ _ h => exact (sameProcs_handlePageFault cfg h).nprocs.ge
  | switch pid =>
    unfold switchProcess
    split
    · exact le_rfl
    · exact Nat.le_succ _

/-! ## Each request keeps `WriteExclusive` -/

section Step

variable {cfg} {s s' : System} (hx : WriteExclusive cfg s)
include hx

/-- **A request that writes the entry of `vpn` in `current` keeps `WriteExclusive`** when the other
    entries read as before, the written entry, if it can write a frame, leaves that frame one mapper,
    and every other writable entry's frame keeps its one mapper. -/
theorem WriteExclusive.of_write (hcur : s'.current = s.current) (hproc : s'.processes = s.processes)
    (vpn : Nat)
    (hframe : ∀ b v f, (b ≠ s.current ∨ v ≠ vpn) →
      writesAt cfg (s'.table b) f v = writesAt cfg (s.table b) f v)
    (hself : ∀ f, writesAt cfg (s'.table s.current) f vpn = true → mappers cfg s' f = 1)
    (hkeep : ∀ a ∈ s.current :: s.processes, ∀ v < nrVpns cfg, ∀ f, (a ≠ s.current ∨ v ≠ vpn) →
      writesAt cfg (s.table a) f v = true → mappers cfg s f = 1 → mappers cfg s' f = 1) :
    WriteExclusive cfg s' := by
  intro a ha v hv f hw
  rw [hcur, hproc] at ha
  by_cases hav : a = s.current ∧ v = vpn
  · obtain ⟨rfl, rfl⟩ := hav
    exact hself f hw
  · have hne := not_and_or.mp hav
    rw [hframe a v f hne] at hw
    exact hkeep a ha v hv f hne hw (hx a ha v hv f hw)

theorem writeExclusive_allocPage (hb : Bookkeeping s) (hc : CountsExact cfg s)
    (hsmall : ∀ f, mappers cfg s f < uintSize) {vpn rw : Nat} (hv : vpn < nrVpns cfg)
    (hn : isValid cfg (s.table s.current) vpn = false) :
    WriteExclusive cfg (allocPage cfg PteDirectory.zero vpn rw s).2 := by
  rcases allocPage_spec cfg PteDirectory.zero vpn rw s with ⟨-, he⟩ | ⟨ppn, -, hz, -, he⟩
  · rw [he]; exact hx
  · rw [he]
    have h0 : mappers cfg s ppn = 0 := by rw [← Nat.mod_eq_of_lt (hsmall ppn), ← hc, hz]
    have hm := mappers_mapPage_zero cfg hb rw ppn hv hn
    refine hx.of_write rfl rfl vpn (fun b v f hne => ?_) (fun f hw => ?_) fun a _ v _ f _ _ h1 => ?_
    · exact writesAt_mapPage cfg rw ppn (dirOf_getD_zero cfg _ _) (by rwa [hb.ptbr_eq])
    · rw [← hb.ptbr_eq] at hw
      obtain rfl := writesAt_mapPage_self cfg hw
      rw [hm, h0, if_pos rfl]
    · rw [hm, h1, if_neg fun e => by rw [e] at h0; omega]

theorem writeExclusive_freePage (hb : Bookkeeping s) {vpn : Nat} (hv : vpn < nrVpns cfg)
    (hval : isValid cfg (s.table s.current) vpn = true) (h : freePage cfg vpn s = .ok s') :
    WriteExclusive cfg s' := by
  unfold freePage at h
  split at h
  · cases h
  · rename_i dir hdir
    cases h
    have hp : pteOf cfg (s.table s.current) vpn = some (dir (innerIndex cfg vpn)) := by
      simp [pteOf, ← hb.ptbr_eq, hdir]
    have hvalid : (dir (innerIndex cfg vpn)).valid = true := by simpa [isValid, hp] using hval
    have hm := mappers_writePte_clear cfg hb hv (.inl (hb.ptbr_eq ▸ hdir))
      ⟨false, false, 0, (dir (innerIndex cfg vpn)).private'⟩ hp hvalid rfl
    refine hx.of_write rfl rfl vpn (fun b v f hne => ?_) (fun f hw => ?_)
      fun a ha v hv' f hne hw h1 => ?_
    · rw [System.table_decr]
      exact writesAt_writePte cfg _ (.inl hdir) (by rwa [hb.ptbr_eq])
    · rw [System.table_decr, ← hb.ptbr_eq, writesAt_writePte_self] at hw
      simp at hw
    · -- the cleared entry mapped a frame other than `f`: two entries cannot map `f`
      have hf : (dir (innerIndex cfg vpn)).pfn ≠ f := fun e => by
        have := two_le_mappers cfg hb (List.mem_cons_self _ _) ha hv hv' hne
          (by rw [mapsAt_of_pteOf cfg hp]; simp [hvalid, e]) (mapsAt_of_writesAt cfg hw)
        omega
      have := hm f
      rw [if_neg hf] at this
      rw [mappers_decr]
      omega

theorem writeExclusive_handlePageFault (hb : Bookkeeping s) (hc : CountsExact cfg s)
    (hsmall : ∀ f, mappers cfg s f < uintSize) {vpn rw : Nat} {r : Bool} (hv : vpn < nrVpns cfg)
    (hfree : ∃ g < cfg.nrPageframes, s.mapcounts g = 0)
    (h : handlePageFault cfg vpn rw s = .ok (r, s')) : WriteExclusive cfg s' := by
  have hexact : ∀ f, mappers cfg s f = s.mapcounts f := fun f => by
    rw [hc f, Nat.mod_eq_of_lt (hsmall f)]
  obtain ⟨dir, hdir, ⟨-, rfl, -⟩ | ⟨-, hvalid, -, hmany, rfl⟩ | ⟨-, hvalid, -, hone, rfl⟩⟩ :=
    handlePageFault_ok cfg h
  · exact hx
  · -- the copy-on-write break
    have hlt : s.mapcounts (dir (innerIndex cfg vpn)).pfn < uintSize := by
      rw [hc]; exact Nat.mod_lt _ (by decide)
    obtain ⟨ppn, hne, hz, he⟩ := allocPage_after_decr cfg dir vpn cfg.rwWrite hmany hlt hfree
    rw [he]
    dsimp only
    have h0 : mappers cfg s ppn = 0 := by rw [hexact, hz]
    have h2 : 1 < mappers cfg s (dir (innerIndex cfg vpn)).pfn := by rw [hexact]; exact hmany
    have hm := mappers_cowBreak cfg hb hv (hb.ptbr_eq ▸ hdir) hvalid ppn
    refine hx.of_write rfl rfl vpn (fun b v f hne' => ?_) (fun f hw => ?_)
      fun a _ v _ f _ _ h1 => ?_
    · exact writesAt_mapPage cfg _ ppn (by
        show DirOf cfg (s.table s.ptbr) vpn ((s.table s.ptbr _).getD dir)
        rw [hdir]; exact .inl hdir) (by show b ≠ s.ptbr ∨ v ≠ vpn; rwa [hb.ptbr_eq])
    · rw [← hb.ptbr_eq] at hw
      obtain rfl := writesAt_mapPage_self cfg hw
      have := hm ppn
      rw [if_neg (Ne.symm hne), if_pos rfl, h0] at this
      omega
    · have := hm f
      rw [if_neg fun e => by rw [e] at h2; omega, if_neg fun e => by rw [e] at h0; omega] at this
      omega
  · -- the entry made writable in place
    have hp : pteOf cfg (s.table s.current) vpn = some (dir (innerIndex cfg vpn)) := by
      simp [pteOf, ← hb.ptbr_eq, hdir]
    have hm := mappers_writePte_same cfg hb hv (.inl (hb.ptbr_eq ▸ hdir))
      ⟨(dir (innerIndex cfg vpn)).valid, true, (dir (innerIndex cfg vpn)).pfn,
        (dir (innerIndex cfg vpn)).private'⟩ hp rfl rfl
    refine hx.of_write rfl rfl vpn
      (fun b v f hne => writesAt_writePte cfg _ (.inl hdir) (by rwa [hb.ptbr_eq])) (fun f hw => ?_)
      fun a _ v _ f _ _ h1 => by rw [hm, h1]
    rw [← hb.ptbr_eq, writesAt_writePte_self] at hw
    simp only [hvalid, Bool.true_and, beq_iff_eq] at hw
    rw [hm, ← hw, hexact, hone]

theorem writeExclusive_switchTo {temp : Nat} (ht : temp ∈ s.processes) :
    WriteExclusive cfg (switchTo temp s) := by
  have hp := (List.perm_cons_erase (List.mem_append_left [s.current] ht)).symm.trans
    (append_current_perm s)
  intro a ha v hv f hw
  rw [mappers_switchTo cfg ht]
  exact hx a (hp.mem_iff.mp ha) v hv f hw

theorem writeExclusive_forkProcess (hb : Bookkeeping s) (pid : Nat) :
    WriteExclusive cfg (forkProcess cfg Pagetable.empty (fun _ => PteDirectory.zero) pid s) := by
  intro a ha v hv f hw
  rw [table_forkProcess] at hw
  split_ifs at hw with h₁ h₂
  · rw [writesAt_forkTable_snd cfg _ _ hv] at hw; cases hw
  · rw [writesAt_forkTable_fst cfg _ _ _ _ hv] at hw; cases hw
  · -- a process on the ready list: the parent maps none of the frames it can write
    have hcur : a ≠ s.current := by rwa [← hb.ptbr_eq]
    have hpr : a ∈ s.processes := by
      change a ∈ s.nprocs :: (s.processes ++ [s.current]) at ha
      simpa [h₁, hcur] using ha
    have h1 := hx a (.tail _ hpr) v hv f hw
    rw [mappers_forkProcess cfg hb, h1, Nat.add_right_eq_self, ← Nat.le_zero, ← Nat.not_lt,
      mapsIn_pos_iff]
    rintro ⟨w, hw', hmw⟩
    have := two_le_mappers cfg hb (.tail _ hpr) (List.mem_cons_self _ _) hv hw' (.inl (Ne.symm hcur))
      (mapsAt_of_writesAt cfg hw) hmw
    omega

/-- **One clean request keeps `WriteExclusive`**, while no frame has `2^32` mappers. -/
theorem WriteExclusive.step (hb : Bookkeeping s) (hc : CountsExact cfg s)
    (hsmall : ∀ f, mappers cfg s f < uintSize) {op : Op} (hs : CleanStep cfg s op s') :
    WriteExclusive cfg s' := by
  cases hs with
  | alloc vpn rw hv hn => exact writeExclusive_allocPage hx hb hc hsmall hv hn
  | free vpn hv hval h => exact writeExclusive_freePage hx hb hv hval h
  | fault vpn rw hv _ hfree h => exact writeExclusive_handlePageFault hx hb hc hsmall hv hfree h
  | switch pid =>
    unfold switchProcess
    split
    · exact writeExclusive_switchTo hx (findPid_mem ‹_›)
    · exact writeExclusive_forkProcess hx hb pid

end Step

variable {cfg}

theorem writeExclusive_init (pid : Nat) : WriteExclusive cfg (System.init pid) := by
  intro a _ v _ f hw
  simp [writesAt, pteOf, System.init, System.table, Pagetable.empty] at hw

/-- **Every state of a clean run keeps `WriteExclusive`**, when it has fewer than `2^32` entries in
    all. The number of processes only grows along a run, so the bound holds of every earlier state. -/
theorem writeExclusive_of_reachableClean {s : System} (h : ReachableClean cfg s)
    (hsmall : s.nprocs * nrVpns cfg < uintSize) : WriteExclusive cfg s := by
  induction h with
  | init pid => exact writeExclusive_init pid
  | step hr hs ih =>
    have hb := bookkeeping_reachable hr.reachable
    have hsmall' := lt_of_le_of_lt (Nat.mul_le_mul_right _ hs.nprocs_le) hsmall
    exact (ih hsmall').step hb (countsExact_of_reachableClean hr)
      (fun f => (mappers_le cfg hb f).trans_lt hsmall') hs

/-- **Copy-on-write isolation.** On a clean run with fewer than `2^32` entries in all, a frame that
    a valid writable entry of a process maps has count `1`, and every valid entry of every process
    that maps it is that same entry: no other mapping can read what the writer writes. -/
theorem cow_write_exclusive {s : System} (h : ReachableClean cfg s)
    (hsmall : s.nprocs * nrVpns cfg < uintSize) {a b v w f : Nat}
    (ha : a ∈ s.current :: s.processes) (hb : b ∈ s.current :: s.processes)
    (hv : v < nrVpns cfg) (hw : w < nrVpns cfg)
    (hwrite : writesAt cfg (s.table a) f v = true) (hmap : mapsAt cfg (s.table b) f w = true) :
    s.mapcounts f = 1 ∧ b = a ∧ w = v := by
  have h1 := writeExclusive_of_reachableClean h hsmall a ha v hv f hwrite
  refine ⟨by rw [countsExact_of_reachableClean h f, h1]; rfl, ?_⟩
  by_contra hne
  have := two_le_mappers cfg (bookkeeping_reachable h.reachable) ha hb hv hw (not_and_or.mp hne)
    (mapsAt_of_writesAt cfg hwrite) hmap
  omega

/-- After the child's copy-on-write break, its writable entry maps frame `1` alone, and its parent
    keeps frame `0`. -/
theorem cow_write_exclusive_after_cow_break :
    ∃ s, ReachableClean twoFrameConfig s ∧ s.nprocs * nrVpns twoFrameConfig < uintSize ∧
      writesAt twoFrameConfig (s.table 1) 1 0 = true ∧ mapsAt twoFrameConfig (s.table 0) 0 0 = true ∧
      (s.mapcounts 1 = 1 ∧ 1 = 1 ∧ 0 = 0) := by
  obtain ⟨_, s, r, hs, -, hc, -, hn, h1, h0, -⟩ := clean_cow_break_run
  have hsmall : s.nprocs * nrVpns twoFrameConfig < uintSize := by rw [hn]; decide
  have ha : 1 ∈ s.current :: s.processes := by rw [hc]; exact List.mem_cons_self _ _
  exact ⟨s, r.step hs, hsmall, by simp [writesAt, h1], by simp [mapsAt, h0],
    cow_write_exclusive (r.step hs) hsmall ha ha (by decide) (by decide) (by simp [writesAt, h1])
      (by simp [mapsAt, h1])⟩

end Vm
end OsHomeworks
