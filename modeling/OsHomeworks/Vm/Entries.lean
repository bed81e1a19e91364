import OsHomeworks.Vm.Counts

/-!
# `Vm.Entries` — what every page-table entry of a clean run satisfies

The four entry points write entries in only a few ways: `alloc_page` makes an entry valid with a new
frame and perhaps the writable bit, `free_page` clears `valid`, `writable` and `pfn`, the fault
handler sets `writable` on a valid entry, a fork passes each parent entry through `forkedParent` and
builds the child's with `forkedChild` over zeroed memory, and `malloc` on a clean run hands out zero
entries. An `EntryRule` says that a property of single entries survives each of these writes; then
every entry of every process keeps it along every clean run (`entriesOk_of_reachableClean`).

Two instances are used by `Vm.Contracts`:

* `marksRule`: the mark `private` is `0` or `1`;
* `readOnlyRule`: an invalid entry is not writable.

A third, `frameRule`, says that a valid entry names a frame below `NR_PAGEFRAMES`
(`valid_pfn_lt_nrPageframes`): on a clean run `mapcounts`, a function of every `Nat` here, is never
read or written past the end of the C array through a valid entry.
-/

namespace OsHomeworks
namespace Vm

variable (cfg : Config)

/-- Every entry of every process satisfies `P`. -/
def EntriesOk (P : Pte → Prop) (s : System) : Prop :=
  ∀ a ∈ s.current :: s.processes, ∀ v < nrVpns cfg, ∀ p, pteOf cfg (s.table a) v = some p → P p

/-- A property of entries that each write of the entry points keeps. -/
structure EntryRule (P : Pte → Prop) : Prop where
  zero : P Pte.zero
  map : ∀ p ppn w, ppn < cfg.nrPageframes → P p → P { p with valid := true, pfn := ppn, writable := w }
  clear : ∀ p, P p → P { p with valid := false, writable := false, pfn := 0 }
  write : ∀ p, p.valid = true → P p → P { p with writable := true }
  parent : ∀ p, P p → P (forkedParent p)
  child : ∀ p, P p → P (forkedChild p Pte.zero)

/-- An entry after a write is the one written, an entry of the directory written through, or the
    entry from before. -/
theorem pteOf_writePte_cases {s : System} {a : Nat} {dir : PteDirectory} {vpn b v : Nat}
    {pte p : Pte} (h : pteOf cfg ((writePte cfg s a dir vpn pte).table b) v = some p) :
    p = pte ∨ (b = a ∧ outerIndex cfg v = outerIndex cfg vpn ∧ p = dir (innerIndex cfg v)) ∨
      pteOf cfg (s.table b) v = some p := by
  by_cases hb : b = a
  · subst hb
    simp only [pteOf, table_writePte_self] at h
    by_cases ho : outerIndex cfg v = outerIndex cfg vpn
    · rw [ho, Function.update_same, Option.map_some', Option.some_inj] at h
      by_cases hi : innerIndex cfg v = innerIndex cfg vpn
      · left; rw [← h, hi, Function.update_same]
      · right; left; exact ⟨rfl, ho, by rw [← h, Function.update_noteq hi]⟩
    · right; right; rwa [Function.update_noteq ho] at h
  · right; right; rwa [table_writePte_ne cfg _ _ _ hb] at h

/-! ## Each clean request keeps a rule -/

section Step

variable {cfg} {P : Pte → Prop} (hR : EntryRule cfg P) {s : System} (h : EntriesOk cfg P s)
include hR h

omit hR in
/-- The entry of `vpn` in `ptbr`'s table satisfies `P`. -/
theorem EntriesOk.at_ptbr (hptbr : s.ptbr ∈ s.current :: s.processes) {vpn : Nat}
    (hv : vpn < nrVpns cfg) {dir : PteDirectory} (hdir : s.table s.ptbr (outerIndex cfg vpn) = some dir) :
    P (dir (innerIndex cfg vpn)) :=
  h _ hptbr vpn hv _ (by simp [pteOf, hdir])

omit hR in
/-- A write through a directory of the table, or through a new one whose entries satisfy `P`, of an
    entry that satisfies `P`. -/
theorem entriesOk_writePte {dir : PteDirectory} {vpn : Nat} {pte : Pte}
    (hdir : s.table s.ptbr (outerIndex cfg vpn) = some dir ∨ ∀ x, P (dir x))
    (hptbr : s.ptbr ∈ s.current :: s.processes) (hpte : P pte) :
    EntriesOk cfg P (writePte cfg s s.ptbr dir vpn pte) := by
  intro a ha v hv p hp
  rcases pteOf_writePte_cases cfg hp with rfl | ⟨rfl, ho, rfl⟩ | hold
  · exact hpte
  · rcases hdir with hd | hz
    · exact h _ hptbr v hv _ (by simp [pteOf, ho, hd])
    · exact hz _
  · exact h a ha v hv p hold

theorem entriesOk_allocPage (fresh : PteDirectory) {vpn : Nat} (rw : Nat)
    (hv : vpn < nrVpns cfg) (hptbr : s.ptbr ∈ s.current :: s.processes)
    (hfresh : s.table s.ptbr (outerIndex cfg vpn) = none → ∀ x, P (fresh x)) :
    EntriesOk cfg P (allocPage cfg fresh vpn rw s).2 := by
  rcases allocPage_spec cfg fresh vpn rw s with ⟨-, he⟩ | ⟨ppn, hppn, -, -, he⟩ <;> rw [he]
  · exact h
  · unfold mapPage
    cases hs : s.table s.ptbr (outerIndex cfg vpn) with
    | none =>
      exact entriesOk_writePte h (.inr (by simpa using hfresh hs)) hptbr
        (hR.map _ _ _ hppn (by simpa using hfresh hs _))
    | some d =>
      exact entriesOk_writePte h (.inl (by simp [hs])) hptbr
        (hR.map _ _ _ hppn (by simpa using h.at_ptbr hptbr hv hs))

theorem entriesOk_forkProcess (hb : Bookkeeping s) (pid : Nat) :
    EntriesOk cfg P (forkProcess cfg Pagetable.empty (fun _ => PteDirectory.zero) pid s) := by
  have hcur : s.ptbr ∈ s.current :: s.processes := by rw [hb.ptbr_eq]; exact List.mem_cons_self _ _
  intro a ha v hv p hp
  rw [table_forkProcess] at hp
  split_ifs at hp with h₁ h₂
  · rw [pteOf_forkTable_snd_zero cfg _ _ hv] at hp
    obtain ⟨q, hq, rfl⟩ := Option.map_eq_some'.mp hp
    exact hR.child q (h _ hcur v hv q hq)
  · rw [pteOf_forkTable_fst cfg _ _ _ _ hv] at hp
    obtain ⟨q, hq, rfl⟩ := Option.map_eq_some'.mp hp
    exact hR.parent q (h _ hcur v hv q hq)
  · have hne : a ≠ s.current := by rwa [← hb.ptbr_eq]
    change a ∈ s.nprocs :: (s.processes ++ [s.current]) at ha
    exact h a (.tail _ (by simpa [h₁, hne] using ha)) v hv p hp

/-- **One clean request keeps a rule.** -/
theorem EntriesOk.step (hb : Bookkeeping s) {op : Op} {s' : System} (hs : CleanStep cfg s op s') :
    EntriesOk cfg P s' := by
  have hptbr : s.ptbr ∈ s.current :: s.processes := by rw [hb.ptbr_eq]; exact List.mem_cons_self _ _
  cases hs with
  | alloc vpn rw hv _ => exact entriesOk_allocPage hR h _ rw hv hptbr fun _ _ => hR.zero
  | free vpn hv _ hf =>
    unfold freePage at hf
    split at hf
    · cases hf
    · rename_i dir hdir
      cases hf
      exact entriesOk_writePte h (.inl hdir) hptbr (hR.clear _ (h.at_ptbr hptbr hv hdir))
  | fault vpn rw hv _ _ hf =>
    obtain ⟨dir, hdir, ⟨-, rfl, -⟩ | ⟨-, -, -, -, rfl⟩ | ⟨-, hvalid, -, -, rfl⟩⟩ :=
      handlePageFault_ok cfg hf
    · exact h
    · exact entriesOk_allocPage (s := s.decr _) hR h _ _ hv hptbr fun hn =>
        absurd (hdir.symm.trans hn) (Option.some_ne_none _)
    · exact entriesOk_writePte h (.inl hdir) hptbr
        (hR.write _ hvalid (h.at_ptbr hptbr hv hdir))
  | switch pid =>
    unfold switchProcess
    split
    · rename_i temp hf
      have hp := (List.perm_cons_erase (List.mem_append_left [s.current] (findPid_mem hf))).symm.trans
        (append_current_perm s)
      exact fun a ha => h a (hp.mem_iff.mp ha)
    · exact entriesOk_forkProcess hR h hb pid

end Step

variable {cfg}

/-- **Every entry of every state of a clean run keeps a rule.** -/
theorem entriesOk_of_reachableClean {P : Pte → Prop} (hR : EntryRule cfg P) {s : System}
    (h : ReachableClean cfg s) : EntriesOk cfg P s := by
  induction h with
  | init pid =>
    intro a _ v _ p hp
    simp [pteOf, System.init, System.table, Pagetable.empty] at hp
  | step hr hs ih => exact ih.step hR (bookkeeping_reachable hr.reachable) hs

/-! ## Three rules -/

/-- The mark `private` is `0` or `1`: `malloc` zeroes it and only a fork sets it. -/
theorem marksRule : EntryRule cfg fun p => p.private' ≤ 1 where
  zero := Nat.zero_le 1
  map _ _ _ _ h := h
  clear _ h := h
  write _ _ h := h
  parent p h := by unfold forkedParent; split_ifs; exacts [le_rfl, h]
  child p _ := by unfold forkedChild; split_ifs <;> simp [Pte.zero]

/-- An invalid entry is not writable: `free_page` clears both bits, and nothing sets `writable` on an
    invalid entry. -/
theorem readOnlyRule : EntryRule cfg fun p => p.valid = false → p.writable = false where
  zero _ := rfl
  map _ _ _ _ _ h := nomatch h
  clear _ _ _ := rfl
  write p hv _ h := absurd (hv.symm.trans h) (by decide)
  parent p h := by unfold forkedParent; split_ifs; exacts [fun _ => rfl, h]
  child p _ := by unfold forkedChild; split_ifs <;> simp [Pte.zero]

/-- A valid entry names a frame below `NR_PAGEFRAMES`: `alloc_page` hands out only those, and a
    fork copies the frames of valid entries. -/
theorem frameRule : EntryRule cfg fun p => p.valid = true → p.pfn < cfg.nrPageframes where
  zero h := nomatch h
  map _ _ _ hppn _ _ := hppn
  clear _ _ h := nomatch h
  write _ _ h := h
  parent p h := by unfold forkedParent; split_ifs <;> exact h
  child p h := by
    by_cases hv : p.valid = true
    · simp [forkedChild, hv, h hv]
    · simp [forkedChild, hv, Pte.zero]

/-- **On a clean run every valid entry names a real frame**: its `pfn` is below `NR_PAGEFRAMES`, so
    the counts that `free_page`, `handle_page_fault` and a fork read and write through a valid entry
    are cells of `mapcounts[NR_PAGEFRAMES]`. -/
theorem valid_pfn_lt_nrPageframes {s : System} (h : ReachableClean cfg s) {a : Nat}
    (ha : a ∈ s.current :: s.processes) {v : Nat} (hv : v < nrVpns cfg) {p : Pte}
    (hp : pteOf cfg (s.table a) v = some p) (hvalid : p.valid = true) : p.pfn < cfg.nrPageframes :=
  entriesOk_of_reachableClean frameRule h a ha v hv p hp hvalid

end Vm
end OsHomeworks
