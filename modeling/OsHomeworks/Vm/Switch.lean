import OsHomeworks.Vm.Run

/-!
# `Vm.Switch` — the process bookkeeping of `switch_process`

`switch_process(pid)` switches to the first ready process carrying `pid`, or forks one from
`current` when there is none. Over every run:

* `Bookkeeping` — `ptbr` points at `current`'s page table, and `current` followed by the ready list
  names every process allocated so far, each exactly once (`bookkeeping_reachable`);
* after the call the running process carries `pid`, and it is the first ready process carrying
  `pid` when there is one (`switchProcess_found`, `switchProcess_not_found`);
* pids stay pairwise distinct only while `switch_process` is never asked for the running process's
  own pid: the search looks at the ready list alone, so such a call forks a second process with the
  same pid (`forkProcess_own_pid`).
* every operation writes at most the running process's record: `alloc_page`, `free_page` and
  `handle_page_fault` go through `ptbr` (`heapFrame_allocPage`, `heapFrame_freePage`,
  `heapFrame_handlePageFault`), and `switch_process` only reads the ready list and `malloc`s fresh
  records.
-/

namespace OsHomeworks
namespace Vm

variable (cfg : Config)

/-- `ptbr` points at `current`'s table, and `current` followed by the ready list lists every
    process `malloc`'d so far, each once. -/
structure Bookkeeping (s : System) : Prop where
  ptbr_eq : s.ptbr = s.current
  nodup : (s.current :: s.processes).Nodup
  mem_iff : ∀ a, a ∈ s.current :: s.processes ↔ a < s.nprocs

/-- The pids of `current` and of the ready processes are pairwise distinct. -/
def PidsDistinct (s : System) : Prop :=
  ((s.current :: s.processes).map fun a => (s.heap a).pid).Nodup

variable {cfg}

/-! ## The search -/

theorem findPid_pid {s : System} {pid a : Nat} (h : findPid s pid = some a) :
    (s.heap a).pid = pid := by
  simpa using List.find?_some h

theorem findPid_mem {s : System} {pid a : Nat} (h : findPid s pid = some a) : a ∈ s.processes :=
  List.mem_of_find?_eq_some h

theorem findPid_none {s : System} {pid a : Nat} (h : findPid s pid = none) (ha : a ∈ s.processes) :
    (s.heap a).pid ≠ pid := by
  simpa using List.find?_eq_none.mp h a ha

/-! ## One step -/

theorem Bookkeeping.of_sameProcs {s s' : System} (h : Bookkeeping s) (hs : SameProcs s s') :
    Bookkeeping s' := by
  obtain ⟨h1, h2, h3, h4, -⟩ := hs
  exact ⟨by rw [h4, h2, h.ptbr_eq], by rw [h2, h3]; exact h.nodup,
    by rw [h2, h3, h1]; exact h.mem_iff⟩

/-- The ready list with `current` appended is a reordering of `current :: processes`. -/
theorem append_current_perm (s : System) :
    (s.processes ++ [s.current]).Perm (s.current :: s.processes) :=
  List.perm_append_singleton _ _

theorem Bookkeeping.switchTo {s : System} {temp : Nat} (h : Bookkeeping s)
    (ht : temp ∈ s.processes) : Bookkeeping (switchTo temp s) := by
  have hl := (append_current_perm s).nodup_iff.mpr h.nodup
  have hp := List.perm_cons_erase (List.mem_append_left [s.current] ht)
  refine ⟨rfl, List.nodup_cons.mpr ⟨hl.not_mem_erase, hl.erase temp⟩, fun a => ?_⟩
  simp only [Vm.switchTo]
  rw [← hp.mem_iff, (append_current_perm s).mem_iff]
  exact h.mem_iff a

theorem Bookkeeping.forkProcess {s : System} (h : Bookkeeping s) (table : Pagetable)
    (dirs : Nat → PteDirectory) (pid : Nat) : Bookkeeping (forkProcess cfg table dirs pid s) := by
  have hl := (append_current_perm s).nodup_iff.mpr h.nodup
  have hmem : ∀ a, a ∈ s.processes ++ [s.current] ↔ a < s.nprocs := fun a =>
    (append_current_perm s).mem_iff.trans (h.mem_iff a)
  refine ⟨rfl, List.nodup_cons.mpr ⟨fun hn => Nat.lt_irrefl _ ((hmem _).mp hn), hl⟩, fun a => ?_⟩
  simp only [Vm.forkProcess, List.mem_cons, hmem]
  omega

theorem Bookkeeping.step {s s' : System} {op : Op} (h : Bookkeeping s) (hs : Step cfg s op s') :
    Bookkeeping s' := by
  cases hs with
  | alloc fresh vpn rw => exact h.of_sameProcs (sameProcs_allocPage cfg _ _ _ _)
  | free _ _ _ hf => exact h.of_sameProcs (sameProcs_freePage cfg hf)
  | fault _ _ _ _ hf => exact h.of_sameProcs (sameProcs_handlePageFault cfg hf)
  | switch table dirs pid =>
    cases hf : findPid s pid with
    | some temp => rw [switchProcess_of_some cfg hf]; exact h.switchTo (findPid_mem hf)
    | none => rw [switchProcess_of_none cfg hf]; exact h.forkProcess table dirs pid

theorem bookkeeping_init (pid : Nat) : Bookkeeping (System.init pid) :=
  ⟨rfl, List.nodup_singleton 0, fun a => by simp [System.init]⟩

/-- **Every reachable state keeps the bookkeeping.** -/
theorem bookkeeping_reachable {s : System} (h : Reachable cfg s) : Bookkeeping s :=
  ReachableBy.induct cfg Bookkeeping bookkeeping_init (fun _ _ _ hb _ hs => hb.step hs) h

/-! ## The ready processes are isolated -/

/-- With a ready process carrying `pid`, the first one becomes `current` and leaves the list, and
    the old `current` goes to its tail. -/
theorem switchProcess_found {s : System} {pid a : Nat} (h : findPid s pid = some a)
    (table : Pagetable) (dirs : Nat → PteDirectory) :
    let s' := switchProcess cfg table dirs pid s
    s'.current = a ∧ s'.processes = s.processes.erase a ++ [s.current] ∧ s'.ptbr = a ∧
      (s'.heap s'.current).pid = pid := by
  rw [switchProcess_of_some cfg h]
  exact ⟨rfl, List.erase_append_left _ (findPid_mem h), rfl, (findPid_pid h : (s.heap a).pid = pid)⟩

/-- With none, a child at the fresh address `nprocs` carrying `pid` becomes `current`, and the old
    `current` goes to the tail of the ready list. -/
theorem switchProcess_not_found {s : System} {pid : Nat} (h : findPid s pid = none)
    (table : Pagetable) (dirs : Nat → PteDirectory) :
    let s' := switchProcess cfg table dirs pid s
    s'.current = s.nprocs ∧ s'.processes = s.processes ++ [s.current] ∧ s'.ptbr = s.nprocs ∧
      (s'.heap s'.current).pid = pid := by
  rw [switchProcess_of_none cfg h]
  simp [Vm.forkProcess]

/-! ## Pids -/

theorem PidsDistinct.of_sameProcs {s s' : System} (h : PidsDistinct s) (hs : SameProcs s s') :
    PidsDistinct s' := by
  have hpid : (fun a => (s'.heap a).pid) = fun a => (s.heap a).pid := funext hs.pid
  unfold PidsDistinct
  rw [hpid, hs.current, hs.processes]
  exact h

theorem PidsDistinct.switchTo {s : System} {temp : Nat} (h : PidsDistinct s)
    (ht : temp ∈ s.processes) : PidsDistinct (switchTo temp s) := by
  have hp := (List.perm_cons_erase (List.mem_append_left [s.current] ht)).symm.trans
    (append_current_perm s)
  exact (hp.map _).nodup_iff.mpr h

/-- A fork for a pid that neither `current` nor a ready process carries keeps pids distinct. -/
theorem PidsDistinct.forkProcess {s : System} (hb : Bookkeeping s) (h : PidsDistinct s)
    {pid : Nat} (hcur : (s.heap s.current).pid ≠ pid) (hnone : findPid s pid = none)
    (table : Pagetable) (dirs : Nat → PteDirectory) :
    PidsDistinct (forkProcess cfg table dirs pid s) := by
  have hold : ∀ a ∈ s.processes ++ [s.current],
      ((Vm.forkProcess cfg table dirs pid s).heap a).pid = (s.heap a).pid := by
    intro a ha
    have hlt := (hb.mem_iff a).mp ((append_current_perm s).mem_iff.mp ha)
    rcases eq_or_ne a s.ptbr with rfl | hp <;> simp [Vm.forkProcess, Nat.ne_of_lt hlt, *]
  have hl := (append_current_perm s).map (fun a => (s.heap a).pid) |>.nodup_iff.mpr h
  have hchild : ((Vm.forkProcess cfg table dirs pid s).heap s.nprocs).pid = pid := by
    simp [Vm.forkProcess]
  show (List.map _ (s.nprocs :: (s.processes ++ [s.current]))).Nodup
  rw [List.map_cons, List.map_congr_left hold, hchild]
  refine List.nodup_cons.mpr ⟨?_, hl⟩
  simp only [List.mem_map, List.mem_append, List.mem_singleton]
  rintro ⟨a, ha | rfl, hpa⟩
  · exact findPid_none hnone ha hpa
  · exact hcur hpa

/-- The runs that never ask `switch_process` for the running process's own pid. -/
def NoSelfSwitch (s : System) (op : Op) : Prop := op ≠ .switch (s.heap s.current).pid

theorem pidsDistinct_step {s s' : System} {op : Op} (hb : Bookkeeping s) (h : PidsDistinct s)
    (hok : NoSelfSwitch s op) (hs : Step cfg s op s') : PidsDistinct s' := by
  cases hs with
  | alloc fresh vpn rw => exact h.of_sameProcs (sameProcs_allocPage cfg _ _ _ _)
  | free _ _ _ hf => exact h.of_sameProcs (sameProcs_freePage cfg hf)
  | fault _ _ _ _ hf => exact h.of_sameProcs (sameProcs_handlePageFault cfg hf)
  | switch table dirs pid =>
    cases hf : findPid s pid with
    | some temp => rw [switchProcess_of_some cfg hf]; exact h.switchTo (findPid_mem hf)
    | none =>
      rw [switchProcess_of_none cfg hf]
      exact h.forkProcess hb (fun he => hok (by rw [he])) hf table dirs

/-- **Pids stay distinct over the runs without a switch to the running pid.** -/
theorem pidsDistinct_reachable {s : System} (h : ReachableBy cfg NoSelfSwitch s) :
    PidsDistinct s :=
  ReachableBy.induct cfg (fun s => Bookkeeping s ∧ PidsDistinct s)
    (fun pid => ⟨bookkeeping_init pid, List.nodup_singleton _⟩)
    (fun _ _ _ ⟨hb, hd⟩ hok hs => ⟨hb.step hs, pidsDistinct_step hb hd hok hs⟩) h |>.2

/-- A switch to the running process's own pid, with no ready process carrying it, forks: the
    parent and the child then carry the same pid. -/
theorem switchProcess_own_pid (table : Pagetable) (dirs : Nat → PteDirectory) (pid : Nat) :
    let s := switchProcess cfg table dirs pid (System.init pid)
    Reachable cfg s ∧ ¬ PidsDistinct s := by
  have hnone : findPid (System.init pid) pid = none := rfl
  refine ⟨(Reachable.init cfg pid).step cfg (Step.switch table dirs pid), ?_⟩
  rw [switchProcess_of_none cfg hnone]
  simp [PidsDistinct, Vm.forkProcess, System.init]

theorem pids_collide : ¬ ∀ s, Reachable smallConfig s → PidsDistinct s := fun h =>
  (switchProcess_own_pid Pagetable.empty (fun _ => PteDirectory.zero) 0).2
    (h _ (switchProcess_own_pid Pagetable.empty (fun _ => PteDirectory.zero) 0).1)

/-- **Process bookkeeping.** Every reachable state keeps `Bookkeeping`; `switch_process(pid)` makes
    `current` a process carrying `pid`, the first ready one when there is one and else a child at a
    fresh address, and appends the old `current` to the ready list; and pids stay pairwise distinct
    over the runs that never switch to the running process's own pid. -/
theorem process_bookkeeping :
    (∀ s, Reachable cfg s → Bookkeeping s) ∧
    (∀ (s : System) (table : Pagetable) (dirs : Nat → PteDirectory) (pid : Nat),
      let s' := switchProcess cfg table dirs pid s
      (∀ a, findPid s pid = some a →
        s'.current = a ∧ s'.processes = s.processes.erase a ++ [s.current] ∧ s'.ptbr = a ∧
          (s'.heap s'.current).pid = pid) ∧
      (findPid s pid = none →
        s'.current = s.nprocs ∧ s'.processes = s.processes ++ [s.current] ∧ s'.ptbr = s.nprocs ∧
          (s'.heap s'.current).pid = pid)) ∧
    (∀ s, ReachableBy cfg NoSelfSwitch s → PidsDistinct s) :=
  ⟨fun _ => bookkeeping_reachable,
    fun _ table dirs _ => ⟨fun _ h => switchProcess_found h table dirs,
      fun h => switchProcess_not_found h table dirs⟩,
    fun _ => pidsDistinct_reachable⟩

end Vm
end OsHomeworks
