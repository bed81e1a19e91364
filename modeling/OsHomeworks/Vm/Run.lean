import OsHomeworks.Vm.Ops

/-!
# `Vm.Run` — runs of the simulator

The framework (not in the sources) drives `pa4.c` with four requests (`Op`): `alloc_page` on a vpn
that is not valid in the current process, `free_page` on one that is, `handle_page_fault` after the
translation of the access failed, and `switch_process` with any pid. `Step` is one request, with
`malloc`'s contents chosen freely, and `ReachableBy ok` the states of the runs from `System.init`
whose every step satisfies `ok`; `Reachable` allows every step.

A vpn names a page of the address space, `vpn < nrVpns cfg`: a larger one indexes past
`outer_ptes`, which C leaves undefined. A request whose call reaches undefined behaviour (`Ub`)
ends the run.

The frame lemmas at the end say that `alloc_page`, `free_page` and `handle_page_fault` touch page
tables and counts only (`SameProcs`).
-/

namespace OsHomeworks
namespace Vm

/-- The requests the framework makes. -/
inductive Op where
  | alloc (vpn rw : Nat)
  | free (vpn : Nat)
  | fault (vpn rw : Nat)
  | switch (pid : Nat)
  deriving DecidableEq, Repr

variable (cfg : Config)

/-- One request of the framework, from state `s` to state `s'`. -/
inductive Step : System → Op → System → Prop where
  | alloc {s : System} (fresh : PteDirectory) (vpn rw : Nat) (hv : vpn < nrVpns cfg)
      (hn : isValid cfg (s.table s.current) vpn = false) :
      Step s (.alloc vpn rw) (allocPage cfg fresh vpn rw s).2
  | free {s s' : System} (vpn : Nat) (hv : vpn < nrVpns cfg)
      (hval : isValid cfg (s.table s.current) vpn = true) (h : freePage cfg vpn s = .ok s') :
      Step s (.free vpn) s'
  | fault {s s' : System} (vpn rw : Nat) {r : Bool} (hv : vpn < nrVpns cfg)
      (ht : translate cfg (s.table s.current) vpn rw = none)
      (h : handlePageFault cfg vpn rw s = .ok (r, s')) :
      Step s (.fault vpn rw) s'
  | switch {s : System} (table : Pagetable) (dirs : Nat → PteDirectory) (pid : Nat) :
      Step s (.switch pid) (switchProcess cfg table dirs pid s)

/-- The states of the runs from an initial state whose every step satisfies `ok`. -/
inductive ReachableBy (ok : System → Op → Prop) : System → Prop where
  | init (pid : Nat) : ReachableBy ok (System.init pid)
  | step {s s' : System} {op : Op} :
      ReachableBy ok s → ok s op → Step cfg s op s' → ReachableBy ok s'

/-- The states of all runs. -/
def Reachable (s : System) : Prop := ReachableBy cfg (fun _ _ => True) s

theorem Reachable.init (pid : Nat) : Reachable cfg (System.init pid) := ReachableBy.init pid

theorem Reachable.step {s s' : System} {op : Op} (h : Reachable cfg s) (hs : Step cfg s op s') :
    Reachable cfg s' :=
  ReachableBy.step h trivial hs

/-- A property that holds initially and that every step keeps holds of every state of every run. -/
theorem ReachableBy.induct {ok : System → Op → Prop} (P : System → Prop)
    (hinit : ∀ pid, P (System.init pid))
    (hstep : ∀ s op s', P s → ok s op → Step cfg s op s' → P s') {s : System}
    (h : ReachableBy cfg ok s) : P s := by
  induction h with
  | init pid => exact hinit pid
  | step _ hok hs ih => exact hstep _ _ _ ih hok hs

/-- A build of `vm.h` small enough for `decide` to run the simulator on: four entries per
    directory, one frame, `RW_READ = 1` and `RW_WRITE = 2`. -/
def smallConfig : Config := ⟨4, 1, 1, 2, by decide⟩

/-- The same build with two frames, where a copy-on-write break after a fork finds a free frame. -/
def twoFrameConfig : Config := ⟨4, 2, 1, 2, by decide⟩

/-! ## Frame lemmas -/

theorem sameProcs_writePte (s : System) (a : Nat) (dir : PteDirectory) (vpn : Nat) (pte : Pte) :
    SameProcs s (writePte cfg s a dir vpn pte) :=
  SameProcs.setTable _ _ _

theorem sameProcs_allocPage (fresh : PteDirectory) (vpn rw : Nat) (s : System) :
    SameProcs s (allocPage cfg fresh vpn rw s).2 := by
  by_cases h : cfg.nrPageframes ≤ scanFree s.mapcounts 0 cfg.nrPageframes
  · rw [allocPage_of_full cfg h]
    exact SameProcs.refl s
  · rw [allocPage_of_lt cfg (Nat.lt_of_not_le h)]
    exact (sameProcs_writePte cfg _ _ _ _ _).trans (SameProcs.incr _ _)

theorem sameProcs_freePage {vpn : Nat} {s s' : System} (h : freePage cfg vpn s = .ok s') :
    SameProcs s s' := by
  unfold freePage at h
  split at h
  · cases h
  · cases h
    exact (sameProcs_writePte cfg _ _ _ _ _).trans (SameProcs.decr _ _)

theorem sameProcs_handlePageFault {vpn rw : Nat} {r : Bool} {s s' : System}
    (h : handlePageFault cfg vpn rw s = .ok (r, s')) : SameProcs s s' := by
  obtain ⟨dir, -, ⟨-, rfl, -⟩ | ⟨-, -, -, -, rfl⟩ | ⟨-, -, -, -, rfl⟩⟩ := handlePageFault_ok cfg h
  · exact SameProcs.refl _
  · exact (SameProcs.decr _ _).trans (sameProcs_allocPage cfg _ _ _ _)
  · exact sameProcs_writePte cfg _ _ _ _ _

end Vm
end OsHomeworks
