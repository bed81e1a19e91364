import Mathlib

/-!
# `Vm.Basic` — the data of the paged virtual-memory simulator (`pa4.c`)

`pa4.c` fills in four entry points of a teaching simulator: `alloc_page`, `free_page`,
`handle_page_fault` and `switch_process`. They read and write four globals: the ready list
`processes`, the running process `current`, the page-table base register `ptbr`, and the per-frame
share counts `mapcounts`. This module fixes the data those functions see.

* **Configuration.** `vm.h` (not in the sources) fixes the directory width, the number of frames and
  the access bits; `Config` takes them as parameters.
* **Page tables.** `struct pte`, `struct pte_directory` and `struct pagetable` become `Pte`,
  `PteDirectory` (entries by inner index) and `Pagetable` (an optional directory by outer index,
  `none` for `NULL`). A directory is a value, so two slots never share one. That is what the C code
  does on a clean run (`Vm.Counts`), where a slot that the fork does not fill is `NULL`. With
  garbage memory such a slot could point at another process's directory, which the model does not
  follow, so the results about other processes (`ready_processes_isolated`) are stated on clean
  runs.
* **Processes.** `struct process` objects live in an arena `System.heap` indexed by address, so that
  `current`, `ptbr` and the ready list are pointers, as in the source.
* **Machine words.** `mapcounts` holds `unsigned int`s: `uintInc`/`uintDec` are `++`/`--` modulo
  `2^32`.
-/

namespace OsHomeworks
namespace Vm

/-- The constants of `vm.h`: `NR_PTES_PER_PAGE`, `NR_PAGEFRAMES`, `RW_READ` and `RW_WRITE`. -/
structure Config where
  nrPtesPerPage : Nat
  nrPageframes : Nat
  rwRead : Nat
  rwWrite : Nat
  nrPtesPerPage_pos : 0 < nrPtesPerPage

/-! ## Unsigned arithmetic -/

/-- The number of values of an `unsigned int`. -/
def uintSize : Nat := 4294967296

/-- `(unsigned int)-1`, what `alloc_page` returns when every frame is taken. -/
def uintMinusOne : Nat := uintSize - 1

/-- `c++` on an `unsigned int`. -/
def uintInc (c : Nat) : Nat := (c + 1) % uintSize

/-- `c--` on an `unsigned int`: `0` wraps to `uintMinusOne`. -/
def uintDec (c : Nat) : Nat := (c + uintSize - 1) % uintSize

/-! ## Page tables -/

/-- `struct pte`. `private` is a keyword of Lean, hence `private'`. -/
structure Pte where
  valid : Bool
  writable : Bool
  pfn : Nat
  private' : Nat
  deriving DecidableEq, Repr

/-- An entry whose bytes are all zero. -/
def Pte.zero : Pte := ⟨false, false, 0, 0⟩

/-- `struct pte_directory`: entry `j` for `j < nrPtesPerPage`. -/
abbrev PteDirectory := Nat → Pte

/-- `struct pagetable`: `outer_ptes[i]`, `none` standing for `NULL`. -/
abbrev Pagetable := Nat → Option PteDirectory

/-- A directory whose bytes are all zero. -/
def PteDirectory.zero : PteDirectory := fun _ => Pte.zero

/-- A page table with every outer slot `NULL`. -/
def Pagetable.empty : Pagetable := fun _ => none

/-- `struct process`; its `list` link is the position of its address in `System.processes`. -/
structure Process where
  pid : Nat
  pagetable : Pagetable

/-- The globals of the simulator, with `struct process` objects in an arena by address. -/
structure System where
  /-- The `struct process` at each address. -/
  heap : Nat → Process
  /-- The addresses below `nprocs` have been handed out by `malloc`. -/
  nprocs : Nat
  /-- The address of `current`. -/
  current : Nat
  /-- The ready list `processes`, as addresses in list order. -/
  processes : List Nat
  /-- The address of the process whose `pagetable` field `ptbr` points at. -/
  ptbr : Nat
  /-- `mapcounts[NR_PAGEFRAMES]`, at every frame number: on a clean run a valid entry names only
      frames below `NR_PAGEFRAMES` (`valid_pfn_lt_nrPageframes`). -/
  mapcounts : Nat → Nat

/-- The initial state: one process `pid` with an empty page table, nothing on the ready list, every
    count `0`. -/
def System.init (pid : Nat) : System :=
  ⟨fun _ => ⟨pid, Pagetable.empty⟩, 1, 0, [], 0, fun _ => 0⟩

/-- The page table of the process at address `a`. -/
def System.table (s : System) (a : Nat) : Pagetable := (s.heap a).pagetable

/-- Replace the page table of the process at address `a`. -/
def System.setTable (s : System) (a : Nat) (pt : Pagetable) : System :=
  { s with heap := Function.update s.heap a { s.heap a with pagetable := pt } }

/-- `mapcounts[f]++`. -/
def System.incr (s : System) (f : Nat) : System :=
  { s with mapcounts := Function.update s.mapcounts f (uintInc (s.mapcounts f)) }

/-- `mapcounts[f]--`. -/
def System.decr (s : System) (f : Nat) : System :=
  { s with mapcounts := Function.update s.mapcounts f (uintDec (s.mapcounts f)) }

@[simp] theorem System.table_incr (s : System) (f a : Nat) : (s.incr f).table a = s.table a := rfl

@[simp] theorem System.table_decr (s : System) (f a : Nat) : (s.decr f).table a = s.table a := rfl

@[simp] theorem System.table_setTable_self (s : System) (a : Nat) (pt : Pagetable) :
    (s.setTable a pt).table a = pt := by
  simp [System.setTable, System.table]

@[simp] theorem System.table_setTable_ne {s : System} {a b : Nat} (pt : Pagetable) (h : b ≠ a) :
    (s.setTable a pt).table b = s.table b := by
  simp [System.setTable, System.table, h]

@[simp] theorem System.pid_setTable (s : System) (a b : Nat) (pt : Pagetable) :
    ((s.setTable a pt).heap b).pid = (s.heap b).pid := by
  by_cases h : b = a <;> simp [System.setTable, h]

/-- `s'` has the processes of `s`: the same arena size, `current`, ready list, `ptbr` and pids. The
    page-table operations keep all of them. -/
structure SameProcs (s s' : System) : Prop where
  nprocs : s'.nprocs = s.nprocs
  current : s'.current = s.current
  processes : s'.processes = s.processes
  ptbr : s'.ptbr = s.ptbr
  pid : ∀ a, (s'.heap a).pid = (s.heap a).pid

theorem SameProcs.refl (s : System) : SameProcs s s := ⟨rfl, rfl, rfl, rfl, fun _ => rfl⟩

theorem SameProcs.trans {s s' s'' : System} (h : SameProcs s s') (h' : SameProcs s' s'') :
    SameProcs s s'' :=
  ⟨h'.nprocs.trans h.nprocs, h'.current.trans h.current, h'.processes.trans h.processes,
    h'.ptbr.trans h.ptbr, fun a => (h'.pid a).trans (h.pid a)⟩

theorem SameProcs.setTable (s : System) (a : Nat) (pt : Pagetable) : SameProcs s (s.setTable a pt) :=
  ⟨rfl, rfl, rfl, rfl, fun b => System.pid_setTable s a b pt⟩

theorem SameProcs.incr (s : System) (f : Nat) : SameProcs s (s.incr f) :=
  ⟨rfl, rfl, rfl, rfl, fun _ => rfl⟩

theorem SameProcs.decr (s : System) (f : Nat) : SameProcs s (s.decr f) :=
  ⟨rfl, rfl, rfl, rfl, fun _ => rfl⟩

section Access

variable (cfg : Config)

/-- The outer index of `vpn`. -/
def outerIndex (vpn : Nat) : Nat := vpn / cfg.nrPtesPerPage

/-- The inner index of `vpn`. -/
def innerIndex (vpn : Nat) : Nat := vpn % cfg.nrPtesPerPage

/-- The PTE of `vpn` in `pt`; `none` when its outer slot is `NULL`. -/
def pteOf (pt : Pagetable) (vpn : Nat) : Option Pte :=
  (pt (outerIndex cfg vpn)).map fun d => d (innerIndex cfg vpn)

/-- `vpn` has a valid PTE in `pt`. -/
def isValid (pt : Pagetable) (vpn : Nat) : Bool :=
  (pteOf cfg pt vpn).any Pte.valid

/-- Modelled from the spec: the framework's `__translate`, which is not in the sources. The frame of
    `vpn` for an access `rw`: the outer slot is non-`NULL`, the PTE valid, and writable when `rw` is
    `RW_WRITE`. -/
def translate (pt : Pagetable) (vpn rw : Nat) : Option Nat :=
  match pteOf cfg pt vpn with
  | some p => if p.valid ∧ (rw = cfg.rwWrite → p.writable) then some p.pfn else none
  | none => none

/-- The virtual page numbers a page table covers: `NR_PTES_PER_PAGE` slots of
    `NR_PTES_PER_PAGE` entries. -/
def nrVpns : Nat := cfg.nrPtesPerPage * cfg.nrPtesPerPage

/-- The number of valid PTEs of `pt` that map frame `f`. -/
def mapsIn (pt : Pagetable) (f : Nat) : Nat :=
  (List.range (nrVpns cfg)).countP fun v => (pteOf cfg pt v).any fun p => p.valid && p.pfn == f

/-- The number of valid PTEs that map frame `f`, over `current` and every process on the ready
    list. -/
def mappers (s : System) (f : Nat) : Nat :=
  ((s.current :: s.processes).map fun a => mapsIn cfg (s.table a) f).sum

end Access

end Vm
end OsHomeworks
