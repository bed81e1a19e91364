import OsHomeworks.Vm.Basic

/-!
# `Vm.Ops` — the four entry points of `pa4.c`

Each function is written as the source computes it, statement by statement:

* `allocPage` — `alloc_page(vpn, rw)`: the scan of `mapcounts` for the first `0` (`scanFree`),
  the lazy `malloc` of a directory, and the PTE and count updates; `uintMinusOne` when no count is `0`.
* `freePage` — `free_page(vpn)`: clears `valid`, `writable` and `pfn` (not `private`) and decrements
  the count of the old frame.
* `handlePageFault` — `handle_page_fault(vpn, rw)`: the `pfn` is read before the `NULL` test (line
  148), so an absent directory is a `NULL` dereference (`Ub.nullDeref`); a valid PTE outside the two
  copy-on-write branches runs off the end of the function (`Ub.noReturn`).
* `switchProcess` — `switch_process(pid)`: the search of the ready list, the switch, and the fork with
  its two nested copy loops (`forkPte`, `forkDir`, `forkTable`).

`malloc` does not clear what it returns, so its contents are arguments: `fresh` for the directory of
`alloc_page`, `table` and `dirs` for the child of a fork.
-/

namespace OsHomeworks
namespace Vm

/-- What C leaves undefined, where a modelled function reaches it. -/
inductive Ub where
  /-- A read through a `NULL` directory pointer. -/
  | nullDeref
  /-- Control reaches the end of a function returning `bool` without a `return`. -/
  | noReturn
  deriving DecidableEq, Repr

variable (cfg : Config)

/-! ## `alloc_page` -/

/-- The loop of lines 72–74 from `ppn_index = i`, with `k` frames left to look at: the first index
    whose count is `0`, or `i + k` when there is none. -/
def scanFree (mapcounts : Nat → Nat) : Nat → Nat → Nat
  | i, 0 => i
  | i, k + 1 => if mapcounts i = 0 then i else scanFree mapcounts (i + 1) k

/-- Store `pte` as the entry of `vpn` in the table at address `a`, whose directory for `vpn` is
    `dir`. -/
def writePte (s : System) (a : Nat) (dir : PteDirectory) (vpn : Nat) (pte : Pte) : System :=
  s.setTable a (Function.update (s.table a) (outerIndex cfg vpn)
    (some (Function.update dir (innerIndex cfg vpn) pte)))

theorem vpn_eq_of_index_eq {v w : Nat} (ho : outerIndex cfg v = outerIndex cfg w)
    (hi : innerIndex cfg v = innerIndex cfg w) : v = w := by
  rw [← Nat.div_add_mod v cfg.nrPtesPerPage, ← Nat.div_add_mod w cfg.nrPtesPerPage]
  simp only [outerIndex, innerIndex] at ho hi
  rw [ho, hi]

@[simp] theorem table_writePte_self (s : System) (a : Nat) (dir : PteDirectory) (vpn : Nat)
    (pte : Pte) : (writePte cfg s a dir vpn pte).table a = Function.update (s.table a)
      (outerIndex cfg vpn) (some (Function.update dir (innerIndex cfg vpn) pte)) := by
  simp [writePte]

@[simp] theorem table_writePte_ne {s : System} {a b : Nat} (dir : PteDirectory) (vpn : Nat)
    (pte : Pte) (h : b ≠ a) : (writePte cfg s a dir vpn pte).table b = s.table b := by
  simp [writePte, h]

@[simp] theorem pteOf_writePte_self (s : System) (a : Nat) (dir : PteDirectory) (vpn : Nat)
    (pte : Pte) : pteOf cfg ((writePte cfg s a dir vpn pte).table a) vpn = some pte := by
  simp [pteOf]

/-- Writing the entry of `vpn` through its own directory leaves every other entry as it was. -/
theorem pteOf_writePte_ne {s : System} {a : Nat} {dir : PteDirectory} {vpn v : Nat} (pte : Pte)
    (hdir : s.table a (outerIndex cfg vpn) = some dir) (h : v ≠ vpn) :
    pteOf cfg ((writePte cfg s a dir vpn pte).table a) v = pteOf cfg (s.table a) v := by
  simp only [pteOf, table_writePte_self]
  by_cases ho : outerIndex cfg v = outerIndex cfg vpn
  · rw [ho, Function.update_same, hdir, Option.map_some', Option.map_some',
      Function.update_noteq fun hi => h (vpn_eq_of_index_eq cfg ho hi)]
  · rw [Function.update_noteq ho]

/-- Lines 82–93 of `alloc_page`: map `vpn` to frame `ppn` in the table `ptbr` points at, creating
    the directory from `fresh` when its slot is `NULL`, and count the new mapping. -/
def mapPage (fresh : PteDirectory) (vpn rw ppn : Nat) (s : System) : System :=
  let dir := (s.table s.ptbr (outerIndex cfg vpn)).getD fresh
  let pte := dir (innerIndex cfg vpn)
  let pte' := { pte with valid := true, pfn := ppn,
                         writable := if rw = 2 ∨ rw = 3 then true else pte.writable }
  (writePte cfg s s.ptbr dir vpn pte').incr ppn

/-- `alloc_page(vpn, rw)`; `fresh` is what `malloc` returns for a missing directory. -/
def allocPage (fresh : PteDirectory) (vpn rw : Nat) (s : System) : Nat × System :=
  let ppn := scanFree s.mapcounts 0 cfg.nrPageframes
  if cfg.nrPageframes ≤ ppn then (uintMinusOne, s) else (ppn, mapPage cfg fresh vpn rw ppn s)

theorem allocPage_of_full {fresh : PteDirectory} {vpn rw : Nat} {s : System}
    (h : cfg.nrPageframes ≤ scanFree s.mapcounts 0 cfg.nrPageframes) :
    allocPage cfg fresh vpn rw s = (uintMinusOne, s) := if_pos h

theorem allocPage_of_lt {fresh : PteDirectory} {vpn rw : Nat} {s : System}
    (h : scanFree s.mapcounts 0 cfg.nrPageframes < cfg.nrPageframes) :
    allocPage cfg fresh vpn rw s = (scanFree s.mapcounts 0 cfg.nrPageframes,
      mapPage cfg fresh vpn rw (scanFree s.mapcounts 0 cfg.nrPageframes) s) :=
  if_neg (Nat.not_le.mpr h)

/-! ## `free_page` -/

/-- `free_page(vpn)`. -/
def freePage (vpn : Nat) (s : System) : Except Ub System :=
  match s.table s.ptbr (outerIndex cfg vpn) with
  | none => .error .nullDeref
  | some dir =>
    let pte := dir (innerIndex cfg vpn)
    let pte' := { pte with valid := false, writable := false, pfn := 0 }
    .ok ((writePte cfg s s.ptbr dir vpn pte').decr pte.pfn)

/-! ## `handle_page_fault` -/

/-- `handle_page_fault(vpn, rw)`: whether the fault was handled, and the new state. In the
    copy-on-write break the slot is non-`NULL`, so the `alloc_page` it calls mallocs nothing. -/
def handlePageFault (vpn rw : Nat) (s : System) : Except Ub (Bool × System) :=
  match s.table s.ptbr (outerIndex cfg vpn) with
  | none => .error .nullDeref
  | some dir =>
    let pte := dir (innerIndex cfg vpn)
    let ppn := pte.pfn
    if pte.valid = false then .ok (false, s)
    else if rw = cfg.rwWrite ∧ pte.writable = false ∧ pte.private' = 0 then .ok (false, s)
    else if pte.private' = 1 ∧ 1 < s.mapcounts ppn then
      .ok (true, (allocPage cfg dir vpn cfg.rwWrite (s.decr ppn)).2)
    else if pte.private' = 1 ∧ s.mapcounts ppn = 1 then
      .ok (true, writePte cfg s s.ptbr dir vpn { pte with writable := true })
    else .error .noReturn

/-- **What `handle_page_fault` can do when it returns.** The directory of `vpn` exists, and the
    handler refuses with the state unchanged (an invalid entry, or a write to an entry that is
    neither writable nor marked), breaks copy-on-write (a marked entry whose count exceeds `1`), or
    makes the entry writable (a marked entry whose count is `1`). -/
theorem handlePageFault_ok {vpn rw : Nat} {r : Bool} {s s' : System}
    (h : handlePageFault cfg vpn rw s = .ok (r, s')) :
    ∃ dir, s.table s.ptbr (outerIndex cfg vpn) = some dir ∧
      let pte := dir (innerIndex cfg vpn)
      (r = false ∧ s' = s ∧
          (pte.valid = false ∨ rw = cfg.rwWrite ∧ pte.writable = false ∧ pte.private' = 0)) ∨
      (r = true ∧ pte.valid = true ∧ pte.private' = 1 ∧ 1 < s.mapcounts pte.pfn ∧
          s' = (allocPage cfg dir vpn cfg.rwWrite (s.decr pte.pfn)).2) ∨
      (r = true ∧ pte.valid = true ∧ pte.private' = 1 ∧ s.mapcounts pte.pfn = 1 ∧
          s' = writePte cfg s s.ptbr dir vpn { pte with writable := true }) := by
  unfold handlePageFault at h
  split at h
  · cases h
  · rename_i dir hdir
    refine ⟨dir, hdir, ?_⟩
    dsimp only at h ⊢
    split_ifs at h with h1 h2 h3 h4 <;> cases h
    · exact .inl ⟨rfl, rfl, .inl h1⟩
    · exact .inl ⟨rfl, rfl, .inr h2⟩
    · exact .inr (.inl ⟨rfl, by simpa using h1, h3.1, h3.2, rfl⟩)
    · exact .inr (.inr ⟨rfl, by simpa using h1, h4.1, h4.2, rfl⟩)

/-! ## `switch_process` -/

/-- `mapcounts[f]++` on the count array alone. -/
def bump (mapcounts : Nat → Nat) (f : Nat) : Nat → Nat :=
  Function.update mapcounts f (uintInc (mapcounts f))

/-- One pass of the inner loop (lines 224–235) on the parent's PTE `p` and the child's `c`. -/
def forkPte (p c : Pte) (mapcounts : Nat → Nat) : Pte × Pte × (Nat → Nat) :=
  if p.valid then
    if p.writable ∨ p.private' = 1 then
      ({ p with writable := false, private' := 1 },
        { c with private' := 1, valid := true, pfn := p.pfn }, bump mapcounts p.pfn)
    else (p, { c with valid := true, pfn := p.pfn }, bump mapcounts p.pfn)
  else (p, c, mapcounts)

/-- The inner loop (lines 223–236) after its first `j` passes over the directories `pd` (parent)
    and `cd` (child). -/
def forkDir (pd cd : PteDirectory) (mapcounts : Nat → Nat) :
    Nat → PteDirectory × PteDirectory × (Nat → Nat)
  | 0 => (pd, cd, mapcounts)
  | j + 1 =>
    let r := forkDir pd cd mapcounts j
    let q := forkPte (r.1 j) (r.2.1 j) r.2.2
    (Function.update r.1 j q.1, Function.update r.2.1 j q.2.1, q.2.2)

/-- The outer loop (lines 220–238) after its first `i` passes over the page tables `pt` (parent)
    and `ct` (child); `dirs i` is what `malloc` returns for the child's directory `i`. -/
def forkTable (pt ct : Pagetable) (dirs : Nat → PteDirectory) (mapcounts : Nat → Nat) :
    Nat → Pagetable × Pagetable × (Nat → Nat)
  | 0 => (pt, ct, mapcounts)
  | i + 1 =>
    let r := forkTable pt ct dirs mapcounts i
    match r.1 i with
    | none => r
    | some pd =>
      let q := forkDir pd (dirs i) r.2.2 cfg.nrPtesPerPage
      (Function.update r.1 i (some q.1), Function.update r.2.1 i (some q.2.1), q.2.2)

/-- The switch branch of `switch_process` (lines 210–214): `current` goes to the tail of the ready
    list, `temp` leaves it and becomes `current`, and `ptbr` follows. -/
def switchTo (temp : Nat) (s : System) : System :=
  { s with processes := (s.processes ++ [s.current]).erase temp, current := temp, ptbr := temp }

/-- The fork branch of `switch_process` (lines 217–245): a child at the fresh address `nprocs`,
    whose `outer_ptes` are `table` before the copy loops run; `dirs i` is what `malloc` returns for
    its directory `i`. -/
def forkProcess (table : Pagetable) (dirs : Nat → PteDirectory) (pid : Nat) (s : System) :
    System :=
  let child := s.nprocs
  let r := forkTable cfg (s.table s.ptbr) table dirs s.mapcounts cfg.nrPtesPerPage
  { s with
    heap := Function.update (Function.update s.heap s.ptbr { s.heap s.ptbr with pagetable := r.1 })
      child ⟨pid, r.2.1⟩
    nprocs := child + 1
    processes := s.processes ++ [s.current]
    current := child
    ptbr := child
    mapcounts := r.2.2 }

/-- The first process on the ready list carrying `pid` (the search of lines 199–207). -/
def findPid (s : System) (pid : Nat) : Option Nat :=
  s.processes.find? fun a => (s.heap a).pid == pid

/-- `switch_process(pid)`. -/
def switchProcess (table : Pagetable) (dirs : Nat → PteDirectory) (pid : Nat) (s : System) :
    System :=
  match findPid s pid with
  | some temp => switchTo temp s
  | none => forkProcess cfg table dirs pid s

theorem switchProcess_of_some {table : Pagetable} {dirs : Nat → PteDirectory} {pid temp : Nat}
    {s : System} (h : findPid s pid = some temp) :
    switchProcess cfg table dirs pid s = switchTo temp s := by
  simp [switchProcess, h]

theorem switchProcess_of_none {table : Pagetable} {dirs : Nat → PteDirectory} {pid : Nat}
    {s : System} (h : findPid s pid = none) :
    switchProcess cfg table dirs pid s = forkProcess cfg table dirs pid s := by
  simp [switchProcess, h]

end Vm
end OsHomeworks
