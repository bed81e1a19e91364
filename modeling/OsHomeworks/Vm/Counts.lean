import OsHomeworks.Vm.Switch
import OsHomeworks.Vm.Fork
import OsHomeworks.Vm.Alloc

/-!
# `Vm.Counts` — when `mapcounts` is right

`mapcounts[f]` is meant to count the valid entries that map frame `f` (`mappers`). It can drift from
that count in two ways only: a copy-on-write break that finds no free frame (`Vm.Fault`), and
`malloc`'d memory that is not zero (`Vm.Fork`). On a run that avoids both, every state keeps
`mapcounts f = mappers f` as an `unsigned int` (`share_counts_exact`).

A run is clean (`CleanStep`) when `malloc` returns zeroed memory (`PteDirectory.zero` for a new
directory, `Pagetable.empty` and zeroed directories for a child) and every page fault happens
while some frame has count `0`.

The bookkeeping is per entry: `mapsAt pt f v` says whether the entry of `v` maps `f`, and writing
one entry moves `mapsIn` by what that entry maps before and after (`mapsIn_agree`). The fork is
counted slot by slot (`tableCount`), in the order of its two loops, which is the order of the vpns
(`mapsIn_eq_tableCount`).
-/

namespace OsHomeworks
namespace Vm

variable (cfg : Config)

/-- Whether the entry of `v` in `pt` is valid and maps frame `f`. -/
def mapsAt (pt : Pagetable) (f v : Nat) : Bool :=
  (pteOf cfg pt v).any fun p => p.valid && p.pfn == f

/-- `mapcounts` is right: each count is the number of valid entries that map its frame, as an
    `unsigned int`. -/
def CountsExact (s : System) : Prop := ∀ f, s.mapcounts f = mappers cfg s f % uintSize

/-! ## Counting entries -/

/-- Two predicates that agree on a duplicate-free list except at `a`: their counts differ by their
    values at `a`. -/
theorem countP_add_of_agree {l : List Nat} {p q : Nat → Bool} {a : Nat} (hl : l.Nodup)
    (ha : a ∈ l) (h : ∀ b ∈ l, b ≠ a → q b = p b) :
    l.countP q + (if p a then 1 else 0) = l.countP p + (if q a then 1 else 0) := by
  induction l with
  | nil => cases ha
  | cons b l ih =>
    rw [List.nodup_cons] at hl
    by_cases hba : b = a
    · subst hba
      have hl' : l.countP q = l.countP p := List.countP_congr fun x hx => by
        rw [h x (.tail _ hx) fun e => hl.1 (e ▸ hx)]
      simp only [List.countP_cons, hl']
      omega
    · have := ih hl.2 ((List.mem_cons.mp ha).resolve_left (Ne.symm hba))
        fun x hx hxa => h x (.tail _ hx) hxa
      simp only [List.countP_cons, h b (.head _) hba]
      omega

/-- **One entry changes.** Tables that agree on every vpn but `vpn` map `f` as often, up to what
    the entry of `vpn` maps in each. -/
theorem mapsIn_agree {pt pt' : Pagetable} {f vpn : Nat} (hv : vpn < nrVpns cfg)
    (h : ∀ v, v ≠ vpn → mapsAt cfg pt' f v = mapsAt cfg pt f v) :
    mapsIn cfg pt' f + (if mapsAt cfg pt f vpn then 1 else 0) =
      mapsIn cfg pt f + (if mapsAt cfg pt' f vpn then 1 else 0) :=
  countP_add_of_agree (List.nodup_range _) (List.mem_range.mpr hv) fun b _ hb => h b hb

theorem mapsIn_congr {pt pt' : Pagetable} {f : Nat}
    (h : ∀ v < nrVpns cfg, mapsAt cfg pt' f v = mapsAt cfg pt f v) :
    mapsIn cfg pt' f = mapsIn cfg pt f := by
  show (List.range _).countP (mapsAt cfg pt' f) = (List.range _).countP (mapsAt cfg pt f)
  exact List.countP_congr fun v hv => by rw [h v (List.mem_range.mp hv)]

@[simp] theorem mappers_incr (s : System) (g f : Nat) : mappers cfg (s.incr g) f = mappers cfg s f :=
  rfl

@[simp] theorem mappers_decr (s : System) (g f : Nat) : mappers cfg (s.decr g) f = mappers cfg s f :=
  rfl

/-- Replacing `current`'s table moves `mappers` by the change of that table's count. -/
theorem mappers_setTable {s : System} (hnd : (s.current :: s.processes).Nodup) (pt : Pagetable)
    (f : Nat) :
    mappers cfg (s.setTable s.current pt) f + mapsIn cfg (s.table s.current) f =
      mappers cfg s f + mapsIn cfg pt f := by
  have hrest : (s.processes.map fun a => mapsIn cfg ((s.setTable s.current pt).table a) f) =
      s.processes.map fun a => mapsIn cfg (s.table a) f :=
    List.map_congr_left fun a ha => by
      have hne : a ≠ s.current := fun e => (List.nodup_cons.mp hnd).1 (e ▸ ha)
      rw [System.table_setTable_ne _ hne]
  have hcur : mappers cfg (s.setTable s.current pt) f =
      mapsIn cfg pt f + (s.processes.map fun a => mapsIn cfg ((s.setTable s.current pt).table a) f).sum := by
    simp [mappers, System.setTable, System.table]
  rw [hcur, hrest, mappers, List.map_cons, List.sum_cons]
  omega

/-- The directory `alloc_page` or `free_page` writes through: the existing one, or, for a `NULL`
    slot, a new one with no valid entry. -/
def DirOf (pt : Pagetable) (vpn : Nat) (dir : PteDirectory) : Prop :=
  pt (outerIndex cfg vpn) = some dir ∨ (pt (outerIndex cfg vpn) = none ∧ ∀ x, (dir x).valid = false)

/-- **Writing one entry is local.** A test of an entry that only valid entries pass (`mapsAt`, and
    `writesAt` of `Vm.Cow`) reads the same after the write at every other entry, also when the
    write went through a new directory. -/
theorem any_pteOf_writePte {s : System} {a : Nat} {dir : PteDirectory} {vpn : Nat} (pte : Pte)
    (hdir : DirOf cfg (s.table a) vpn dir) {q : Pte → Bool} (hq : ∀ p, q p = true → p.valid = true)
    {b v : Nat} (h : b ≠ a ∨ v ≠ vpn) :
    (pteOf cfg ((writePte cfg s a dir vpn pte).table b) v).any q = (pteOf cfg (s.table b) v).any q := by
  by_cases hba : b = a
  · subst hba
    have hv := h.resolve_left (not_not_intro rfl)
    rcases hdir with hdir | ⟨hnone, hzero⟩
    · rw [pteOf_writePte_ne cfg pte hdir hv]
    · simp only [pteOf, table_writePte_self]
      by_cases ho : outerIndex cfg v = outerIndex cfg vpn
      · rw [ho, Function.update_same, hnone, Option.map_some', Option.map_none',
          Function.update_noteq fun hi => hv (vpn_eq_of_index_eq cfg ho hi)]
        show q (dir (innerIndex cfg v)) = false
        cases hqd : q (dir (innerIndex cfg v))
        · rfl
        · exact absurd (hq _ hqd) (by rw [hzero]; decide)
      · rw [Function.update_noteq ho]
  · rw [table_writePte_ne cfg _ _ _ hba]

theorem mapsAt_writePte_ne {s : System} {a : Nat} {dir : PteDirectory} {vpn v f : Nat}
    (pte : Pte) (hdir : DirOf cfg (s.table a) vpn dir) (h : v ≠ vpn) :
    mapsAt cfg ((writePte cfg s a dir vpn pte).table a) f v = mapsAt cfg (s.table a) f v :=
  any_pteOf_writePte cfg pte hdir (fun p hp => by simp_all) (.inr h)

theorem mapsAt_writePte_self (s : System) (a : Nat) (dir : PteDirectory) (vpn f : Nat) (pte : Pte) :
    mapsAt cfg ((writePte cfg s a dir vpn pte).table a) f vpn = (pte.valid && pte.pfn == f) := by
  rw [mapsAt, pteOf_writePte_self]; rfl

/-- **Writing one entry of `current`'s table** moves `mappers` by what the entry maps before and
    after. -/
theorem mappers_writePte {s : System} (hb : Bookkeeping s) {dir : PteDirectory} {vpn : Nat}
    (hv : vpn < nrVpns cfg) (pte : Pte) (hdir : DirOf cfg (s.table s.current) vpn dir)
    (f : Nat) :
    mappers cfg (writePte cfg s s.ptbr dir vpn pte) f +
        (if mapsAt cfg (s.table s.current) f vpn then 1 else 0) =
      mappers cfg s f + (if pte.valid && pte.pfn == f then 1 else 0) := by
  rw [hb.ptbr_eq]
  have hagree := mapsIn_agree cfg hv (f := f) fun v hv' => mapsAt_writePte_ne cfg pte hdir hv'
  rw [mapsAt_writePte_self] at hagree
  have hset := mappers_setTable cfg hb.nodup (Function.update (s.table s.current)
    (outerIndex cfg vpn) (some (Function.update dir (innerIndex cfg vpn) pte))) f
  simp only [writePte] at hagree ⊢
  rw [System.table_setTable_self] at hagree
  omega

/-! ## Unsigned counts -/

theorem uintInc_mod (m : Nat) : uintInc (m % uintSize) = (m + 1) % uintSize := by
  simp [uintInc, Nat.add_mod]

theorem uintDec_mod {m : Nat} (h : 1 ≤ m) : uintDec (m % uintSize) = (m - 1) % uintSize := by
  unfold uintDec
  rw [Nat.add_sub_assoc (by decide), Nat.add_mod, Nat.mod_mod, ← Nat.add_mod]
  rw [show m + (uintSize - 1) = m - 1 + uintSize by unfold uintSize; omega, Nat.add_mod_right]

/-! ## The counts of a fork -/

@[simp] theorem forkedParent_valid (p : Pte) : (forkedParent p).valid = p.valid := by
  unfold forkedParent; split_ifs <;> rfl

@[simp] theorem forkedParent_pfn (p : Pte) : (forkedParent p).pfn = p.pfn := by
  unfold forkedParent; split_ifs <;> rfl

/-- A child entry built on zeroed memory maps what its parent's entry maps. -/
theorem forkedChild_zero_maps (p : Pte) (f : Nat) :
    ((forkedChild p Pte.zero).valid && (forkedChild p Pte.zero).pfn == f) = (p.valid && p.pfn == f) := by
  unfold forkedChild; cases p.valid <;> simp [Pte.zero]

theorem forkPte_counts (p c : Pte) (mapcounts : Nat → Nat) :
    (forkPte p c mapcounts).2.2 = if p.valid then bump mapcounts p.pfn else mapcounts := by
  unfold forkPte; split_ifs <;> rfl

/-- The number of valid entries mapping `f` among the first `j` entries of `pd`. -/
def dirCount (pd : PteDirectory) (f j : Nat) : Nat :=
  (List.range j).countP fun x => (pd x).valid && (pd x).pfn == f

/-- The number of valid entries mapping `f` in the first `i` outer slots of `pt`, slot by slot. -/
def tableCount (pt : Pagetable) (f : Nat) : Nat → Nat
  | 0 => 0
  | i + 1 => tableCount pt f i + (pt i).elim 0 fun pd => dirCount pd f cfg.nrPtesPerPage

/-- **The inner loop's counts**: each valid entry of the parent's directory adds one to the count of
    its frame. -/
theorem forkDir_counts (pd cd : PteDirectory) {mapcounts : Nat → Nat}
    (hmc : ∀ g, mapcounts g < uintSize) (f j : Nat) :
    (forkDir pd cd mapcounts j).2.2 f = (mapcounts f + dirCount pd f j) % uintSize := by
  induction j with
  | zero => simp [forkDir, dirCount, Nat.mod_eq_of_lt (hmc f)]
  | succ j ih =>
    have hj : (forkDir pd cd mapcounts j).1 j = pd j := by simp [forkDir_fst]
    simp only [forkDir, forkPte_counts, hj, dirCount, List.range_succ, List.countP_append,
      List.countP_cons, List.countP_nil] at ih ⊢
    by_cases hv : (pd j).valid
    · by_cases hf : (pd j).pfn = f
      · subst hf; simp [hv, bump, ih, uintInc_mod, Nat.add_assoc]
      · simp [hv, hf, bump, Function.update_noteq (Ne.symm hf), ih]
    · simp [hv, ih]

/-- **The outer loop's counts.** -/
theorem forkTable_counts (pt ct : Pagetable) (dirs : Nat → PteDirectory) {mapcounts : Nat → Nat}
    (hmc : ∀ g, mapcounts g < uintSize) (k : Nat) :
    ∀ f, (forkTable cfg pt ct dirs mapcounts k).2.2 f =
      (mapcounts f + tableCount cfg pt f k) % uintSize := by
  induction k with
  | zero => intro f; simp [forkTable, tableCount, Nat.mod_eq_of_lt (hmc f)]
  | succ k ih =>
    intro f
    have hk : (forkTable cfg pt ct dirs mapcounts k).1 k = pt k := by simp [forkTable_fst]
    simp only [forkTable]
    split
    · rename_i hnone
      rw [hk] at hnone
      simp [tableCount, hnone, ih]
    · rename_i pd hpd
      rw [hk] at hpd
      have hlt : ∀ g, (forkTable cfg pt ct dirs mapcounts k).2.2 g < uintSize := fun g => by
        rw [ih]; exact Nat.mod_lt _ (by decide)
      rw [forkDir_counts pd _ hlt, ih, Nat.mod_add_mod]
      simp [tableCount, hpd, Nat.add_assoc]

theorem index_of_lt {k x : Nat} (hx : x < cfg.nrPtesPerPage) :
    outerIndex cfg (cfg.nrPtesPerPage * k + x) = k ∧ innerIndex cfg (cfg.nrPtesPerPage * k + x) = x := by
  have hN := cfg.nrPtesPerPage_pos
  constructor
  · rw [outerIndex, Nat.mul_comm, Nat.add_comm, Nat.add_mul_div_right _ _ hN, Nat.div_eq_of_lt hx]
    simp
  · rw [innerIndex, Nat.mul_comm, Nat.add_comm, Nat.add_mul_mod_self_right, Nat.mod_eq_of_lt hx]

/-- **The loops count in the order of the vpns**: the vpns below `NR_PTES_PER_PAGE * k` map `f` as
    often as the first `k` slots do. -/
theorem countP_range_eq_tableCount (pt : Pagetable) (f k : Nat) :
    (List.range (cfg.nrPtesPerPage * k)).countP (mapsAt cfg pt f) = tableCount cfg pt f k := by
  induction k with
  | zero => simp [tableCount]
  | succ k ih =>
    rw [Nat.mul_succ, List.range_add, List.countP_append, ih, List.countP_map, tableCount]
    congr 1
    cases hpk : pt k with
    | none =>
      refine List.countP_eq_zero.mpr fun x hx => ?_
      obtain ⟨ho, -⟩ := index_of_lt cfg (k := k) (List.mem_range.mp hx)
      simp [mapsAt, pteOf, ho, hpk]
    | some pd =>
      refine List.countP_congr fun x hx => ?_
      obtain ⟨ho, hi⟩ := index_of_lt cfg (k := k) (List.mem_range.mp hx)
      simp [mapsAt, pteOf, ho, hi, hpk]

theorem mapsIn_eq_tableCount (pt : Pagetable) (f : Nat) :
    mapsIn cfg pt f = tableCount cfg pt f cfg.nrPtesPerPage :=
  countP_range_eq_tableCount cfg pt f cfg.nrPtesPerPage

/-- The parent's table after the loops maps what it mapped: the loops change only `writable` and
    `private`. -/
theorem mapsIn_forkTable_fst (pt ct : Pagetable) (dirs : Nat → PteDirectory) (mapcounts : Nat → Nat)
    (f : Nat) : mapsIn cfg (forkTable cfg pt ct dirs mapcounts cfg.nrPtesPerPage).1 f = mapsIn cfg pt f := by
  refine mapsIn_congr cfg fun v hv => ?_
  rw [mapsAt, mapsAt, pteOf_forkTable_fst cfg _ _ _ _ hv]
  cases pteOf cfg pt v <;> simp

/-- The child's table, built on zeroed memory, maps what the parent's maps. -/
theorem mapsIn_forkTable_snd (pt : Pagetable) (mapcounts : Nat → Nat) (f : Nat) :
    mapsIn cfg (forkTable cfg pt Pagetable.empty (fun _ => PteDirectory.zero) mapcounts
      cfg.nrPtesPerPage).2.1 f = mapsIn cfg pt f := by
  refine mapsIn_congr cfg fun v hv => ?_
  rw [mapsAt, mapsAt, pteOf_forkTable_snd_zero cfg _ _ hv]
  cases pteOf cfg pt v <;> simp [forkedChild_zero_maps]

/-! ## Each request keeps the counts -/

theorem mapsAt_of_pteOf {pt : Pagetable} {vpn : Nat} {p : Pte} (h : pteOf cfg pt vpn = some p)
    (f : Nat) : mapsAt cfg pt f vpn = (p.valid && p.pfn == f) := by
  simp [mapsAt, h]

theorem mapsAt_of_not_isValid {pt : Pagetable} {vpn : Nat} (h : isValid cfg pt vpn = false)
    (f : Nat) : mapsAt cfg pt f vpn = false := by
  unfold isValid at h; unfold mapsAt
  cases hp : pteOf cfg pt vpn <;> simp_all

/-- `alloc_page`'s directory, the existing one or a zeroed new one, is one it may write through. -/
theorem dirOf_getD_zero (pt : Pagetable) (vpn : Nat) :
    DirOf cfg pt vpn ((pt (outerIndex cfg vpn)).getD PteDirectory.zero) := by
  cases h : pt (outerIndex cfg vpn) with
  | none => exact .inr ⟨h, fun _ => rfl⟩
  | some d => exact .inl h

theorem mapcounts_mapPage (fresh : PteDirectory) (vpn rw ppn : Nat) (s : System) :
    (mapPage cfg fresh vpn rw ppn s).mapcounts = bump s.mapcounts ppn := rfl

/-- Lines 82–93 of `alloc_page` map `vpn` to `ppn`: `mappers` moves from what the entry mapped to
    `ppn`. -/
theorem mappers_mapPage {s : System} (hb : Bookkeeping s) {fresh : PteDirectory} {vpn : Nat}
    (rw ppn : Nat) (hv : vpn < nrVpns cfg)
    (hdir : DirOf cfg (s.table s.current) vpn ((s.table s.ptbr (outerIndex cfg vpn)).getD fresh))
    (f : Nat) :
    mappers cfg (mapPage cfg fresh vpn rw ppn s) f +
        (if mapsAt cfg (s.table s.current) f vpn then 1 else 0) =
      mappers cfg s f + (if ppn = f then 1 else 0) := by
  unfold mapPage
  dsimp only
  rw [mappers_incr]
  refine (mappers_writePte cfg hb hv _ hdir f).trans ?_
  simp

/-- A count that `bump` or a decrement leaves right, given how `mappers` moved. -/
theorem counts_update {c : Nat → Nat} {m m' : Nat → Nat} (hc : ∀ f, c f = m f % uintSize)
    {g : Nat} {v : Nat} (hv : v = (m' g) % uintSize) (hm : ∀ f, f ≠ g → m' f = m f) :
    ∀ f, Function.update c g v f = m' f % uintSize := by
  intro f
  by_cases hf : f = g
  · subst hf; simpa using hv
  · rw [Function.update_noteq hf, hc f, hm f hf]

/-- `alloc_page` on an invalid entry, with a zeroed new directory, adds one mapper to `ppn`. -/
theorem mappers_mapPage_zero {s : System} (hb : Bookkeeping s) {vpn : Nat} (rw ppn : Nat)
    (hv : vpn < nrVpns cfg) (hn : isValid cfg (s.table s.current) vpn = false) (f : Nat) :
    mappers cfg (mapPage cfg PteDirectory.zero vpn rw ppn s) f =
      mappers cfg s f + (if ppn = f then 1 else 0) := by
  have := mappers_mapPage cfg hb rw ppn hv (by rw [hb.ptbr_eq]; exact dirOf_getD_zero cfg _ _) f
  simpa [mapsAt_of_not_isValid cfg hn] using this

theorem countsExact_allocPage {s : System} (hb : Bookkeeping s) (hc : CountsExact cfg s)
    {vpn rw : Nat} (hv : vpn < nrVpns cfg) (hn : isValid cfg (s.table s.current) vpn = false) :
    CountsExact cfg (allocPage cfg PteDirectory.zero vpn rw s).2 := by
  rcases allocPage_spec cfg PteDirectory.zero vpn rw s with ⟨-, he⟩ | ⟨ppn, -, -, -, he⟩
  · rw [he]; exact hc
  · rw [he]
    have hm := mappers_mapPage_zero cfg hb rw ppn hv hn
    show ∀ f, bump s.mapcounts ppn f = mappers cfg (mapPage cfg PteDirectory.zero vpn rw ppn s) f % uintSize
    refine counts_update hc ?_ fun f hf => by rw [hm, if_neg (Ne.symm hf), Nat.add_zero]
    rw [hm, if_pos rfl, hc ppn, uintInc_mod]

theorem uintDec_of_pos {c : Nat} (h₁ : 1 ≤ c) (h₂ : c < uintSize) : uintDec c = c - 1 := by
  unfold uintDec
  rw [show c + uintSize - 1 = c - 1 + uintSize by omega, Nat.add_mod_right, Nat.mod_eq_of_lt (by omega)]

/-- Clearing a valid entry takes one mapper from its frame. -/
theorem mappers_writePte_clear {s : System} (hb : Bookkeeping s) {dir : PteDirectory} {vpn : Nat}
    (hv : vpn < nrVpns cfg) (hdir : DirOf cfg (s.table s.current) vpn dir) (pte : Pte) {p : Pte}
    (hp : pteOf cfg (s.table s.current) vpn = some p) (hvalid : p.valid = true)
    (hpte : pte.valid = false) (f : Nat) :
    mappers cfg (writePte cfg s s.ptbr dir vpn pte) f + (if p.pfn = f then 1 else 0) =
      mappers cfg s f := by
  simpa [mapsAt_of_pteOf cfg hp, hvalid, hpte] using mappers_writePte cfg hb hv pte hdir f

/-- Clearing a valid entry and decrementing its frame's count keeps the counts right. -/
theorem countsExact_writePte_decr {s : System} (hb : Bookkeeping s) (hc : CountsExact cfg s)
    {dir : PteDirectory} {vpn : Nat} (hv : vpn < nrVpns cfg)
    (hdir : DirOf cfg (s.table s.current) vpn dir) (pte : Pte) {p : Pte}
    (hp : pteOf cfg (s.table s.current) vpn = some p) (hvalid : p.valid = true)
    (hpte : pte.valid = false) : CountsExact cfg ((writePte cfg s s.ptbr dir vpn pte).decr p.pfn) := by
  have hm := mappers_writePte_clear cfg hb hv hdir pte hp hvalid hpte
  show ∀ f, Function.update s.mapcounts p.pfn (uintDec (s.mapcounts p.pfn)) f =
    mappers cfg (writePte cfg s s.ptbr dir vpn pte) f % uintSize
  refine counts_update hc ?_ fun f hf => by have := hm f; rw [if_neg (Ne.symm hf)] at this; omega
  have := hm p.pfn
  rw [if_pos rfl] at this
  rw [hc, uintDec_mod (by omega), ← this, Nat.add_sub_cancel]

/-- Rewriting an entry without changing what it maps leaves `mappers` alone. -/
theorem mappers_writePte_same {s : System} (hb : Bookkeeping s) {dir : PteDirectory} {vpn : Nat}
    (hv : vpn < nrVpns cfg) (hdir : DirOf cfg (s.table s.current) vpn dir) (pte : Pte) {p : Pte}
    (hp : pteOf cfg (s.table s.current) vpn = some p) (hvalid : pte.valid = p.valid)
    (hpfn : pte.pfn = p.pfn) (f : Nat) :
    mappers cfg (writePte cfg s s.ptbr dir vpn pte) f = mappers cfg s f := by
  have := mappers_writePte cfg hb hv pte hdir f
  rw [mapsAt_of_pteOf cfg hp, hvalid, hpfn] at this
  exact Nat.add_right_cancel this

/-- Rewriting an entry without changing what it maps keeps the counts right. -/
theorem countsExact_writePte_same {s : System} (hb : Bookkeeping s) (hc : CountsExact cfg s)
    {dir : PteDirectory} {vpn : Nat} (hv : vpn < nrVpns cfg)
    (hdir : DirOf cfg (s.table s.current) vpn dir) (pte : Pte) {p : Pte}
    (hp : pteOf cfg (s.table s.current) vpn = some p) (hvalid : pte.valid = p.valid)
    (hpfn : pte.pfn = p.pfn) : CountsExact cfg (writePte cfg s s.ptbr dir vpn pte) := fun f => by
  rw [mappers_writePte_same cfg hb hv hdir pte hp hvalid hpfn]
  exact hc f

theorem countsExact_freePage {s s' : System} (hb : Bookkeeping s) (hc : CountsExact cfg s)
    {vpn : Nat} (hv : vpn < nrVpns cfg) (hval : isValid cfg (s.table s.current) vpn = true)
    (h : freePage cfg vpn s = .ok s') : CountsExact cfg s' := by
  unfold freePage at h
  split at h
  · cases h
  · rename_i dir hdir
    cases h
    rw [hb.ptbr_eq] at hdir
    have hp : pteOf cfg (s.table s.current) vpn = some (dir (innerIndex cfg vpn)) := by
      simp [pteOf, hdir]
    exact countsExact_writePte_decr cfg hb hc hv (.inl hdir) _ hp (by simpa [isValid, hp] using hval) rfl

/-- The copy-on-write break moves the entry of `vpn`, and so one mapper, from its frame to `ppn`. -/
theorem mappers_cowBreak {s : System} (hb : Bookkeeping s) {dir : PteDirectory} {vpn : Nat}
    (hv : vpn < nrVpns cfg) (hdir : s.table s.current (outerIndex cfg vpn) = some dir)
    (hvalid : (dir (innerIndex cfg vpn)).valid = true) (ppn f : Nat) :
    mappers cfg (mapPage cfg dir vpn cfg.rwWrite ppn (s.decr (dir (innerIndex cfg vpn)).pfn)) f +
        (if (dir (innerIndex cfg vpn)).pfn = f then 1 else 0) =
      mappers cfg s f + (if ppn = f then 1 else 0) := by
  set pfn := (dir (innerIndex cfg vpn)).pfn
  have hp : pteOf cfg (s.table s.current) vpn = some (dir (innerIndex cfg vpn)) := by
    simp [pteOf, hdir]
  have hd : DirOf cfg ((s.decr pfn).table (s.decr pfn).current) vpn
      (((s.decr pfn).table (s.decr pfn).ptbr (outerIndex cfg vpn)).getD dir) := by
    show DirOf cfg (s.table s.current) vpn ((s.table s.ptbr _).getD dir)
    rw [hb.ptbr_eq, hdir]; exact .inl hdir
  have := mappers_mapPage cfg (hb.of_sameProcs (SameProcs.decr s pfn)) cfg.rwWrite ppn hv hd f
  rw [show (s.decr pfn).table (s.decr pfn).current = s.table s.current from rfl] at this
  simpa [mapsAt_of_pteOf cfg hp, hvalid] using this

/-- **The copy-on-write break finds a frame.** With a free frame, and a count above `1` on the shared
    frame `pfn`, the `alloc_page` after the decrement maps a frame other than `pfn` whose count was
    `0`. -/
theorem allocPage_after_decr {s : System} (fresh : PteDirectory) (vpn rw : Nat) {pfn : Nat}
    (hmany : 1 < s.mapcounts pfn) (hlt : s.mapcounts pfn < uintSize)
    (hfree : ∃ g < cfg.nrPageframes, s.mapcounts g = 0) :
    ∃ ppn, ppn ≠ pfn ∧ s.mapcounts ppn = 0 ∧
      allocPage cfg fresh vpn rw (s.decr pfn) = (ppn, mapPage cfg fresh vpn rw ppn (s.decr pfn)) := by
  have hdec : (s.decr pfn).mapcounts pfn = s.mapcounts pfn - 1 := by
    simp [System.decr, uintDec_of_pos (by omega) hlt]
  have hother : ∀ g, g ≠ pfn → (s.decr pfn).mapcounts g = s.mapcounts g := fun g hg => by
    simp [System.decr, hg]
  rcases allocPage_spec cfg fresh vpn rw (s.decr pfn) with ⟨hall, -⟩ | ⟨ppn, -, hz, -, he⟩
  · obtain ⟨g, hg, hg0⟩ := hfree
    have hgp : g ≠ pfn := fun e => by rw [e] at hg0; omega
    exact absurd (by rw [hother g hgp, hg0]) (hall g hg)
  · have hne : ppn ≠ pfn := fun e => by rw [e, hdec] at hz; omega
    exact ⟨ppn, hne, by rwa [hother ppn hne] at hz, he⟩

/-- A copy-on-write break that finds a free frame keeps the counts right: the entry and one unit of
    count move together from the shared frame to the new one. -/
theorem countsExact_cowBreak {s : System} (hb : Bookkeeping s) (hc : CountsExact cfg s)
    {dir : PteDirectory} {vpn : Nat} (hv : vpn < nrVpns cfg)
    (hdir : s.table s.current (outerIndex cfg vpn) = some dir)
    (hvalid : (dir (innerIndex cfg vpn)).valid = true)
    (hmany : 1 < s.mapcounts (dir (innerIndex cfg vpn)).pfn)
    (hfree : ∃ g < cfg.nrPageframes, s.mapcounts g = 0) :
    CountsExact cfg (allocPage cfg dir vpn cfg.rwWrite (s.decr (dir (innerIndex cfg vpn)).pfn)).2 := by
  have hm := mappers_cowBreak cfg hb hv hdir hvalid
  set pfn := (dir (innerIndex cfg vpn)).pfn
  have hlt : s.mapcounts pfn < uintSize := by rw [hc]; exact Nat.mod_lt _ (by decide)
  obtain ⟨ppn, hne, -, he⟩ := allocPage_after_decr cfg dir vpn cfg.rwWrite hmany hlt hfree
  rw [he]
  replace hm := hm ppn
  show ∀ f, bump (s.decr pfn).mapcounts ppn f =
    mappers cfg (mapPage cfg dir vpn cfg.rwWrite ppn (s.decr pfn)) f % uintSize
  -- after the decrement the counts are right for `mappers` less the entry being moved
  have h₁ : ∀ f, (s.decr pfn).mapcounts f =
      (mappers cfg s f - (if pfn = f then 1 else 0)) % uintSize := fun f => by
    by_cases hf : pfn = f
    · subst hf
      have := hm pfn
      rw [if_pos rfl, if_neg hne] at this
      rw [if_pos rfl, ← uintDec_mod (by omega), ← hc]
      simp [System.decr]
    · rw [if_neg hf, Nat.sub_zero, ← hc f]
      simp [System.decr, Ne.symm hf]
  refine counts_update h₁ ?_ fun f hf => by have := hm f; rw [if_neg (Ne.symm hf)] at this; omega
  have := hm ppn
  rw [if_pos rfl, if_neg (Ne.symm hne)] at this
  rw [h₁, if_neg (Ne.symm hne), Nat.sub_zero, uintInc_mod]
  congr 1; omega

/-- `handle_page_fault`, called while some frame is free, keeps the counts right. -/
theorem countsExact_handlePageFault {s s' : System} (hb : Bookkeeping s) (hc : CountsExact cfg s)
    {vpn rw : Nat} {r : Bool} (hv : vpn < nrVpns cfg)
    (hfree : ∃ g < cfg.nrPageframes, s.mapcounts g = 0)
    (h : handlePageFault cfg vpn rw s = .ok (r, s')) : CountsExact cfg s' := by
  obtain ⟨dir, hdir, ⟨-, rfl, -⟩ | ⟨-, hvalid, -, hmany, rfl⟩ | ⟨-, hvalid, -, -, rfl⟩⟩ :=
    handlePageFault_ok cfg h
  · exact hc
  · rw [hb.ptbr_eq] at hdir
    exact countsExact_cowBreak cfg hb hc hv hdir hvalid hmany hfree
  · rw [hb.ptbr_eq] at hdir
    exact countsExact_writePte_same cfg hb hc hv (.inl hdir) _ (p := dir (innerIndex cfg vpn))
      (by simp [pteOf, hdir]) rfl rfl

theorem mappers_switchTo {s : System} {temp : Nat} (ht : temp ∈ s.processes) (f : Nat) :
    mappers cfg (switchTo temp s) f = mappers cfg s f :=
  (((List.perm_cons_erase (List.mem_append_left [s.current] ht)).symm.trans
    (append_current_perm s)).map _).sum_eq

/-- The tables after a fork: the child's at `nprocs`, the parent's marked one at `ptbr`, and every
    other process's as it was. -/
theorem table_forkProcess (s : System) (table : Pagetable) (dirs : Nat → PteDirectory) (pid a : Nat) :
    (forkProcess cfg table dirs pid s).table a =
      if a = s.nprocs then (forkTable cfg (s.table s.ptbr) table dirs s.mapcounts cfg.nrPtesPerPage).2.1
      else if a = s.ptbr then (forkTable cfg (s.table s.ptbr) table dirs s.mapcounts cfg.nrPtesPerPage).1
      else s.table a := by
  unfold forkProcess System.table
  split_ifs with h₁ h₂
  · subst h₁; simp
  · subst h₂; simp [Function.update_apply, h₁]
  · simp [Function.update_apply, h₁, h₂]

/-- A fork on zeroed memory adds the parent's entries once more: the child maps what the parent
    maps. -/
theorem mappers_forkProcess {s : System} (hb : Bookkeeping s) (pid f : Nat) :
    mappers cfg (forkProcess cfg Pagetable.empty (fun _ => PteDirectory.zero) pid s) f =
      mappers cfg s f + mapsIn cfg (s.table s.current) f := by
  set s' := forkProcess cfg Pagetable.empty (fun _ => PteDirectory.zero) pid s
  set r := forkTable cfg (s.table s.ptbr) Pagetable.empty (fun _ => PteDirectory.zero) s.mapcounts
    cfg.nrPtesPerPage
  have hlt : ∀ a ∈ s.current :: s.processes, a < s.nprocs := fun a ha => (hb.mem_iff a).mp ha
  have hcur : s.current ≠ s.nprocs := Nat.ne_of_lt (hlt _ (List.mem_cons_self _ _))
  have hptbr : s.ptbr ≠ s.nprocs := by rw [hb.ptbr_eq]; exact hcur
  have hchild : s'.table s.nprocs = r.2.1 := by rw [table_forkProcess, if_pos rfl]
  have hparent : s'.table s.ptbr = r.1 := by rw [table_forkProcess, if_neg hptbr, if_pos rfl]
  rw [hb.ptbr_eq] at hparent
  have hrest : ∀ a ∈ s.processes, s'.table a = s.table a := fun a ha => by
    have h₁ : a ≠ s.nprocs := Nat.ne_of_lt (hlt a (List.mem_cons_of_mem _ ha))
    have h₂ : a ≠ s.ptbr := by
      rw [hb.ptbr_eq]; exact fun e => (List.nodup_cons.mp hb.nodup).1 (e ▸ ha)
    rw [table_forkProcess, if_neg h₁, if_neg h₂]
  show ((s.nprocs :: (s.processes ++ [s.current])).map fun a => mapsIn cfg (s'.table a) f).sum = _
  rw [List.map_cons, List.sum_cons, List.map_append, List.sum_append, List.map_singleton,
    List.sum_singleton, List.map_congr_left fun a ha => by rw [hrest a ha], hchild, hparent,
    mapsIn_forkTable_snd, mapsIn_forkTable_fst, mappers, List.map_cons, List.sum_cons, hb.ptbr_eq]
  omega

theorem countsExact_forkProcess {s : System} (hb : Bookkeeping s) (hc : CountsExact cfg s)
    (pid : Nat) : CountsExact cfg (forkProcess cfg Pagetable.empty (fun _ => PteDirectory.zero) pid s) := by
  have hmc : ∀ g, s.mapcounts g < uintSize := fun g => by rw [hc g]; exact Nat.mod_lt _ (by decide)
  intro f
  rw [mappers_forkProcess cfg hb]
  show (forkTable cfg (s.table s.ptbr) Pagetable.empty (fun _ => PteDirectory.zero) s.mapcounts
    cfg.nrPtesPerPage).2.2 f = _
  rw [forkTable_counts cfg _ _ _ hmc, ← mapsIn_eq_tableCount, hc f, Nat.mod_add_mod, hb.ptbr_eq]

theorem countsExact_switchProcess {s : System} (hb : Bookkeeping s) (hc : CountsExact cfg s)
    (pid : Nat) :
    CountsExact cfg (switchProcess cfg Pagetable.empty (fun _ => PteDirectory.zero) pid s) := by
  cases hf : findPid s pid with
  | some temp =>
    rw [switchProcess_of_some cfg hf]
    intro f
    rw [mappers_switchTo cfg (findPid_mem hf)]
    exact hc f
  | none =>
    rw [switchProcess_of_none cfg hf]
    exact countsExact_forkProcess cfg hb hc pid

/-! ## The fork on zeroed memory -/

/-- Every count is an `unsigned int`. -/
def CountsBounded (s : System) : Prop := ∀ f, s.mapcounts f < uintSize

theorem countsBounded_update {c : Nat → Nat} (hc : ∀ f, c f < uintSize) (g : Nat) {v : Nat}
    (hv : v < uintSize) (f : Nat) : Function.update c g v f < uintSize := by
  by_cases hf : f = g
  · subst hf; simpa using hv
  · rw [Function.update_noteq hf]; exact hc f

theorem CountsBounded.allocPage {s : System} (h : CountsBounded s) (fresh : PteDirectory)
    (vpn rw : Nat) : CountsBounded (Vm.allocPage cfg fresh vpn rw s).2 := by
  rcases allocPage_spec cfg fresh vpn rw s with ⟨-, he⟩ | ⟨ppn, -, -, -, he⟩ <;> rw [he]
  · exact h
  · exact countsBounded_update h ppn (Nat.mod_lt _ (by decide))

theorem CountsBounded.decr {s : System} (h : CountsBounded s) (g : Nat) : CountsBounded (s.decr g) :=
  countsBounded_update h g (Nat.mod_lt _ (by decide))

/-- **Every count of every reachable state is an `unsigned int`.** -/
theorem countsBounded_reachable {s : System} (h : Reachable cfg s) : CountsBounded s := by
  refine ReachableBy.induct cfg CountsBounded (fun _ _ => show 0 < uintSize by decide) (fun s op s' hs _ hst => ?_) h
  cases hst with
  | alloc fresh vpn rw => exact hs.allocPage cfg fresh vpn rw
  | free vpn _ _ h =>
    unfold freePage at h
    split at h
    · cases h
    · cases h; exact CountsBounded.decr hs _
  | fault vpn rw _ _ h =>
    obtain ⟨dir, -, ⟨-, rfl, -⟩ | ⟨-, -, -, -, rfl⟩ | ⟨-, -, -, -, rfl⟩⟩ := handlePageFault_ok cfg h
    · exact hs
    · exact (hs.decr _).allocPage cfg _ _ _
    · exact hs
  | switch table dirs pid =>
    unfold switchProcess
    split
    · exact hs
    · intro f
      show (forkTable cfg (s.table s.ptbr) table dirs s.mapcounts cfg.nrPtesPerPage).2.2 f < uintSize
      rw [forkTable_counts cfg _ _ _ hs]
      exact Nat.mod_lt _ (by decide)

/-- **A fork on zeroed memory duplicates the address space exactly.** From every reachable state,
    with no ready process carrying `pid`, `switch_process(pid)` with `malloc` returning zeroed memory
    makes a child at the fresh address current, with pid `pid`, and appends the old `current` to the
    ready list; the other ready processes keep their tables; at every vpn the child has an entry
    exactly where the parent has one, valid with the parent's frame exactly where the parent's is,
    never writable, and marked exactly where the parent's was writable or marked; the parent's
    entries keep their valid bits and frames and turn read-only and marked where they were writable or
    marked; and each count grows by the parent's valid entries for its frame, as an `unsigned int`. -/
theorem fork_exact_on_zeroed_memory {s : System} (h : Reachable cfg s) {pid : Nat}
    (hnone : findPid s pid = none) :
    let s' := switchProcess cfg Pagetable.empty (fun _ => PteDirectory.zero) pid s
    s'.current = s.nprocs ∧ s'.ptbr = s.nprocs ∧ (s'.heap s'.current).pid = pid ∧
      s'.processes = s.processes ++ [s.current] ∧ (∀ a ∈ s.processes, s'.table a = s.table a) ∧
      (∀ v < nrVpns cfg,
        pteOf cfg (s'.table s'.current) v = (pteOf cfg (s.table s.current) v).map (fun p =>
          if p.valid then Pte.mk true false p.pfn (if p.writable ∨ p.private' = 1 then 1 else 0)
          else Pte.zero) ∧
        pteOf cfg (s'.table s.current) v = (pteOf cfg (s.table s.current) v).map (fun p =>
          if p.valid ∧ (p.writable ∨ p.private' = 1) then { p with writable := false, private' := 1 }
          else p)) ∧
      ∀ f, s'.mapcounts f = (s.mapcounts f + mapsIn cfg (s.table s.current) f) % uintSize := by
  have hb := bookkeeping_reachable h
  obtain ⟨h₁, h₂, h₃, h₄⟩ := switchProcess_not_found hnone Pagetable.empty (fun _ => PteDirectory.zero)
  intro s'
  have hs' : s' = forkProcess cfg Pagetable.empty (fun _ => PteDirectory.zero) pid s :=
    switchProcess_of_none cfg hnone
  have hlt : ∀ a ∈ s.current :: s.processes, a < s.nprocs := fun a ha => (hb.mem_iff a).mp ha
  have hcur : s.current ≠ s.nprocs := Nat.ne_of_lt (hlt _ (List.mem_cons_self _ _))
  refine ⟨h₁, h₃, h₄, h₂, fun a ha => ?_, fun v hv => ⟨?_, ?_⟩, fun f => ?_⟩ <;> rw [hs']
  · have hn : a ≠ s.nprocs := Nat.ne_of_lt (hlt a (List.mem_cons_of_mem _ ha))
    have hp : a ≠ s.ptbr := by
      rw [hb.ptbr_eq]; exact fun e => (List.nodup_cons.mp hb.nodup).1 (e ▸ ha)
    rw [table_forkProcess, if_neg hn, if_neg hp]
  · rw [show (forkProcess cfg Pagetable.empty (fun _ => PteDirectory.zero) pid s).current = s.nprocs
      from rfl, table_forkProcess, if_pos rfl, pteOf_forkTable_snd_zero cfg _ _ hv, hb.ptbr_eq]
    rfl
  · rw [table_forkProcess, if_neg hcur, if_pos hb.ptbr_eq.symm, pteOf_forkTable_fst cfg _ _ _ _ hv,
      hb.ptbr_eq]
    rfl
  · show (forkTable cfg (s.table s.ptbr) Pagetable.empty (fun _ => PteDirectory.zero) s.mapcounts
      cfg.nrPtesPerPage).2.2 f = _
    rw [forkTable_counts cfg _ _ _ (countsBounded_reachable cfg h), ← mapsIn_eq_tableCount, hb.ptbr_eq]

/-- Process `0` maps vpn `0`, then forks child `1`. -/
theorem fork_exact_on_zeroed_memory_after_alloc :
    let s := (allocPage smallConfig PteDirectory.zero 0 2 (System.init 0)).2
    Reachable smallConfig s ∧ isValid smallConfig (s.table s.current) 0 = true ∧ findPid s 1 = none ∧
      let s' := switchProcess smallConfig Pagetable.empty (fun _ => PteDirectory.zero) 1 s
      s'.current = s.nprocs ∧ s'.ptbr = s.nprocs ∧ (s'.heap s'.current).pid = 1 ∧
        s'.processes = s.processes ++ [s.current] ∧ (∀ a ∈ s.processes, s'.table a = s.table a) ∧
        (∀ v < nrVpns smallConfig,
          pteOf smallConfig (s'.table s'.current) v = (pteOf smallConfig (s.table s.current) v).map
            (fun p => if p.valid then Pte.mk true false p.pfn
              (if p.writable ∨ p.private' = 1 then 1 else 0) else Pte.zero) ∧
          pteOf smallConfig (s'.table s.current) v = (pteOf smallConfig (s.table s.current) v).map
            (fun p => if p.valid ∧ (p.writable ∨ p.private' = 1)
              then { p with writable := false, private' := 1 } else p)) ∧
        ∀ f, s'.mapcounts f = (s.mapcounts f + mapsIn smallConfig (s.table s.current) f) % uintSize := by
  intro s
  have r : Reachable smallConfig s := (Reachable.init _ 0).step _ (Step.alloc _ 0 2 (by decide) rfl)
  exact ⟨r, rfl, rfl, fork_exact_on_zeroed_memory smallConfig r rfl⟩

/-! ## Clean runs -/

/-- One request of a clean run: `malloc` returns zeroed memory, and a page fault comes while some
    frame has count `0`. -/
inductive CleanStep : System → Op → System → Prop where
  | alloc {s : System} (vpn rw : Nat) (hv : vpn < nrVpns cfg)
      (hn : isValid cfg (s.table s.current) vpn = false) :
      CleanStep s (.alloc vpn rw) (allocPage cfg PteDirectory.zero vpn rw s).2
  | free {s s' : System} (vpn : Nat) (hv : vpn < nrVpns cfg)
      (hval : isValid cfg (s.table s.current) vpn = true) (h : freePage cfg vpn s = .ok s') :
      CleanStep s (.free vpn) s'
  | fault {s s' : System} (vpn rw : Nat) {r : Bool} (hv : vpn < nrVpns cfg)
      (ht : translate cfg (s.table s.current) vpn rw = none)
      (hfree : ∃ g < cfg.nrPageframes, s.mapcounts g = 0)
      (h : handlePageFault cfg vpn rw s = .ok (r, s')) :
      CleanStep s (.fault vpn rw) s'
  | switch {s : System} (pid : Nat) :
      CleanStep s (.switch pid) (switchProcess cfg Pagetable.empty (fun _ => PteDirectory.zero) pid s)

/-- The states of the clean runs. -/
inductive ReachableClean : System → Prop where
  | init (pid : Nat) : ReachableClean (System.init pid)
  | step {s s' : System} {op : Op} : ReachableClean s → CleanStep cfg s op s' → ReachableClean s'

variable {cfg}

theorem CleanStep.step {s s' : System} {op : Op} (h : CleanStep cfg s op s') : Step cfg s op s' := by
  cases h with
  | alloc vpn rw hv hn => exact .alloc _ vpn rw hv hn
  | free vpn hv hval h => exact .free vpn hv hval h
  | fault vpn rw hv ht _ h => exact .fault vpn rw hv ht h
  | switch pid => exact .switch _ _ pid

theorem ReachableClean.reachable {s : System} (h : ReachableClean cfg s) : Reachable cfg s := by
  induction h with
  | init pid => exact Reachable.init cfg pid
  | step _ hs ih => exact ih.step cfg hs.step

theorem CountsExact.step {s s' : System} {op : Op} (hb : Bookkeeping s) (hc : CountsExact cfg s)
    (hs : CleanStep cfg s op s') : CountsExact cfg s' := by
  cases hs with
  | alloc vpn rw hv hn => exact countsExact_allocPage cfg hb hc hv hn
  | free vpn hv hval h => exact countsExact_freePage cfg hb hc hv hval h
  | fault vpn rw hv _ hfree h => exact countsExact_handlePageFault cfg hb hc hv hfree h
  | switch pid => exact countsExact_switchProcess cfg hb hc pid

theorem countsExact_init (pid : Nat) : CountsExact cfg (System.init pid) := fun f => by
  simp [mappers, mapsIn, pteOf, System.init, System.table, Pagetable.empty]

theorem countsExact_of_reachableClean {s : System} (h : ReachableClean cfg s) : CountsExact cfg s := by
  induction h with
  | init pid => exact countsExact_init pid
  | step hr hs ih => exact ih.step (bookkeeping_reachable hr.reachable) hs

/-- **The share counts are exact on clean runs**: in every state of a run where `malloc` returns
    zeroed memory and every page fault finds a free frame, `mapcounts[f]` is the number of valid
    PTEs that map `f`, as an `unsigned int`. -/
theorem share_counts_exact {s : System} (h : ReachableClean cfg s) (f : Nat) :
    s.mapcounts f = mappers cfg s f % uintSize :=
  countsExact_of_reachableClean h f

theorem share_counts_exact_after_fork :
    (switchProcess smallConfig Pagetable.empty (fun _ => PteDirectory.zero) 1
        (allocPage smallConfig PteDirectory.zero 0 2 (System.init 0)).2).mapcounts 0 =
      mappers smallConfig (switchProcess smallConfig Pagetable.empty (fun _ => PteDirectory.zero) 1
        (allocPage smallConfig PteDirectory.zero 0 2 (System.init 0)).2) 0 % uintSize :=
  share_counts_exact (.step (.step (.init 0) (.alloc 0 2 (by decide) rfl)) (.switch 1)) 0

/-! ## The ready processes are isolated -/

/-- A clean run on two frames: process `0` maps vpn `0` writable to frame `0` and forks child `1`,
    whose write to vpn `0` then breaks the sharing by copying into frame `1`. -/
theorem clean_cow_break_run :
    ∃ s₂ s₃, ReachableClean twoFrameConfig s₂ ∧ CleanStep twoFrameConfig s₂ (.fault 0 2) s₃ ∧
      s₂.processes = [0] ∧ s₃.current = 1 ∧ s₃.processes = [0] ∧ s₃.nprocs = 2 ∧
      pteOf twoFrameConfig (s₃.table 1) 0 = some ⟨true, true, 1, 1⟩ ∧
      pteOf twoFrameConfig (s₃.table 0) 0 = some ⟨true, false, 0, 1⟩ ∧
      isValid twoFrameConfig (s₃.table s₃.current) 1 = false ∧
      (allocPage twoFrameConfig PteDirectory.zero 1 2 s₃).1 = uintMinusOne :=
  ⟨_, _, .step (.step (.init 0) (.alloc 0 2 (by decide) rfl)) (.switch 1),
    .fault 0 2 (by decide) (by decide) ⟨1, by decide, by decide⟩ rfl, rfl, rfl, rfl, rfl, rfl, rfl,
    rfl, rfl⟩

end Vm
end OsHomeworks
