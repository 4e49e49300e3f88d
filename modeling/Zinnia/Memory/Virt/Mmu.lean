import Zinnia.Lib.Radix
import Zinnia.Memory.Pmm.Properties
import Zinnia.Memory.Virt.AddressSpace

/-!
# Page tables in memory

The page table of a process is a tree of tables in physical pages, which is built when addresses
are mapped. Its upper half is a copy of the root table of the kernel. Flushes of the TLB are left
out here.

`none` stands for a panic.
-/

namespace Zinnia

inductive PageTableError where
  | pageTableEntryMissing
  | needAllocation
  | outOfMemory
deriving DecidableEq

namespace Mmu

/-- The physical memory. All pages are seen as tables. -/
structure Memory where
  pmm : Pmm
  entries : ℕ → ℕ → PageTableEntry

/-- A pointer to an entry: the page of its table and its index. -/
abbrev PtePtr := ℕ × ℕ

namespace Memory

def read (m : Memory) (pte : PtePtr) : PageTableEntry := m.entries pte.1 pte.2

def write (m : Memory) (pte : PtePtr) (entry : PageTableEntry) : Memory :=
  { m with entries := Radix.write m.entries pte.1 pte.2 entry }

/-- `P::alloc(1, AllocFlags::empty())`. The page is zeroed. -/
def allocTable (m : Memory) : Option (Except AllocError PhysAddr × Memory) := do
  match ← m.pmm.alloc 1 {} with
  | (.error e, pmm) => some (.error e, { m with pmm })
  | (.ok addr, pmm) =>
    some (.ok addr, ⟨pmm, Function.update m.entries (idxFromAddr addr) fun _ => .empty⟩)

end Memory

structure PageTable where
  /-- Physical address of the root directory. -/
  head : PhysAddr
  /-- The root page level. -/
  rootLevel : ℕ
  isUser : Bool

/-- The index of an address in the table of a level. -/
def index (virt : VirtAddr) (level : ℕ) : ℕ :=
  let addrBits := (BitVec.allOnes 64 : Usize) >>> (64 - levelBits)
  ((virt >>> (pageBits + levelBits * level)) &&& addrBits).toNat

namespace PageTable

/-- `PageTable::new_user`. -/
def newUser (kernelHead : ℕ → PageTableEntry) (rootLevel : ℕ) (m : Memory) :
    Option (PageTable × Memory) := do
  match ← m.allocTable with
  | (.error _, _) => none
  | (.ok userL1, m) =>
    some (⟨userL1, rootLevel, true⟩,
      { m with entries := Function.update m.entries (idxFromAddr userL1) kernelHead })

variable (t : PageTable)

/-- The flags of entries that refer to tables. -/
def directoryFlags : PteFlags := { directory := true, user := t.isUser }

/-- The loop of `get_pte_locked`, from a level on. -/
def getPteFrom (virt : VirtAddr) (allocate : Bool) :
    ℕ → ℕ → Memory → Option (Except PageTableError PtePtr × Memory)
  | 0, table, m => some (.ok (table, index virt 0), m)
  | level + 1, table, m =>
    let pte := (table, index virt (level + 1))
    let entry := m.read pte
    if entry.isPresent then
      -- a large page already contains the final address
      if !entry.isDirectory (level + 1) then some (.ok pte, m)
      else getPteFrom virt allocate level (idxFromAddr entry.address) m
    else if !allocate then some (.error .needAllocation, m)
    else do
      match ← m.allocTable with
      | (.error _, m) => some (.error .outOfMemory, m)
      | (.ok nextHead, m) =>
        let m := m.write pte (.new nextHead t.directoryFlags .normal (level + 1))
        getPteFrom virt allocate level (idxFromAddr nextHead) m

/-- `PageTable::get_pte_locked`. -/
def getPteLocked (virt : VirtAddr) (allocate : Bool) (m : Memory) :
    Option (Except PageTableError PtePtr × Memory) :=
  match t.rootLevel with
  | 0 => none
  | level + 1 => t.getPteFrom virt allocate level (idxFromAddr t.head) m

/-- `PageTable::with_pte`, for a function that writes the entry. -/
def withPte (virt : VirtAddr) (allocate : Bool) (f : PageTableEntry → PageTableEntry) (m : Memory) :
    Option (Except PageTableError Unit × Memory) := do
  match ← t.getPteLocked virt allocate m with
  | (.error e, m) => some (.error e, m)
  | (.ok pte, m) => some (.ok (), m.write pte (f (m.read pte)))

/-- `PageTable::map_single`. -/
def mapSingle (virt : VirtAddr) (phys : PhysAddr) (flags : VmFlags) (cache : VmCacheType)
    (m : Memory) : Option (Except PageTableError Unit × Memory) :=
  t.withPte virt true (fun _ => .new phys (flags.asPte t.isUser) cache 0) m

/-- `PageTable::remap_single`. -/
def remapSingle (virt : VirtAddr) (flags : VmFlags) (m : Memory) :
    Option (Except PageTableError Unit × Memory) :=
  t.withPte virt false (fun pte => .new pte.address (flags.asPte t.isUser) pte.cacheType 0) m

/-- The loop of `unmap_single_inner`, from a level on. -/
def findPte (m : Memory) (virt : VirtAddr) : ℕ → ℕ → Except PageTableError PtePtr
  | 0, table => .ok (table, index virt 0)
  | level + 1, table =>
    let pte := (table, index virt (level + 1))
    let entry := m.read pte
    if !entry.isPresent then .error .needAllocation
    else if !entry.isDirectory (level + 1) then .ok pte
    else findPte m virt level (idxFromAddr entry.address)

/-- `PageTable::unmap_single`. -/
def unmapSingle (virt : VirtAddr) (m : Memory) : Except PageTableError Unit × Memory :=
  let found : Except PageTableError PtePtr := match t.rootLevel with
    | 0 => .ok (idxFromAddr t.head, 0)
    | level + 1 => findPte m virt level (idxFromAddr t.head)
  match found with
  | .error e => (.error e, m)
  | .ok pte => (.ok (), m.write pte .empty)

/-- The entry of an address, if it is present. -/
def lookup (virt : VirtAddr) (m : Memory) : Option PageTableEntry :=
  match t.getPteLocked virt false m with
  | some (.ok pte, m) => if (m.read pte).isPresent then some (m.read pte) else none
  | _ => none

/-- `PageTable::is_mapped`. -/
def isMapped (virt : VirtAddr) (m : Memory) : Bool := (t.lookup virt m).isSome

/-- `PageTable::get_mapping`. -/
def getMapping (virt : VirtAddr) (m : Memory) :
    Option (Except PageTableError (Option PhysAddr)) := do
  match ← t.getPteLocked virt false m with
  | (.error e, _) => some (.error e)
  | (.ok pte, m) =>
    some (.ok (if (m.read pte).isPresent then some (m.read pte).address else none))

/-- `PageTable::free_subtree`: the addresses of the pages that it deallocates, in this order. -/
def freeSubtree (m : Memory) : ℕ → PhysAddr → List PhysAddr
  | 0, _ => []
  | level + 1, table => (List.range (2 ^ levelBits)).flatMap fun i =>
      let pte := m.read (idxFromAddr table, i)
      if !pte.isPresent || !pte.isDirectory (level + 1) then []
      else freeSubtree m level pte.address ++ [pte.address]

/-- The addresses of the pages that `drop` deallocates, in this order. -/
def dropped (m : Memory) : List PhysAddr :=
  if !t.isUser then []
  else
    let rootLevel := t.rootLevel - 1
    ((List.range (2 ^ levelBits / 2)).flatMap fun i =>
      let pte := m.read (idxFromAddr t.head, i)
      if !pte.isPresent || !pte.isDirectory rootLevel then []
      else freeSubtree m (rootLevel - 1) pte.address ++ [pte.address]) ++ [t.head]

/-- `PageTable::drop`. -/
def drop (m : Memory) : Option Memory := do
  let pmm ← (t.dropped m).foldlM (fun pmm addr => pmm.deallocInner addr 1) m.pmm
  some { m with pmm }

end PageTable

/-! ### Runs -/

/-- What an address is mapped to. -/
structure Mapping where
  phys : PhysAddr
  flags : VmFlags
  cache : VmCacheType

/-- A page-aligned address of the user half. -/
def UserPage (virt : VirtAddr) : Prop := isUserAddr virt ∧ virt.toNat % pageSize = 0

/-- The page of an address. -/
def pageOf (virt : VirtAddr) : ℕ := virt.toNat / pageSize

/-- The address of a physical page. -/
def FrameAddr (phys : PhysAddr) : Prop := phys.toNat % pageSize = 0 ∧ phys.toNat < 2 ^ 52

/-- The pages that were free before and are not free any more. -/
def taken (pmm pmm' : Pmm) : Set ℕ := {i | pmm.IsFree i ∧ ¬ pmm'.IsFree i}

/-- A page table, with what was last set for every page, the physical pages that it has allocated
and those that the rest of the kernel has allocated. -/
structure State where
  table : PageTable
  memory : Memory
  mappings : ℕ → Option Mapping
  tables : Set ℕ
  others : Set ℕ

namespace State

/-- A call of a function that fails, or changes what is set for an address. -/
def after (s : State) (virt : VirtAddr) (new : Option Mapping)
    (result : Except PageTableError Unit) (m : Memory) : State :=
  { s with
    memory := m
    mappings := match result with
      | .ok () => Function.update s.mappings (pageOf virt) new
      | .error _ => s.mappings
    tables := s.tables ∪ taken s.memory.pmm m.pmm }

/-- A call, or what the rest of the kernel does with physical pages. Frames that are mapped are in
use elsewhere, and are not deallocated before they are unmapped. -/
inductive Step (Guard : State → VirtAddr → Prop) (s : State) : State → Prop
  | map {result m} (virt phys flags cache) : UserPage virt → FrameAddr phys →
    ¬ s.memory.pmm.IsFree (idxFromAddr phys) → idxFromAddr phys ∉ s.tables →
    s.table.mapSingle virt phys flags cache s.memory = some (result, m) →
    Step Guard s (s.after virt (some ⟨phys, flags, cache⟩) result m)
  | remap {result m} (virt flags) : UserPage virt → Guard s virt →
    s.table.remapSingle virt flags s.memory = some (result, m) →
    Step Guard s (s.after virt ((s.mappings (pageOf virt)).map ({ · with flags })) result m)
  | unmap {result m} (virt) : UserPage virt →
    s.table.unmapSingle virt s.memory = (result, m) →
    Step Guard s (s.after virt none result m)
  | write (entries) : (∀ i ∈ s.tables, entries i = s.memory.entries i) →
    Step Guard s { s with memory := { s.memory with entries } }
  | otherAlloc {addr pmm} (pages flags) :
    s.memory.pmm.alloc pages flags = some (.ok addr, pmm) →
    Step Guard s { s with
      memory := { s.memory with pmm }, others := s.others ∪ pageRange addr pages.toNat }
  | otherDealloc {addr pmm} (pages : Usize) : pageRange addr pages.toNat ⊆ s.others →
    (∀ page mapping, s.mappings page = some mapping →
      idxFromAddr mapping.phys ∉ pageRange addr pages.toNat) →
    s.memory.pmm.deallocInner addr pages.toNat = some pmm →
    Step Guard s { s with
      memory := { s.memory with pmm }, others := s.others \ pageRange addr pages.toNat }

/-- The states of a page table of a process, from its creation on, in runs in which all calls of
`remap_single` meet a condition. -/
inductive Reachable (Guard : State → VirtAddr → Prop) (pmm₀ : Pmm) : State → Prop
  | newUser {pmm A rootLevel kernelHead entries table memory} :
    Relation.ReflTransGen Pmm.Step (pmm₀, ∅) (pmm, A) → rootLevel = 4 ∨ rootLevel = 5 →
    -- the kernel maps nothing in the user half
    (∀ i < 2 ^ levelBits / 2, (kernelHead i).isPresent = false) →
    PageTable.newUser kernelHead rootLevel ⟨pmm, entries⟩ = some (table, memory) →
    Reachable Guard pmm₀ ⟨table, memory, fun _ => none, taken pmm memory.pmm, A⟩
  | step {s s' : State} : Reachable Guard pmm₀ s → Step Guard s s' → Reachable Guard pmm₀ s'

end State

end Mmu

end Zinnia
