import Zinnia.Syscall.Memory

/-!
# What `mmap` asks of an address space

A call of `mmap` that gets past its checks is one call of `map_object`. The permissions and the
sharing of the mapping are those of the call; the range is that of the call, too, except that the
range for a file is rounded to pages.
-/

namespace Zinnia.AddressSpace

variable {O : Type} {s s' : AddressSpace O}

/-- The range that is mapped for the `len` bytes from `start` on. -/
inductive Backs (start : VirtAddr) (len : NonZeroUsize) : VirtAddr → NonZeroUsize → Prop
  | same : Backs start len start len
  | rounded {size : NonZeroUsize}
    (hsize : size.1 = (len.1 + (start &&& 4095#64) + 4095#64) &&& ~~~4095#64) :
    Backs start len (start - (start &&& 4095#64)) size

section

variable {start : VirtAddr} {len size : NonZeroUsize}

lemma toNat_pageStart (start : VirtAddr) :
    (start - (start &&& 4095#64)).toNat = start.toNat - start.toNat % pageSize := by
  have hmis := and_pageMask start
  rw [BitVec.toNat_sub_of_le (BitVec.le_def.mpr (hmis.trans_le (Nat.mod_le _ _))), hmis]

lemma toNat_rounded (hsize : size.1 = (len.1 + (start &&& 4095#64) + 4095#64) &&& ~~~4095#64) :
    size.1.toNat =
      (len.1.toNat + start.toNat % pageSize + 4095) % 2 ^ 64 / pageSize * pageSize := by
  rw [hsize, and_not_pageMask, BitVec.toNat_add, BitVec.toNat_add, Nat.mod_add_mod, and_pageMask]
  rfl

/-- Only pages of the range that was asked for are mapped. -/
lemma Backs.inRange {addr : VirtAddr} (h : Backs start len addr size) {page : ℕ}
    (hpage : InRange addr size page) : InRange start len page := by
  cases h with
  | same => exact hpage
  | rounded hsize =>
    rw [InRange, toNat_pageStart, toNat_rounded hsize] at hpage
    simp only [InRange, pageSize] at *
    omega

end

/-- The objects that `mmap` of an open file can map. -/
def OpenFile.Maps : OpenFile O → O → Prop
  | .tmpfs cache, o => o = cache
  | .ext2 cache, o => o = cache
  | .primeBuffer buffer, o => o = buffer
  | .drm getBuffer, o => ∃ handle, getBuffer handle = .ok o
  | .other, _ => False

section

variable [MemoryObject O]

/-- A call of `mmap` asks for the object of its file, or for new memory. -/
structure Asks (openFiles : BitVec 32 → Option (OpenFile O)) (anon : O) (prot flags fd : BitVec 32)
    (start : VirtAddr) (len : NonZeroUsize) (object : O) (addr : VirtAddr) (size : NonZeroUsize)
    (vmProt : VmFlags) : Prop where
  range : Backs start len addr size
  object : (MmapFlags.ofBits flags).anonymous ∧ object = anon ∨
    ¬ (MmapFlags.ofBits flags).anonymous ∧ ∃ f, openFiles fd = some f ∧ OpenFile.Maps f object
  write : vmProt.write = (Prot.ofBits prot).write
  shared : vmProt.shared = (MmapFlags.ofBits flags).shared

omit [MemoryObject O] in
/-- A call that answers with a value has succeeded. -/
lemma answer_eq_ok {α : Type} {value a : α} {call : Option (EResult Unit × AddressSpace O)}
    (h : answer value call = some (.ok a, s')) : a = value ∧ call = some (.ok (), s') := by
  rw [answer, Option.map_eq_some_iff] at h
  obtain ⟨⟨r, t⟩, hcall, heq⟩ := h
  cases r with
  | error e => cases heq
  | ok u =>
    cases heq
    exact ⟨rfl, hcall⟩

variable {anon : O} {start addr : VirtAddr} {len : NonZeroUsize} {r : EResult VirtAddr}
  {offset : BitVec 64} {openFiles : BitVec 32 → Option (OpenFile O)} {prot : VmFlags}
  {length : Usize}

lemma exists_of_mapCache {cache : O} (h : s.mapCache start len cache prot offset = some (r, s')) :
    ∃ addr size offset', Backs start len addr size ∧
      answer start (s.mapObject cache addr size prot offset') = some (r, s') := by
  simp only [mapCache] at h
  split at h
  · cases h
  · rename_i size hsize
    exact ⟨_, size, _, .rounded (NonZeroUsize.eq_of_new hsize), h⟩

lemma exists_of_vfsMmap {file : Option (OpenFile O)} {flags : MmapFlags}
    (hshared : prot.shared = flags.shared)
    (h : s.vfsMmap start len anon file prot flags offset = some (r, s')) :
    s' = s ∧ (∃ e, r = .error e) ∨ ∃ object addr size vmProt offset',
      answer start (s.mapObject object addr size vmProt offset') = some (r, s') ∧
        Backs start len addr size ∧
        (flags.anonymous ∧ object = anon ∨
          ¬ flags.anonymous ∧ ∃ f, file = some f ∧ OpenFile.Maps f object) ∧
        vmProt.write = prot.write ∧ vmProt.shared = flags.shared := by
  unfold vfsMmap at h
  split_ifs at h with hanon
  · exact .inr ⟨anon, start, len, prot, offset, h, .same, .inl ⟨hanon, rfl⟩, rfl, hshared⟩
  · cases file with
    | none =>
      cases h
      exact .inl ⟨rfl, _, rfl⟩
    | some f =>
      cases f with
      | tmpfs cache =>
        obtain ⟨addr, size, offset', hback, hcall⟩ := exists_of_mapCache h
        exact .inr ⟨cache, addr, size, _, offset', hcall, hback, .inr ⟨hanon, _, rfl, rfl⟩, rfl,
          hshared⟩
      | ext2 cache =>
        obtain ⟨addr, size, offset', hback, hcall⟩ := exists_of_mapCache h
        refine .inr ⟨cache, addr, size, _, offset', hcall, hback, .inr ⟨hanon, _, rfl, rfl⟩, rfl,
          ?_⟩
        simp only [hshared, Bool.or_self]
      | primeBuffer buffer =>
        exact .inr ⟨buffer, start, len, prot, 0, h, .same, .inr ⟨hanon, _, rfl, rfl⟩, rfl,
          hshared⟩
      | drm getBuffer =>
        simp only [OpenFile.mmap] at h
        split_ifs at h
        · cases h
          exact .inl ⟨rfl, _, rfl⟩
        · split at h
          · cases h
            exact .inl ⟨rfl, _, rfl⟩
          · rename_i buffer hbuffer
            exact .inr ⟨buffer, start, len, prot, _, h, .same,
              .inr ⟨hanon, _, rfl, _, hbuffer⟩, rfl, hshared⟩
      | other =>
        cases h
        exact .inl ⟨rfl, _, rfl⟩

/-- `mmap` fails and changes nothing, or it is one call of `map_object`. -/
lemma exists_of_mmap {prot flags fd : BitVec 32}
    (h : s.mmap openFiles anon addr length prot flags fd offset = some (r, s')) :
    s' = s ∧ (∃ e, r = .error e) ∨ ∃ len start object addr' size vmProt offset',
      NonZeroUsize.new length = some len ∧
        s.mmapAddr addr len (MmapFlags.ofBits flags) = .ok start ∧
        Asks openFiles anon prot flags fd start len object addr' size vmProt ∧
        answer start (s.mapObject object addr' size vmProt offset') = some (r, s') := by
  simp only [mmap] at h
  split_ifs at h
  · cases h
    exact .inl ⟨rfl, _, rfl⟩
  · split at h
    · cases h
      exact .inl ⟨rfl, _, rfl⟩
    · rename_i file hfile
      split at h
      · cases h
        exact .inl ⟨rfl, _, rfl⟩
      · rename_i len hlen
        split at h
        · cases h
          exact .inl ⟨rfl, _, rfl⟩
        · rename_i start hstart
          obtain hfail | ⟨object, addr', size, vmProt, offset', hcall, hback, hobject, hwrite,
            hshared⟩ := exists_of_vfsMmap rfl h
          · exact .inl hfail
          · refine .inr ⟨len, start, object, addr', size, vmProt, offset', hlen, hstart,
              ⟨hback, hobject.imp_right ?_, hwrite, hshared⟩, hcall⟩
            rintro ⟨hanon, f, rfl, hmaps⟩
            rw [mmapFile, if_neg hanon] at hfile
            split at hfile
            · rename_i f' hfd
              cases hfile
              exact ⟨hanon, f, hfd, hmaps⟩
            · cases hfile

/-- `mmap` fails and changes nothing, or it returns the start of the range that it has mapped. -/
lemma mmap_cases (hwf : s.Wf) {prot flags fd : BitVec 32}
    (h : s.mmap openFiles anon addr length prot flags fd offset = some (r, s')) :
    s' = s ∧ (∃ e, r = .error e) ∨ ∃ len start object addr' size vmProt offset',
      NonZeroUsize.new length = some len ∧
        s.mmapAddr addr len (MmapFlags.ofBits flags) = .ok start ∧ r = .ok start ∧
        Asks openFiles anon prot flags fd start len object addr' size vmProt ∧
        MapEffect s s' addr' size object vmProt offset' ∧ Mappable addr' size offset' := by
  obtain hfail | ⟨len, start, object, addr', size, vmProt, offset', hlen, hstart, hasks, hcall⟩ :=
    exists_of_mmap h
  · exact .inl hfail
  · obtain ⟨e, he, -⟩ | ⟨s₁, hs₁, heff, hmap⟩ :=
      mapObject_cases hwf addr' size object vmProt offset'
    · rw [he] at hcall
      cases hcall
      exact .inl ⟨rfl, e, rfl⟩
    · rw [hs₁] at hcall
      cases hcall
      exact .inr ⟨len, start, object, addr', size, vmProt, offset', hlen, hstart, rfl, hasks,
        heff, hmap⟩

end

end Zinnia.AddressSpace
