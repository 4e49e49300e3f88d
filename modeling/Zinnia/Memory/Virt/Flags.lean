import Zinnia.Util

namespace Zinnia

/-- PTE protection flags. -/
structure PteFlags where
  read : Bool := false
  write : Bool := false
  exec : Bool := false
  user : Bool := false
  large : Bool := false
  directory : Bool := false
deriving DecidableEq

/-- Page protection flags. -/
@[ext]
structure VmFlags where
  read : Bool := false
  write : Bool := false
  exec : Bool := false
  /-- The page is shared between address spaces. -/
  shared : Bool := false
  /-- This page is to be copied on write. -/
  copyOnWrite : Bool := false
deriving DecidableEq

/-- The permissions that a process can ask for. -/
structure Prot where
  read : Bool := false
  write : Bool := false
  exec : Bool := false
deriving DecidableEq

/-- Page caching types. -/
inductive VmCacheType where
  | normal
  | writeThrough
  | writeCombine
  | uncacheable
deriving DecidableEq

namespace VmFlags

/-- `VmFlags::as_pte`, with the `User` flag that the page tables of processes add. -/
def asPte (f : VmFlags) (user : Bool) : PteFlags :=
  { read := f.read, write := f.write, exec := f.exec, user := user }

/-- `prot | (flags & (Shared | CopyOnWrite))`. -/
def reprotect (f prot : VmFlags) : VmFlags :=
  { prot with shared := prot.shared || f.shared, copyOnWrite := prot.copyOnWrite || f.copyOnWrite }

/-- `flags & !Write`. -/
def withoutWrite (f : VmFlags) : VmFlags := { f with write := false }

/-- `flags & !CopyOnWrite`. -/
def withoutCopyOnWrite (f : VmFlags) : VmFlags := { f with copyOnWrite := false }

/-- `flags | CopyOnWrite`. -/
def withCopyOnWrite (f : VmFlags) : VmFlags := { f with copyOnWrite := true }

/-- The same flags with other permissions. -/
def withPermissions (f : VmFlags) (prot : Prot) : VmFlags :=
  { f with read := prot.read, write := prot.write, exec := prot.exec }

end VmFlags

/-- The permissions as page protection flags. -/
def Prot.toVmFlags (prot : Prot) : VmFlags :=
  { read := prot.read, write := prot.write, exec := prot.exec }

end Zinnia
