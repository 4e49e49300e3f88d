import Zinnia.Device.Net.Local.Files

/-!
# Control buffers

What a receive does to the socket besides taking bytes, and the bytes it writes for files and
credentials.
-/

namespace Zinnia.Local

open List Option

variable {File : Type}

/-! ### Receives that are to change nothing -/

/-- `LocalSocket::recvmsg` with the copy of the bytes to the caller, which fails with `fault`. -/
def recvmsgTo (self : LocalInner File) (len control : ℕ) (peek : Bool) (free : ℕ)
    (fault : ℕ → Option Errno) : EResult (Received File) × LocalInner File :=
  match recvmsg self len control peek free with
  | (.ok r, after) =>
    -- the files and credentials that were taken are dropped
    match if 0 < r.data.length then fault r.data.length else none with
    | some e => (.error e, after)
    | none => (.ok r, after)
  | (.error e, after) => (.error e, after)

section Frame

variable {self : LocalInner File} {len control free : ℕ} {peek : Bool} {fault : ℕ → Option Errno}

lemma recvmsgTo_snd : (recvmsgTo self len control peek free fault).2 =
    (recvmsg self len control peek free).2 := by
  rw [recvmsgTo]
  split <;> rename_i h
  · rw [h]
    split <;> rfl
  · rw [h]

lemma takeAncillary_eq_iff {inflight : List (InflightSection File)} :
    (takeAncillary control inflight).2 = inflight ↔
      (control ≠ 0 → ∀ front ∈ inflight.head?, front.Plain) := by
  cases inflight with
  | nil => exact ⟨fun _ _ => nofun, fun _ => rfl⟩
  | cons front rest =>
    obtain ⟨files, cred, bytes⟩ := front
    rw [takeAncillary]
    split_ifs with hcontrol
    · constructor
      · rintro h - _ ⟨⟩
        obtain ⟨rfl, rfl, -⟩ := InflightSection.mk.inj (cons.inj h).1
        exact ⟨rfl, rfl⟩
      · intro h
        obtain ⟨rfl, rfl⟩ := (h hcontrol _ rfl).eq
        rfl
    · exact ⟨fun _ h => absurd h hcontrol, fun _ => rfl⟩

lemma recvmsg_error {e : Errno} (h : (recvmsg self len control peek free).1 = .error e) :
    (recvmsg self len control peek free).2 = self := by
  revert h
  rw [recvmsg]
  split_ifs <;> intro h <;> first | rfl | cases h

variable (self len) in
lemma recvcount_le : recvcount self len ≤ min len self.recvBuf.getDataLen := by
  rw [recvcount]
  split
  · split_ifs
    · exact min_le_left _ _
    · exact le_rfl
  · exact le_rfl

variable (self len) in
lemma length_taken : (self.recvBuf.peek (min (recvcount self len) bufferSize)).length =
    recvcount self len := by
  have hle := recvcount_le self len
  have hlt := RingBuffer.getDataLen_lt self.recvBuf
  rw [RingBuffer.length_peek]
  omega

variable (control free) in
/-- A receive that takes bytes out of the buffer. -/
lemma recvmsg_of_pos (hstate : self.state = .connected) (hpos : 0 < recvcount self len) :
    ∃ r after, recvmsg self len control false free = (.ok r, after) ∧
      r.data.length = recvcount self len ∧ after ≠ self := by
  have hle := recvcount_le self len
  have hdata := length_taken self len
  rw [recvmsg, if_neg (by omega), if_neg (not_not.mpr hstate), if_pos (by omega)]
  dsimp only
  rw [if_pos ⟨by omega, rfl⟩]
  refine ⟨_, _, rfl, by rw [installCmsg_data, hdata], fun heq => ?_⟩
  have hread := congrArg (·.recvBuf.getDataLen) heq
  dsimp only at hread
  rw [RingBuffer.getDataLen_read] at hread
  omega

/-- Only a receive that takes bytes copies any. -/
lemma recvmsg_pos {r : Received File} {after : LocalInner File}
    (h : recvmsg self len control peek free = (.ok r, after)) (hpos : 0 < r.data.length) :
    self.state = .connected ∧ 0 < recvcount self len := by
  rw [recvmsg] at h
  split_ifs at h with hnone hstate hdata hclosed
  · cases h
    cases hpos
  · cases h
  · obtain rfl := Except.ok.inj (Prod.mk.inj h).1
    rw [installCmsg_data, length_taken] at hpos
    exact ⟨not_not.mp hstate, hpos⟩
  · obtain rfl := Except.ok.inj (Prod.mk.inj h).1
    rw [installCmsg_data] at hpos
    cases hpos
  · cases h

/-- What a receive that only looks finds is not taken for the control buffer, and the bytes of
another one, if there are any, can be copied to the caller. -/
def Harmless (self : LocalInner File) (len control : ℕ) (peek : Bool) (fault : ℕ → Option Errno) :
    Prop :=
  self.state = .connected →
    if peek then
      control ≠ 0 → 0 < self.recvBuf.getDataLen ∨ self.shutdownRead ∨ self.peerClosed →
        ∀ front ∈ self.inflight.head?, front.Plain
    else 0 < recvcount self len → fault (recvcount self len) = none

lemma recvmsg_look_iff : (recvmsg self len control true free).2 = self ↔
    Harmless self len control true fault := by
  have hset {inflight : List (InflightSection File)} :
      { self with inflight := inflight } = self ↔ inflight = self.inflight :=
    ⟨congrArg LocalInner.inflight, by rintro rfl; rfl⟩
  simp only [recvmsg, Harmless, Bool.not_true, Bool.false_eq_true, and_false, if_false, if_true]
  split_ifs with hnone hstate hdata hclosed
  · exact iff_of_true rfl fun _ hcontrol => absurd hnone.2 hcontrol
  · exact iff_of_true rfl fun h => absurd h hstate
  · rw [hset, takeAncillary_eq_iff]
    exact ⟨fun h _ hcontrol _ => h hcontrol, fun h hcontrol => h (not_not.mp hstate) hcontrol
      (.inl hdata)⟩
  · rw [hset, takeAncillary_eq_iff]
    exact ⟨fun h _ hcontrol _ => h hcontrol, fun h hcontrol => h (not_not.mp hstate) hcontrol
      (.inr hclosed)⟩
  · exact iff_of_true rfl fun _ _ h => absurd h (not_or.mpr ⟨hdata, hclosed⟩)

/-- A receive that only looks, or that fails, leaves the socket as it was if and only if it is
harmless. -/
theorem recvmsgTo_unchanged_iff :
    (peek ∨ (∃ e, (recvmsgTo self len control peek free fault).1 = .error e) →
      (recvmsgTo self len control peek free fault).2 = self) ↔
    Harmless self len control peek fault := by
  rw [recvmsgTo_snd]
  cases peek with
  | true => exact ⟨fun h => recvmsg_look_iff.mp (h (.inl rfl)), fun h _ => recvmsg_look_iff.mpr h⟩
  | false =>
    by_cases htaken : self.state = .connected ∧ 0 < recvcount self len
    · obtain ⟨r, after, hrun, hlen, hne⟩ :=
        recvmsg_of_pos control free htaken.1 htaken.2
      rw [recvmsgTo, hrun]
      dsimp only
      rw [hlen, if_pos htaken.2]
      cases hfault : fault (recvcount self len) with
      | none =>
        refine iff_of_true ?_ fun _ _ => hfault
        rintro (h | ⟨e, h⟩) <;> cases h
      | some e =>
        refine iff_of_false (fun h => hne (h (.inr ⟨e, rfl⟩))) fun h => ?_
        exact nomatch hfault.symm.trans (h htaken.1 htaken.2)
    · refine iff_of_true ?_ fun hstate hpos => absurd ⟨hstate, hpos⟩ htaken
      rintro (h | ⟨e, he⟩)
      · cases h
      refine recvmsg_error (e := e) ?_
      rw [recvmsgTo] at he
      split at he
      · rename_i r after hrun
        rw [if_neg fun hpos => htaken (recvmsg_pos hrun hpos)] at he
        cases he
      · rename_i hrun
        rw [hrun]
        exact he

/-- A socket that was sent a byte with a file. -/
def oneByte : LocalInner ℕ :=
  (sendmsg (.new .connected sockStream) (.new .connected sockStream) [1] 24 (some [7]) ⟨1, 0, 0⟩).2

/-- A look takes the file, and a receive whose copy fails takes the byte. -/
theorem recvmsgTo_oneByte_ne :
    (recvmsgTo oneByte 1 24 true 1 fun _ => none).2.inflight ≠ oneByte.inflight ∧
      (recvmsgTo oneByte 1 0 false 1 fun _ => some .efault).1 = .error .efault ∧
      (recvmsgTo oneByte 1 0 false 1 fun _ => some .efault).2.recvBuf.getDataLen ≠
        oneByte.recvBuf.getDataLen := by
  refine ⟨by decide +kernel, ?_, by decide +kernel⟩
  rfl

end Frame

/-! ### The bytes of a control buffer -/

/-- The bytes of a word, as `to_ne_bytes` gives them. -/
def wordBytes (w : BitVec 32) : List (BitVec 8) :=
  (List.range 4).map fun i => w.extractLsb' (8 * i) 8

/-- `write_cmsg`: the ranges that it writes, each with its offset and bytes, and the offset behind
them. -/
def writeCmsg (control off : ℕ) (cmsgType : BitVec 32) (payload : List (BitVec 8)) :
    Option (List (ℕ × List (BitVec 8)) × ℕ) :=
  let totalLen := headerAligned + payload.length
  if control < off + totalLen then none
  else
    let next := off + cmsgAlign totalLen
    some ([(off, wordBytes totalLen ++ wordBytes 1 ++ wordBytes cmsgType),
      (off + 12, List.replicate (headerAligned - 12) 0), (off + headerAligned, payload)] ++
        (if next ≤ control then [(off + totalLen, List.replicate (next - (off + totalLen)) 0)]
          else []), next)

/-- The message of the credentials. -/
def credRanges (control : ℕ) (cred : Option Ucred) : List (ℕ × List (BitVec 8)) × ℕ :=
  (cred.bind fun c => writeCmsg control 0 2
    (wordBytes c.pid ++ wordBytes c.uid ++ wordBytes c.gid)).getD ([], 0)

/-- `LocalSocket::install_cmsg`: the ranges of the control buffer that it writes, and the length that
it returns. `fds` are the descriptors that the table hands out. -/
def installRanges (control : ℕ) (files : List File) (cred : Option Ucred) (fds : List (BitVec 32)) :
    List (ℕ × List (BitVec 8)) × ℕ :=
  if control = 0 ∨ files.isEmpty ∧ cred.isNone then ([], 0)
  else
    let stored := credRanges control cred
    let off := stored.2
    if files ≠ [] ∧ control - off ≤ headerAligned then stored
    else
      let installed := fds.take (min files.length (fdSlots control off))
      if installed = [] then stored
      else
        match writeCmsg control off 1 (installed.flatMap wordBytes) with
        | some (ranges, next) => (stored.1 ++ ranges, next)
        | none => stored

section Ranges

variable {control off : ℕ} {cmsgType : BitVec 32} {payload : List (BitVec 8)}
  {r : List (ℕ × List (BitVec 8)) × ℕ} {files : List File} {cred : Option Ucred}
  {fds : List (BitVec 32)}

/-- Ranges inside the control buffer, and a length that is at most its length padded to words. -/
def Within (control : ℕ) (r : List (ℕ × List (BitVec 8)) × ℕ) : Prop :=
  (∀ x ∈ r.1, x.1 + x.2.length ≤ control) ∧ 8 ∣ r.2 ∧ r.2 ≤ cmsgAlign control

lemma writeCmsg_within (hoff : 8 ∣ off) (h : writeCmsg control off cmsgType payload = some r) :
    Within control r ∧ r.2 = off + cmsgAlign (headerAligned + payload.length) := by
  rw [writeCmsg] at h
  split_ifs at h with hfit
  cases h
  refine ⟨⟨?_, hoff.add (Dvd.intro_left _ rfl), ?_⟩, rfl⟩
  · split_ifs <;> simp [headerAligned, cmsgAlign, wordBytes] at * <;> omega
  · simp only [headerAligned, cmsgAlign] at *
    omega

lemma installRanges_within : Within control (installRanges control files cred fds) := by
  have hnone : Within control ([], 0) := ⟨nofun, dvd_zero 8, Nat.zero_le _⟩
  rw [installRanges]
  split_ifs with h
  · exact hnone
  have hstored : Within control (credRanges control cred) := by
    rw [credRanges]
    cases hcred : cred.bind _ with
    | none => exact hnone
    | some r =>
      obtain ⟨c, -, hc⟩ := bind_eq_some_iff.mp hcred
      exact (writeCmsg_within (dvd_zero 8) hc).1
  dsimp only
  split_ifs
  · exact hstored
  · exact hstored
  · split <;> rename_i hwrite
    · obtain ⟨hranges, hdvd, hle⟩ := (writeCmsg_within hstored.2.1 hwrite).1
      refine ⟨fun x hx => ?_, hdvd, hle⟩
      exact (List.mem_append.mp hx).elim (hstored.1 x) (hranges x)
    · exact hstored

/-- The length is that of the credentials, if they fit, and of the descriptors. -/
lemma installRanges_snd : (installRanges control files cred fds).2 =
    let off := if cred.isSome ∧ 28 ≤ control then 32 else 0
    let installed := min (min files.length (fdSlots control off)) fds.length
    if installed = 0 then off else off + cmsgAlign (headerAligned + installed * 4) := by
  have hstored : (credRanges control cred).2 = if cred.isSome ∧ 28 ≤ control then 32 else 0 := by
    cases cred with
    | none => rfl
    | some c =>
      simp only [credRanges, bind_some, writeCmsg, wordBytes, zero_add, isSome_some, true_and]
      split_ifs <;> simp_all [headerAligned, cmsgAlign]
      all_goals omega
  have hnil (n : ℕ) : fds.take n = [] ↔ min n fds.length = 0 := by
    rw [← length_eq_zero_iff, length_take]
  have hlength (n : ℕ) : ((fds.take n).flatMap wordBytes).length = min n fds.length * 4 := by
    simp [length_flatMap, wordBytes]
  simp only [installRanges, hstored, hnil]
  generalize hoff : (if cred.isSome ∧ 28 ≤ control then 32 else 0 : ℕ) = off
  by_cases hnone : control = 0 ∨ files.isEmpty ∧ cred.isNone
  · rw [if_pos hnone]
    rcases hnone with rfl | ⟨hfiles, hcred⟩
    · simp [← hoff, fdSlots]
    · simp [← hoff, List.isEmpty_iff.mp hfiles, isNone_iff_eq_none.mp hcred]
  rw [if_neg hnone]
  split_ifs with hroom hzero hzero
  · exact hstored.trans hoff
  · unfold fdSlots at hzero
    omega
  · exact hstored.trans hoff
  -- the descriptors fit, since there are not more of them than slots
  · rw [writeCmsg, hlength, if_neg]
    unfold fdSlots at *
    omega

/-- Every message that fits into the control buffer fits with its padding: that of the credentials,
and that of the descriptors unless these fill the buffer and are odd in number. -/
def Padded (control : ℕ) (files : List File) (cred : Option Ucred) (free : ℕ) : Prop :=
  let off := if cred.isSome ∧ 28 ≤ control then 32 else 0
  off ≤ control ∧
    (fdSlots control off % 2 = 1 → min files.length free < fdSlots control off)

/-- All writes are inside the control buffer, and the length that is returned is not greater than
its length if and only if the padding fits. -/
theorem installRanges_le_iff :
    (∀ x ∈ (installRanges control files cred fds).1, x.1 + x.2.length ≤ control) ∧
      ((installRanges control files cred fds).2 ≤ control ↔
        Padded control files cred fds.length) := by
  refine ⟨installRanges_within.1, ?_⟩
  rw [installRanges_snd, Padded]
  generalize (if cred.isSome ∧ 28 ≤ control then 32 else 0 : ℕ) = off
  simp only [fdSlots, show headerAligned = 16 from rfl, cmsgAlign]
  by_cases hzero : min (min files.length ((control - off - 16) / 4)) fds.length = 0
  · rw [if_pos hzero]
    omega
  · rw [if_neg hzero]
    omega

/-- A buffer of 20 bytes holds a descriptor, and the length that is returned counts the padding. -/
theorem installRanges_oneFile_gt : 20 < (installRanges 20 [7] none [3]).2 := by
  decide

end Ranges

/-! ### Addresses -/

/-- `LocalInner`, as far as its address is concerned. -/
structure Address where
  state : State
  boundAddr : Option (List (BitVec 8))

/-- `LocalSocket::parse_path`. -/
def parsePath (addr : List (BitVec 8)) : EResult (List (BitVec 8)) :=
  let path := (addr.drop 2).takeWhile (· ≠ 0)
  if addr.length < 3 then .error .einval
  else if path = [] then .error .einval
  else .ok path

/-- `AF_UNIX`, as it stands in an address; of its value, which the user headers give, only the
length matters. -/
def afUnix : List (BitVec 8) := [3, 0]

/-- `LocalSocket::bind`, where `mknod` makes the node of the path. -/
def Address.bind (s : Address) (addr : List (BitVec 8)) (mknod : List (BitVec 8) → EResult Unit) :
    EResult Unit × Address :=
  match parsePath addr with
  | .error e => (.error e, s)
  | .ok path =>
    if s.state ≠ .unconnected then (.error .einval, s)
    else (mknod path, ⟨.bound, some (afUnix ++ path ++ [0])⟩)

/-- `getsockname`, or `getpeername` with the address of the peer: the part of a buffer that is
copied to the caller. It is `none` if the slice panics. -/
def Address.name (s : Address) : Option (List (BitVec 8)) :=
  let addr := s.boundAddr.getD afUnix
  let buf := addr.take 128 ++ List.replicate (128 - addr.length) 0
  if addr.length ≤ buf.length then some (buf.take addr.length) else none

lemma Address.isSome_name {s : Address} :
    s.name.isSome ↔ (s.boundAddr.getD afUnix).length ≤ 128 := by
  simp only [name, length_append, length_take, length_replicate, isSome_ite]
  omega

/-- A bind that fails changes nothing, and the names of the socket are inside the buffer, if and
only if the node can be made and the path has at most 125 bytes, where it is used. -/
theorem Address.bind_sound_iff {s : Address} {addr : List (BitVec 8)}
    {mknod : List (BitVec 8) → EResult Unit} (hname : s.name.isSome) :
    ((∀ e, (s.bind addr mknod).1 = .error e → (s.bind addr mknod).2 = s) ∧
      (s.bind addr mknod).2.name.isSome) ↔
    ∀ path, parsePath addr = .ok path → s.state = .unconnected →
      mknod path = .ok () ∧ path.length ≤ 125 := by
  rw [bind]
  split
  · rename_i hpath
    exact iff_of_true ⟨fun _ _ => rfl, hname⟩ fun path h => nomatch hpath.symm.trans h
  · rename_i path hpath
    have hinj {path' : List (BitVec 8)} (h : parsePath addr = .ok path') : path' = path :=
      Except.ok.inj (h.symm.trans hpath)
    split_ifs with hstate
    · exact iff_of_true ⟨fun _ _ => rfl, hname⟩ fun _ _ h => absurd h hstate
    · rw [not_not] at hstate
      have hfits : (afUnix ++ path ++ [0]).length ≤ 128 ↔ path.length ≤ 125 := by
        simp only [afUnix, length_append, length_cons, length_nil]
        omega
      rw [isSome_name]
      constructor
      · rintro ⟨hfail, hlen⟩ path' hpath' -
        obtain rfl := hinj hpath'
        refine ⟨?_, hfits.mp hlen⟩
        cases hmknod : mknod path' with
        | ok u => rfl
        | error e =>
          -- the socket is bound already when `mknod` fails
          have hbound := congrArg state (hfail e hmknod)
          exact nomatch hbound.trans hstate
      · intro h
        obtain ⟨hmknod, hlen⟩ := h path hpath hstate
        exact ⟨fun e he => (nomatch hmknod.symm.trans he), hfits.mpr hlen⟩

theorem Address.bind_sound_new :
    (Address.bind ⟨.unconnected, none⟩ [3, 0, 97] fun _ => .ok ()).2.name.isSome := by
  refine ((bind_sound_iff (by decide +kernel)).mpr fun path hpath _ => ⟨rfl, ?_⟩).2
  obtain rfl : [97] = path := Except.ok.inj hpath
  decide

/-- A bind whose node exists leaves the socket bound, and a path of 126 bytes is too long. -/
theorem Address.bind_sound_ne :
    (Address.bind ⟨.unconnected, none⟩ [3, 0, 97] fun _ => .error .eexist).2.state = .bound ∧
      (Address.bind ⟨.unconnected, none⟩ (afUnix ++ List.replicate 126 97) fun _ => .ok ()).2.name =
        none := by
  decide +kernel

end Zinnia.Local
