import SdyServer.Skynet.Netpack

/-!
# The packages of a stream

What the filter hands out and what it keeps, against the packages of the bytes that have come: the
messages of one connection are the packages of its stream, wherever it is cut, and the other
connections keep theirs.
-/

namespace SdyServer.Netpack

section Packages

theorem readSize_eq (high low : UInt8) : readSize high low = high.toNat * 256 + low.toNat := by
  have hlow : low.toNat < 2 ^ 8 := low.toNat_lt
  rw [readSize, ← Nat.shiftLeft_add_eq_or_of_lt hlow, Nat.shiftLeft_eq]

theorem readSize_lt (high low : UInt8) : readSize high low < 65536 := by
  have hhigh := high.toNat_lt
  have hlow := low.toNat_lt
  rw [readSize_eq]
  omega

theorem readSize_ofNat {size : Nat} (hsize : size < 65536) :
    readSize (UInt8.ofNat (size / 256)) (UInt8.ofNat (size % 256)) = size := by
  rw [readSize_eq, UInt8.toNat_ofNat', UInt8.toNat_ofNat']
  omega

theorem ofNat_readSize_high (high low : UInt8) : UInt8.ofNat (readSize high low / 256) = high := by
  have hhigh := high.toNat_lt
  have hlow := low.toNat_lt
  refine UInt8.toNat_inj.mp ?_
  rw [readSize_eq, UInt8.toNat_ofNat']
  omega

theorem ofNat_readSize_low (high low : UInt8) : UInt8.ofNat (readSize high low % 256) = low := by
  have hlow := low.toNat_lt
  refine UInt8.toNat_inj.mp ?_
  rw [readSize_eq, UInt8.toNat_ofNat']
  omega

/-- A package: its size, the high byte first, and as many bytes. -/
def packages : Framing UInt8 (List UInt8) where
  next
    | high :: low :: rest =>
        if rest.length < readSize high low then none
        else some (rest.take (readSize high low), rest.drop (readSize high low))
    | _ => none
  shorter := by
    intro s a rest h
    match s, h with
    | high :: low :: s, h =>
        dsimp only at h
        split_ifs at h
        cases h
        rw [List.length_drop, List.length_cons, List.length_cons]
        omega
  stable := by
    intro s a rest t h
    match s, h with
    | high :: low :: s, h =>
        dsimp only [List.cons_append] at h ⊢
        split_ifs at h with hlt
        cases h
        have hle : readSize high low ≤ s.length := by omega
        rw [if_neg (by rw [List.length_append]; omega), List.take_append_of_le_length hle,
          List.drop_append_of_le_length hle]

variable {high low byte : UInt8} {s : List UInt8}

@[simp]
theorem parse_byte : packages.parse [byte] = ([], [byte]) := packages.parse_of_none rfl

theorem parse_short (h : s.length < readSize high low) :
    packages.parse (high :: low :: s) = ([], high :: low :: s) :=
  packages.parse_of_none (if_pos h)

theorem parse_package (h : readSize high low ≤ s.length) :
    packages.parse (high :: low :: s) =
      (s.take (readSize high low) :: (packages.parse (s.drop (readSize high low))).1,
        (packages.parse (s.drop (readSize high low))).2) :=
  packages.parse_of_some (if_neg (by omega))

end Packages

/-- The bytes of a package that is not complete. -/
def Uncomplete.kept (uc : Uncomplete) : List UInt8 :=
  if uc.read < 0 then [UInt8.ofNat uc.header]
  else UInt8.ofNat (uc.size / 256) :: UInt8.ofNat (uc.size % 256) :: uc.buffer

/-- The first byte of a package, or the size and a part of what comes after it. -/
inductive Uncomplete.Sound (uc : Uncomplete) : Prop where
  | header (hread : uc.read = -1) (hheader : uc.header < 256)
  | part (hread : uc.read = uc.buffer.length) (hshort : uc.buffer.length < uc.size)
    (hsize : uc.size < 65536)

def packOf (fd : Fd) (buffer : List UInt8) : Pack := { id := fd, size := buffer.length, buffer }

namespace Queue

/-- Every chain holds what hashes to it, one for a connection. -/
structure Good (q : Queue) : Prop where
  ring : q.ring.Valid
  nodup : ∀ h, ((q.hash h).map Uncomplete.id).Nodup
  hashed : ∀ h, ∀ uc ∈ q.hash h, hashFd uc.id = h
  sound : ∀ h, ∀ uc ∈ q.hash h, uc.Sound

/-- The bytes of a connection that wait for more. -/
def rest (q : Queue) (fd : Fd) : List UInt8 :=
  (((q.hash (hashFd fd)).find? fun uc => uc.id = fd).map Uncomplete.kept).getD []

def waiting (q : Queue) : List Pack := q.ring.toList

variable {q : Queue} {fd : Fd} {uc : Uncomplete} {buffer s : List UInt8}

section Operations

theorem good_empty : empty.Good where
  ring := ⟨show 0 < queueSize by decide, show 0 < queueSize by decide⟩
  nodup _ := List.nodup_nil
  hashed _ _ huc := absurd huc List.not_mem_nil
  sound _ _ huc := absurd huc List.not_mem_nil

theorem lt_grow (cap : Nat) : cap < cap + queueSize := Nat.lt_add_of_pos_right (by decide)

theorem Good.pushData (hq : q.Good) (fd : Fd) (buffer : List UInt8) (size : Nat) :
    (q.pushData fd buffer size).Good :=
  { hq with ring := show (q.ring.push (· + queueSize) _).Valid from hq.ring.push (lt_grow _) }

theorem Good.waiting_pushData (hq : q.Good) (fd : Fd) (buffer : List UInt8) (size : Nat) :
    (q.pushData fd buffer size).waiting = q.waiting ++ [{ id := fd, size, buffer }] :=
  hq.ring.toList_push (lt_grow _)

/-- No package of the connection is uncomplete. -/
def Complete (q : Queue) (fd : Fd) : Prop := ∀ uc ∈ q.hash (hashFd fd), uc.id ≠ fd

theorem Complete.rest (h : q.Complete fd) : q.rest fd = [] := by
  have hnone : (q.hash (hashFd fd)).find? (fun uc => uc.id = fd) = none := by
    rw [List.find?_eq_none]
    intro uc huc
    simpa using h uc huc
  rw [Queue.rest, hnone]
  rfl

/-- A queue with another chain. -/
theorem Good.of_chain (hq : q.Good) {h : Nat} {chain : List Uncomplete}
    (hnodup : (chain.map Uncomplete.id).Nodup)
    (hchain : ∀ uc ∈ chain, hashFd uc.id = h ∧ uc.Sound) :
    ({ q with hash := Function.update q.hash h chain } : Queue).Good where
  ring := hq.ring
  nodup h' := by
    dsimp only
    by_cases heq : h' = h
    · rwa [heq, Function.update_self]
    · rw [Function.update_of_ne heq]
      exact hq.nodup h'
  hashed h' uc huc := by
    dsimp only at huc
    by_cases heq : h' = h
    · rw [heq, Function.update_self] at huc
      rw [heq]
      exact (hchain uc huc).1
    · rw [Function.update_of_ne heq] at huc
      exact hq.hashed h' uc huc
  sound h' uc huc := by
    dsimp only at huc
    by_cases heq : h' = h
    · rw [heq, Function.update_self] at huc
      exact (hchain uc huc).2
    · rw [Function.update_of_ne heq] at huc
      exact hq.sound h' uc huc

theorem Good.saveUncomplete (hq : q.Good) (hcomplete : q.Complete uc.id) (huc : uc.Sound) :
    (q.saveUncomplete uc).Good := by
  refine hq.of_chain ?_ fun other hother => ?_
  · rw [List.map_cons, List.nodup_cons]
    refine ⟨fun hmem => ?_, hq.nodup _⟩
    obtain ⟨other, hother, hid⟩ := List.mem_map.mp hmem
    exact hcomplete other hother hid
  · rcases List.mem_cons.mp hother with rfl | hother
    · exact ⟨rfl, huc⟩
    · exact ⟨hq.hashed _ other hother, hq.sound _ other hother⟩

theorem rest_saveUncomplete (q : Queue) (uc : Uncomplete) :
    (q.saveUncomplete uc).rest = Function.update q.rest uc.id uc.kept := by
  funext fd
  by_cases hfd : fd = uc.id
  · subst hfd
    rw [Function.update_self, Queue.rest, Queue.saveUncomplete]
    dsimp only
    rw [Function.update_self, List.find?_cons_of_pos (by simp)]
    rfl
  · rw [Function.update_of_ne hfd, Queue.rest, Queue.rest, Queue.saveUncomplete]
    dsimp only
    by_cases hhash : hashFd fd = hashFd uc.id
    · rw [hhash, Function.update_self, List.find?_cons_of_neg (by simpa using Ne.symm hfd)]
    · rw [Function.update_of_ne hhash]

/-- The queue without what it keeps for the connection. -/
def without (q : Queue) (fd : Fd) : Queue :=
  { q with hash :=
    Function.update q.hash (hashFd fd) ((q.hash (hashFd fd)).eraseP fun uc => uc.id = fd) }

theorem ne_of_mem_eraseP {chain : List Uncomplete} (hnodup : (chain.map Uncomplete.id).Nodup)
    (huc : uc ∈ chain.eraseP fun uc => uc.id = fd) : uc.id ≠ fd := by
  induction chain with
  | nil => exact absurd huc List.not_mem_nil
  | cons first chain ih =>
      rw [List.map_cons, List.nodup_cons] at hnodup
      by_cases hfirst : first.id = fd
      · rw [List.eraseP_cons_of_pos (by simpa using hfirst)] at huc
        intro hid
        exact hnodup.1 (List.mem_map.mpr ⟨uc, huc, by rw [hid, hfirst]⟩)
      · rw [List.eraseP_cons_of_neg (by simpa using hfirst)] at huc
        rcases List.mem_cons.mp huc with rfl | huc
        · exact hfirst
        · exact ih hnodup.2 huc

theorem find?_eraseP {chain : List Uncomplete} {other : Fd} (hother : other ≠ fd) :
    ((chain.eraseP fun uc => uc.id = fd).find? fun uc => uc.id = other) =
      chain.find? fun uc => uc.id = other := by
  induction chain with
  | nil => rfl
  | cons first chain ih =>
      by_cases hfirst : first.id = fd
      · rw [List.eraseP_cons_of_pos (by simpa using hfirst),
          List.find?_cons_of_neg (by simpa [hfirst] using Ne.symm hother)]
      · rw [List.eraseP_cons_of_neg (by simpa using hfirst)]
        simp only [List.find?_cons, ih]

/-- **Looking up.** What is kept for a connection is taken out, and nothing else. -/
theorem Good.findUncomplete (hq : q.Good) (fd : Fd) :
    (Queue.findUncomplete (some q) fd = none ∧ q.Complete fd) ∨
      ∃ uc q', Queue.findUncomplete (some q) fd = some (uc, q') ∧ uc.id = fd ∧ uc.Sound ∧
      q.rest fd = uc.kept ∧
        q'.Good ∧ q'.Complete fd ∧ q'.rest = Function.update q.rest fd [] ∧
        q'.waiting = q.waiting := by
  set chain := q.hash (hashFd fd) with hchain
  cases hfind : chain.find? fun uc => uc.id = fd with
  | none =>
      refine .inl
        ⟨by rw [Queue.findUncomplete, Option.bind_some, ← hchain, hfind, Option.map_none], ?_⟩
      intro uc huc
      simpa using List.find?_eq_none.mp hfind uc huc
  | some uc =>
      right
      have hid : uc.id = fd := by simpa using List.find?_some hfind
      have hmem := List.mem_of_find?_eq_some hfind
      have hcomplete : (q.without fd).Complete fd := by
        intro other hother
        rw [without] at hother
        dsimp only at hother
        rw [Function.update_self] at hother
        exact ne_of_mem_eraseP (hq.nodup (hashFd fd)) hother
      refine ⟨uc, q.without fd, by rw [Queue.findUncomplete,
        Option.bind_some, ← hchain, hfind, Option.map_some]; rfl,
        hid, hq.sound _ uc hmem, ?_, ?_, hcomplete, ?_, rfl⟩
      · rw [Queue.rest, ← hchain, hfind]
        rfl
      · refine hq.of_chain ?_ fun other hother => ?_
        · exact (hq.nodup (hashFd fd)).sublist (List.eraseP_sublist.map _)
        · have hother' := List.mem_of_mem_eraseP hother
          exact ⟨hq.hashed _ other hother', hq.sound _ other hother'⟩
      · funext other
        by_cases hother : other = fd
        · rw [hother, Function.update_self, hcomplete.rest]
        · rw [Function.update_of_ne hother, Queue.rest, Queue.rest, without]
          dsimp only
          by_cases hhash : hashFd other = hashFd fd
          · rw [hhash, Function.update_self, find?_eraseP hother]
          · rw [Function.update_of_ne hhash]

/-- What one call does: `msgs` go to the end of the ring, and `rest` is kept for the connection. -/
structure Reads (q q' : Queue) (fd : Fd) (read : List (List UInt8) × List UInt8) : Prop where
  good : q'.Good
  rest : q'.rest = Function.update q.rest fd read.2
  waiting : q'.waiting = q.waiting ++ read.1.map (packOf fd)

theorem Good.save (hq : q.Good) (uc : Uncomplete) (hcomplete : q.Complete uc.id) (huc : uc.Sound) :
    q.Reads (q.saveUncomplete uc) uc.id ([], uc.kept) where
  good := hq.saveUncomplete hcomplete huc
  rest := rest_saveUncomplete q uc
  waiting := (List.append_nil _).symm

theorem kept_header (byte : UInt8) :
    ({ id := fd, read := -1, header := byte.toNat } : Uncomplete).kept = [byte] := by
  rw [Uncomplete.kept, if_pos (show (-1 : Int) < 0 by decide), UInt8.ofNat_toNat]

theorem kept_part (high low : UInt8) :
    ({ id := fd, read := buffer.length, size := readSize high low, buffer } : Uncomplete).kept =
      high :: low :: buffer := by
  rw [Uncomplete.kept, if_neg (by simp), ofNat_readSize_high, ofNat_readSize_low]

theorem Good.reads_nothing (hq : q.Good) (hcomplete : q.Complete fd) : q.Reads q fd ([], []) where
  good := hq
  rest := by rw [← hcomplete.rest, Function.update_eq_self]
  waiting := (List.append_nil _).symm

/-- The first byte of a package, kept. -/
theorem Good.save_header (hq : q.Good) (hcomplete : q.Complete fd) (byte : UInt8) :
    q.Reads (q.saveUncomplete { id := fd, read := -1, header := byte.toNat }) fd
    (packages.parse [byte]) := by
  have hsaved := hq.save { id := fd, read := -1, header := byte.toNat } hcomplete
    (.header rfl byte.toNat_lt)
  rwa [kept_header, ← parse_byte] at hsaved

/-- The beginning of a package, kept. -/
theorem Good.save_part (hq : q.Good) (hcomplete : q.Complete fd) {high low : UInt8}
    (hshort : buffer.length < readSize high low) :
    q.Reads
    (q.saveUncomplete { id := fd, read := buffer.length, size := readSize high low, buffer }) fd
      (packages.parse (high :: low :: buffer)) := by
  have hsaved :=
    hq.save { id := fd, read := buffer.length, size := readSize high low, buffer } hcomplete
    (.part rfl hshort (readSize_lt high low))
  rwa [kept_part, ← parse_short hshort] at hsaved

/-- A package for the ring, and what is read after it. -/
theorem Good.push_reads (hq : q.Good) {q' : Queue} {size : Nat}
    {read : List (List UInt8) × List UInt8}
    (hsize : size = buffer.length) (hreads : (q.pushData fd buffer size).Reads q' fd read) :
    q.Reads q' fd (buffer :: read.1, read.2) where
  good := hreads.good
  rest := hreads.rest
  waiting := by
    rw [hreads.waiting, hq.waiting_pushData, hsize, List.append_assoc]
    rfl

/-- **Reading on.** Everything after the first package goes to the ring, as far as it is
complete. -/
theorem Good.pushMore (hq : q.Good) (hcomplete : q.Complete fd) (hbuffer : buffer ≠ []) :
    q.Reads (q.pushMore fd buffer) fd (packages.parse buffer) := by
  induction h : buffer.length using Nat.strongRecOn generalizing q buffer with
  | _ n ih =>
      match buffer, hbuffer with
      | [byte], _ =>
          rw [Queue.pushMore]
          exact hq.save_header hcomplete byte
      | high :: low :: buffer, _ =>
          rw [Queue.pushMore]
          dsimp only
          by_cases hshort : buffer.length < readSize high low
          · rw [if_pos hshort]
            exact hq.save_part hcomplete hshort
          · rw [if_neg hshort, parse_package (by omega)]
            have hsize : readSize high low = (buffer.take (readSize high low)).length := by
              rw [List.length_take]
              omega
            refine hq.push_reads hsize ?_
            have hpushed := hq.pushData fd (buffer.take (readSize high low)) (readSize high low)
            split_ifs with hmore
            · refine ih _ ?_ hpushed hcomplete hmore rfl
              rw [List.length_drop, ← h, List.length_cons, List.length_cons]
              omega
            · rw [not_not.mp hmore, packages.parse_nil]
              exact hpushed.reads_nothing hcomplete

/-- What a call of the filter answers: the only package that it completes, or nothing, or that there
are packages in the ring. -/
inductive Answers (q q' : Queue) (fd : Fd) (read : List (List UInt8) × List UInt8) :
    Filtered → Prop where
  | nothing (hreads : q.Reads q' fd read) (hnone : read.1 = []) : Answers q q' fd read .nothing
  | data {buffer : List UInt8} (hreads : q.Reads q' fd ([], [])) (hone : read = ([buffer], [])) :
      Answers q q' fd read (.data fd buffer buffer.length)
  | more (hreads : q.Reads q' fd read) : Answers q q' fd read .more

/-- **Filling.** More of a package whose size is known. -/
theorem Good.fillUncomplete (hq : q.Good) (uc : Uncomplete) (buffer : List UInt8)
    (hcomplete : q.Complete fd)
    (hid : uc.id = fd) (hread : uc.read = uc.buffer.length) (hle : uc.buffer.length ≤ uc.size)
    (hsize : uc.size < 65536) :
    Answers q (q.fillUncomplete uc fd buffer).1 fd
      (packages.parse (UInt8.ofNat (uc.size / 256) :: UInt8.ofNat (uc.size % 256) ::
        (uc.buffer ++ buffer)))
      (q.fillUncomplete uc fd buffer).2 := by
  have hneed : (uc.size : Int) - uc.read = (uc.size - uc.buffer.length : Nat) := by omega
  have hheader := readSize_ofNat hsize
  rw [Queue.fillUncomplete, hneed]
  dsimp only
  rw [Int.toNat_natCast]
  subst hid
  by_cases hshort : buffer.length < uc.size - uc.buffer.length
  · rw [if_pos (by exact_mod_cast hshort)]
    have hlength : (uc.buffer ++ buffer).length < uc.size := by
      rw [List.length_append]
      omega
    refine .nothing ?_ (by rw [parse_short (by rw [hheader]; exact hlength)])
    have hsaved :=
      hq.save { uc with buffer := uc.buffer ++ buffer, read := uc.read + buffer.length }
      hcomplete (.part (by dsimp only; rw [hread, List.length_append]; omega) hlength hsize)
    have hkept : ({ uc with buffer := uc.buffer ++ buffer, read := uc.read + buffer.length } :
        Uncomplete).kept =
        UInt8.ofNat (uc.size / 256) :: UInt8.ofNat (uc.size % 256) :: (uc.buffer ++ buffer) := by
      rw [Uncomplete.kept, if_neg (by dsimp only; omega)]
    rwa [hkept, ← parse_short (by rw [hheader]; exact hlength)] at hsaved
  · rw [if_neg (by exact_mod_cast hshort)]
    have hpackage : readSize (UInt8.ofNat (uc.size / 256)) (UInt8.ofNat (uc.size % 256)) ≤
        (uc.buffer ++ buffer).length := by
      rw [hheader, List.length_append]
      omega
    have hfilled : (uc.buffer ++ buffer.take (uc.size - uc.buffer.length)).length = uc.size := by
      rw [List.length_append, List.length_take]
      omega
    have htake : (uc.buffer ++ buffer).take uc.size =
        uc.buffer ++ buffer.take (uc.size - uc.buffer.length) := by
      rw [List.take_append, List.take_of_length_le hle]
    have hdrop : (uc.buffer ++ buffer).drop uc.size = buffer.drop (uc.size - uc.buffer.length) := by
      rw [List.drop_append, List.drop_eq_nil_of_le hle, List.nil_append]
    rw [parse_package hpackage, hheader, htake, hdrop]
    by_cases hmore : buffer.drop (uc.size - uc.buffer.length) = []
    · rw [if_pos hmore, hmore, packages.parse_nil]
      have hdata : Answers q q uc.id ([uc.buffer ++ buffer.take (uc.size - uc.buffer.length)], [])
          _ :=
        .data (hq.reads_nothing hcomplete) rfl
      rwa [hfilled] at hdata
    · rw [if_neg hmore]
      have hpushed :=
        hq.pushData uc.id (uc.buffer ++ buffer.take (uc.size - uc.buffer.length)) uc.size
      exact .more (hq.push_reads hfilled.symm (hpushed.pushMore hcomplete hmore))

theorem Reads.of_update {q q' q'' : Queue} {read : List (List UInt8) × List UInt8} {t : List UInt8}
    (hrest : q'.rest = Function.update q.rest fd t) (hwaiting : q'.waiting = q.waiting)
    (hreads : q'.Reads q'' fd read) :
    q.Reads q'' fd read where
  good := hreads.good
  rest := by rw [hreads.rest, hrest, Function.update_idem]
  waiting := by rw [hreads.waiting, hwaiting]

theorem Answers.of_update {q q' q'' : Queue} {read : List (List UInt8) × List UInt8}
    {t : List UInt8}
    {filtered : Filtered} (hrest : q'.rest = Function.update q.rest fd t)
    (hwaiting : q'.waiting = q.waiting)
    (hanswers : q'.Answers q'' fd read filtered) : q.Answers q'' fd read filtered := by
  cases hanswers with
  | nothing hreads hnone => exact .nothing (hreads.of_update hrest hwaiting) hnone
  | data hreads hone => exact .data (hreads.of_update hrest hwaiting) hone
  | more hreads => exact .more (hreads.of_update hrest hwaiting)

/-- **The filter.** What comes on a connection is read after what was kept of it, and no assertion
fails. -/
theorem filterData_spec {q : Option Queue} (hq : (getQueue q).Good) (fd : Fd)
    (hbuffer : buffer ≠ []) :
    ∃ q' filtered, filterData q fd buffer = some (q', filtered) ∧
      (getQueue q).Answers (getQueue q') fd
      (packages.parse ((getQueue q).rest fd ++ buffer)) filtered := by
  have hfound : (findUncomplete q fd = none ∧ (getQueue q).Complete fd) ∨
      ∃ uc q', findUncomplete q fd = some (uc, q') ∧ uc.id = fd ∧ uc.Sound ∧
        (getQueue q).rest fd = uc.kept ∧
        q'.Good ∧ q'.Complete fd ∧ q'.rest = Function.update (getQueue q).rest fd [] ∧
          q'.waiting = (getQueue q).waiting := by
    cases q with
    | none => exact .inl ⟨rfl, fun uc huc => absurd huc List.not_mem_nil⟩
    | some q => exact hq.findUncomplete fd
  unfold filterData
  rcases hfound with ⟨hnone, hcomplete⟩ | ⟨uc, q', hfind, hid, hsound, hkept, hq', hcomplete,
    hrest, hwaiting⟩
  · rw [hnone, hcomplete.rest, List.nil_append]
    dsimp only
    match buffer, hbuffer with
    | [byte], _ => exact ⟨_, _, rfl, .nothing (hq.save_header hcomplete byte) (by rw [parse_byte])⟩
    | high :: low :: buffer, _ =>
        dsimp only
        by_cases hshort : buffer.length < readSize high low
        · rw [if_pos hshort]
          exact ⟨_, _, rfl, .nothing (hq.save_part hcomplete hshort) (by rw [parse_short hshort])⟩
        · rw [if_neg hshort]
          by_cases hone : buffer.length = readSize high low
          · rw [if_pos hone, ← hone]
            refine ⟨_, _, rfl, .data (hq.reads_nothing hcomplete) ?_⟩
            rw [parse_package (by omega), ← hone, List.take_length, List.drop_length,
              packages.parse_nil]
          · rw [if_neg hone, parse_package (by omega)]
            have hsize : readSize high low = (buffer.take (readSize high low)).length := by
              rw [List.length_take]
              omega
            have hmore : buffer.drop (readSize high low) ≠ [] := by
              rw [ne_eq, List.drop_eq_nil_iff]
              omega
            have hpushed := hq.pushData fd (buffer.take (readSize high low)) (readSize high low)
            exact ⟨_, _, rfl, .more (hq.push_reads hsize (hpushed.pushMore hcomplete hmore))⟩
  · rw [hfind, hkept]
    dsimp only
    cases hsound with
    | header hread hheader =>
        match buffer, hbuffer with
        | byte :: buffer, _ =>
            rw [if_pos (by omega), if_pos hread]
            have hsize : byte.toNat ||| uc.header <<< 8 =
                readSize (UInt8.ofNat uc.header) byte := by
              rw [readSize, UInt8.toNat_ofNat', Nat.mod_eq_of_lt hheader, Nat.or_comm]
            have hfill := hq'.fillUncomplete
              { uc with size := byte.toNat ||| uc.header <<< 8, buffer := [], read := 0 } buffer
                hcomplete hid rfl
              (Nat.zero_le _) (by rw [hsize]; exact readSize_lt _ _)
            have hstream : uc.kept ++ byte :: buffer = UInt8.ofNat uc.header :: byte :: buffer := by
              rw [Uncomplete.kept, if_pos (by omega)]
              rfl
            dsimp only at hfill
            rw [List.nil_append, hsize, ofNat_readSize_high, ofNat_readSize_low] at hfill
            rw [hstream]
            dsimp only
            rw [hsize]
            exact ⟨_, _, rfl, hfill.of_update hrest hwaiting⟩
    | part hread hshort hsize =>
        rw [if_neg (by omega)]
        have hfill := hq'.fillUncomplete uc buffer hcomplete hid hread hshort.le hsize
        have hstream : uc.kept ++ buffer =
            UInt8.ofNat (uc.size / 256) :: UInt8.ofNat (uc.size % 256) ::
                (uc.buffer ++ buffer) := by
          rw [Uncomplete.kept, if_neg (by omega)]
          rfl
        rw [hstream]
        exact ⟨_, _, rfl, hfill.of_update hrest hwaiting⟩

/-- **Closing.** Nothing is kept for the connection any more. -/
theorem closeUncomplete_spec {q : Option Queue} (hq : (getQueue q).Good) (fd : Fd) :
    (getQueue (closeUncomplete q fd)).Good ∧
      (getQueue (closeUncomplete q fd)).rest = Function.update (getQueue q).rest fd [] ∧
      (getQueue (closeUncomplete q fd)).waiting = (getQueue q).waiting := by
  unfold closeUncomplete
  cases q with
  | none => exact ⟨hq, (Function.update_eq_self_iff.mpr rfl).symm, rfl⟩
  | some q =>
      have hq : q.Good := hq
      rcases hq.findUncomplete fd with ⟨hnone, hcomplete⟩ | ⟨uc, q', hfind, -, -, -, hq', -,
        hrest, hwaiting⟩
      · rw [hnone]
        exact ⟨hq, (Function.update_eq_self_iff.mpr hcomplete.rest.symm).symm, rfl⟩
      · rw [hfind]
        exact ⟨hq', hrest, hwaiting⟩

/-- **The ring.** The packages come out in the order in which they went in. -/
theorem pop_spec {q : Option Queue} (hq : (getQueue q).Good) :
    ((getQueue q).waiting = [] ∧ pop q = none) ∨
      ∃ np q', pop q = some (np, q') ∧ (getQueue q').Good ∧ (getQueue q').rest = (getQueue q).rest ∧
        (getQueue q).waiting = np :: (getQueue q').waiting := by
  cases q with
  | none => exact .inl ⟨rfl, rfl⟩
  | some q =>
      have hq : q.Good := hq
      rcases hq.ring.pop_eq with ⟨hempty, hnone⟩ | ⟨np, ring, hpop, hring, hwaiting⟩
      · exact .inl ⟨hempty, by rw [pop, Option.bind_some, hnone]; rfl⟩
      · refine .inr
          ⟨np, some { q with ring }, by rw [pop, Option.bind_some, hpop]; rfl, ?_, rfl, hwaiting⟩
        exact { hq with ring := hring }

end Operations

end Queue

end SdyServer.Netpack
