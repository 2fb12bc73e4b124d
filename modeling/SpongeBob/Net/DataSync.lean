import Mathlib.Data.List.Basic

/-!
# Exchanging data over a socket

The two sides of a connection exchange messages of a known size: {lit}`DataSyncwithSocket`
writes its own and then reads until it has counted as many bytes.  A peer may deliver
them in pieces, stop in the middle, or fail.
-/

namespace SpongeBob
namespace Net
namespace DataSync

/-!
# Reads
-/

/-- What a {lit}`read` of the socket returns. -/
inductive Read where
  | data (bytes : List UInt8)
  | closed
  | failed
deriving DecidableEq, Repr

namespace Read

def bytes : Read -> List UInt8
  | data bytes => bytes
  | _ => []

/-- The return value: the number of bytes, 0 at the end of the stream, or -1. -/
def readBytes : Read -> Int
  | data bytes => bytes.length
  | closed => 0
  | failed => -1

/-- The buffer afterwards; the bytes are put at its start. -/
def fill (remoteData : List UInt8) (read : Read) : List UInt8 :=
  read.bytes ++ remoteData.drop read.bytes.length

end Read

/-- The bytes that some reads deliver. -/
def delivered (reads : List Read) : List UInt8 :=
  reads.flatMap Read.bytes

/-!
# The exchange
-/

/--
The loop, given the results of the reads from here on; with it come the results that are
left.  Without a further result it is still reading.
-/
def readLoop (size : Nat) (rc : Int) (totalReadBytes : Nat) (remoteData : List UInt8) :
    List Read -> Option (Int × List UInt8 × List Read)
  | [] => if rc = 0 ∧ totalReadBytes < size then none else some (rc, remoteData, [])
  | read :: rest =>
      if rc = 0 ∧ totalReadBytes < size then
        if 0 < read.readBytes then
          readLoop size rc (totalReadBytes + read.bytes.length) (read.fill remoteData) rest
        else
          readLoop size read.readBytes totalReadBytes remoteData rest
      else some (rc, remoteData, read :: rest)

/-- The outcome of an exchange. -/
structure Synced where
  rc : Int
  /-- What has been written to the peer. -/
  sent : List UInt8
  remoteData : List UInt8
  /-- The reads that are left to the next exchange. -/
  rest : List Read
deriving DecidableEq, Repr

/-- The exchange, given the result of its {lit}`write` and those of the reads to come. -/
def dataSyncwithSocket (size : Nat) (localData remoteData : List UInt8) (written : Int)
    (reads : List Read) : Option Synced :=
  let rc := if written < size then written else 0
  (readLoop size rc 0 remoteData reads).map (fun (rc, remoteData, rest) =>
    { rc := rc
      sent := localData.take written.toNat
      remoteData := remoteData
      rest := rest })

/-!
# What is expected
-/

/-- The results that reads of {lit}`size` bytes can have. -/
def Possible (size : Nat) (reads : List Read) : Prop :=
  forall bytes, Read.data bytes ∈ reads -> bytes ≠ [] ∧ bytes.length ≤ size

/--
For all data in the two buffers, an exchange that does not report an error has written
all of its data and holds the next bytes of the stream, and the next exchange continues
after these.
-/
def ReassemblesRight (size : Nat) (written : Int) (reads : List Read) : Prop :=
  forall (localData remoteData : List UInt8) (result : Synced),
    localData.length = size -> remoteData.length = size ->
    dataSyncwithSocket size localData remoteData written reads = some result ->
    0 ≤ result.rc ->
      result.sent = localData ∧
      result.remoteData = (delivered reads).take size ∧
      size ≤ (delivered reads).length ∧
      delivered result.rest = (delivered reads).drop size

/-- The bytes that arrive before a read fails. -/
def arrived : List Read -> List UInt8
  | [] => []
  | Read.failed :: _ => []
  | read :: rest => read.bytes ++ arrived rest

/-- The first piece that arrives. -/
def firstPiece : List Read -> Option (List UInt8)
  | Read.data bytes :: _ => some bytes
  | Read.closed :: rest => firstPiece rest
  | _ => none

/--
The write fails; or everything is written and the message comes in one piece; or the
write reports all or nothing and the message does not arrive.
-/
def ComesWhole (size : Nat) (written : Int) (reads : List Read) : Prop :=
  written < 0 ∨
    (written = size ∧ exists bytes, firstPiece reads = some bytes ∧ bytes.length = size) ∨
    ((written = 0 ∨ written = size) ∧ (arrived reads).length < size)

/--
After the given results the peer is gone, which all further reads say with the same
result.  The exchange is over after finitely many reads, with an error if the bytes were
too few.
-/
def EndsRight (size : Nat) (written : Int) (reads : List Read) (gone : Read) : Prop :=
  forall (localData remoteData : List UInt8),
    exists (count : Nat) (result : Synced),
      dataSyncwithSocket size localData remoteData written
        (reads ++ List.replicate count gone) = some result ∧
      ((delivered reads).length < size -> result.rc < 0)

/--
Enough bytes are delivered, or the write fails, or the write reports all or nothing and
a read fails.
-/
def Notices (size : Nat) (written : Int) (reads : List Read) (gone : Read) : Prop :=
  size ≤ (delivered reads).length ∨ written < 0 ∨
    ((written = 0 ∨ written = size) ∧ (Read.failed ∈ reads ∨ gone = Read.failed))

/-!
# Runs of the loop
-/

section Loop

variable {size total : Nat} {reads rest : List Read} {remoteData buffer : List UInt8} {rc : Int}

@[simp] theorem delivered_nil : delivered [] = [] :=
  rfl

@[simp] theorem delivered_cons (read : Read) (reads : List Read) :
    delivered (read :: reads) = read.bytes ++ delivered reads :=
  rfl

@[simp] theorem delivered_append (reads reads' : List Read) :
    delivered (reads ++ reads') = delivered reads ++ delivered reads' :=
  List.flatMap_append

@[simp] theorem arrived_nil : arrived [] = [] :=
  rfl

@[simp] theorem arrived_data (bytes : List UInt8) (reads : List Read) :
    arrived (Read.data bytes :: reads) = bytes ++ arrived reads :=
  rfl

@[simp] theorem arrived_closed (reads : List Read) :
    arrived (Read.closed :: reads) = arrived reads :=
  rfl

@[simp] theorem arrived_failed (reads : List Read) : arrived (Read.failed :: reads) = [] :=
  rfl

theorem readLoop_of_rc (hrc : rc ≠ 0) :
    readLoop size rc total remoteData reads = some (rc, remoteData, reads) := by
  have hstop : ¬ (rc = 0 ∧ total < size) := fun h => hrc h.1
  cases reads with
  | nil => rw [readLoop, if_neg hstop]
  | cons read rest => rw [readLoop, if_neg hstop]

theorem readLoop_of_full (hfull : size ≤ total) :
    readLoop size rc total remoteData reads = some (rc, remoteData, reads) := by
  have hstop : ¬ (rc = 0 ∧ total < size) := fun h => Nat.not_lt_of_le hfull h.2
  cases reads with
  | nil => rw [readLoop, if_neg hstop]
  | cons read rest => rw [readLoop, if_neg hstop]

theorem readLoop_nil (hmore : total < size) : readLoop size 0 total remoteData [] = none :=
  if_pos ⟨rfl, hmore⟩

theorem readLoop_data {bytes : List UInt8} (hmore : total < size) (hbytes : bytes ≠ []) :
    readLoop size 0 total remoteData (Read.data bytes :: rest) =
      readLoop size 0 (total + bytes.length) ((Read.data bytes).fill remoteData) rest := by
  have hpos : 0 < (Read.data bytes).readBytes :=
    Int.natCast_pos.mpr (List.length_pos_iff.mpr hbytes)
  rw [readLoop, if_pos ⟨rfl, hmore⟩, if_pos hpos]
  rfl

/-- At the end of the stream the loop reads again. -/
theorem readLoop_closed (hmore : total < size) :
    readLoop size 0 total remoteData (Read.closed :: rest) =
      readLoop size 0 total remoteData rest := by
  rw [readLoop, if_pos ⟨rfl, hmore⟩, if_neg (by decide)]
  rfl

theorem readLoop_failed (hmore : total < size) :
    readLoop size 0 total remoteData (Read.failed :: rest) = some (-1, remoteData, rest) := by
  rw [readLoop, if_pos ⟨rfl, hmore⟩, if_neg (by decide)]
  exact readLoop_of_rc (by decide)

theorem Possible.tail {read : Read} (h : Possible size (read :: rest)) : Possible size rest :=
  fun bytes hmem => h bytes (List.mem_cons_of_mem read hmem)

theorem Possible.head {bytes : List UInt8} (h : Possible size (Read.data bytes :: rest)) :
    bytes ≠ [] ∧ bytes.length ≤ size :=
  h bytes List.mem_cons_self

/-- If too few bytes arrive the loop does not end well. -/
theorem readLoop_starved (hpossible : Possible size reads)
    (hfew : total + (arrived reads).length < size) {result : Int × List UInt8 × List Read}
    (hloop : readLoop size 0 total remoteData reads = some result) : result.1 < 0 := by
  induction reads generalizing total remoteData with
  | nil =>
      rw [readLoop_nil (by simpa [arrived] using hfew)] at hloop
      cases hloop
  | cons read rest ih =>
      have hmore : total < size := by omega
      cases read with
      | data bytes =>
          rw [readLoop_data hmore hpossible.head.1] at hloop
          apply ih hpossible.tail ?_ hloop
          rw [arrived_data, List.length_append] at hfew
          omega
      | closed =>
          rw [readLoop_closed hmore] at hloop
          exact ih hpossible.tail hfew hloop
      | failed =>
          rw [readLoop_failed hmore] at hloop
          cases hloop
          show (-1 : Int) < 0
          decide

/-- If enough bytes arrive the loop ends. -/
theorem readLoop_arrived (hpossible : Possible size reads)
    (henough : size ≤ total + (arrived reads).length) :
    exists buffer rest, readLoop size 0 total remoteData reads = some (0, buffer, rest) := by
  induction reads generalizing total remoteData with
  | nil => exact ⟨_, _, readLoop_of_full (by simpa [arrived] using henough)⟩
  | cons read rest ih =>
      cases Nat.lt_or_ge total size with
      | inr hfull => exact ⟨_, _, readLoop_of_full hfull⟩
      | inl hmore =>
          cases read with
          | data bytes =>
              rw [readLoop_data hmore hpossible.head.1]
              apply ih hpossible.tail
              rw [arrived_data, List.length_append] at henough
              omega
          | closed =>
              rw [readLoop_closed hmore]
              exact ih hpossible.tail henough
          | failed =>
              rw [arrived_failed, List.length_nil] at henough
              omega

/-- A loop that ends well has put the pieces into the buffer one after the other. -/
theorem readLoop_used (hpossible : Possible size reads)
    (hloop : readLoop size 0 total remoteData reads = some (0, buffer, rest)) :
    exists used, reads = used ++ rest ∧ Read.failed ∉ used ∧
      size ≤ total + (delivered used).length ∧ buffer = used.foldl Read.fill remoteData := by
  induction reads generalizing total remoteData with
  | nil =>
      cases Nat.lt_or_ge total size with
      | inr hfull =>
          rw [readLoop_of_full hfull] at hloop
          cases hloop
          exact ⟨[], rfl, List.not_mem_nil, hfull, rfl⟩
      | inl hmore =>
          rw [readLoop_nil hmore] at hloop
          cases hloop
  | cons read reads ih =>
      cases Nat.lt_or_ge total size with
      | inr hfull =>
          rw [readLoop_of_full hfull] at hloop
          cases hloop
          exact ⟨[], rfl, List.not_mem_nil, hfull, rfl⟩
      | inl hmore =>
          cases read with
          | data bytes =>
              rw [readLoop_data hmore hpossible.head.1] at hloop
              rcases ih hpossible.tail hloop with ⟨used, hreads, hfailed, henough, hbuffer⟩
              exists Read.data bytes :: used
              constructor
              · rw [hreads]
                rfl
              constructor
              · simpa using hfailed
              constructor
              · rw [delivered_cons, List.length_append, ← Nat.add_assoc]
                exact henough
              · exact hbuffer
          | closed =>
              rw [readLoop_closed hmore] at hloop
              rcases ih hpossible.tail hloop with ⟨used, hreads, hfailed, henough, hbuffer⟩
              exists Read.closed :: used
              constructor
              · rw [hreads]
                rfl
              constructor
              · simpa using hfailed
              constructor
              · exact henough
              · exact hbuffer
          | failed =>
              rw [readLoop_failed hmore] at hloop
              cases hloop

/-- A message that comes in one piece fills the buffer. -/
theorem readLoop_whole {bytes : List UInt8} (hsize : 1 ≤ size)
    (hpiece : firstPiece reads = some bytes) (hbytes : bytes.length = size)
    (hbuffer : remoteData.length = size) :
    exists rest, readLoop size 0 0 remoteData reads = some (0, bytes, rest) ∧
      delivered reads = bytes ++ delivered rest := by
  induction reads with
  | nil => cases hpiece
  | cons read reads ih =>
      cases read with
      | data bytes' =>
          cases hpiece
          exists reads
          have hne : bytes ≠ [] := by
            intro h
            rw [h] at hbytes
            cases hbytes
            cases hsize
          rw [readLoop_data hsize hne, readLoop_of_full (by omega)]
          constructor
          · have hdrop : remoteData.drop bytes.length = [] :=
              List.drop_eq_nil_of_le (by omega)
            simp only [Read.fill, Read.bytes, hdrop, List.append_nil]
          · rfl
      | closed =>
          rw [readLoop_closed hsize]
          exact ih hpiece
      | failed => cases hpiece

/-- Pieces that are too short for the buffer leave its last byte alone. -/
theorem getElem?_foldl_fill {k : Nat} (remoteData : List UInt8)
    (hshort : forall bytes, Read.data bytes ∈ reads -> bytes.length ≤ k) :
    (reads.foldl Read.fill remoteData)[k]? = remoteData[k]? := by
  induction reads generalizing remoteData with
  | nil => rfl
  | cons read reads ih =>
      have hread : read.bytes.length ≤ k := by
        cases read with
        | data bytes => exact hshort bytes List.mem_cons_self
        | closed => exact Nat.zero_le k
        | failed => exact Nat.zero_le k
      rw [List.foldl_cons, ih _ (fun bytes hmem => hshort bytes (List.mem_cons_of_mem read hmem)),
        Read.fill, List.getElem?_append_right hread, List.getElem?_drop,
        Nat.add_sub_cancel' hread]

theorem length_le_delivered {bytes : List UInt8} (hmem : Read.data bytes ∈ reads) :
    bytes.length ≤ (delivered reads).length := by
  rw [delivered, List.flatMap_def]
  have hpiece : bytes ∈ reads.map Read.bytes := List.mem_map_of_mem hmem
  exact (List.sublist_flatten_of_mem hpiece).length_le

/-- If a piece is all that has been delivered it is the first piece. -/
theorem firstPiece_of_length {used : List Read} {bytes : List UInt8}
    (hpossible : Possible size (used ++ rest)) (hfailed : Read.failed ∉ used)
    (hmem : Read.data bytes ∈ used) (hlength : (delivered used).length = bytes.length) :
    firstPiece (used ++ rest) = some bytes := by
  induction used with
  | nil => cases hmem
  | cons read used ih =>
      cases read with
      | data bytes' =>
          cases List.mem_cons.mp hmem with
          | inl heq =>
              cases heq
              rfl
          | inr htail =>
              have hne := List.length_pos_iff.mpr hpossible.head.1
              have hsub := length_le_delivered htail
              rw [delivered_cons, List.length_append] at hlength
              simp only [Read.bytes] at hlength
              omega
      | closed =>
          have htail : Read.data bytes ∈ used := by
            simpa using hmem
          exact ih hpossible.tail (fun h => hfailed (List.mem_cons_of_mem _ h)) htail hlength
      | failed => exact absurd List.mem_cons_self hfailed

/-- Every byte that arrives is delivered. -/
theorem length_arrived_le (reads : List Read) :
    (arrived reads).length ≤ (delivered reads).length := by
  induction reads with
  | nil => exact Nat.le_refl 0
  | cons read reads ih =>
      cases read with
      | data bytes =>
          rw [arrived_data, delivered_cons, List.length_append, List.length_append]
          exact Nat.add_le_add_left ih _
      | closed => exact ih
      | failed => exact Nat.zero_le _

/-- If no read fails, whatever is delivered arrives. -/
theorem arrived_of_not_failed (hfailed : Read.failed ∉ reads) :
    arrived reads = delivered reads := by
  induction reads with
  | nil => rfl
  | cons read reads ih =>
      have htail := ih (fun h => hfailed (List.mem_cons_of_mem read h))
      cases read with
      | data bytes =>
          rw [arrived_data, htail]
          rfl
      | closed => exact htail
      | failed => exact absurd List.mem_cons_self hfailed

/-- A read that fails ends the loop. -/
theorem readLoop_of_failed (hpossible : Possible size reads) (hfailed : Read.failed ∈ reads) :
    exists result, readLoop size 0 total remoteData reads = some result := by
  induction reads generalizing total remoteData with
  | nil => cases hfailed
  | cons read reads ih =>
      cases Nat.lt_or_ge total size with
      | inr hfull => exact ⟨_, readLoop_of_full hfull⟩
      | inl hmore =>
          cases read with
          | data bytes =>
              rw [readLoop_data hmore hpossible.head.1]
              exact ih hpossible.tail (by simpa using hfailed)
          | closed =>
              rw [readLoop_closed hmore]
              exact ih hpossible.tail (by simpa using hfailed)
          | failed => exact ⟨_, readLoop_failed hmore⟩

/-- If no read fails, a loop that is short of bytes does not end. -/
theorem readLoop_waits (hpossible : Possible size reads) (hfailed : Read.failed ∉ reads)
    (hfew : total + (delivered reads).length < size) :
    readLoop size 0 total remoteData reads = none := by
  induction reads generalizing total remoteData with
  | nil => exact readLoop_nil hfew
  | cons read reads ih =>
      have hmore : total < size := by omega
      have htail : Read.failed ∉ reads := fun h => hfailed (List.mem_cons_of_mem read h)
      rw [delivered_cons, List.length_append] at hfew
      cases read with
      | data bytes =>
          rw [readLoop_data hmore hpossible.head.1]
          apply ih hpossible.tail htail
          rw [Nat.add_assoc]
          exact hfew
      | closed =>
          rw [readLoop_closed hmore]
          apply ih hpossible.tail htail
          simpa [Read.bytes] using hfew
      | failed => exact absurd List.mem_cons_self hfailed

end Loop

/-!
# The bytes of a message
-/

section Exchange

variable {size : Nat} {reads : List Read} {localData remoteData : List UInt8} {written : Int}
  {gone : Read}

/-- The outcome of an exchange whose loop has ended. -/
def synced (localData : List UInt8) (written : Int) (result : Int × List UInt8 × List Read) :
    Synced where
  rc := result.1
  sent := localData.take written.toNat
  remoteData := result.2.1
  rest := result.2.2

theorem dataSync_eq :
    dataSyncwithSocket size localData remoteData written reads =
      (readLoop size (if written < size then written else 0) 0 remoteData reads).map
        (synced localData written) :=
  rfl

theorem dataSync_of_written (h : written = 0 ∨ written = size) :
    dataSyncwithSocket size localData remoteData written reads =
      (readLoop size 0 0 remoteData reads).map (synced localData written) := by
  have hrc : (if written < size then written else 0) = 0 := by
    cases h with
    | inl hzero =>
        rw [hzero]
        exact ite_self 0
    | inr hsize =>
        rw [hsize]
        exact if_neg (Int.lt_irrefl _)
  rw [dataSync_eq, hrc]

/-- After a short write the exchange returns without a read. -/
theorem dataSync_of_short (hshort : written < size) (hzero : written ≠ 0) :
    dataSyncwithSocket size localData remoteData written reads =
      some (synced localData written (written, remoteData, reads)) := by
  rw [dataSync_eq, if_pos hshort, readLoop_of_rc hzero]
  rfl

theorem reassembles_of_starved (hpossible : Possible size reads)
    (hwritten : written = 0 ∨ written = size) (hfew : (arrived reads).length < size) :
    ReassemblesRight size written reads := by
  intro localData remoteData result _ _ hsync hrc
  rw [dataSync_of_written hwritten] at hsync
  rcases Option.map_eq_some_iff.mp hsync with ⟨loop, hloop, hresult⟩
  have hneg := readLoop_starved hpossible (by omega) hloop
  subst hresult
  exact absurd hrc (Int.not_le.mpr hneg)

theorem reassembles_of_whole {bytes : List UInt8} (hsize : 1 ≤ size)
    (hpiece : firstPiece reads = some bytes) (hbytes : bytes.length = size) :
    ReassemblesRight size size reads := by
  intro localData remoteData result hlocal hremote hsync _
  rcases readLoop_whole hsize hpiece hbytes hremote with ⟨rest, hloop, hdelivered⟩
  rw [dataSync_of_written (Or.inr rfl), hloop] at hsync
  cases hsync
  rw [hdelivered, ← hbytes]
  constructor
  · apply List.take_of_length_le
    rw [Int.toNat_natCast]
    omega
  constructor
  · exact (List.take_left' rfl).symm
  constructor
  · rw [List.length_append]
    omega
  · exact (List.drop_left' rfl).symm

/-- A message in several pieces is not put together. -/
theorem whole_of_reassembles (hsize : 1 ≤ size) (hpossible : Possible size reads)
    (henough : size ≤ (arrived reads).length) (h : ReassemblesRight size size reads) :
    exists bytes, firstPiece reads = some bytes ∧ bytes.length = size := by
  have hlast : size - 1 < (delivered reads).length := by
    have hle := length_arrived_le reads
    omega
  -- a buffer whose last byte is not the one that is expected there
  let remoteData := List.replicate size ((delivered reads)[size - 1] + 1)
  have hremote : remoteData.length = size := List.length_replicate
  have hstart : size ≤ 0 + (arrived reads).length := by omega
  rcases readLoop_arrived hpossible hstart with ⟨buffer, rest, hloop⟩
  rcases h (List.replicate size 0) remoteData (synced _ _ (0, buffer, rest))
    List.length_replicate hremote (by rw [dataSync_of_written (Or.inr rfl), hloop]; rfl)
    (Int.le_refl 0) with ⟨_, hbuffer, _, hrest⟩
  rcases readLoop_used hpossible hloop with ⟨used, hreads, hfailed, henough, hfold⟩
  by_cases hshort : forall bytes, Read.data bytes ∈ used -> bytes.length ≤ size - 1
  · -- the last byte of the buffer is still the wrong one
    have hkept := getElem?_foldl_fill remoteData hshort
    have hwrong : remoteData[size - 1]? = some ((delivered reads)[size - 1] + 1) :=
      List.getElem?_replicate_of_lt (by omega)
    have hright : ((delivered reads).take size)[size - 1]? =
        some (delivered reads)[size - 1] := by
      rw [List.getElem?_take_of_lt (by omega)]
      exact List.getElem?_eq_getElem hlast
    have hbuffer' : used.foldl Read.fill remoteData = (delivered reads).take size :=
      hfold.symm.trans hbuffer
    rw [hbuffer', hright, hwrong] at hkept
    exact absurd (Option.some.inj hkept).symm (by simp)
  · rcases not_forall.mp hshort with ⟨bytes, hnot⟩
    rcases Classical.not_imp.mp hnot with ⟨hmem, hlong⟩
    have hbytes : bytes.length = size := by
      have hle := (hpossible bytes (by
        rw [hreads]
        exact List.mem_append_left rest hmem)).2
      omega
    have hlength : (delivered used).length = bytes.length := by
      have htotal := congrArg List.length hrest
      rw [List.length_drop, hreads, delivered_append, List.length_append] at htotal
      simp only [synced] at htotal
      omega
    exists bytes
    constructor
    · rw [hreads] at hpossible ⊢
      exact firstPiece_of_length hpossible hfailed hmem hlength
    · exact hbytes

/-- A short write is taken for a success. -/
theorem not_reassembles_of_short (hpos : 0 < written) (hshort : written < size) :
    ¬ ReassemblesRight size written reads := by
  intro h
  have hsent := (h (List.replicate size 0) (List.replicate size 0) _ List.length_replicate
    List.length_replicate (dataSync_of_short hshort (by omega)) (Int.le_of_lt hpos)).1
  have hlength := congrArg List.length hsent
  simp only [synced, List.length_take, List.length_replicate] at hlength
  omega

/-- If nothing has been written, an exchange that ends well is wrong. -/
theorem not_reassembles_of_zero (hsize : 1 ≤ size) (hpossible : Possible size reads)
    (henough : size ≤ (arrived reads).length) : ¬ ReassemblesRight size 0 reads := by
  intro h
  have hstart : size ≤ 0 + (arrived reads).length := by omega
  rcases readLoop_arrived hpossible hstart with ⟨buffer, rest, hloop⟩
  have hsent := (h (List.replicate size 0) (List.replicate size 0)
    (synced _ _ (0, buffer, rest)) List.length_replicate List.length_replicate
    (by rw [dataSync_of_written (Or.inl rfl), hloop]; rfl) (Int.le_refl 0)).1
  have hlength := congrArg List.length hsent
  simp only [synced, List.length_take, List.length_replicate] at hlength
  omega

end Exchange

/--
For every size, every result of the write and all reads, an exchange that reports no
error has exchanged the message exactly when the write fails, or everything is written
and comes in one piece, or the bytes do not arrive.
-/
theorem reassembles_iff_comesWhole {size : Nat} {written : Int} {reads : List Read}
    (hsize : 1 ≤ size) (hwritten : written ≤ size) (hpossible : Possible size reads) :
    ReassemblesRight size written reads ↔ ComesWhole size written reads := by
  rcases Int.lt_trichotomy written 0 with hneg | hzero | hpos
  · apply iff_of_true
    · intro localData remoteData result _ _ hsync hrc
      rw [dataSync_of_short (by omega) (by omega)] at hsync
      cases hsync
      exact absurd hrc (Int.not_le.mpr hneg)
    · exact Or.inl hneg
  · subst hzero
    cases Nat.lt_or_ge (arrived reads).length size with
    | inl hfew =>
        exact iff_of_true (reassembles_of_starved hpossible (Or.inl rfl) hfew)
          (Or.inr (Or.inr ⟨Or.inl rfl, hfew⟩))
    | inr henough =>
        apply iff_of_false (not_reassembles_of_zero hsize hpossible henough)
        rintro (hneg | ⟨hall, _⟩ | ⟨_, hfew⟩) <;> omega
  · cases Int.lt_or_eq_of_le hwritten with
    | inl hshort =>
        apply iff_of_false (not_reassembles_of_short hpos hshort)
        rintro (hneg | ⟨hall, _⟩ | ⟨hzero | hall, _⟩) <;> omega
    | inr hall =>
        subst hall
        constructor
        · intro h
          cases Nat.lt_or_ge (arrived reads).length size with
          | inl hfew => exact Or.inr (Or.inr ⟨Or.inr rfl, hfew⟩)
          | inr henough =>
              exact Or.inr (Or.inl ⟨rfl, whole_of_reassembles hsize hpossible henough h⟩)
        · rintro (hneg | ⟨_, bytes, hpiece, hbytes⟩ | ⟨_, hfew⟩)
          · omega
          · exact reassembles_of_whole hsize hpiece hbytes
          · exact reassembles_of_starved hpossible (Or.inr rfl) hfew

/-- A message of two bytes in one piece, with the next message behind it. -/
theorem reassembles_iff_comesWhole_onePiece :
    ReassemblesRight 2 2 [Read.data [1, 2], Read.data [3]] := by
  apply (reassembles_iff_comesWhole (by decide) (by decide) ?_).mpr
  · exact Or.inr (Or.inl ⟨rfl, [1, 2], rfl, rfl⟩)
  · intro bytes hmem
    simp only [List.mem_cons, Read.data.injEq, List.not_mem_nil, or_false] at hmem
    rcases hmem with rfl | rfl <;> decide

/-- In two pieces, the second byte is put over the first one. -/
theorem not_reassembles_twoPieces :
    ¬ forall (size : Nat) (written : Int) (reads : List Read), 1 ≤ size -> -1 ≤ written ->
      written ≤ size -> Possible size reads -> ReassemblesRight size written reads := by
  intro h
  have hpossible : Possible 2 [Read.data [1], Read.data [2]] := by
    intro bytes hmem
    simp only [List.mem_cons, Read.data.injEq, List.not_mem_nil, or_false] at hmem
    rcases hmem with rfl | rfl <;> decide
  have hright := h 2 2 [Read.data [1], Read.data [2]] (by decide) (by decide) (by decide)
    hpossible [8, 9] [0, 0] ⟨0, [8, 9], [2, 0], []⟩ rfl rfl rfl (by decide)
  exact absurd hright.2.1 (by decide)

/-!
# Disconnecting peers
-/

section Endings

variable {size : Nat} {reads : List Read} {written : Int} {gone : Read}

theorem Possible.append_replicate (h : Possible size reads)
    (hgone : gone = Read.closed ∨ gone = Read.failed) (count : Nat) :
    Possible size (reads ++ List.replicate count gone) := by
  intro bytes hmem
  cases List.mem_append.mp hmem with
  | inl hreads => exact h bytes hreads
  | inr hrep =>
      have heq := List.eq_of_mem_replicate hrep
      cases hgone with
      | inl hclosed =>
          rw [hclosed] at heq
          cases heq
      | inr hfailed =>
          rw [hfailed] at heq
          cases heq

theorem delivered_replicate (hgone : gone = Read.closed ∨ gone = Read.failed) (count : Nat) :
    delivered (List.replicate count gone) = [] := by
  have hbytes : gone.bytes = [] := by
    cases hgone with
    | inl hclosed => rw [hclosed]; rfl
    | inr hfailed => rw [hfailed]; rfl
  rw [delivered, List.flatMap_replicate]
  simp [hbytes]

theorem delivered_gone (hgone : gone = Read.closed ∨ gone = Read.failed) (count : Nat) :
    delivered (reads ++ List.replicate count gone) = delivered reads := by
  rw [delivered_append, delivered_replicate hgone, List.append_nil]

theorem endsRight_of_short (hshort : written < size) (hzero : written ≠ 0) :
    EndsRight size written reads gone ↔
      ((delivered reads).length < size -> written < 0) := by
  constructor
  · intro h hfew
    rcases h [] [] with ⟨count, result, hsync, hneg⟩
    rw [dataSync_of_short hshort hzero] at hsync
    cases hsync
    exact hneg hfew
  · intro h localData remoteData
    exact ⟨0, _, dataSync_of_short hshort hzero, h⟩

/-- With enough bytes, or a read that fails, the exchange is over in the end. -/
theorem endsRight_of_noticed (hpossible : Possible size reads)
    (hgone : gone = Read.closed ∨ gone = Read.failed) (hwritten : written = 0 ∨ written = size)
    (h : size ≤ (delivered reads).length ∨ Read.failed ∈ reads ∨ gone = Read.failed) :
    EndsRight size written reads gone := by
  intro localData remoteData
  have hall := hpossible.append_replicate hgone 1
  have hends : exists loop, readLoop size 0 0 remoteData
      (reads ++ List.replicate 1 gone) = some loop := by
    by_cases hfailed : Read.failed ∈ reads ++ List.replicate 1 gone
    · exact readLoop_of_failed hall hfailed
    · have henough : size ≤ 0 + (arrived (reads ++ List.replicate 1 gone)).length := by
        rw [arrived_of_not_failed hfailed, delivered_gone hgone, Nat.zero_add]
        apply h.resolve_right
        rintro (hmem | hlast)
        · exact hfailed (List.mem_append_left _ hmem)
        · apply hfailed
          rw [hlast]
          exact List.mem_append_right reads List.mem_cons_self
      rcases readLoop_arrived hall henough with ⟨buffer, rest, hloop⟩
      exact ⟨_, hloop⟩
  rcases hends with ⟨loop, hloop⟩
  exists 1, synced localData written loop
  constructor
  · rw [dataSync_of_written hwritten, hloop]
    rfl
  · intro hfew
    apply readLoop_starved hall ?_ hloop
    have hle := length_arrived_le (reads ++ List.replicate 1 gone)
    rw [delivered_gone hgone] at hle
    omega

/-- When the peer is gone before enough bytes, and no read says so, the loop does not end. -/
theorem not_endsRight_of_silent (hpossible : Possible size reads)
    (hgone : gone = Read.closed ∨ gone = Read.failed) (hwritten : written = 0 ∨ written = size)
    (hfew : (delivered reads).length < size) (hfailed : Read.failed ∉ reads)
    (hsilent : gone ≠ Read.failed) : ¬ EndsRight size written reads gone := by
  intro h
  rcases h [] [] with ⟨count, result, hsync, _⟩
  have hnone : Read.failed ∉ reads ++ List.replicate count gone := by
    intro hmem
    cases List.mem_append.mp hmem with
    | inl hreads => exact hfailed hreads
    | inr hrep => exact hsilent (List.eq_of_mem_replicate hrep).symm
  have hstart : 0 + (delivered (reads ++ List.replicate count gone)).length < size := by
    rw [delivered_gone hgone]
    omega
  have hloop : readLoop size 0 0 [] (reads ++ List.replicate count gone) = none :=
    readLoop_waits (hpossible.append_replicate hgone count) hnone hstart
  rw [dataSync_of_written hwritten, hloop] at hsync
  cases hsync

end Endings

/--
For every size, every result of the write and all reads before the peer is gone, the
exchange ends after finitely many reads, with an error if it lacks bytes, exactly when
there are enough bytes, or the write fails, or it reports all or nothing and a read fails.
-/
theorem endsRight_iff_notices {size : Nat} {written : Int} {reads : List Read} {gone : Read}
    (hsize : 1 ≤ size) (hwritten : written ≤ size) (hpossible : Possible size reads)
    (hgone : gone = Read.closed ∨ gone = Read.failed) :
    EndsRight size written reads gone ↔ Notices size written reads gone := by
  by_cases hready : written = 0 ∨ written = size
  · constructor
    · intro h
      by_cases henough : size ≤ (delivered reads).length
      · exact Or.inl henough
      · apply Or.inr
        apply Or.inr
        constructor
        · exact hready
        · apply Classical.byContradiction
          intro hnone
          rcases not_or.mp hnone with ⟨hfailed, hsilent⟩
          exact not_endsRight_of_silent hpossible hgone hready (by omega) hfailed hsilent h
    · rintro (henough | hneg | ⟨_, hfails⟩)
      · exact endsRight_of_noticed hpossible hgone hready (Or.inl henough)
      · omega
      · exact endsRight_of_noticed hpossible hgone hready (Or.inr hfails)
  · rcases not_or.mp hready with ⟨hzero, hall⟩
    rw [endsRight_of_short (by omega) hzero]
    constructor
    · intro h
      by_cases henough : size ≤ (delivered reads).length
      · exact Or.inl henough
      · exact Or.inr (Or.inl (h (by omega)))
    · rintro (henough | hneg | ⟨hready', _⟩) hfew
      · omega
      · exact hneg
      · exact absurd hready' hready

/-- A peer that disconnects in the middle of a message, which a read reports. -/
theorem endsRight_iff_notices_reset : EndsRight 2 2 [Read.data [1]] Read.failed := by
  apply (endsRight_iff_notices (by decide) (by decide) ?_ (Or.inr rfl)).mpr
  · exact Or.inr (Or.inr ⟨Or.inr rfl, Or.inr rfl⟩)
  · intro bytes hmem
    cases List.mem_singleton.mp hmem
    decide

/-- A peer that closes the connection in the middle of a message is waited for forever. -/
theorem not_endsRight_closed :
    ¬ forall (size : Nat) (written : Int) (reads : List Read) (gone : Read), 1 ≤ size ->
      -1 ≤ written -> written ≤ size -> Possible size reads ->
      (gone = Read.closed ∨ gone = Read.failed) -> EndsRight size written reads gone := by
  intro h
  have hpossible : Possible 2 [Read.data [1]] := by
    intro bytes hmem
    cases List.mem_singleton.mp hmem
    decide
  have hends := h 2 2 [Read.data [1]] Read.closed (by decide) (by decide) (by decide) hpossible
    (Or.inl rfl)
  exact not_endsRight_of_silent hpossible (Or.inl rfl) (Or.inr rfl) (by decide) (by decide)
    (by decide) hends

end DataSync
end Net
end SpongeBob
