import Mathlib.Algebra.Group.Nat.Defs
import PBus.Foundation.Delimited

/-! The resumable halves of a transfer, `WriteTask` and `ReadTask` of `LocalBusConnection.h`,
and the frames they carry: a little-endian 32-bit length and as many bytes. -/
namespace PBus.Connection

/-- What byte arrays are made of. A connection looks at the value of a byte only to read a
length and otherwise copies it, so a cell may also say where in a stream it came from. -/
class Cell (β : Type) where
  octet : β → UInt8
  blank : β

instance : Cell UInt8 := ⟨id, 0⟩

/-- A byte and its position in a stream. -/
instance : Cell (Nat × UInt8) := ⟨Prod.snd, (0, 0)⟩

/-- `LittleEndianDataOutputStream::WriteU32`. The argument is a 32-bit parameter. -/
def writeU32 (n : Nat) : List UInt8 :=
  [n.toUInt8, (n / 2 ^ 8).toUInt8, (n / 2 ^ 16).toUInt8, (n / 2 ^ 24).toUInt8]

/-- The frame `MakeRequest` and `OnIncomingInvoke` build around a payload. -/
def frame (payload : List UInt8) : List UInt8 := writeU32 payload.length ++ payload

structure WriteTask (β : Type) where
  data : List β
  offset : Nat := 0
  deriving DecidableEq, Repr

namespace WriteTask
variable {β : Type}

def finished (t : WriteTask β) : Bool := t.data.length ≤ t.offset

def getBuffer (t : WriteTask β) : List β := t.data.drop t.offset

def complete (t : WriteTask β) (size : Nat) : WriteTask β := { t with offset := t.offset + size }

theorem getBuffer_complete (t : WriteTask β) (size : Nat) :
    (t.complete size).getBuffer = t.getBuffer.drop size := by
  simp [getBuffer, complete]

theorem getBuffer_finished (t : WriteTask β) (h : t.finished = true) : t.getBuffer = [] := by
  simpa [finished, getBuffer] using h

end WriteTask

variable {β : Type} [Cell β]

/-- `LittleEndianDataInputStream::ReadU32`. -/
def readU32 (b : List β) : Nat :=
  (b.take 4).foldr (fun c rest => (Cell.octet c).toNat + 256 * rest) 0

/-- `std::copy_n` into a buffer at an offset. -/
def copyN (src dst : List β) (offset : Nat) : List β :=
  dst.take offset ++ src ++ dst.drop (offset + src.length)

/-- `ByteArray::Resize`. -/
def resize (data : List β) (size : Nat) : List β :=
  data.take size ++ List.replicate (size - data.length) Cell.blank

omit [Cell β] in
theorem copyN_length {src dst : List β} (fits : offset + src.length ≤ dst.length) :
    (copyN src dst offset).length = dst.length := by
  simp only [copyN, List.length_append, List.length_take, List.length_drop]
  omega

omit [Cell β] in
theorem take_copyN (src : List β) {dst : List β} (fits : offset ≤ dst.length) :
    (copyN src dst offset).take (offset + src.length) = dst.take offset ++ src := by
  rw [copyN, List.take_append_of_le_length]
  · apply List.take_of_length_le
    rw [List.length_append, List.length_take]
    omega
  · simp [List.length_take, fits]

theorem resize_length (data : List β) (size : Nat) : (resize data size).length = size := by
  simp only [resize, List.length_append, List.length_take, List.length_replicate]
  omega

theorem readU32_append {s : List β} (fits : 4 ≤ s.length) (t : List β) :
    readU32 (s ++ t) = readU32 s := by
  rw [readU32, List.take_append_of_le_length fits, readU32]

variable (β) in
/-- The frames on a socket, as a self-delimiting stream. -/
def frames : Delimited.Format β where
  measure s := if 4 ≤ s.length then some (4 + readU32 s) else none
  pos h := by
    split at h <;> simp_all
    omega
  stable h t := by
    split at h <;> rename_i fits
    · rw [if_pos (by simp only [List.length_append]; omega), readU32_append fits, h]
    · contradiction
  intrinsic h fits := by
    split at h <;> rename_i fits'
    · obtain rfl := Option.some.inj h
      rw [if_pos (by simp only [List.length_take]; omega)]
      simp [readU32, List.take_take]
    · contradiction

/-- The half-read frame of a connection. The bounds every copy relies on are part of it:
the offsets stay inside their buffers, and the payload has the size that was read. -/
@[ext] structure ReadTask (β : Type) [Cell β] where
  sizeBuffer : List β
  sizeBufferOffset : Nat
  data : List β
  dataOffset : Nat
  size_length : sizeBuffer.length = 4
  size_bound : sizeBufferOffset ≤ 4
  data_bound : dataOffset ≤ data.length
  unsized : sizeBufferOffset < 4 → data = []
  sized : sizeBufferOffset = 4 → data.length = readU32 sizeBuffer

namespace ReadTask

def new : ReadTask β where
  sizeBuffer := List.replicate 4 Cell.blank
  sizeBufferOffset := 0
  data := []
  dataOffset := 0
  size_length := rfl
  size_bound := by decide
  data_bound := Nat.le_refl 0
  unsized _ := rfl
  sized h := by contradiction

instance : Inhabited (ReadTask β) := ⟨new⟩

def finished (t : ReadTask β) : Bool := 4 ≤ t.sizeBufferOffset && t.data.length ≤ t.dataOffset

/-- The part of `Read` that completes the length: how much it used, and the task after it,
resized if the length was just read. -/
def readSize (t : ReadTask β) (data : List β) : Nat × ReadTask β :=
  let sizeRemains := min (4 - t.sizeBufferOffset) data.length
  let sizeBuffer := copyN (data.take sizeRemains) t.sizeBuffer t.sizeBufferOffset
  have sizeBuffer_length : sizeBuffer.length = 4 := by
    have := t.size_bound
    rw [copyN_length, t.size_length]
    simp only [t.size_length, List.length_take]
    omega
  (sizeRemains,
    { sizeBuffer
      sizeBufferOffset := t.sizeBufferOffset + sizeRemains
      data :=
        if t.sizeBufferOffset + sizeRemains < 4 ∨ sizeRemains = 0 then t.data
        else resize t.data (readU32 sizeBuffer)
      dataOffset := t.dataOffset
      size_length := sizeBuffer_length
      size_bound := by have := t.size_bound; omega
      data_bound := by
        have bound := t.data_bound
        split
        · exact bound
        · rw [t.unsized (by omega), List.length_nil] at bound
          omega
      unsized := fun h => by rw [if_pos (.inl h), t.unsized (by omega)]
      sized := fun h => by
        split
        · have none : sizeRemains = 0 := by omega
          have same : sizeBuffer = t.sizeBuffer := by
            simp [sizeBuffer, copyN, none, List.take_append_drop]
          rw [same]
          exact t.sized (by omega)
        · exact resize_length _ _ })

/-- The part of `Read` that fills the payload. -/
def readData (t : ReadTask β) (data : List β) : Nat × ReadTask β :=
  let dataRemains := min (t.data.length - t.dataOffset) data.length
  have fits : t.dataOffset + (data.take dataRemains).length ≤ t.data.length := by
    have := t.data_bound
    simp only [List.length_take]
    omega
  (dataRemains,
    { sizeBuffer := t.sizeBuffer, sizeBufferOffset := t.sizeBufferOffset,
      data := copyN (data.take dataRemains) t.data t.dataOffset,
      dataOffset := t.dataOffset + dataRemains,
      size_length := t.size_length
      size_bound := t.size_bound
      data_bound := by
        rw [copyN_length fits]
        simp only [List.length_take] at fits
        omega
      unsized := fun h => List.eq_nil_of_length_eq_zero
        (by rw [copyN_length fits, t.unsized h, List.length_nil])
      sized := fun h => (copyN_length fits).trans (t.sized h) })

/-- `ReadTask::Read`: how much of `data` it used, and the task after it. -/
def read (t : ReadTask β) (data : List β) : Nat × ReadTask β :=
  let size := t.readSize data
  if size.2.sizeBufferOffset < 4 then size
  else
    let payload := size.2.readData (data.drop size.1)
    (size.1 + payload.1, payload.2)

/-- What has been read of the frame so far. -/
def pending (t : ReadTask β) : List β :=
  t.sizeBuffer.take t.sizeBufferOffset ++ t.data.take t.dataOffset

theorem pending_length (t : ReadTask β) :
    t.pending.length = t.sizeBufferOffset + t.dataOffset := by
  have := t.size_length
  have := t.size_bound
  have := t.data_bound
  simp only [pending, List.length_append, List.length_take]
  omega

@[simp] theorem pending_new : (new : ReadTask β).pending = [] := by simp [pending, new]

@[simp] theorem finished_new : (new : ReadTask β).finished = false := rfl

theorem dataOffset_unsized (t : ReadTask β) (h : t.sizeBufferOffset < 4) : t.dataOffset = 0 := by
  have := t.data_bound
  rw [t.unsized h, List.length_nil] at this
  omega

theorem measure_pending (t : ReadTask β) (h : t.sizeBufferOffset = 4) :
    (frames β).measure t.pending = some (4 + t.data.length) := by
  have header : t.sizeBuffer.take t.sizeBufferOffset = t.sizeBuffer :=
    List.take_of_length_le (Nat.le_of_eq (by rw [t.size_length, h]))
  have fits : 4 ≤ t.pending.length := by rw [pending_length]; omega
  simp only [frames, if_pos fits]
  rw [pending, header, readU32_append (Nat.le_of_eq t.size_length.symm), t.sized h]

theorem pending_whole (t : ReadTask β) (h : t.finished = true) :
    Delimited.Whole (frames β) t.pending := by
  simp only [finished, Bool.and_eq_true, decide_eq_true_eq] at h
  have := t.size_bound
  have := t.data_bound
  have sized : t.sizeBufferOffset = 4 := by omega
  rw [Delimited.Whole, t.measure_pending sized, pending_length]
  congr 1
  omega

theorem pending_unfinished (t : ReadTask β) (h : t.finished = false) :
    Delimited.Partial (frames β) t.pending := by
  intro n measured
  have := t.size_bound
  by_cases unsized : t.sizeBufferOffset < 4
  · simp only [frames, pending_length, t.dataOffset_unsized unsized] at measured
    rw [if_neg (by omega)] at measured
    contradiction
  · rw [t.measure_pending (by omega)] at measured
    simp only [finished, Bool.and_eq_false_iff, decide_eq_false_iff_not] at h
    rw [pending_length]
    have := Option.some.inj measured
    omega

/-- `OnIncomingData` gets what follows the length of the frame. -/
theorem data_eq (t : ReadTask β) (h : t.finished = true) : t.data = t.pending.drop 4 := by
  simp only [finished, Bool.and_eq_true, decide_eq_true_eq] at h
  have := t.size_bound
  have header : t.sizeBuffer.take t.sizeBufferOffset = t.sizeBuffer :=
    List.take_of_length_le (by rw [t.size_length]; exact h.1)
  rw [pending, header, List.take_of_length_le h.2, List.drop_left' t.size_length]

theorem readSize_used (t : ReadTask β) (data : List β) :
    (t.readSize data).1 = min (4 - t.sizeBufferOffset) data.length := rfl

theorem readSize_offset (t : ReadTask β) (data : List β) :
    (t.readSize data).2.sizeBufferOffset = t.sizeBufferOffset + (t.readSize data).1 := rfl

theorem readSize_dataOffset (t : ReadTask β) (data : List β) :
    (t.readSize data).2.dataOffset = t.dataOffset := rfl

theorem readSize_buffer (t : ReadTask β) (data : List β) :
    (t.readSize data).2.sizeBuffer =
      copyN (data.take (t.readSize data).1) t.sizeBuffer t.sizeBufferOffset := rfl

theorem readSize_sized (t : ReadTask β) (data : List β) (h : t.sizeBufferOffset = 4) :
    t.readSize data = (0, t) := by
  have none : min (4 - t.sizeBufferOffset) data.length = 0 := by omega
  have same : copyN (data.take 0) t.sizeBuffer t.sizeBufferOffset = t.sizeBuffer := by
    simp [copyN, List.take_append_drop]
  simp only [readSize, none, same, Nat.add_zero, or_true, if_true]

theorem pending_readSize (t : ReadTask β) (data : List β) :
    (t.readSize data).2.pending = t.pending ++ data.take (t.readSize data).1 := by
  have bound := t.size_bound
  by_cases sized : t.sizeBufferOffset = 4
  · simp [t.readSize_sized data sized]
  · have start : t.dataOffset = 0 := t.dataOffset_unsized (by omega)
    have used := t.readSize_used data
    have count : (data.take (t.readSize data).1).length = (t.readSize data).1 := by
      rw [List.length_take]
      omega
    have taken := take_copyN (data.take (t.readSize data).1)
      (show t.sizeBufferOffset ≤ t.sizeBuffer.length by rw [t.size_length]; exact bound)
    rw [count] at taken
    simp only [pending, readSize_offset, readSize_buffer, readSize_dataOffset, start, taken,
      List.take_zero, List.append_nil]

theorem readData_used (t : ReadTask β) (data : List β) :
    (t.readData data).1 = min (t.data.length - t.dataOffset) data.length := rfl

theorem pending_readData (t : ReadTask β) (data : List β) :
    (t.readData data).2.pending = t.pending ++ data.take (t.readData data).1 := by
  have bound := t.data_bound
  have used := t.readData_used data
  have count : (data.take (t.readData data).1).length = (t.readData data).1 := by
    rw [List.length_take]
    omega
  have taken := take_copyN (data.take (t.readData data).1) bound
  rw [count] at taken
  change t.sizeBuffer.take t.sizeBufferOffset ++
    (copyN (data.take (t.readData data).1) t.data t.dataOffset).take
      (t.dataOffset + (t.readData data).1) = _
  rw [taken, pending, List.append_assoc]

theorem read_short (t : ReadTask β) (data : List β)
    (h : (t.readSize data).2.sizeBufferOffset < 4) : t.read data = t.readSize data := if_pos h

theorem read_long (t : ReadTask β) (data : List β)
    (h : ¬ (t.readSize data).2.sizeBufferOffset < 4) :
    t.read data =
      ((t.readSize data).1 + ((t.readSize data).2.readData (data.drop (t.readSize data).1)).1,
        ((t.readSize data).2.readData (data.drop (t.readSize data).1)).2) := if_neg h

/-- `Read` appends to the frame exactly what it says it used. -/
theorem pending_read (t : ReadTask β) (data : List β) :
    (t.read data).2.pending = t.pending ++ data.take (t.read data).1 := by
  by_cases short : (t.readSize data).2.sizeBufferOffset < 4
  · rw [read_short t data short, pending_readSize]
  · rw [read_long t data short, pending_readData, pending_readSize, List.append_assoc,
      ← List.take_add]

theorem read_used_le (t : ReadTask β) (data : List β) : (t.read data).1 ≤ data.length := by
  have size := t.readSize_used data
  by_cases short : (t.readSize data).2.sizeBufferOffset < 4
  · rw [read_short t data short]
    omega
  · have payload := (t.readSize data).2.readData_used (data.drop (t.readSize data).1)
    rw [read_long t data short]
    rw [List.length_drop] at payload
    omega

theorem read_finished (t : ReadTask β) (data : List β) (h : t.finished = true) :
    t.read data = (0, t) := by
  simp only [finished, Bool.and_eq_true, decide_eq_true_eq] at h
  have := t.size_bound
  have none : min (t.data.length - t.dataOffset) data.length = 0 := by omega
  have same : copyN (data.take 0) t.data t.dataOffset = t.data := by
    simp [copyN, List.take_append_drop]
  have rest : t.readData data = (0, t) := by simp only [readData, none, same, Nat.add_zero]
  simp only [read, t.readSize_sized data (by omega), List.drop_zero, rest]
  rw [if_neg (by omega)]

theorem read_used_pos (t : ReadTask β) (data : List β) (h : t.finished = false)
    (given : data ≠ []) : 0 < (t.read data).1 := by
  have := List.length_pos_iff.mpr given
  have bound := t.size_bound
  have size := t.readSize_used data
  by_cases short : (t.readSize data).2.sizeBufferOffset < 4
  · rw [readSize_offset] at short
    rw [read_short t data short]
    omega
  · rw [read_long t data short]
    by_cases sized : t.sizeBufferOffset = 4
    · have payload := t.readData_used data
      simp only [finished, Bool.and_eq_false_iff, decide_eq_false_iff_not] at h
      simp only [t.readSize_sized data sized, List.drop_zero]
      omega
    · simp only
      omega

theorem read_unfinished (t : ReadTask β) (data : List β) (h : (t.read data).2.finished = false) :
    (t.read data).1 = data.length := by
  have size := t.readSize_used data
  have offset := t.readSize_offset data
  have bound := t.size_bound
  by_cases short : (t.readSize data).2.sizeBufferOffset < 4
  · rw [read_short t data short]
    omega
  · rw [read_long t data short] at h ⊢
    generalize t.readSize data = sized at *
    have payload := sized.2.readData_used (data.drop sized.1)
    rw [List.length_drop] at payload
    have length : (sized.2.readData (data.drop sized.1)).2.data.length = sized.2.data.length := by
      refine copyN_length ?_
      have := sized.2.data_bound
      simp only [List.length_take]
      omega
    have progress : (sized.2.readData (data.drop sized.1)).2.dataOffset =
        sized.2.dataOffset + (sized.2.readData (data.drop sized.1)).1 := rfl
    have header : (sized.2.readData (data.drop sized.1)).2.sizeBufferOffset =
        sized.2.sizeBufferOffset := rfl
    simp only [finished, Bool.and_eq_false_iff, decide_eq_false_iff_not, length, progress,
      header] at h
    simp only
    omega

end ReadTask

theorem readU32_writeU32 {n : Nat} (fits : n < 2 ^ 32) : readU32 (writeU32 n) = n := by
  simp only [readU32, writeU32, Cell.octet, id, List.take_succ_cons, List.take_zero,
    List.foldr_cons, List.foldr_nil, Nat.toUInt8, UInt8.toNat_ofNat']
  omega

theorem frame_whole {payload : List UInt8} (fits : payload.length < 2 ^ 32) :
    Delimited.Whole (frames UInt8) (frame payload) := by
  have length : (frame payload).length = 4 + payload.length := by
    simp only [frame, writeU32, List.length_append, List.length_cons, List.length_nil]
  have size : readU32 (frame payload) = payload.length := by
    rw [frame, readU32_append (by simp [writeU32]), readU32_writeU32 fits]
  simp only [Delimited.Whole, frames, length, size]
  rw [if_pos (Nat.le_add_right 4 _)]

@[simp] theorem frame_drop (payload : List UInt8) : (frame payload).drop 4 = payload := rfl

end PBus.Connection
