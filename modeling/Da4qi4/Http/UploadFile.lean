import Da4qi4.Foundation.Transition
import Da4qi4.Http.ConnectionTurns
import Mathlib.Logic.Function.Basic

/-! Uploaded files. The content of one is in memory or in a file that a stream reads,
and goes from one to the other. -/
namespace Da4qi4
open Transition

namespace FormDataItem

def isFile (item : FormDataItem) : Bool :=
  item.dataFlag = .isFileData || item.dataFlag = .isFileTemporaryName

def isSavedFile (item : FormDataItem) : Bool := item.dataFlag = .isFileTemporaryName

def getSavedFileTemporaryName (item : FormDataItem) : Bytes :=
  if item.isSavedFile then item.data else []

end FormDataItem

/-- The files by their paths, and the paths that can be written to. -/
structure Disk where
  files : Bytes → Option Bytes
  writable : Bytes → Bool

namespace Disk

/-- What an `std::ofstream` leaves that is opened, given the content and closed. -/
def write (disk : Disk) (path content : Bytes) : Disk :=
  { disk with files := Function.update disk.files path (some content) }

/-- `Utilities::SaveDataToFile`. -/
def saveDataToFile (disk : Disk) (data path : Bytes) : Option Disk :=
  if disk.writable path then some (disk.write path data) else none

end Disk

/-- An `std::ifstream`; it has failed when a read was short or a file was not there. -/
structure InputStream where
  path : Option Bytes := none
  position : Nat := 0
  failed : Bool := false
  deriving DecidableEq

namespace InputStream

/-- The file that is open is closed before. -/
def «open» (disk : Disk) (path : Bytes) : InputStream :=
  match disk.files path with
  | some _ => { path := some path }
  | none => { failed := true }

/-- The state of the stream stays. -/
def close (s : InputStream) : InputStream := { s with path := none, position := 0 }

def tmpBufSize : Nat := 2048

/-- One turn of the loops that read. -/
def buf (content : Bytes) (position : Nat) : Bytes := (content.drop position).take tmpBufSize

/-- What a loop reads of a file from a position on; it ends at a short read. -/
def readFrom (content : Bytes) (position : Nat) (read : Bytes) : Bytes :=
  if (buf content position).length < tmpBufSize then read ++ buf content position
  else readFrom content (position + tmpBufSize) (read ++ buf content position)
termination_by content.length - position
decreasing_by
  rename_i full
  simp only [buf, tmpBufSize, List.length_take, List.length_drop, not_lt] at full ⊢
  omega

theorem readFrom_eq (content : Bytes) (position : Nat) (read : Bytes) :
    readFrom content position read = read ++ content.drop position := by
  induction position, read using readFrom.induct content with
  | case1 position read short =>
    have whole : buf content position = content.drop position := by
      apply List.take_of_length_le
      rw [buf, List.length_take] at short
      omega
    rw [readFrom, if_pos short, whole]
  | case2 position read full ih =>
    rw [readFrom, if_neg full, ih, List.append_assoc, buf, ← List.drop_drop, List.take_append_drop]

/-- The octets that the file has behind the position. -/
def rest (disk : Disk) (s : InputStream) : Bytes :=
  match s.path with
  | some path => readFrom ((disk.files path).getD []) s.position []
  | none => []

/-- The stream behind the loop. -/
def exhausted (s : InputStream) : InputStream := { s with failed := true }

end InputStream

namespace UploadFile

inductive Status where
  | noFound | inStream | inMemory
  deriving DecidableEq, Repr

end UploadFile

structure UploadFile where
  fieldName : Bytes := []
  status : UploadFile.Status := .noFound
  stream : InputStream := {}
  memory : Bytes := []
  srcFilename : Bytes := []
  savedFilename : Bytes := []
  contentType : Bytes := []

namespace UploadFile

def fromFormDataItem (disk : Disk) (u : UploadFile) (item : FormDataItem) : UploadFile × Bool :=
  let u := { u with fieldName := item.name, contentType := item.contentType }
  if item.isSavedFile then
    ({ u with
      status := .inStream
      stream := .open disk item.getSavedFileTemporaryName
      srcFilename := item.filename
      savedFilename := item.getSavedFileTemporaryName }, true)
  else if item.isFile then
    ({ u with status := .inMemory, memory := item.data, srcFilename := item.filename }, true)
  else ({ u with status := .noFound }, false)

/-- The destination is emptied before anything is read. -/
def saveTo (disk : Disk) (u : UploadFile) (dstFilename : Bytes) : Disk × UploadFile × Bool :=
  if u.status = .noFound then (disk, u, false)
  else if ¬disk.writable dstFilename then (disk, u, false)
  else
    let disk := disk.write dstFilename []
    if u.status = .inStream then
      if u.stream.failed then (disk, u, false)
      else
        (disk.write dstFilename (u.stream.rest disk),
          { u with stream := u.stream.exhausted.close }, true)
    else (disk.write dstFilename u.memory, { u with memory := [] }, true)

def toMemory (disk : Disk) (u : UploadFile) : UploadFile × Bool :=
  if (u.status = .inStream ∧ u.stream.failed) ∨ u.status = .noFound then (u, false)
  else if u.status = .inMemory then (u, true)
  else
    ({ u with
      memory := u.stream.rest disk
      stream := u.stream.exhausted.close
      status := .inMemory }, true)

/-- The file that was saved is opened for output once more; the status stays. -/
def toStream (disk : Disk) (u : UploadFile) (tempFilename : Bytes) : Disk × UploadFile × Bool :=
  if u.status = .noFound then (disk, u, false)
  else if u.status = .inStream then (disk, u, true)
  else
    match disk.saveDataToFile u.memory tempFilename with
    | none => (disk, u, false)
    | some disk =>
      let disk := disk.write tempFilename []
      let u := { u with stream := .open disk tempFilename }
      if u.stream.failed then (disk, u, false)
      else (disk, { u with savedFilename := tempFilename }, true)

/-- With an application, the name is made below its upload root. -/
def toStreamOf (disk : Disk) (u : UploadFile) (made : Option Bytes) : Disk × UploadFile × Bool :=
  if u.status = .noFound then (disk, u, false)
  else if u.status = .inStream then (disk, u, true)
  else
    match made with
    | none => (disk, u, false)
    | some templFilePath => u.toStream disk templFilePath

/-- What the file has, wherever it is kept. -/
def content (disk : Disk) (u : UploadFile) : Bytes :=
  match u.status with
  | .noFound => []
  | .inStream => u.stream.rest disk
  | .inMemory => u.memory

end UploadFile

/-- An uploaded file over the calls, with what the last of them returned. -/
structure Upload where
  disk : Disk
  file : UploadFile
  returned : Option (Bool × Bool) := none

namespace Upload

inductive Call where
  | toMemory
  | toStream (tempFilename : Bytes)
  | toStreamOf (templFilePath : Bytes)
  deriving DecidableEq, Repr

/-- Whether a call is one of those to a stream. -/
def Call.isToStream : Call → Bool
  | .toMemory => false
  | .toStream _ => true
  | .toStreamOf _ => true

def call (s : Upload) : Call → Disk × UploadFile × Bool
  | .toMemory => (s.disk, s.file.toMemory s.disk)
  | .toStream tempFilename => s.file.toStream s.disk tempFilename
  | .toStreamOf templFilePath => s.file.toStreamOf s.disk (some templFilePath)

def step (s : Upload) (c : Call) : Option Upload :=
  let (disk, file, result) := s.call c
  some { disk, file, returned := some (c.isToStream, result) }

/-- The octets of an item that is a file. -/
def uploaded (disk : Disk) (item : FormDataItem) : Option Bytes :=
  match item.dataFlag with
  | .isData => none
  | .isFileData => some item.data
  | .isFileTemporaryName => disk.files item.data

def start (disk : Disk) (item : FormDataItem) : Upload :=
  { disk, file := (UploadFile.fromFormDataItem disk {} item).1 }

/-- Behind a call that succeeded the octets are there, where the call should have put
them, and would be saved. -/
structure Keeps (octets dstFilename : Bytes) (s : Upload) : Prop where
  content : ∀ toStream, s.returned = some (toStream, true) → s.file.content s.disk = octets
  stream : s.returned = some (true, true) →
    s.file.status = .inStream ∧ s.file.stream.rest s.disk = octets
  memory : s.returned = some (false, true) → s.file.memory = octets
  saved : ∀ toStream, s.returned = some (toStream, true) →
    (s.file.saveTo s.disk dstFilename).2.2 = true ∧
    (s.file.saveTo s.disk dstFilename).1.files dstFilename = some octets

/-- A file in memory is not asked for a stream, and one in a stream is not saved over
itself. -/
def Suits (octets dstFilename : Bytes) (s : Upload) (c : Call) : Prop :=
  c.isToStream = true →
    s.file.status = .inStream ∧ (octets = [] ∨ s.file.stream.path ≠ some dstFilename)

/-- The octets are in the file that the stream stands at the start of, or in memory. -/
inductive Holds (octets : Bytes) (s : Upload) : Prop
  | inStream (path : Bytes) (status : s.file.status = .inStream)
      (stream : s.file.stream = { path := some path })
      (file : s.disk.files path = some octets)
  | inMemory (status : s.file.status = .inMemory) (memory : s.file.memory = octets)

def Writable (s : Upload) : Prop := ∀ path, s.disk.writable path = true

theorem rest_start {disk : Disk} {path : Bytes} (file : disk.files path = some octets) :
    InputStream.rest disk { path := some path } = octets := by
  simp [InputStream.rest, file, InputStream.readFrom_eq]

theorem Holds.of_uploaded {disk : Disk} {item : FormDataItem}
    (given : uploaded disk item = some octets) : Holds octets (start disk item) := by
  rw [uploaded] at given
  split at given
  · cases given
  · rename_i flag
    cases given
    refine .inMemory ?_ ?_
    · simp [start, UploadFile.fromFormDataItem, FormDataItem.isSavedFile, FormDataItem.isFile, flag]
    · simp [start, UploadFile.fromFormDataItem, FormDataItem.isSavedFile, FormDataItem.isFile, flag]
  · rename_i flag
    refine .inStream item.data ?_ ?_ given
    · simp [start, UploadFile.fromFormDataItem, FormDataItem.isSavedFile, flag]
    · simp [start, UploadFile.fromFormDataItem, FormDataItem.isSavedFile,
        FormDataItem.getSavedFileTemporaryName, InputStream.open, flag, given]

theorem saveTo_memory {s : Upload} (writable : s.Writable) (status : s.file.status = .inMemory)
    (dstFilename : Bytes) :
    (s.file.saveTo s.disk dstFilename).2.2 = true ∧
    (s.file.saveTo s.disk dstFilename).1.files dstFilename = some s.file.memory := by
  simp [UploadFile.saveTo, status, writable dstFilename, Disk.write]

/-- A file that is saved over itself is emptied. -/
theorem saveTo_stream {s : Upload} (writable : s.Writable) (status : s.file.status = .inStream)
    (stream : s.file.stream = { path := some path }) (file : s.disk.files path = some octets)
    (dstFilename : Bytes) :
    (s.file.saveTo s.disk dstFilename).2.2 = true ∧
    (s.file.saveTo s.disk dstFilename).1.files dstFilename =
      some (if path = dstFilename then [] else octets) := by
  have read : InputStream.rest (s.disk.write dstFilename []) { path := some path } =
      if path = dstFilename then [] else octets := by
    split
    · rename_i same
      exact rest_start (by simp [Disk.write, same])
    · rename_i other
      exact rest_start (by simp [Disk.write, other, file])
  simp only [UploadFile.saveTo, status, stream, writable dstFilename, read]
  simp [Disk.write]

/-- Where a name was made, the second call is the first one. -/
theorem toStreamOf_made (disk : Disk) (u : UploadFile) (templFilePath : Bytes) :
    u.toStreamOf disk (some templFilePath) = u.toStream disk templFilePath := by
  rw [UploadFile.toStreamOf]
  split
  · rename_i status
    rw [UploadFile.toStream, if_pos status]
  · rename_i found
    split
    · rename_i status
      rw [UploadFile.toStream, if_neg found, if_pos status]
    · rfl

theorem toStream_stays {disk : Disk} {u : UploadFile} (status : u.status = .inStream)
    (tempFilename : Bytes) : u.toStream disk tempFilename = (disk, u, true) := by
  simp [UploadFile.toStream, status]

/-- The call succeeds, and the file is not in a stream behind it. -/
theorem toStream_memory {disk : Disk} {u : UploadFile} (writable : disk.writable tempFilename = true)
    (status : u.status = .inMemory) :
    (u.toStream disk tempFilename).2.2 = true ∧
      (u.toStream disk tempFilename).2.1.status = .inMemory := by
  simp [UploadFile.toStream, status, Disk.saveDataToFile, writable, InputStream.open, Disk.write]

theorem step_cases {s t : Upload} {c : Call} (writable : s.Writable) (holds : s.Holds octets)
    (stepped : step s c = some t) :
    (c.isToStream = false ∧ t.returned = some (false, true) ∧ t.disk = s.disk ∧
      t.file.status = .inMemory ∧ t.file.memory = octets) ∨
    (c.isToStream = true ∧ s.file.status = .inStream ∧
      t = { s with returned := some (true, true) }) ∨
    (c.isToStream = true ∧ s.file.status = .inMemory ∧ t.file.status = .inMemory ∧
      t.returned = some (true, true)) := by
  have streamed (tempFilename : Bytes) (called : s.call c = s.file.toStream s.disk tempFilename)
      (isToStream : c.isToStream = true) : s.file.status = .inStream ∧
        t = { s with returned := some (true, true) } ∨
      s.file.status = .inMemory ∧ t.file.status = .inMemory ∧ t.returned = some (true, true) := by
    rw [step, called, isToStream] at stepped
    cases holds with
    | inStream path status stream file =>
      rw [toStream_stays status] at stepped
      exact .inl ⟨status, (Option.some.inj stepped).symm⟩
    | inMemory status memory =>
      obtain ⟨succeeds, stays⟩ := toStream_memory (writable tempFilename) status
      cases stepped
      exact .inr ⟨status, stays, congrArg (fun b => some (true, b)) succeeds⟩
  cases c with
  | toStream tempFilename => exact .inr ((streamed tempFilename rfl rfl).imp (⟨rfl, ·⟩) (⟨rfl, ·⟩))
  | toStreamOf templFilePath =>
    have made := toStreamOf_made s.disk s.file templFilePath
    exact .inr ((streamed templFilePath made rfl).imp (⟨rfl, ·⟩) (⟨rfl, ·⟩))
  | toMemory =>
    have same : t = ⟨s.disk, (s.file.toMemory s.disk).1, some (false, (s.file.toMemory s.disk).2)⟩ :=
      (Option.some.inj stepped).symm
    subst same
    cases holds with
    | inStream path status stream file =>
      refine .inl ⟨rfl, ?_, rfl, ?_, ?_⟩
      · simp [UploadFile.toMemory, status, stream]
      · simp [UploadFile.toMemory, status, stream]
      · simp [UploadFile.toMemory, status, stream, rest_start file]
    | inMemory status memory =>
      refine .inl ⟨rfl, ?_, rfl, ?_, ?_⟩
      · simp [UploadFile.toMemory, status]
      · simp [UploadFile.toMemory, status]
      · simp [UploadFile.toMemory, status, memory]

/-- What holds before and behind every call. -/
structure Kept (octets dstFilename : Bytes) (s : Upload) : Prop where
  writable : s.Writable
  holds : s.Holds octets
  keeps : s.Keeps octets dstFilename

theorem Kept.step {octets dstFilename : Bytes} {s t : Upload} {c : Call}
    (kept : s.Kept octets dstFilename) (stepped : step s c = some t)
    (suits : s.Suits octets dstFilename c) : t.Kept octets dstFilename := by
  rcases step_cases kept.writable kept.holds stepped with ⟨-, returned, disk, status, memory⟩ |
    ⟨isToStream, status, rfl⟩ | ⟨isToStream, status, -, -⟩
  · have writable : t.Writable := fun path => disk ▸ kept.writable path
    refine ⟨writable, .inMemory status memory, ?_⟩
    constructor
    · intro _ _
      rw [UploadFile.content, status]
      exact memory
    · intro succeeded
      rw [returned] at succeeded
      cases succeeded
    · intro _
      exact memory
    · intro _ _
      rw [← memory]
      exact saveTo_memory writable status dstFilename
  · obtain ⟨-, free⟩ := suits isToStream
    cases kept.holds with
    | inMemory inMemory memory =>
      rw [inMemory] at status
      cases status
    | inStream path _ stream file =>
      have rest : s.file.stream.rest s.disk = octets := by
        rw [stream]
        exact rest_start file
      refine ⟨kept.writable, .inStream path status stream file, ?_⟩
      constructor
      · intro _ _
        simp only [UploadFile.content, status]
        exact rest
      · intro _
        exact ⟨status, rest⟩
      · intro other
        cases other
      · intro _ _
        obtain ⟨done, written⟩ := saveTo_stream kept.writable status stream file dstFilename
        refine ⟨done, written.trans ?_⟩
        rcases free with rfl | other
        · simp
        · rw [stream] at other
          rw [if_neg fun same => other (congrArg some same)]
  · rw [(suits isToStream).1] at status
    cases status

/-- A call that keeps the octets was one that suits. -/
theorem suits_of_keeps {octets dstFilename : Bytes} {s t : Upload} {c : Call}
    (kept : s.Kept octets dstFilename) (stepped : step s c = some t)
    (keeps : t.Keeps octets dstFilename) : s.Suits octets dstFilename c := by
  intro isToStream
  rcases step_cases kept.writable kept.holds stepped with ⟨other, -⟩ | ⟨-, status, rfl⟩ |
    ⟨-, -, status, returned⟩
  · rw [isToStream] at other
    cases other
  · refine ⟨status, ?_⟩
    cases kept.holds with
    | inMemory inMemory memory =>
      rw [inMemory] at status
      cases status
    | inStream path _ stream file =>
      obtain ⟨-, written⟩ := saveTo_stream kept.writable status stream file dstFilename
      have saved := written.symm.trans (keeps.saved true rfl).2
      by_cases same : path = dstFilename
      · rw [if_pos same] at saved
        exact .inl (Option.some.inj saved).symm
      · rw [stream]
        exact .inr fun equal => same (Option.some.inj equal)
  · have inStream := (keeps.stream returned).1
    rw [status] at inStream
    cases inStream

/-- Over any conversions the octets stay where they should be exactly if no file in memory
is asked for a stream, and none in a stream is then saved over itself. -/
theorem keeps_throughout_iff (disk : Disk) (item : FormDataItem) (octets dstFilename : Bytes)
    (succeed : ∀ path, disk.writable path = true) (given : uploaded disk item = some octets)
    (calls : List Call) :
    Throughout step (Keeps octets dstFilename) (start disk item) calls ↔
      Steps step (fun s c _ => s.Suits octets dstFilename c) (start disk item) calls := by
  refine throughout_iff_steps Kept.step suits_of_keeps Kept.keeps ⟨succeed, .of_uploaded given, ?_⟩
  constructor
  · intro _ none
    cases none
  · intro none
    cases none
  · intro none
    cases none
  · intro _ none
    cases none

def emptyDisk : Disk := ⟨fun _ => none, fun _ => true⟩

def photo : FormDataItem := { name := [97], dataFlag := .isFileData, data := [1, 2] }

/-- A file that was saved while it came. -/
def savedDisk : Disk := ⟨fun path => if path = [115] then some [1, 2] else none, fun _ => true⟩

def saved : FormDataItem := { name := [97], dataFlag := .isFileTemporaryName, data := [115] }

theorem keeps_throughout_iff_plain :
    Throughout step (Keeps [1, 2] [98]) (start savedDisk saved) [.toStream [99], .toMemory] := by
  apply (keeps_throughout_iff savedDisk saved [1, 2] [98] (fun _ => rfl) rfl
    [.toStream [99], .toMemory]).mpr
  intro s _
  refine ⟨fun _ => ⟨rfl, .inr (by decide)⟩, fun t _ => ?_⟩
  exact ⟨fun toStream => absurd toStream (by decide), trivial⟩

/-- The call succeeds, and the stream is at an empty file. -/
theorem stream_emptied :
    ∃ s, run step (start emptyDisk photo) [.toStream [99]] = some s ∧
      s.returned = some (true, true) ∧ s.file.stream.rest s.disk = [] ∧ ¬s.Keeps [1, 2] [98] := by
  have opened : InputStream.rest ((emptyDisk.write [99] [1, 2]).write [99] []) { path := some [99] } =
      [] := rest_start (by simp [Disk.write])
  refine ⟨_, rfl, rfl, opened, ?_⟩
  intro keeps
  exact absurd (keeps.stream rfl).1 (by decide)

end Upload
end Da4qi4
