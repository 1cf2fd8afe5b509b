import JobControl.Machine.Delivery

/-!
# Reading and writing

How a child reads from and writes to its descriptors.  A read gives bytes, the end or a failure, or
it has to wait; a write gives the number of bytes taken or a failure, or it has to wait.  A pipe holds
a bounded number of bytes, is at its end when nobody can write to it any more, and breaks when nobody
can read from it.  A child that reads from the terminal out of the background stops its group.
-/

set_option autoImplicit false

namespace JobControl

/-- How a read went. -/
inductive ReadResult
  | bytes (data : ByteArray)
  | atEnd
  | failed (cause : Errno)
  | blocked

/-- How a write went. -/
inductive WriteResult
  | took (count : Nat)
  | failed (cause : Errno)
  | blocked

namespace Machine

/-- How many bytes a pipe holds. -/
def pipeCapacity : Nat := 65536

/-- How many bytes one read gives at most. -/
def readLimit : Nat := 65536

/-- The bytes from a position on, and the position after them. -/
def readAt (data : ByteArray) (offset : Nat) : ReadResult × Nat :=
  let stop := min data.size (offset + readLimit)
  if offset < stop then (.bytes (data.extract offset stop), stop) else (.atEnd, offset)

/-- A child reads what there is. -/
def read (m : Machine) (c : Child) (d : Nat) : ReadResult × Machine :=
  match c.descriptors.file? d with
  | none => (.failed .ebadf, m)
  | some file =>
    match m.openFiles[file]? with
    | none => (.failed .ebadf, m)
    | some f =>
      let take (data : ByteArray) : ReadResult × Machine :=
        let (result, offset) := readAt data f.offset
        (result, m.setOffset file offset)
      match f.channel with
      | .file node _ => take (m.files.content node)
      | .text content => take content
      | .directory => (.failed .eisdir, m)
      | .sink => (.atEnd, m)
      | .pipeOutlet p =>
        let held := m.pipes[p]?.getD .empty
        if held.size = 0 then (if m.hasWriter p then .blocked else .atEnd, m)
        else (.bytes held, { m with pipes := m.pipes.setIfInBounds p .empty })
      | .terminal =>
        match m.console with
        | none => (.atEnd, m)
        | some console =>
          if console.foreground ≠ c.group then (.blocked, (m.signalChildren c.group .ttin).2)
          else
            match console.ready with
            | [] => (.blocked, m)
            | line :: rest =>
              let m := { m with console := some { console with ready := rest } }
              (if line.isEmpty then .atEnd else .bytes ⟨line.toArray⟩, m)
      | .pipeInlet _ | .output | .errors => (.failed .ebadf, m)

/-- Replaces bytes from a position on. -/
def overwrite (old : ByteArray) (offset : Nat) (data : ByteArray) : ByteArray :=
  let gap : ByteArray := ⟨(List.replicate (offset - old.size) 0).toArray⟩
  old.extract 0 offset ++ gap ++ data ++ old.extract (offset + data.size) old.size

/-- A child writes as much as is taken. -/
def write (m : Machine) (c : Child) (d : Nat) (data : ByteArray) : WriteResult × Machine :=
  match c.descriptors.file? d with
  | none => (.failed .ebadf, m)
  | some file =>
    match m.openFiles[file]? with
    | none => (.failed .ebadf, m)
    | some f =>
      match f.channel with
      | .output => (.took data.size, m.print data)
      | .errors => (.took data.size, m.complain data)
      | .sink | .terminal => (.took data.size, m)
      | .file node append =>
        let old := m.files.content node
        let offset := if append then old.size else f.offset
        let m := { m with files := m.files.setContent node (overwrite old offset data) }
        (.took data.size, m.setOffset file (offset + data.size))
      | .pipeInlet p =>
        if !m.hasReader p then (.failed .epipe, m)
        else
          let held := m.pipes[p]?.getD .empty
          let room := pipeCapacity - held.size
          if room = 0 then (.blocked, m)
          else
            let part := data.extract 0 room
            (.took part.size, { m with pipes := m.pipes.setIfInBounds p (held ++ part) })
      | .text _ | .directory | .pipeOutlet _ => (.failed .ebadf, m)

/-- The open file behind a child's descriptor. -/
def openFile? (m : Machine) (c : Child) (d : Nat) : Option OpenFile :=
  (c.descriptors.file? d).bind fun file => m.openFiles[file]?

/-- Copying one descriptor to another would copy a file onto its own end: both lead to the same file,
and it is written behind the place where it is read. -/
def feedsItself (m : Machine) (c : Child) (source target : Nat) : Bool :=
  match m.openFile? c source, m.openFile? c target with
  | some ⟨.file a _, reading⟩, some ⟨.file b append, writing⟩ =>
    a == b && reading < if append then (m.files.content b).size else writing
  | _, _ => false

/-- The size of a regular file behind a child's descriptor. -/
def sizeOf? (m : Machine) (c : Child) (d : Nat) : Option Nat := do
  let f ← m.openFile? c d
  match f.channel with
  | .file node _ => some (m.files.content node).size
  | .text content => some content.size
  | _ => none

end Machine

end JobControl
