import HouseOS.Library.Components
import HouseOS.Vfs.Model

namespace HouseOS.Memfs

open HouseOS.Components
open HouseOS.Loop (Step)
open HouseOS.Vfs (Path slash NodeType pathCap)

structure Dentry where
  name : Option Path
  inode : Nat
  mountedFs : Option Nat

structure Inode where
  type : NodeType
  name : Option Path
  linkCount : Nat
  size : Nat
  data : Option (List UInt8)
  entries : List Dentry
  entryCount : Nat
  parent : Option Nat
  buffer : Option (List UInt8)
  flags : Nat

structure Fs where
  root : Nat
  totalMemory : Nat
  usedMemory : Nat
  inodeCount : Nat

-- `grant n` answers the n-th allocation; `atNull` is the C string at address 0, which a NULL name
-- reads; each counted object occupies heap bytes, so the counters cannot wrap
structure World where
  inode : Nat → Inode
  live : Nat → Bool
  memfs : Nat → Fs
  nextInode : Nat
  nextFs : Nat
  grant : Nat → Bool
  allocs : Nat
  atNull : Path

def zeroInode : Inode :=
  { type := .file, name := none, linkCount := 0, size := 0, data := none, entries := [],
    entryCount := 0, parent := none, buffer := none, flags := 0 }

def inodeBytes : Nat := 56

def dentryBytes : Nat := 16

def fsBytes : Nat := 16

def devRead : Nat := 1

def devWrite : Nat := 2

namespace World

def setInode (w : World) (i : Nat) (n : Inode) : World :=
  { w with inode := fun j => if j = i then n else w.inode j }

def setMemfs (w : World) (f : Nat) (m : Fs) : World :=
  { w with memfs := fun g => if g = f then m else w.memfs g }

def root (w : World) (f : Nat) : Nat := (w.memfs f).root

def text (w : World) (name : Option Path) : Path := name.getD w.atNull

def valloc (w : World) (size : Nat) : Bool × World :=
  (decide (size ≠ 0) && w.grant w.allocs, { w with allocs := w.allocs + 1 })

def vallocInode (w : World) : Option Nat × World :=
  match w.valloc inodeBytes with
  | (false, w) => (none, w)
  | (true, w) =>
      let i := w.nextInode
      (some i, { w with
        inode := fun j => if j = i then zeroInode else w.inode j
        live := fun j => if j = i then true else w.live j
        nextInode := i + 1 })

def vfreeInode (w : World) (i : Nat) : World :=
  { w with live := fun j => if j = i then false else w.live j }

def dupName (w : World) (s : Option Path) : Option Path × World :=
  match w.valloc 256 with
  | (false, w) => (none, w)
  | (true, w) => (some ((w.text s).take 255), w)

def dentryCreate (w : World) (inode : Nat) (name : Option Path) : Option Dentry × World :=
  match w.valloc dentryBytes with
  | (false, w) => (none, w)
  | (true, w) =>
      let (name, w) := w.dupName name
      (some { name := name, inode := inode, mountedFs := none }, w)

def addEntry (w : World) (dir : Nat) (d : Dentry) : World :=
  let n := w.inode dir
  w.setInode dir { n with entries := d :: n.entries, entryCount := n.entryCount + 1 }

def addLink (w : World) (i : Nat) : World :=
  w.setInode i { w.inode i with linkCount := (w.inode i).linkCount + 1 }

def countInode (w : World) (f : Nat) : World :=
  w.setMemfs f { w.memfs f with inodeCount := (w.memfs f).inodeCount + 1 }

def dirAdd (w : World) (dir child : Nat) : World :=
  if (w.inode dir).type ≠ .dir then w
  else
    match w.dentryCreate child (w.inode child).name with
    | (none, w) => w
    | (some d, w) => (w.addEntry dir d).addLink child

def lookupDentry (w : World) (dir : Nat) (name : Path) : Option Dentry :=
  if (w.inode dir).type ≠ .dir then none
  else (w.inode dir).entries.find? (fun d => decide (w.text d.name = name))

def enter (w : World) (f : Nat) (d : Dentry) : Nat × Nat :=
  match d.mountedFs with
  | some m => (m, w.root m)
  | none => (f, d.inode)

def dentryStep (w : World) (s : Nat × Nat) (name : Path) (last : Bool) :
    Step (Nat × Nat) (Option (Dentry × Nat × Nat)) :=
  if (w.inode s.2).type ≠ .dir then .ret none
  else
    match w.lookupDentry s.2 name with
    | none => .ret none
    | some d => if last then .ret (some (d, s.1, s.2)) else .go (w.enter s.1 d)

def lookupPathDentry (w : World) (f : Nat) (path : Path) : Option (Dentry × Nat × Nat) :=
  if path.head? ≠ some slash then none
  else if path = [slash] then none
  else
    match pathLoop slash w.dentryStep path.length (skip slash path) (f, w.root f) with
    | .ret r => r
    | .go _ => none

def lookupStep (w : World) (s : Nat × Nat) (name : Path) (_ : Bool) : Step (Nat × Nat) Unit :=
  if (w.inode s.2).type ≠ .dir then .ret ()
  else
    match w.lookupDentry s.2 name with
    | none => .ret ()
    | some d => .go (w.enter s.1 d)

def lookupPathEx (w : World) (f : Nat) (path : Path) : Option (Nat × Nat) :=
  if path = [slash] then some (f, w.root f)
  else if path.head? ≠ some slash then none
  else
    match pathLoop slash w.lookupStep path.length (skip slash path) (f, w.root f) with
    | .ret _ => none
    | .go s => some s

def lookupPath (w : World) (f : Nat) (path : Path) : Option Nat :=
  (w.lookupPathEx f path).map Prod.snd

def mkdirHere (w : World) (f cur : Nat) (name : Path) : Option Nat × World :=
  match w.vallocInode with
  | (none, w) => (none, w)
  | (some next, w) =>
      let w := w.setInode next { w.inode next with type := .dir }
      match w.dupName (some name) with
      | (none, w) => (none, w)
      | (some name, w) =>
          let w := w.setInode next { w.inode next with name := some name, parent := some cur }
          (some next, (w.dirAdd cur next).countInode f)

def mkdirStep (s : World × Nat × Nat) (name : Path) (_ : Bool) : Step (World × Nat × Nat) World :=
  let (w, f, cur) := s
  match w.lookupDentry cur name with
  | none =>
      match w.mkdirHere f cur name with
      | (none, w) => .ret w
      | (some next, w) => if (w.inode next).type ≠ .dir then .ret w else .go (w, f, next)
  | some d =>
      let s := w.enter f d
      if (w.inode s.2).type ≠ .dir then .ret w else .go (w, s)

def mkdirP (w : World) (f : Nat) (path : Path) : Option (Nat × Nat) × World :=
  match pathLoop slash mkdirStep path.length (skip slash path) (w, f, w.root f) with
  | .ret w => (none, w)
  | .go (w, s) => (some s, w)

def splitParent (w : World) (f : Nat) (path : Path) : Option (Path × Nat × Nat) × World :=
  match splitLast slash path with
  | none => (none, w)
  | some (dir, name) =>
      match w.mkdirP f (if dir.length = 0 then [slash] else dir) with
      | (none, w) => (none, w)
      | (some s, w) => (some (name, s), w)

def isStorageNode (t : NodeType) : Bool :=
  decide (t = .file ∨ t = .fifo ∨ t = .socket)

def isStreamNode (t : NodeType) : Bool := decide (t = .fifo ∨ t = .socket)

def usedSub (w : World) (f n : Nat) : World :=
  let m := w.memfs f
  w.setMemfs f { m with usedMemory := if n ≤ m.usedMemory then m.usedMemory - n else 0 }

def usedAdd (w : World) (f n : Nat) : World :=
  let m := w.memfs f
  w.setMemfs f { m with usedMemory := (m.usedMemory + n) % 2 ^ 32 }

def memfsCreate (w : World) (size : Nat) : Option Nat × World :=
  match w.valloc fsBytes with
  | (false, w) => (none, w)
  | (true, w) =>
      match w.vallocInode with
      | (none, w) => (none, w)
      | (some r, w) =>
          let w := w.setInode r { w.inode r with type := .dir }
          match w.dupName (some [slash]) with
          | (none, w) => (none, w)
          | (some name, w) =>
              let f := w.nextFs
              let w := w.setInode r { w.inode r with name := some name, linkCount := 1 }
              let w := { w with nextFs := f + 1 }
              (some f, w.setMemfs f
                { root := r, totalMemory := size, usedMemory := 0, inodeCount := 1 })

def newNode (w : World) (owner parent : Nat) (name : Path) (fill : Inode → Inode) :
    Option Nat × World :=
  match w.vallocInode with
  | (none, w) => (none, w)
  | (some node, w) =>
      let (name, w) := w.dupName (some name)
      let w := w.setInode node (fill { w.inode node with name := name })
      (some node, (w.dirAdd parent node).countInode owner)

def memfsCreateDir (w : World) (f : Nat) (path : Path) : Option Nat × World :=
  if path.head? ≠ some slash then (none, w)
  else
    match w.splitParent f path with
    | (none, w) => (none, w)
    | (some (name, owner, parent), w) =>
        match w.lookupDentry parent name with
        | some existing =>
            match existing.mountedFs with
            | some m => (some (w.root m), w)
            | none =>
                if (w.inode existing.inode).type = .dir then (some existing.inode, w) else (none, w)
        | none =>
            w.newNode owner parent name (fun n => { n with type := .dir, parent := some parent })

def createNode (w : World) (f : Nat) (path : Path) (type : NodeType) (fill : Inode → Inode) :
    Option Nat × World :=
  if path.head? ≠ some slash then (none, w)
  else
    match w.splitParent f path with
    | (none, w) => (none, w)
    | (some (name, owner, parent), w) =>
        match w.lookupDentry parent name with
        | some existing =>
            if existing.mountedFs.isSome then (none, w)
            else if (w.inode existing.inode).type = type then (some existing.inode, w)
            else (none, w)
        | none => w.newNode owner parent name (fun n => fill { n with type := type })

def memfsCreateFile (w : World) (f : Nat) (path : Path) : Option Nat × World :=
  w.createNode f path .file (fun n => { n with size := 0, data := none })

def memfsCreateFifo (w : World) (f : Nat) (path : Path) : Option Nat × World :=
  w.createNode f path .fifo (fun n => { n with size := 0, data := none })

def memfsCreateSocket (w : World) (f : Nat) (path : Path) : Option Nat × World :=
  w.createNode f path .socket (fun n => { n with size := 0, data := none })

def memfsCreateDeviceBuffer (w : World) (f : Nat) (path : Path) (buffer : List UInt8)
    (flags : Nat) : Option Nat × World :=
  if buffer.length = 0 then (none, w)
  else w.createNode f path .device (fun n => { n with buffer := some buffer, flags := flags })

def removeEntry (w : World) (parent : Nat) (d : Dentry) : World :=
  let n := w.inode parent
  w.setInode parent { n with
    entries := n.entries.eraseP (fun e => decide (w.text e.name = w.text d.name))
    entryCount := n.entryCount - 1 }

def dropLink (w : World) (i : Nat) : World :=
  w.setInode i { w.inode i with linkCount := (w.inode i).linkCount - 1 }

def uncountInode (w : World) (f : Nat) : World :=
  w.setMemfs f { w.memfs f with inodeCount := (w.memfs f).inodeCount - 1 }

def dropData (w : World) (owner i : Nat) : World :=
  let n := w.inode i
  if n.data.isSome then
    (w.usedSub owner n.size).setInode i { n with data := none, size := 0 }
  else w

-- the entry is the first of its name in the parent, the one `lookup_dentry` returned
def memfsDeleteFile (w : World) (f : Nat) (path : Path) : Int × World :=
  if path = [slash] then (-1, w)
  else
    match w.lookupPathDentry f path with
    | none => (-1, w)
    | some (d, owner, parent) =>
        if d.mountedFs.isSome then (-1, w)
        else if ¬ isStorageNode (w.inode d.inode).type then (-1, w)
        else
          let w := (w.removeEntry parent d).dropLink d.inode
          if (w.inode d.inode).linkCount = 0 then
            (0, ((w.dropData owner d.inode).uncountInode owner).vfreeInode d.inode)
          else (0, w)

def memfsDeleteDir (w : World) (f : Nat) (path : Path) : Int × World :=
  if path = [slash] then (-1, w)
  else
    match w.lookupPathDentry f path with
    | none => (-1, w)
    | some (d, owner, parent) =>
        if (w.inode d.inode).type ≠ .dir then (-1, w)
        else if d.mountedFs.isSome then (-1, w)
        else if d.inode = w.root owner then (-1, w)
        else if 0 < (w.inode d.inode).entryCount then (-1, w)
        else
          let w := (w.removeEntry parent d).dropLink d.inode
          if (w.inode d.inode).linkCount = 0 then
            (0, (w.uncountInode owner).vfreeInode d.inode)
          else (0, w)

def contents (n : Inode) : List UInt8 :=
  match n.data with
  | some data => data.take n.size
  | none => []

def extend (w : World) (owner i : Nat) (buf : List UInt8) : Int × World :=
  let n := w.inode i
  match w.valloc (n.size + buf.length) with
  | (false, w) => (-1, w)
  | (true, w) =>
      let w := w.setInode i
        { n with data := some (contents n ++ buf), size := n.size + buf.length }
      (buf.length, w.usedAdd owner buf.length)

def streamWrite (w : World) (owner i : Nat) (buf : List UInt8) : Int × World :=
  if buf.length = 0 then (0, w) else w.extend owner i buf

def memfsWrite (w : World) (f : Nat) (path : Path) (buf : List UInt8) : Int × World :=
  match w.lookupPathEx f path with
  | none => (-1, w)
  | some (owner, i) =>
      let n := w.inode i
      if n.type = .device then
        if n.flags &&& devWrite = 0 then (-1, w)
        else
          match n.buffer with
          | none => (-1, w)
          | some old =>
              let toCopy := min buf.length old.length
              (toCopy, w.setInode i { n with buffer := some (buf.take toCopy ++ old.drop toCopy) })
      else if ¬ isStorageNode n.type then (-1, w)
      else if isStreamNode n.type then w.streamWrite owner i buf
      else
        let w := w.dropData owner i
        match w.valloc buf.length with
        | (false, w) => (-1, w)
        | (true, w) =>
            let w := w.setInode i { w.inode i with data := some buf, size := buf.length }
            (buf.length, w.usedAdd owner buf.length)

def memfsAppend (w : World) (f : Nat) (path : Path) (buf : List UInt8) : Int × World :=
  match w.lookupPathEx f path with
  | none => (-1, w)
  | some (owner, i) =>
      if ¬ isStorageNode (w.inode i).type then (-1, w)
      else if isStreamNode (w.inode i).type then w.streamWrite owner i buf
      else w.extend owner i buf

def streamRead (w : World) (owner i size : Nat) : Option (List UInt8) × World :=
  let n := w.inode i
  if size = 0 then (some [], w)
  else
    match n.data with
    | none => (some [], w)
    | some data =>
        if n.size = 0 then (some [], w)
        else
          let toCopy := min size n.size
          let out := data.take toCopy
          if n.size - toCopy = 0 then
            (some out, (w.setInode i { n with data := none, size := 0 }).usedSub owner toCopy)
          else
            match w.valloc (n.size - toCopy) with
            | (false, w) => (none, w)
            | (true, w) =>
                let rest := (data.drop toCopy).take (n.size - toCopy)
                (some out, (w.setInode i { n with data := some rest, size := n.size - toCopy }).usedSub
                  owner toCopy)

def memfsRead (w : World) (f : Nat) (path : Path) (size : Nat) : Option (List UInt8) × World :=
  match w.lookupPathEx f path with
  | none => (none, w)
  | some (owner, i) =>
      let n := w.inode i
      if n.type = .device then
        if n.flags &&& devRead = 0 then (none, w)
        else (n.buffer.map (fun buffer => buffer.take (min size buffer.length)), w)
      else if ¬ isStorageNode n.type then (none, w)
      else if isStreamNode n.type then w.streamRead owner i size
      else (some ((n.data.getD []).take (min size n.size)), w)

def memfsLink (w : World) (f : Nat) (oldpath newpath : Path) : Int × World :=
  match w.lookupPath f oldpath with
  | none => (-1, w)
  | some old =>
      match w.splitParent f newpath with
      | (none, w) => (-1, w)
      | (some (name, _, parent), w) =>
          match w.lookupDentry parent name with
          | some _ => (-1, w)
          | none =>
              match w.dentryCreate old (some name) with
              | (none, w) => (-1, w)
              | (some d, w) => (0, (w.addEntry parent d).addLink old)

end World

structure LocalPath where
  chars : Path
  absolute : chars.head? = some slash
  short : chars.length < pathCap

inductive Event where
  | createDir (path : LocalPath)
  | createFile (path : LocalPath)
  | createFifo (path : LocalPath)
  | createSocket (path : LocalPath)
  | createDevice (path : LocalPath) (buffer : List UInt8) (flags : Nat)
  | write (path : LocalPath) (buf : List UInt8)
  | append (path : LocalPath) (buf : List UInt8)
  | link (oldpath newpath : LocalPath)
  | deleteFile (path : LocalPath)
  | deleteDir (path : LocalPath)

def step (f : Nat) (w : World) : Event → Option World
  | .createDir p => some (w.memfsCreateDir f p.chars).2
  | .createFile p => some (w.memfsCreateFile f p.chars).2
  | .createFifo p => some (w.memfsCreateFifo f p.chars).2
  | .createSocket p => some (w.memfsCreateSocket f p.chars).2
  | .createDevice p buffer flags => some (w.memfsCreateDeviceBuffer f p.chars buffer flags).2
  | .write p buf => some (w.memfsWrite f p.chars buf).2
  | .append p buf => some (w.memfsAppend f p.chars buf).2
  | .link old new => some (w.memfsLink f old.chars new.chars).2
  | .deleteFile p => some (w.memfsDeleteFile f p.chars).2
  | .deleteDir p => some (w.memfsDeleteDir f p.chars).2

end HouseOS.Memfs
