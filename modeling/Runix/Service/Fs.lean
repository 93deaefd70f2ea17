import Runix.Service.Reply

namespace Runix

def fsMaxNodes : Nat := 64
def fsNameLen : Nat := 30
def fsDataLen : Nat := 94

structure FsNode where
  used : Bool
  isDir : Bool
  name : Vector UInt8 fsNameLen
  nameLen : Nat
  data : Vector UInt8 fsDataLen
  dataLen : Nat
  mount : UInt8

namespace FsNode

def empty : FsNode :=
  ⟨false, false, Vector.replicate fsNameLen 0, 0, Vector.replicate fsDataLen 0, 0, 0⟩

/-- `&node.name[..node.name_len]` -/
def path (node : FsNode) : Option (List UInt8) := Lib.slice node.name 0 node.nameLen

/-- The condition of `find_node`, evaluated from left to right. -/
def isAt (node : FsNode) (mount : UInt8) (name : List UInt8) : Option Bool :=
  if node.used && node.mount == mount then node.path.map (fun path => path == name) else some false

def readReply (node : FsNode) : Option (Vector UInt8 128) := do
  let reply ← Lib.store (statusReply 0) 1 (UInt8.ofNat node.dataLen)
  let bytes ← Lib.slice node.data 0 node.dataLen
  Lib.copySlice reply 2 (2 + node.dataLen) bytes

def statReply (node : FsNode) : Option (Vector UInt8 128) := do
  let reply ← Lib.store (statusReply 0) 1 (if node.isDir then 1 else 0)
  let reply ← Lib.copySlice reply 2 10 (Lib.leBytes 8 node.dataLen)
  Lib.store reply 10 node.mount

end FsNode

structure FsStore where
  nodes : Fin fsMaxNodes → FsNode

structure Listing where
  reply : Vector UInt8 128
  outIdx : Nat
  count : Nat

namespace Listing

def add (l : Listing) (suffix : List UInt8) : Option Listing :=
  if suffix.contains 47 then some l
  else if l.outIdx + suffix.length + 1 ≤ 128 then do
    let reply ← Lib.copySlice l.reply l.outIdx (l.outIdx + suffix.length) suffix
    let reply ← Lib.store reply (l.outIdx + suffix.length) 10
    some ⟨reply, l.outIdx + suffix.length + 1, l.count + 1⟩
  else some l

def visit (mount : UInt8) (name stem : List UInt8) (l : Listing) (node : FsNode) :
    Option Listing :=
  if node.used && node.mount == mount then do
    let path ← node.path
    if stem.isPrefixOf path && path != name then l.add (path.drop stem.length)
    else if name == [47] && List.isPrefixOf [47] path && path != [47] then l.add (path.drop 1)
    else some l
  else some l

end Listing

/-- The directory's name with a slash at its end, as `ls` puts it into a buffer
of 32 bytes. The empty name has no last byte to look at. -/
def lsStem (name : List UInt8) : Option (List UInt8) :=
  let buffer : Vector UInt8 32 := Vector.replicate 32 0
  if name = [47] then do
    let buffer ← Lib.store buffer 0 47
    Lib.slice buffer 0 1
  else do
    let buffer ← Lib.copySlice buffer 0 name.length name
    let last ← name.getLast?
    if last ≠ 47 then do
      let buffer ← Lib.store buffer name.length 47
      Lib.slice buffer 0 (name.length + 1)
    else Lib.slice buffer 0 name.length

namespace FsStore

def new : FsStore := ⟨fun _ => FsNode.empty⟩

variable (store : FsStore)

def findNode (mount : UInt8) (name : List UInt8) : Option (Option (Fin fsMaxNodes)) :=
  (List.finRange fsMaxNodes).findM? (fun i => (store.nodes i).isAt mount name)

def freeNode : Option (Fin fsMaxNodes) :=
  (List.finRange fsMaxNodes).find? (fun i => !(store.nodes i).used)

def set (i : Fin fsMaxNodes) (node : FsNode) : FsStore := ⟨Function.update store.nodes i node⟩

variable (mount : UInt8) (name : List UInt8)

def mkdir : Option (Answer FsStore) := do
  match ← store.findNode mount name with
  | some _ => some (.status store 4)
  | none =>
    match store.freeNode with
    | none => some (.status store 3)
    | some i =>
      let node := store.nodes i
      let nameBytes ← Lib.copySlice node.name 0 name.length name
      some (.status (store.set i
        { node with
          used := true, isDir := true, name := nameBytes, nameLen := name.length, dataLen := 0
          mount := mount }) 0)

def writeData (bytes : List UInt8) : Option (Answer FsStore) := do
  match ← store.findNode mount name with
  | some i =>
    let node := store.nodes i
    if node.isDir then some (.status store 4)
    else
      let data ← Lib.copySlice node.data 0 bytes.length bytes
      some (.status (store.set i { node with data := data, dataLen := bytes.length }) 0)
  | none =>
    match store.freeNode with
    | none => some (.status store 3)
    | some i =>
      let node := store.nodes i
      let nameBytes ← Lib.copySlice node.name 0 name.length name
      let data ← Lib.copySlice node.data 0 bytes.length bytes
      some (.status (store.set i
        { used := true, isDir := false, name := nameBytes, nameLen := name.length, data := data
          dataLen := bytes.length, mount := mount }) 0)

def write (msg : Message) : Option (Answer FsStore) :=
  let dataLen := (msg.byte 33).toNat
  if dataLen > 94 ∨ msg.len < 34 + dataLen then some (.status store 4)
  else do
    let bytes ← Lib.slice msg.payload 34 (34 + dataLen)
    store.writeData mount name bytes

def read : Option (Answer FsStore) := do
  match ← store.findNode mount name with
  | none => some (.status store 2)
  | some i =>
    let node := store.nodes i
    if node.isDir then some (.status store 2)
    else node.readReply.map (fun reply => ⟨store, reply, 2 + node.dataLen⟩)

def ls : Option (Answer FsStore) := do
  let stem ← lsStem name
  let l ← (List.finRange fsMaxNodes).foldlM
    (fun (l : Listing) i => l.visit mount name stem (store.nodes i)) ⟨statusReply 0, 2, 0⟩
  let reply ← Lib.store l.reply 0 0
  let reply ← Lib.store reply 1 (UInt8.ofNat l.count)
  some ⟨store, reply, l.outIdx⟩

def delete : Option (Answer FsStore) := do
  match ← store.findNode mount name with
  | none => some (.status store 2)
  | some i => some (.status (store.set i { store.nodes i with used := false }) 0)

def stat : Option (Answer FsStore) := do
  match ← store.findNode mount name with
  | none => some (.status store 2)
  | some i => (store.nodes i).statReply.map (fun reply => ⟨store, reply, 11⟩)

end FsStore

/-- The body of `fs_service_main` up to its reply. -/
def fsService (s : Scheduler) (store : FsStore) (msg : Message) : Option (Answer FsStore) :=
  if msg.tag ≠ .fsOp then some (.status store 4)
  else if msg.len < 3 then some (.status store 4)
  else
    let op := msg.byte 0
    let mount := msg.byte 1
    let nameLen := (msg.byte 2).toNat
    if nameLen > 30 ∨ msg.len < 3 + nameLen then some (.status store 4)
    else do
      let name ← Lib.slice msg.payload 3 (3 + nameLen)
      match op.toNat with
      | 0 =>
        if !s.fsCheckCap msg.sender mount true then some (.status store 1)
        else store.mkdir mount name
      | 1 =>
        if !s.fsCheckCap msg.sender mount true then some (.status store 1)
        else store.write mount name msg
      | 2 =>
        if !s.fsCheckCap msg.sender mount false then some (.status store 1)
        else store.read mount name
      | 3 =>
        if !s.fsCheckCap msg.sender mount false then some (.status store 1)
        else store.ls mount name
      | 4 =>
        if !s.fsCheckCap msg.sender mount true then some (.status store 1)
        else store.delete mount name
      | 5 =>
        if !s.fsCheckCap msg.sender mount false then some (.status store 1)
        else store.stat mount name
      | _ => some (.status store 4)

def fsServiceMain (s : Scheduler) (store : FsStore) (call : Nat) (msg : Message) :
    Option (Served FsStore) :=
  (fsService s store msg).bind (s.answer .fs call msg.sender)

end Runix
