import Runix.Lib.Run
import Runix.Lib.Table
import Runix.Proofs.Replies
import Runix.Service.Fs

namespace Runix

inductive FsItem where
  | dir
  | file (bytes : List UInt8)
  deriving DecidableEq

namespace FsItem

def isDir : FsItem → Bool
  | .dir => true
  | .file _ => false

def size : FsItem → Nat
  | .dir => 0
  | .file bytes => bytes.length

end FsItem

abbrev FsKey := UInt8 × List UInt8

abbrev FsMap := FsKey → Option FsItem

def FsMap.keys (m : FsMap) : Set FsKey := {k | m k ≠ none}

inductive FsRequest where
  | mkdir
  | write (data : Option (List UInt8))
  | read
  | ls
  | delete
  | stat
  deriving DecidableEq

def FsRequest.needsWrite : FsRequest → Bool
  | .mkdir | .write _ | .delete => true
  | .read | .ls | .stat => false

structure FsCall where
  key : FsKey
  request : FsRequest
  deriving DecidableEq

namespace Message
variable (msg : Message)

def fsPath : Option (List UInt8) :=
  if msg.tag = .fsOp ∧ 3 ≤ msg.len ∧ (msg.byte 2).toNat ≤ 30 ∧ 3 + (msg.byte 2).toNat ≤ msg.len then
    Lib.slice msg.payload 3 (3 + (msg.byte 2).toNat)
  else none

def fsData : Option (List UInt8) :=
  if (msg.byte 33).toNat ≤ 94 ∧ 34 + (msg.byte 33).toNat ≤ msg.len then
    Lib.slice msg.payload 34 (34 + (msg.byte 33).toNat)
  else none

def fsRequest : Option FsRequest :=
  match (msg.byte 0).toNat with
  | 0 => some .mkdir
  | 1 => some (.write msg.fsData)
  | 2 => some .read
  | 3 => some .ls
  | 4 => some .delete
  | 5 => some .stat
  | _ => none

def fsCall : Option FsCall := do
  let path ← msg.fsPath
  let request ← msg.fsRequest
  some ⟨(msg.byte 1, path), request⟩

end Message

/-- The purpose of the service: one request on the map, from a sender that may or
may not write and read the mount. The listing itself is left open. -/
inductive FsTransition (may : Bool → Prop) (m : FsMap) :
    Option FsCall → FsMap → List UInt8 → Prop where
  | malformed : FsTransition may m none m [4]
  | denied {c : FsCall} (hno : ¬ may c.request.needsWrite) : FsTransition may m (some c) m [1]
  | present {key : FsKey} (hmay : may true) (hkey : m key ≠ none) :
      FsTransition may m (some ⟨key, .mkdir⟩) m [4]
  | made {key : FsKey} (hmay : may true) (hkey : m key = none) (hroom : m.keys.ncard < 64) :
      FsTransition may m (some ⟨key, .mkdir⟩) (Function.update m key (some .dir)) [0]
  | full {key : FsKey} {request : FsRequest} (hmay : may true)
      (hnew : request = .mkdir ∨ ∃ data, request = .write (some data)) (hkey : m key = none)
      (hfull : m.keys.ncard = 64) : FsTransition may m (some ⟨key, request⟩) m [3]
  | badData {key : FsKey} (hmay : may true) : FsTransition may m (some ⟨key, .write none⟩) m [4]
  | toDir {key : FsKey} {data : List UInt8} (hmay : may true) (hkey : m key = some .dir) :
      FsTransition may m (some ⟨key, .write (some data)⟩) m [4]
  | written {key : FsKey} {data : List UInt8} (hmay : may true) (hkey : m key ≠ some .dir)
      (hroom : m key = none → m.keys.ncard < 64) :
      FsTransition may m (some ⟨key, .write (some data)⟩)
        (Function.update m key (some (.file data))) [0]
  | found {key : FsKey} {data : List UInt8} (hmay : may false) (hkey : m key = some (.file data)) :
      FsTransition may m (some ⟨key, .read⟩) m (0 :: UInt8.ofNat data.length :: data)
  | noFile {key : FsKey} (hmay : may false) (hkey : ∀ data, m key ≠ some (.file data)) :
      FsTransition may m (some ⟨key, .read⟩) m [2]
  | listed {key : FsKey} {reply : List UInt8} (hmay : may false) (hlen : 2 ≤ reply.length) :
      FsTransition may m (some ⟨key, .ls⟩) m reply
  | deleted {key : FsKey} (hmay : may true) (hkey : m key ≠ none) :
      FsTransition may m (some ⟨key, .delete⟩) (Function.update m key none) [0]
  | notThere {key : FsKey} {request : FsRequest} (hmay : may request.needsWrite)
      (hreq : request = .delete ∨ request = .stat) (hkey : m key = none) :
      FsTransition may m (some ⟨key, request⟩) m [2]
  | described {key : FsKey} {item : FsItem} (hmay : may false) (hkey : m key = some item) :
      FsTransition may m (some ⟨key, .stat⟩) m
        ([0, if item.isDir then 1 else 0] ++ Lib.leBytes 8 item.size ++ [key.1])

namespace FsNode

def key (node : FsNode) : FsKey := (node.mount, node.name.toList.take node.nameLen)

def bytes (node : FsNode) : List UInt8 := node.data.toList.take node.dataLen

def item (node : FsNode) : FsItem := if node.isDir then .dir else .file node.bytes

def entry (node : FsNode) : Option (FsKey × FsItem) :=
  if node.used then some (node.key, node.item) else none

theorem entry_eq_some {node : FsNode} {key : FsKey} {item : FsItem} :
    node.entry = some (key, item) ↔ node.used = true ∧ node.key = key ∧ node.item = item := by
  unfold entry
  cases node.used <;> simp

theorem entry_file {node : FsNode} {key : FsKey} {data : List UInt8} (hused : node.used = true)
    (hdir : node.isDir = false) (hkey : node.key = key) (hbytes : node.bytes = data) :
    node.entry = some (key, .file data) := by
  rw [entry, if_pos hused, item, hdir, if_neg Bool.false_ne_true, hkey, hbytes]

theorem entry_dir {node : FsNode} {key : FsKey} (hused : node.used = true)
    (hdir : node.isDir = true) (hkey : node.key = key) : node.entry = some (key, .dir) := by
  rw [entry, if_pos hused, item, if_pos hdir, hkey]

structure Sized (node : FsNode) : Prop where
  name : node.nameLen ≤ fsNameLen
  data : node.dataLen ≤ fsDataLen
  dir : node.isDir = true → node.dataLen = 0

variable {node : FsNode}

theorem Sized.path (h : node.Sized) : node.path = some node.key.2 := by
  unfold FsNode.path
  rw [Lib.slice_of_le (Nat.zero_le _) h.name]
  rfl

theorem Sized.isAt (h : node.Sized) (mount : UInt8) (name : List UInt8) :
    node.isAt mount name = some (Lib.Table.held (mount, name) node.entry).isSome := by
  unfold FsNode.isAt entry
  cases hused : node.used with
  | false => rfl
  | true =>
    by_cases hmount : node.mount = mount
    · by_cases hpath : node.name.toList.take node.nameLen = name
      · simp [h.path, Lib.Table.held, key, hmount, hpath]
      · simp [h.path, Lib.Table.held, key, hmount, hpath]
    · simp [Lib.Table.held, key, hmount]

theorem Sized.bytes_length (h : node.Sized) : node.bytes.length = node.dataLen := by
  have hlen := h.data
  rw [bytes, List.length_take, Vector.length_toList]
  omega

theorem Sized.size (h : node.Sized) : node.item.size = node.dataLen := by
  unfold item
  cases hdir : node.isDir with
  | true => exact (h.dir hdir).symm
  | false => exact h.bytes_length

theorem item_isDir (node : FsNode) : node.item.isDir = node.isDir := by
  unfold item
  cases node.isDir <;> rfl

/-- Status, length and bytes are written one behind the other. -/
theorem Sized.readReply (h : node.Sized) : ∃ reply, node.readReply = some reply ∧
    Lib.Begins reply (0 :: UInt8.ofNat node.bytes.length :: node.bytes) := by
  have hlen : node.dataLen ≤ 94 := h.data
  have hsize := h.bytes_length
  have hslice : Lib.slice node.data 0 node.dataLen = some node.bytes := by
    rw [Lib.slice_of_le (Nat.zero_le _) h.data, List.drop_zero, bytes]
  obtain ⟨r₁, hr₁, hb₁⟩ := (statusReply_begins 0).store 1 (UInt8.ofNat node.dataLen) rfl (by decide)
  obtain ⟨r₂, hr₂, hb₂⟩ := hb₁.copySlice 2 (2 + node.dataLen) node.bytes rfl (by simp [hsize])
    (by omega)
  refine ⟨r₂, ?_, ?_⟩
  · rw [FsNode.readReply, hr₁, Option.bind_eq_bind, Option.bind_some, hslice, Option.bind_eq_bind,
      Option.bind_some, hr₂]
  · rw [hsize]
    exact hb₂

theorem Sized.statReply (h : node.Sized) : ∃ reply, node.statReply = some reply ∧
    Lib.Begins reply ([0, if node.item.isDir then 1 else 0] ++ Lib.leBytes 8 node.item.size ++
      [node.mount]) := by
  obtain ⟨r₁, hr₁, hb₁⟩ := (statusReply_begins 0).store 1 (if node.isDir then 1 else 0) rfl
    (by decide)
  obtain ⟨r₂, hr₂, hb₂⟩ := hb₁.copySlice 2 10 (Lib.leBytes 8 node.dataLen) rfl (by simp) (by decide)
  obtain ⟨r₃, hr₃, hb₃⟩ := hb₂.store 10 node.mount (by simp) (by decide)
  refine ⟨r₃, ?_, ?_⟩
  · rw [FsNode.statReply, hr₁, Option.bind_eq_bind, Option.bind_some, hr₂, Option.bind_some, hr₃]
  · rw [item_isDir, h.size]
    exact hb₃

def unused (node : FsNode) : FsNode := { node with used := false }

theorem Sized.unused (h : node.Sized) : node.unused.Sized := ⟨h.name, h.data, h.dir⟩

end FsNode

namespace FsStore

def table (store : FsStore) : Lib.Table fsMaxNodes FsKey FsItem := fun i => (store.nodes i).entry

def map (store : FsStore) : FsMap := store.table.lookup

structure Sound (store : FsStore) : Prop where
  sized : ∀ i, (store.nodes i).Sized
  distinct : store.table.Distinct

theorem new_sound : FsStore.new.Sound where
  sized _ := ⟨Nat.zero_le _, Nat.zero_le _, fun h => by cases h⟩
  distinct _ _ _ _ _ h := by cases h

theorem new_map : FsStore.new.map = fun _ => none := by
  funext k
  exact Lib.Table.lookup_eq_none.mpr (fun i v h => by cases h)

variable {store : FsStore}

theorem Sound.findNode (h : store.Sound) (mount : UInt8) (name : List UInt8) :
    store.findNode mount name = some (store.table.slotOf (mount, name)) := by
  have hat : (fun i => (store.nodes i).isAt mount name) =
      fun i => pure (Lib.Table.held (mount, name) (store.table i)).isSome :=
    funext (fun i => (h.sized i).isAt mount name)
  unfold FsStore.findNode
  rw [hat, List.findM?_pure]
  rfl

theorem freeNode_eq (store : FsStore) : store.freeNode = store.table.free := by
  unfold freeNode Lib.Table.free table
  congr 1
  funext i
  unfold FsNode.entry
  cases (store.nodes i).used <;> rfl

theorem set_table (store : FsStore) (i : Fin fsMaxNodes) (node : FsNode) :
    (store.set i node).table = Function.update store.table i node.entry := by
  funext j
  unfold table set
  by_cases hj : j = i
  · subst hj
    simp only [Function.update_self]
  · simp only [Function.update_of_ne hj]

theorem Sound.set (h : store.Sound) {i : Fin fsMaxNodes} {node : FsNode} (hnode : node.Sized)
    (hdistinct : Lib.Table.Distinct (Function.update store.table i node.entry)) :
    (store.set i node).Sound := by
  refine ⟨fun j => ?_, by rwa [set_table]⟩
  unfold FsStore.set
  by_cases hj : j = i
  · subst hj
    simpa only [Function.update_self] using hnode
  · simpa only [Function.update_of_ne hj] using h.sized j

/-- A node that says the given is written where `push` would put it. -/
theorem Sound.push (h : store.Sound) {i : Fin fsMaxNodes} (node : FsNode) (key : FsKey)
    (item : FsItem) (hnode : node.Sized) (hentry : node.entry = some (key, item))
    (hfree : store.table.free = some i) (hkey : store.map key = none) :
    (store.set i node).Sound ∧
      (store.set i node).map = Function.update store.map key (some item) := by
  have htable : (store.set i node).table = store.table.put key item := by
    have hslot : store.table.slotOf key = none := by
      cases hslot : store.table.slotOf key with
      | none => rfl
      | some j =>
        obtain ⟨w, hw⟩ := Lib.Table.slotOf_some hslot
        exact absurd hw (Lib.Table.lookup_eq_none.mp hkey j w)
    rw [set_table, hentry, Lib.Table.put, hslot]
    simp only [Lib.Table.push, hfree]
  refine ⟨h.set hnode ?_, ?_⟩
  · rw [← set_table, htable]
    exact h.distinct.put
  · unfold map
    rw [htable]
    exact Lib.Table.lookup_put (.inr (by rw [hfree]; rfl))

/-- A node that is found for a path is rewritten in place. -/
theorem Sound.rewrite (h : store.Sound) {i : Fin fsMaxNodes} (node : FsNode) (key : FsKey)
    (item : FsItem) (hnode : node.Sized) (hentry : node.entry = some (key, item))
    (hslot : store.table.slotOf key = some i) :
    (store.set i node).Sound ∧
      (store.set i node).map = Function.update store.map key (some item) := by
  have htable : (store.set i node).table = store.table.put key item := by
    rw [set_table, hentry, Lib.Table.put, hslot]
  have hsome : (store.table.lookup key).isSome := by
    cases hl : store.table.lookup key with
    | some x => rfl
    | none =>
      obtain ⟨w, hw⟩ := Lib.Table.slotOf_some hslot
      exact absurd hw (Lib.Table.lookup_eq_none.mp hl i w)
  refine ⟨h.set hnode ?_, ?_⟩
  · rw [← set_table, htable]
    exact h.distinct.put
  · unfold map
    rw [htable]
    exact Lib.Table.lookup_put (.inl hsome)

theorem Sound.room_iff (h : store.Sound) : store.table.free = none ↔ store.map.keys.ncard = 64 :=
  h.distinct.free_eq_none

theorem Sound.room_lt (h : store.Sound) {i : Fin fsMaxNodes} (hfree : store.table.free = some i) :
    store.map.keys.ncard < 64 := by
  have hle : store.map.keys.ncard ≤ 64 := h.distinct.ncard_keys_le
  have hne : store.map.keys.ncard ≠ 64 := fun heq => by
    rw [h.room_iff.mpr heq] at hfree
    cases hfree
  omega

/-- The node found for a path is the one the map speaks of. -/
theorem Sound.found (h : store.Sound) {i : Fin fsMaxNodes} {key : FsKey}
    (hslot : store.table.slotOf key = some i) :
    (store.nodes i).used = true ∧ (store.nodes i).key = key ∧
      store.map key = some (store.nodes i).item := by
  obtain ⟨item, hentry⟩ := Lib.Table.slotOf_some hslot
  obtain ⟨hused, hkey, hitem⟩ := FsNode.entry_eq_some.mp hentry
  exact ⟨hused, hkey, hitem ▸ h.distinct.lookup_of_entry hentry⟩

def Yields (o : Option (Answer FsStore)) (m : FsMap) (reply : List UInt8) : Prop :=
  ∃ a, o = some a ∧ a.store.Sound ∧ a.store.map = m ∧ a.bytes = some reply

theorem Sound.yields_status (h : store.Sound) {o : Option (Answer FsStore)} (code : UInt8)
    (ho : o = some (.status store code)) : Yields o store.map [code] :=
  ⟨_, ho, h, rfl, Answer.bytes_status store code⟩

def perform (store : FsStore) : FsCall → Option (Answer FsStore)
  | ⟨key, .mkdir⟩ => store.mkdir key.1 key.2
  | ⟨_, .write none⟩ => some (.status store 4)
  | ⟨key, .write (some data)⟩ => store.writeData key.1 key.2 data
  | ⟨key, .read⟩ => store.read key.1 key.2
  | ⟨key, .ls⟩ => store.ls key.1 key.2
  | ⟨key, .delete⟩ => store.delete key.1 key.2
  | ⟨key, .stat⟩ => store.stat key.1 key.2

variable {may : Bool → Prop} {key : FsKey}

theorem Sound.mkdir (h : store.Sound) (hname : key.2.length ≤ 30) (hmay : may true) :
    ∃ m reply, Yields (store.mkdir key.1 key.2) m reply ∧
      FsTransition may store.map (some ⟨key, .mkdir⟩) m reply := by
  have hfind := h.findNode key.1 key.2
  cases hslot : store.table.slotOf key with
  | some i =>
    have hmap := (h.found hslot).2.2
    refine ⟨_, _, h.yields_status 4 ?_, .present hmay (by rw [hmap]; simp)⟩
    rw [FsStore.mkdir, hfind, hslot]
    rfl
  | none =>
    have hkey := Lib.Table.slotOf_none hslot
    cases hfree : store.table.free with
    | none =>
      refine ⟨_, _, h.yields_status 3 ?_, .full hmay (.inl rfl) hkey (h.room_iff.mp hfree)⟩
      rw [FsStore.mkdir, hfind, hslot, Option.bind_eq_bind, Option.bind_some, freeNode_eq, hfree]
    | some i =>
      obtain ⟨nameBytes, hcopy, hbegins⟩ := Lib.copySlice_front (store.nodes i).name key.2 hname
      obtain ⟨hsound, hmap⟩ := h.push
        { store.nodes i with
          used := true, isDir := true, name := nameBytes, nameLen := key.2.length, dataLen := 0
          mount := key.1 } key .dir
        ⟨hname, Nat.zero_le _, fun _ => rfl⟩
        (FsNode.entry_dir rfl rfl (congrArg (Prod.mk key.1) hbegins)) hfree hkey
      refine ⟨_, _, ⟨_, ?_, hsound, hmap, Answer.bytes_status _ 0⟩, .made hmay hkey (h.room_lt hfree)⟩
      rw [FsStore.mkdir, hfind, hslot, Option.bind_eq_bind, Option.bind_some, freeNode_eq, hfree]
      simp only [hcopy]
      rfl

theorem Sound.writeData (h : store.Sound) (hname : key.2.length ≤ 30) {data : List UInt8}
    (hdata : data.length ≤ 94) (hmay : may true) :
    ∃ m reply, Yields (store.writeData key.1 key.2 data) m reply ∧
      FsTransition may store.map (some ⟨key, .write (some data)⟩) m reply := by
  have hfind := h.findNode key.1 key.2
  cases hslot : store.table.slotOf key with
  | some i =>
    obtain ⟨hused, hkeyOf, hmap⟩ := h.found hslot
    cases hdir : (store.nodes i).isDir with
    | true =>
      have hitem : store.map key = some .dir := by rw [hmap, FsNode.item, hdir, if_pos rfl]
      refine ⟨_, _, h.yields_status 4 ?_, .toDir hmay hitem⟩
      rw [FsStore.writeData, hfind, hslot, Option.bind_eq_bind, Option.bind_some]
      simp only [hdir, if_true]
    | false =>
      obtain ⟨bytes, hcopy, hbegins⟩ := Lib.copySlice_front (store.nodes i).data data hdata
      obtain ⟨hsound, hnew⟩ := h.rewrite
        { store.nodes i with data := bytes, dataLen := data.length } key (.file data)
        ⟨(h.sized i).name, hdata, fun hd => by cases hdir.symm.trans hd⟩
        (FsNode.entry_file hused hdir hkeyOf hbegins) hslot
      have hitem : store.map key ≠ some .dir := by
        rw [hmap, FsNode.item, hdir]
        simp
      refine ⟨_, _, ⟨_, ?_, hsound, hnew, Answer.bytes_status _ 0⟩,
        .written hmay hitem (fun hnone => by cases hmap.symm.trans hnone)⟩
      rw [FsStore.writeData, hfind, hslot, Option.bind_eq_bind, Option.bind_some]
      simp only [hdir, Bool.false_eq_true, if_false, hcopy]
      rfl
  | none =>
    have hkey := Lib.Table.slotOf_none hslot
    cases hfree : store.table.free with
    | none =>
      refine ⟨_, _, h.yields_status 3 ?_,
        .full hmay (.inr ⟨data, rfl⟩) hkey (h.room_iff.mp hfree)⟩
      rw [FsStore.writeData, hfind, hslot, Option.bind_eq_bind, Option.bind_some, freeNode_eq, hfree]
    | some i =>
      obtain ⟨nameBytes, hcopyName, hbeginsName⟩ := Lib.copySlice_front (store.nodes i).name key.2 hname
      obtain ⟨bytes, hcopy, hbegins⟩ := Lib.copySlice_front (store.nodes i).data data hdata
      obtain ⟨hsound, hnew⟩ := h.push
        { used := true, isDir := false, name := nameBytes, nameLen := key.2.length, data := bytes
          dataLen := data.length, mount := key.1 } key (.file data)
        ⟨hname, hdata, fun hd => by cases hd⟩
        (FsNode.entry_file rfl rfl (congrArg (Prod.mk key.1) hbeginsName) hbegins) hfree hkey
      refine ⟨_, _, ⟨_, ?_, hsound, hnew, Answer.bytes_status _ 0⟩,
        .written hmay (by rw [show store.map key = none from hkey]; simp) (fun _ => h.room_lt hfree)⟩
      rw [FsStore.writeData, hfind, hslot, Option.bind_eq_bind, Option.bind_some, freeNode_eq, hfree]
      simp only [hcopyName, hcopy]
      rfl

theorem Sound.read (h : store.Sound) (hmay : may false) :
    ∃ m reply, Yields (store.read key.1 key.2) m reply ∧
      FsTransition may store.map (some ⟨key, .read⟩) m reply := by
  have hfind := h.findNode key.1 key.2
  cases hslot : store.table.slotOf key with
  | none =>
    have hkey := Lib.Table.slotOf_none hslot
    refine ⟨_, _, h.yields_status 2 ?_,
      .noFile hmay (fun data hd => by cases hkey.symm.trans hd)⟩
    rw [FsStore.read, hfind, hslot]
    rfl
  | some i =>
    have hmap := (h.found hslot).2.2
    cases hdir : (store.nodes i).isDir with
    | true =>
      have hitem : store.map key = some .dir := by rw [hmap, FsNode.item, hdir, if_pos rfl]
      refine ⟨_, _, h.yields_status 2 ?_,
        .noFile hmay (fun data hd => by cases hitem.symm.trans hd)⟩
      rw [FsStore.read, hfind, hslot, Option.bind_eq_bind, Option.bind_some]
      simp only [hdir, if_true]
    | false =>
      have hlen : (store.nodes i).dataLen ≤ 94 := (h.sized i).data
      have hitem : store.map key = some (.file (store.nodes i).bytes) := by
        rw [hmap, FsNode.item, hdir, if_neg Bool.false_ne_true]
      obtain ⟨reply, hreply, hbegins⟩ := (h.sized i).readReply
      have hsize := (h.sized i).bytes_length
      refine ⟨_, _, ⟨⟨store, reply, 2 + (store.nodes i).dataLen⟩, ?_, h, rfl, ?_⟩, .found hmay hitem⟩
      · rw [FsStore.read, hfind, hslot, Option.bind_eq_bind, Option.bind_some]
        simp only [hdir, Bool.false_eq_true, if_false, hreply, Option.map_some]
      · exact Answer.bytes_of_begins hbegins (by simp only [List.length_cons, hsize]; omega)
          (by omega)

theorem Sound.delete (h : store.Sound) (hmay : may true) :
    ∃ m reply, Yields (store.delete key.1 key.2) m reply ∧
      FsTransition may store.map (some ⟨key, .delete⟩) m reply := by
  have hfind := h.findNode key.1 key.2
  cases hslot : store.table.slotOf key with
  | none =>
    refine ⟨_, _, h.yields_status 2 ?_,
      .notThere hmay (.inl rfl) (Lib.Table.slotOf_none hslot)⟩
    rw [FsStore.delete, hfind, hslot]
    rfl
  | some i =>
    have hmap := (h.found hslot).2.2
    obtain ⟨item, hitem⟩ := Lib.Table.slotOf_some hslot
    have hentry : (store.nodes i).unused.entry = none := rfl
    have hsound := h.set (i := i) (h.sized i).unused (by rw [hentry]; exact h.distinct.erase i)
    have hnew : (store.set i (store.nodes i).unused).map = Function.update store.map key none := by
      unfold map
      rw [set_table, hentry]
      exact h.distinct.lookup_erase hitem
    refine ⟨_, _, ⟨_, ?_, hsound, hnew, Answer.bytes_status _ 0⟩,
      .deleted hmay (by rw [hmap]; simp)⟩
    rw [FsStore.delete, hfind, hslot]
    rfl

theorem Sound.stat (h : store.Sound) (hmay : may false) :
    ∃ m reply, Yields (store.stat key.1 key.2) m reply ∧
      FsTransition may store.map (some ⟨key, .stat⟩) m reply := by
  have hfind := h.findNode key.1 key.2
  cases hslot : store.table.slotOf key with
  | none =>
    refine ⟨_, _, h.yields_status 2 ?_,
      .notThere hmay (.inr rfl) (Lib.Table.slotOf_none hslot)⟩
    rw [FsStore.stat, hfind, hslot]
    rfl
  | some i =>
    obtain ⟨_, hkeyOf, hmap⟩ := h.found hslot
    obtain ⟨reply, hreply, hbegins⟩ := (h.sized i).statReply
    rw [show (store.nodes i).mount = key.1 from congrArg Prod.fst hkeyOf] at hbegins
    refine ⟨_, _, ⟨⟨store, reply, 11⟩, ?_, h, rfl, ?_⟩, .described hmay hmap⟩
    · rw [FsStore.stat, hfind, hslot, Option.bind_eq_bind, Option.bind_some]
      simp only [hreply, Option.map_some]
    · exact Answer.bytes_of_begins hbegins (by simp) (by decide)

end FsStore

def Listing.Within (l : Listing) : Prop := 2 ≤ l.outIdx ∧ l.outIdx ≤ 128

theorem Listing.Within.add {l : Listing} (h : l.Within) (suffix : List UInt8) :
    ∃ l', l.add suffix = some l' ∧ l'.Within := by
  unfold Listing.add
  split
  · exact ⟨l, rfl, h⟩
  · split
    · rename_i hroom
      obtain ⟨hlow, _⟩ := h
      have hcopy : Lib.copySlice l.reply l.outIdx (l.outIdx + suffix.length) suffix = some _ :=
        Lib.copySlice_of_length (by omega)
      have hstore : ∀ v : Vector UInt8 128, Lib.store v (l.outIdx + suffix.length) 10 = some _ :=
        fun v => dif_pos (by omega)
      rw [hcopy, Option.bind_eq_bind, Option.bind_some, hstore, Option.bind_some]
      refine ⟨_, rfl, ?_, ?_⟩
      · change 2 ≤ l.outIdx + suffix.length + 1
        omega
      · exact hroom
    · exact ⟨l, rfl, h⟩

theorem Listing.Within.visit {l : Listing} (h : l.Within) {node : FsNode} (hnode : node.Sized)
    (mount : UInt8) (name stem : List UInt8) :
    ∃ l', l.visit mount name stem node = some l' ∧ l'.Within := by
  unfold Listing.visit
  split
  · rw [hnode.path, Option.bind_eq_bind, Option.bind_some]
    split
    · exact h.add _
    · split
      · exact h.add _
      · exact ⟨l, rfl, h⟩
  · exact ⟨l, rfl, h⟩

/-- Only the empty name stops a listing. -/
theorem lsStem_some {name : List UInt8} (hlen : name.length ≤ 30) :
    (∃ stem, lsStem name = some stem) ↔ name ≠ [] := by
  constructor
  · rintro ⟨stem, h⟩ rfl
    cases h
  · intro hne
    unfold lsStem
    dsimp only
    split
    · exact ⟨_, rfl⟩
    · obtain ⟨buffer, hcopy, _⟩ := Lib.copySlice_front (Vector.replicate 32 0) name
        (by omega)
      rw [hcopy, Option.bind_eq_bind, Option.bind_some, List.getLast?_eq_some_getLast hne,
        Option.bind_eq_bind, Option.bind_some]
      split
      · have hstore : Lib.store buffer name.length 47 = some _ := dif_pos (by omega)
        rw [hstore, Option.bind_some]
        exact ⟨_, Lib.slice_of_le (Nat.zero_le _) (by omega)⟩
      · exact ⟨_, Lib.slice_of_le (Nat.zero_le _) (by omega)⟩

namespace FsStore
variable {store : FsStore} {may : Bool → Prop}

theorem Sound.ls (h : store.Sound) {key : FsKey} (hname : key.2.length ≤ 30) (hne : key.2 ≠ [])
    (hmay : may false) : ∃ m reply, Yields (store.ls key.1 key.2) m reply ∧
      FsTransition may store.map (some ⟨key, .ls⟩) m reply := by
  obtain ⟨stem, hstem⟩ := (lsStem_some hname).mpr hne
  have hstart : Listing.Within ⟨statusReply 0, 2, 0⟩ := ⟨Nat.le_refl 2, Nat.le_of_ble_eq_true rfl⟩
  obtain ⟨l, hl, hwithin⟩ := Lib.foldlM_invariant (P := Listing.Within) (List.finRange fsMaxNodes)
    hstart (fun l i _ hw => hw.visit (h.sized i) key.1 key.2 stem)
  obtain ⟨r₁, hr₁⟩ : ∃ r, Lib.store l.reply 0 0 = some r := ⟨_, dif_pos (by decide)⟩
  obtain ⟨r₂, hr₂⟩ : ∃ r, Lib.store r₁ 1 (UInt8.ofNat l.count) = some r := ⟨_, dif_pos (by decide)⟩
  have hslice : Lib.slice r₂ 0 l.outIdx = some _ := Lib.slice_of_le (Nat.zero_le _) hwithin.2
  refine ⟨_, _, ⟨⟨store, r₂, l.outIdx⟩, ?_, h, rfl, hslice⟩, .listed hmay ?_⟩
  · rw [FsStore.ls, hstem, Option.bind_eq_bind, Option.bind_some, hl, Option.bind_eq_bind,
      Option.bind_some, hr₁, Option.bind_eq_bind, Option.bind_some, hr₂, Option.bind_some]
  · rw [(Lib.slice_length hslice).1]
    exact hwithin.1

theorem ls_empty (store : FsStore) (mount : UInt8) : store.ls mount [] = none := rfl

end FsStore

structure FsCall.Sized (c : FsCall) : Prop where
  name : c.key.2.length ≤ 30
  data : ∀ data, c.request = .write (some data) → data.length ≤ 94

def FsCall.Nameless (c : FsCall) : Prop := c.request = .ls ∧ c.key.2 = []

instance (c : FsCall) : Decidable c.Nameless := inferInstanceAs (Decidable (_ ∧ _))

theorem Message.fsPath_length {msg : Message} {path : List UInt8} (h : msg.fsPath = some path) :
    path.length ≤ 30 := by
  unfold fsPath at h
  split at h
  · rename_i hok
    have hlen := (Lib.slice_length h).1
    have hname := hok.2.2.1
    omega
  · cases h

theorem Message.fsCall_sized {msg : Message} {c : FsCall} (h : msg.fsCall = some c) : c.Sized := by
  obtain ⟨path, hpath, h⟩ := Option.bind_eq_some_iff.mp h
  obtain ⟨request, hrequest, h⟩ := Option.bind_eq_some_iff.mp h
  cases h
  refine ⟨fsPath_length hpath, fun data hdata => ?_⟩
  change request = .write (some data) at hdata
  subst hdata
  have hfield : msg.fsData = some data := by
    unfold fsRequest at hrequest
    split at hrequest <;>
      first
      | exact FsRequest.write.inj (Option.some.inj hrequest)
      | cases hrequest
  unfold fsData at hfield
  split at hfield
  · rename_i hok
    have hlen := (Lib.slice_length hfield).1
    have hmax := hok.1
    omega
  · cases hfield

namespace FsStore
variable {store : FsStore} {c : FsCall}

/-- Behind the check every request but one does what the map says. -/
theorem Sound.perform (h : store.Sound) (may : Bool → Prop) (hc : c.Sized) (hmay : may c.request.needsWrite)
    (hls : ¬ c.Nameless) : ∃ m reply, Yields (store.perform c) m reply ∧
      FsTransition may store.map (some c) m reply := by
  obtain ⟨key, request⟩ := c
  cases request with
  | mkdir => exact h.mkdir hc.name hmay
  | write data =>
    cases data with
    | none => exact ⟨_, _, h.yields_status 4 rfl, .badData hmay⟩
    | some data => exact h.writeData hc.name (hc.data data rfl) hmay
  | read => exact h.read hmay
  | ls => exact h.ls hc.name (fun he => hls ⟨rfl, he⟩) hmay
  | delete => exact h.delete hmay
  | stat => exact h.stat hmay

theorem perform_nameless (store : FsStore) (h : c.Nameless) : store.perform c = none := by
  obtain ⟨⟨mount, path⟩, request⟩ := c
  obtain ⟨rfl, rfl⟩ := h
  exact store.ls_empty mount

end FsStore

theorem FsStore.write_eq (store : FsStore) (mount : UInt8) (name : List UInt8) (msg : Message) :
    store.write mount name msg = store.perform ⟨(mount, name), .write msg.fsData⟩ := by
  unfold write Message.fsData
  dsimp only
  by_cases hok : (msg.byte 33).toNat ≤ 94 ∧ 34 + (msg.byte 33).toNat ≤ msg.len
  · have hslice : Lib.slice msg.payload 34 (34 + (msg.byte 33).toNat) = some _ :=
      Lib.slice_of_le (Nat.le_add_right _ _) (by omega)
    rw [if_neg (by omega), if_pos hok, hslice]
    rfl
  · rw [if_pos (by omega), if_neg hok]
    rfl

/-- The service decodes, checks the capability, and performs. -/
theorem fsService_eq (s : Scheduler) (store : FsStore) (msg : Message) :
    fsService s store msg =
      match msg.fsCall with
      | none => some (.status store 4)
      | some c =>
        if s.fsCheckCap msg.sender c.key.1 c.request.needsWrite then store.perform c
        else some (.status store 1) := by
  unfold fsService
  by_cases hok : msg.tag = .fsOp ∧ 3 ≤ msg.len ∧ (msg.byte 2).toNat ≤ 30 ∧
      3 + (msg.byte 2).toNat ≤ msg.len
  · have hslice : Lib.slice msg.payload 3 (3 + (msg.byte 2).toNat) = some _ :=
      Lib.slice_of_le (Nat.le_add_right _ _) (by omega)
    generalize (msg.payload.toList.take (3 + (msg.byte 2).toNat)).drop 3 = path at hslice
    have hpath : msg.fsPath = some path := by rw [Message.fsPath, if_pos hok, hslice]
    rw [if_neg (by simp [hok.1]), if_neg (by omega)]
    dsimp only
    rw [if_neg (by omega), hslice, Option.bind_eq_bind, Option.bind_some, Message.fsCall, hpath,
      Option.bind_eq_bind, Option.bind_some, Message.fsRequest]
    rw [store.write_eq]
    generalize (msg.byte 0).toNat = op
    rcases op with _ | _ | _ | _ | _ | _ | op
    · exact refuse_last _ _ _
    · exact refuse_last _ _ _
    · exact refuse_last _ _ _
    · exact refuse_last _ _ _
    · exact refuse_last _ _ _
    · exact refuse_last _ _ _
    · rfl
  · have hpath : msg.fsPath = none := by rw [Message.fsPath, if_neg hok]
    rw [Message.fsCall, hpath]
    split
    · rfl
    · rename_i htag
      split
      · rfl
      · dsimp only
        rw [if_pos]
        · rfl
        · by_contra hno
          exact hok ⟨not_not.mp htag, by omega, by omega, by omega⟩

end Runix
