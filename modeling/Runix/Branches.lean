import Runix.History

namespace Runix

inductive Exchange where
  | sendFailed (e : IpcError)
  | receiveFailed (e : IpcError)
  | reply (msg : Message)

/-- `{:?}` -/
def IpcError.debug : IpcError → String
  | .noCapability => "NoCapability"
  | .targetGone => "TargetGone"
  | .payloadTooLarge => "PayloadTooLarge"
  | .invalidTag => "InvalidTag"
  | .badVersion => "BadVersion"
  | .noContext => "NoContext"
  | .queueFull => "QueueFull"
  | .noMessage => "NoMessage"

/-- `tag as u16` -/
def IpcTag.code : IpcTag → Nat
  | .raw => 0
  | .log => 1
  | .sensor => 2
  | .ping => 3
  | .kvGet => 4
  | .kvSet => 5
  | .logPublish => 6
  | .logRead => 7
  | .logAck => 8
  | .fsOp => 9
  | .fsReply => 10
  | .devOp => 11
  | .devReply => 12
  | .syncOp => 13
  | .syncReply => 14

inductive Output where
  | reply (r : Reply)
  | pass (text : String)
  | echoed (cmd : List UInt8)
  | capability (slot : Nat) (cap : Capability)
  | trail (total dropped : Nat)
  | event (i : Nat) (ev : AuditEvent)
  | entry (i : Nat) (cmd : List UInt8)
  | raw (text : String)
  | watched (changed : Bool) (line : List UInt8)

/-- The branches of `dispatch` for the groups `cap`, `fault`, `ipc`, `history`, `watch`,
`kv` and `log`, with the tokens they read. -/
inductive Branch where
  | capList
  | capSeal (tok2 : List UInt8)
  | capAudit
  | faultSpawn
  | faultCascade (tok2 : List UInt8)
  | ipcSend (tok2 tok3 : List UInt8)
  | ipcTyped (tok2 tok3 : List UInt8)
  | ipcStress (tok2 : List UInt8)
  | history (tok1 : List UInt8)
  | watch (line : List UInt8)
  | client (cmd : ClientCommand)
  | grant (cmd : GrantCommand)
  | revoke (cmd : RevokeCommand)
  | logTail
  | unknownKv (tok1 : List UInt8)
  | unknownLog (tok1 : List UInt8)
  | unknown (line : List UInt8)

/-- A turn of the loop of `log tail` in which the tick has changed: what the other tasks
have made of the system, the byte at the serial port, and the exchanges with the log
service for each kind. -/
structure TailTick where
  meanwhile : System → System
  key : Option UInt8
  exchanges : Nat → List Exchange

structure WatchBuffers where
  cur : Vector UInt8 1024
  curLen : Nat
  prev : Vector UInt8 1024
  prevLen : Nat

/-- What is done to the statics of `watch`. A watched command writes while its output is
redirected; if it is a `watch` itself it does all of these. -/
inductive WatchStep where
  | forget
  | redirect
  | write (bytes : List UInt8)
  | compare
  | save

/-- What a command meets besides the system and the history: what the other tasks make of
the system while it waits, how its exchange ends and how many ticks that takes, the
counter of `ipc stress`, the ticks of `log tail`, the statics of `watch`, and what the
watched command does to them in each turn up to a key press. -/
structure Env where
  meanwhile : System → System
  exchange : Exchange
  elapsed : UInt64
  deliveries : UInt64
  ticks : List TailTick
  buffers : WatchBuffers
  turns : List (List WatchStep)

/-- What a branch leaves: `next` is the line that it dispatches, `watch` in every turn. -/
structure Ran where
  system : System
  hist : History
  output : List Output
  next : Option (List UInt8)

namespace Branch

/-- The words are `cap`: `list`, `grant`, `revoke`, `seal`, `audit`. -/
def ofCap (line : List UInt8) (t : Tokens) : Branch :=
  if t.tok1 = [108, 105, 115, 116] then .capList
  else if t.tok1 = [103, 114, 97, 110, 116] then .grant (.cap t.tok2)
  else if t.tok1 = [114, 101, 118, 111, 107, 101] then .revoke (.cap t.tok2)
  else if t.tok1 = [115, 101, 97, 108] then .capSeal t.tok2
  else if t.tok1 = [97, 117, 100, 105, 116] then .capAudit
  else .unknown line

def ofFault (line : List UInt8) (t : Tokens) : Branch :=
  if t.tok1 = [115, 112, 97, 119, 110] then .faultSpawn
  else if t.tok1 = [99, 97, 115, 99, 97, 100, 101] then .faultCascade t.tok2
  else .unknown line

def ofIpc (line : List UInt8) (t : Tokens) : Branch :=
  if t.tok1 = [115, 101, 110, 100] then .ipcSend t.tok2 t.tok3
  else if t.tok1 = [116, 121, 112, 101, 100] then .ipcTyped t.tok2 t.tok3
  else if t.tok1 = [115, 116, 114, 101, 115, 115] then .ipcStress t.tok2
  else .unknown line

/-- `kv`: `set`, `get`, `grant`, `revoke`. -/
def ofKv (t : Tokens) : Branch :=
  if t.tok1 = [115, 101, 116] then .client (.kvSet t.tok2 t.tok3)
  else if t.tok1 = [103, 101, 116] then .client (.kvGet t.tok2)
  else if t.tok1 = [103, 114, 97, 110, 116] then .grant (.kv t.tok2 t.tok3)
  else if t.tok1 = [114, 101, 118, 111, 107, 101] then .revoke (.kv t.tok2)
  else .unknownKv t.tok1

/-- `log`: `publish`, `read`, `grant`, `revoke`, `tail`. -/
def ofLog (t : Tokens) : Branch :=
  if t.tok1 = [112, 117, 98, 108, 105, 115, 104] then .client (.logPublish t.tok2 t.tok3)
  else if t.tok1 = [114, 101, 97, 100] then .client (.logRead t.tok2)
  else if t.tok1 = [103, 114, 97, 110, 116] then .grant (.log t.tok2 t.tok3)
  else if t.tok1 = [114, 101, 118, 111, 107, 101] then .revoke (.log t.tok2)
  else if t.tok1 = [116, 97, 105, 108] then .logTail
  else .unknownLog t.tok1

def ofLine (line : List UInt8) : Option Branch :=
  let t := tokenize line
  if t.tok0 = [99, 97, 112] then some (ofCap line t)
  else if t.tok0 = [102, 97, 117, 108, 116] then some (ofFault line t)
  else if t.tok0 = [105, 112, 99] then some (ofIpc line t)
  else if t.tok0 = historyWord then some (.history t.tok1)
  else if t.tok0 = [119, 97, 116, 99, 104] then some (.watch line)
  else if t.tok0 = [107, 118] then some (ofKv t)
  else if t.tok0 = [108, 111, 103] then some (ofLog t)
  else none

end Branch

namespace System

/-- `sched.tasks[slot] = Some(Task::new(TaskId(slot), ..))`; `none` is an index out of
bounds, which `Task::new` asserts first. -/
def assignTask (s : System) (slot : Nat) (table : CapTable) : Option System :=
  if h : slot < maxTasks then some (s.spawn ⟨slot, h⟩ table) else none

/-- `if sched.tasks[slot].is_some() { sched.tasks[slot] = None }` -/
def vacateTask (s : System) (slot : Nat) : Option System := do
  let task ← Lib.index s.kernel.sched.tasks slot
  if task.isSome then
    let tasks ← Lib.assign s.kernel.sched.tasks slot none
    some (s.modifySched (fun sched => { sched with tasks := tasks }))
  else some s

def isGone (s : System) (slot : Nat) : Option Bool :=
  (Lib.index s.kernel.sched.tasks slot).map (fun task =>
    task.all (fun t => decide (t.state = .terminated)))

def aliveCount (s : System) : Nat :=
  (List.finRange maxTasks).countP (fun i =>
    (s.kernel.sched.tasks i).any (fun t => !decide (t.state = .terminated)))

/-- A new table with one channel; `none` is a failed `unwrap`. -/
def withChannel (s : System) (target : TaskId) : Option (System × CapTable) :=
  match CapTable.new.insert s.kernel.nextCapId (rootCap (.ipcChannel target) false) with
  | (some (_, table), counter) => some (s.setCounter counter, table)
  | (none, _) => none

/-- `ensure_echo_service` -/
def ensureEcho (s : System) : Option System := do
  let echo ← Lib.index s.kernel.sched.tasks 65
  if echo.isNone then
    let (s, table) ← s.withChannel 64
    s.assignTask 65 table
  else some s

/-- A pair of workers of `ipc stress`, each with a channel to the other. -/
def stressPair (s : System) (i : Nat) : Option System := do
  let init := 73 + 2 * i
  let repl := 74 + 2 * i
  let (s, capsInit) ← s.withChannel repl
  let (s, capsRepl) ← s.withChannel init
  let s ← s.assignTask init capsInit
  s.assignTask repl capsRepl

def vacatePair (s : System) (i : Nat) : Option System := do
  let s ← s.vacateTask (73 + 2 * i)
  s.vacateTask (74 + 2 * i)

end System

/-- The walk of `audit::dump` over the ring, the oldest event first. -/
def AuditLog.dump (log : AuditLog) : Option (List Output) := do
  let wrapped := log.total > auditCapacity
  let count := if wrapped then auditCapacity else log.total
  let start := if wrapped then log.next.val else 0
  let events ← (List.range count).mapM (fun i =>
    (Lib.index log.buffer ((start + i) % auditCapacity)).map (fun ev => ev.map (Output.event i)))
  some (.trail log.total log.dropped :: events.filterMap id)

/-- The flags of the kinds that the shell may read: `readable_kinds[kind as usize] = true`
for every readable channel in its table. -/
def CapTable.readableKinds (t : CapTable) : Option (Fin 16 → Bool) :=
  (List.finRange maxCaps).foldlM (fun kinds i =>
    match t.slots i with
    | some cap =>
      match cap.resource with
      | .logChannel kind readable _ =>
        if readable && cap.read then Lib.assign kinds kind.toNat true else some kinds
      | _ => some kinds
    | none => some kinds) (fun _ => false)

/-- `&line[lo..hi]` -/
def lineSlice (line : List UInt8) (lo hi : Nat) : Option (List UInt8) :=
  if lo ≤ hi ∧ hi ≤ line.length then some ((line.take hi).drop lo) else none

/-- The command and the interval of `watch`. The command is one word or the two words
before the interval, cut from the line by the positions of its tokens. The inner `none` is
a wrong number of tokens. -/
def watchOperands (line : List UInt8) : Option (Option (List UInt8 × List UInt8)) :=
  let rest1 := afterWord (line.dropWhile (fun b => b = 32))
  let rest2 := afterWord rest1
  let t := tokenize line
  if !t.tok3.isEmpty then
    let startIdx := line.length - rest1.length
    let endIdx := line.length - rest2.length + t.tok2.length
    (lineSlice line startIdx endIdx).map (fun sub => some (sub, t.tok3))
  else if !t.tok2.isEmpty then some (some (t.tok1, t.tok2))
  else some none

def bufferLines (bytes : List UInt8) : List (List UInt8) :=
  match _h : bytes with
  | [] => []
  | b :: rest =>
    (b :: rest).takeWhile (fun b => b ≠ 10) :: bufferLines (((b :: rest).dropWhile (fun b => b ≠ 10)).drop 1)
termination_by bytes.length
decreasing_by
  have hle := ((b :: rest).dropWhile_sublist (fun b => decide (b ≠ 10))).length_le
  rw [List.length_drop]
  simp only [List.length_cons] at hle ⊢
  omega

def cleanLine (line : List UInt8) : List UInt8 :=
  if line.getLast? = some 13 then line.dropLast else line

def shownLine (changed : Bool) (line : List UInt8) : List Output :=
  if (String.fromUTF8? ⟨line.toArray⟩).isSome then [.watched changed line] else []

/-- The loop of `print_diffed_buffers`: each line of the new text, compared with the line at
its place in the old one. -/
def diffedLines : List (List UInt8) → List (List UInt8) → List Output
  | [], _ => []
  | line :: lines, [] => shownLine true (cleanLine line) ++ diffedLines lines []
  | line :: lines, old :: olds =>
    shownLine (cleanLine line ≠ cleanLine old) (cleanLine line) ++ diffedLines lines olds

namespace WatchBuffers

/-- `RedirectWriter::write_str`; `none` is an overflow or a write past the end. -/
def write (b : WatchBuffers) (bytes : List UInt8) : Option WatchBuffers :=
  if b.curLen ≤ 1024 then
    let toCopy := min bytes.length (1024 - b.curLen)
    (Lib.copySlice b.cur b.curLen (b.curLen + toCopy) (bytes.take toCopy)).map (fun cur =>
      { b with cur := cur, curLen := b.curLen + toCopy })
  else none

/-- `none` is a panic. -/
def step (b : WatchBuffers) : WatchStep → Option (WatchBuffers × List Output)
  | .forget => some ({ b with prevLen := 0 }, [])
  | .redirect => some ({ b with curLen := 0 }, [])
  | .write bytes => (b.write bytes).map (fun b => (b, []))
  | .compare => do
    let cur ← Lib.slice b.cur 0 b.curLen
    let prev ← Lib.slice b.prev 0 b.prevLen
    some (b, diffedLines (bufferLines cur) (bufferLines prev))
  | .save => do
    let cur ← Lib.slice b.cur 0 b.curLen
    let prev ← Lib.copySlice b.prev 0 b.curLen cur
    some ({ b with prev := prev, prevLen := b.curLen }, [])

def steps (b : WatchBuffers) : List WatchStep → Option (WatchBuffers × List Output)
  | [] => some (b, [])
  | w :: ws => do
    let (b, out) ← b.step w
    let (b, rest) ← b.steps ws
    some (b, out ++ rest)

/-- The loop of `watch`, with the line it prints on top in each turn. -/
def run (top : Output) (b : WatchBuffers) : List (List WatchStep) → Option (List Output)
  | [] => some []
  | turn :: turns => do
    let (b, inner) ← b.steps (.redirect :: turn)
    let (b, out) ← b.steps [.compare, .save]
    let rest ← b.run top turns
    some (inner ++ top :: out ++ rest)

end WatchBuffers

/-- The inner loop of `log tail`: it reads the log until an exchange brings no entry. -/
def drainKind (kind : Nat) : List Exchange → Option (List Output)
  | [] => some []
  | .sendFailed _ :: _ => some []
  | .receiveFailed _ :: _ => some []
  | .reply msg :: exchanges =>
    if replyByte msg.payload 0 = 0 then do
      let entry ← decodeLogReply msg.payload
      let rest ← drainKind kind exchanges
      some (.reply (.info
        s!"  [{entry.tick}] prod={entry.producer} kind={kind} message={fromUtf8 entry.bytes}") :: rest)
    else some []

/-- The loop of `log tail` over the kinds. A missing channel ends the command. -/
def tailKinds (s : System) (kinds : Fin 16 → Bool) (exchanges : Nat → List Exchange) :
    List Nat → Option (Bool × List Output)
  | [] => some (true, [])
  | kind :: rest => do
    let readable ← Lib.index kinds kind
    if readable then
      match ← s.kernel.sched.shellChannel .log with
      | none => some (false, [.reply (.fail "no capability")])
      | some _ =>
        let entries ← drainKind kind (exchanges kind)
        let (goOn, out) ← tailKinds s kinds exchanges rest
        some (goOn, entries ++ out)
    else tailKinds s kinds exchanges rest

/-- The outer loop of `log tail`, up to `q` or `Q`. -/
def tailLoop (kinds : Fin 16 → Bool) (s : System) : List TailTick → Option (System × List Output)
  | [] => some (s, [])
  | tick :: ticks => do
    let s := tick.meanwhile s
    if tick.key = some 113 ∨ tick.key = some 81 then some (s, [.reply (.ok "log tail stopped")])
    else
      let (goOn, out) ← tailKinds s kinds tick.exchanges (List.range 16)
      if goOn then
        let (s, rest) ← tailLoop kinds s ticks
        some (s, out ++ rest)
      else some (s, out)

namespace Branch
variable (s : System) (hist : History) (env : Env)

def prints (output : List Output) : Option Ran := some ⟨s, hist, output, none⟩

def refuses (text : String) : Option Ran := prints s hist [.reply (.fail text)]

def runCapList : Option Ran :=
  s.kernel.getShellCaps.bind fun slots =>
    let caps := (List.finRange maxCaps).filterMap (fun i => (slots.slots i).map (Output.capability i))
    let count := caps.length
    prints s hist (caps ++
      [.reply (.info s!"no ambient authority: {count} capabilities, nothing else reachable")])

def runCapSeal (tok2 : List UInt8) : Option Ran :=
  match parseUsize tok2 with
  | none => prints s hist [.reply (.badNumber tok2)]
  | some slotIdx =>
    if maxCaps ≤ slotIdx then refuses s hist s!"slot {slotIdx} empty"
    else
      (s.kernel.sched.getTask 64).bind fun shell =>
        (Lib.index shell.capTable.slots slotIdx).bind fun slot =>
          match slot with
          | none => refuses s hist s!"slot {slotIdx} empty"
          | some cap =>
            (Lib.assign shell.capTable.slots slotIdx (some { cap with isSealed := true })).bind
              fun slots =>
                let (removed, table) := CapTable.remove ⟨slots⟩ slotIdx
                let capId := cap.id
                prints (s.modifySched (fun sched =>
                    sched.modify 64 (fun t => { t with capTable := table }))) hist
                  [.reply (match removed with
                    | .error () => .ok s!"sealed id={capId}; holder remove() -> Err (locked)"
                    | .ok _ => .fail "sealing check failed")]

def runCapAudit : Option Ran :=
  s.kernel.audit.dump.bind fun trail => prints s hist (trail ++ [.reply (.info "audit trail above")])

def runFaultSpawn : Option Ran := do
  let started ← s.assignTask 71 CapTable.new
  let s := env.meanwhile started
  let gone ← s.isGone 71
  let alive := s.aliveCount
  prints s hist [.reply (if gone then
      .ok s!"task 71 faulted (#PF) and was contained; kernel + {alive} tasks alive"
    else .fail "task 71 did not fault or was not contained")]

def containedLine (slot : Nat) (gone : Bool) : Output :=
  .reply (if gone then .ok s!"task {slot} contained" else .fail s!"task {slot} not contained")

def runFaultCascade (tok2 : List UInt8) : Option Ran :=
  match parseUsize tok2 with
  | none => prints s hist [.reply (.badNumber tok2)]
  | some n =>
    if ¬ (1 ≤ n ∧ n ≤ 8) then
      refuses s hist s!"fault cascade count {n} out of range (expected 1-8)"
    else do
      let started ← (List.range n).foldlM (fun s i => s.assignTask (72 + i) CapTable.new) s
      let s := env.meanwhile started
      let lines ← (List.range n).mapM (fun i => (s.isGone (72 + i)).map (containedLine (72 + i)))
      prints s hist (lines ++ [.pass s!"isolation held under {n} concurrent faults"])

/-- `dt * 10` is an overflow from 2^64 on. -/
def runIpcSend (tok2 tok3 : List UInt8) : Option Ran :=
  match parseUsize tok2 with
  | none => prints s hist [.reply (.badNumber tok2)]
  | some taskId =>
    if taskId ≠ 65 then refuses s hist "only task 65 (echo) is reachable in v1"
    else do
      let ready ← s.ensureEcho
      let s := env.meanwhile ready
      match env.exchange with
      | .sendFailed e => refuses s hist e.debug
      | .receiveFailed e => refuses s hist s!"receive failed: {e.debug}"
      | .reply _ =>
        let len := tok3.length
        let ms := env.elapsed.toNat * 10
        if ms < 2 ^ 64 then
          prints s hist [.reply (.ok s!"sent {len}B to task 65"), .reply (.info s!"round-trip ~{ms} ms")]
        else none

def runIpcTyped (tok2 tok3 : List UInt8) : Option Ran :=
  match parseUsize tok2 with
  | none => prints s hist [.reply (.badNumber tok2)]
  | some schemaVal =>
    if schemaVal > 3 then refuses s hist "schema must be 0..3"
    else do
      let ready ← s.ensureEcho
      let s := env.meanwhile ready
      match env.exchange with
      | .sendFailed e => refuses s hist e.debug
      | .receiveFailed e => refuses s hist s!"receive failed: {e.debug}"
      | .reply msg =>
        let bytes ← Lib.slice msg.payload 0 msg.len
        let pBuf ← Lib.copySlice (Vector.replicate 129 0) 0 msg.len bytes
        let shown ← Lib.slice pBuf 0 msg.len
        let len := tok3.length
        prints s hist [.reply (.ok s!"typed send tag={schemaVal} ver=2 {len}B"),
          .reply (.info s!"echo tag={msg.tag.code} '{fromUtf8 shown}'")]

def runIpcStress (tok2 : List UInt8) : Option Ran :=
  match parseUsize tok2 with
  | none => prints s hist [.reply (.badNumber tok2)]
  | some n =>
    if ¬ (1 ≤ n ∧ n ≤ 8) then refuses s hist s!"stress count {n} out of range (expected 1-8)"
    else do
      let started ← (List.range n).foldlM System.stressPair s
      let s ← (List.range n).foldlM System.vacatePair (env.meanwhile started)
      let count := env.deliveries.toNat
      let rate := count / 3
      prints s hist [.pass s!"stress: {count} msgs in 3s = {rate}/s, dropped=0"]

/-- `history`: the list, or the entry that is dispatched again. -/
def runHistory (tok1 : List UInt8) : Option Ran :=
  if tok1.isEmpty then do
    let entries ← (List.range hist.count).mapM (fun i =>
      (hist.get (hist.count - i)).map (fun cmd => cmd.map (Output.entry i)))
    prints s hist (.reply (.ok "Command History:") :: entries.filterMap id)
  else
    match parseUsize tok1 with
    | none => prints s hist [.reply (.badNumber tok1)]
    | some nIdx =>
      if nIdx ≥ hist.count then
        let last := hist.count - 1
        refuses s hist s!"history index {nIdx} out of range (0-{last})"
      else do
        match ← hist.get (hist.count - nIdx) with
        | none => prints s hist []
        | some cmd =>
          let cmdBuf ← Lib.copySlice (Vector.replicate 128 0) 0 cmd.length cmd
          let cmd ← Lib.slice cmdBuf 0 cmd.length
          let pushed ← hist.push cmd
          some ⟨s, pushed, [.echoed cmd], some cmd⟩

def watchTop (subCmd : List UInt8) (interval : Nat) : Output := .raw
  s!"\x1b[2J\x1b[H[INFO]  watch: {fromUtf8 subCmd} (every {interval} ticks, press any key to exit)\n"

def runWatch (line : List UInt8) : Option Ran := do
  match ← watchOperands line with
  | none => refuses s hist "Usage: watch <command> <interval>"
  | some (subCmd, intervalTok) =>
    match parseUsize intervalTok with
    | none => prints s hist [.reply (.badNumber intervalTok)]
    | some interval =>
      let (buffers, _) ← env.buffers.step .forget
      let output ← buffers.run (watchTop subCmd interval) env.turns
      some ⟨env.meanwhile s, hist, output ++ [.raw "\n"], some subCmd⟩

/-- The commands of `kv` and `log` that are requests to their service. -/
def runClient (cmd : ClientCommand) : Option Ran :=
  match cmd.request with
  | .error refusal => prints s hist [.reply refusal]
  | .ok req => do
    let s := s.ensureService req.svc
    match ← s.kernel.sched.shellChannel req.svc with
    | none => refuses s hist req.svc.noChannel
    | some _ =>
      let s := env.meanwhile s
      match env.exchange with
      | .sendFailed e => refuses s hist s!"send failed: {e.debug}"
      | .receiveFailed e => refuses s hist s!"receive failed: {e.debug}"
      | .reply msg =>
        let reply ← cmd.report msg.payload
        prints s hist [.reply reply]

def runGrant (cmd : GrantCommand) : Option Ran :=
  (s.kernel.consoleGrant cmd).bind fun out =>
    prints { s with kernel := out.1 } hist [.reply out.2]

def runRevoke (cmd : RevokeCommand) : Option Ran :=
  (s.kernel.consoleRevoke cmd).bind fun out =>
    prints { s with kernel := out.1 } hist [.reply out.2]

def runLogTail : Option Ran := do
  let slots ← s.kernel.getShellCaps
  let kinds ← slots.readableKinds
  let (s, output) ← tailLoop kinds (s.ensureService .log) env.ticks
  prints s hist (.reply (.info "tailing log kinds (press 'q' to quit)...") :: output)

/-- One call of `dispatch` in one of these branches, without the call it makes for `next`;
`none` is a panic. -/
def run : Branch → Option Ran
  | .capList => runCapList s hist
  | .capSeal tok2 => runCapSeal s hist tok2
  | .capAudit => runCapAudit s hist
  | .faultSpawn => runFaultSpawn s hist env
  | .faultCascade tok2 => runFaultCascade s hist env tok2
  | .ipcSend tok2 tok3 => runIpcSend s hist env tok2 tok3
  | .ipcTyped tok2 tok3 => runIpcTyped s hist env tok2 tok3
  | .ipcStress tok2 => runIpcStress s hist env tok2
  | .history tok1 => runHistory s hist tok1
  | .watch line => runWatch s hist env line
  | .client cmd => runClient s hist env cmd
  | .grant cmd => runGrant s hist cmd
  | .revoke cmd => runRevoke s hist cmd
  | .logTail => runLogTail s hist env
  | .unknownKv tok1 => refuses s hist s!"unknown kv subcommand: {fromUtf8 tok1}"
  | .unknownLog tok1 => refuses s hist s!"unknown log subcommand: {fromUtf8 tok1}"
  | .unknown line =>
    prints s hist ((String.fromUTF8? ⟨line.toArray⟩).toList.map
      (fun text => .reply (.fail s!"unknown command: {text}")) ++ [.reply (.info "try: help")])

end Branch

end Runix
