import Mathlib.Data.List.Infix
import Runix.ArchSim
import Runix.Lib.Run
import Runix.Service.Device

namespace Runix

def traceBufferSize : Nat := 128

instance : NeZero traceBufferSize := ⟨by decide⟩

structure TraceEvent where
  tick : UInt64
  msg : String
  param1 : UInt64
  param2 : UInt64

def TraceEvent.zero : TraceEvent := ⟨0, "", 0, 0⟩

/-- The statics `TRACE_BUFFER`, `NEXT_IDX` and `TRACING_ACTIVE`. -/
structure Tracer where
  buffer : Fin traceBufferSize → TraceEvent
  nextIdx : UInt64
  active : Bool

namespace Tracer

def new : Tracer := ⟨fun _ => .zero, 0, false⟩

/-- `log_trace`, with the time it reads. The counter wraps, as `fetch_add` does. -/
def logTrace (t : Tracer) (event : TraceEvent) : Option Tracer :=
  if t.active then
    (Lib.assign t.buffer (t.nextIdx.toNat % traceBufferSize) event).map (fun buffer =>
      { t with buffer := buffer, nextIdx := t.nextIdx + 1 })
  else some t

/-- What the `trace` command does before it dispatches its line; the buffer keeps its
events. -/
def start (t : Tracer) : Tracer := { t with nextIdx := 0, active := true }

/-- The stores to `TRACING_ACTIVE` after the line and around a benchmark. -/
def setActive (t : Tracer) (active : Bool) : Tracer := { t with active := active }

def oldest (t : Tracer) : Nat :=
  if t.nextIdx.toNat > traceBufferSize then t.nextIdx.toNat % traceBufferSize else 0

def walk (t : Tracer) : Option (List TraceEvent) :=
  let count := min t.nextIdx.toNat traceBufferSize
  (List.range count).mapM (fun i => Lib.index t.buffer ((t.oldest + i) % traceBufferSize))

theorem walk_eq (t : Tracer) : t.walk =
    some ((List.range (min t.nextIdx.toNat traceBufferSize)).map
      (fun i => t.buffer (Fin.ofNat traceBufferSize (t.oldest + i)))) := by
  exact Lib.mapM_eq_map (fun i => Lib.index_of_lt (Nat.mod_lt _ (by decide)))

end Tracer

inductive TraceOp where
  | start
  | setActive (active : Bool)
  | log (event : TraceEvent)

def Tracer.step (t : Tracer) : TraceOp → Option Tracer
  | .start => some t.start
  | .setActive active => some (t.setActive active)
  | .log event => t.logTrace event

def opName (names : List String) (op : UInt64) : String := (names[op.toNat]?).getD "unknown"

/-- `{:#x}` -/
def hexText (x : UInt64) : String := "0x" ++ String.ofList (Nat.toDigits 16 x.toNat)

/-- The line of `print_trace_summary` for an event. -/
def TraceEvent.text (e : TraceEvent) : String :=
  match e.msg with
  | "sched_switch_yield" => s!"  [{e.tick}] sched: switch (yield) task {e.param1} -> task {e.param2}"
  | "sched_switch_preempt" =>
    s!"  [{e.tick}] sched: switch (preempt) task {e.param1} -> task {e.param2}"
  | "sched_switch_term" => s!"  [{e.tick}] sched: switch (term) task {e.param1} -> task {e.param2}"
  | "ipc_send" => s!"  [{e.tick}] ipc: send cap_slot={e.param1}, tag={e.param2}"
  | "ipc_send_async" => s!"  [{e.tick}] ipc: send (async) cap_slot={e.param1}, tag={e.param2}"
  | "ipc_receive" => s!"  [{e.tick}] ipc: receive by task {e.param1}"
  | "ipc_receive_async" => s!"  [{e.tick}] ipc: receive (async) by task {e.param1}"
  | "cpu_exception" =>
    s!"  [{e.tick}] fault: exception vector {e.param1} at rip={hexText e.param2}"
  | "cap_insert" => s!"  [{e.tick}] cap: insert id={e.param1} at slot {e.param2}"
  | "cap_lookup" => s!"  [{e.tick}] cap: lookup slot {e.param1}, cap id {e.param2}"
  | "cap_revoke" => s!"  [{e.tick}] cap: revoke/remove slot {e.param1}, cap id {e.param2}"
  | "fs_op" =>
    let name := opName ["mkdir", "write", "read", "ls", "delete", "stat"] e.param1
    s!"  [{e.tick}] fs: op {name} status={e.param2}"
  | "dev_op" =>
    let name := opName ["read", "write"] e.param1
    s!"  [{e.tick}] dev: op {name} status={e.param2}"
  | "sync_op" =>
    let name := opName ["create", "acquire", "release"] e.param1
    s!"  [{e.tick}] sync: op {name} status={e.param2}"
  | other => s!"  [{e.tick}] {other}: param1={e.param1}, param2={e.param2}"

inductive SummaryLine where
  | ok (text : String)
  | info (text : String)
  | warn (text : String)

/-- The lines of `print_trace_summary` for a count and the events it walks over. -/
def summaryOf (total : Nat) (events : List TraceEvent) : List SummaryLine :=
  .ok s!"trace: {total} events captured" :: events.map (fun e => .info e.text) ++
    if total > traceBufferSize then
      [.warn "  [trace ring buffer overflowed: oldest events overwritten]"]
    else []

def Tracer.printTraceSummary (t : Tracer) : Option (List SummaryLine) :=
  t.walk.map (summaryOf t.nextIdx.toNat)

/-- `msg.as_bytes()` -/
def TraceEvent.bytes (e : TraceEvent) : List UInt8 := e.msg.toUTF8.data.toList

def TraceEvent.isIn (e : TraceEvent) (traceName : List UInt8) : Bool :=
  let traceStr := utf8OrEmpty traceName
  -- all, boot, cap, sched
  if traceStr = [97, 108, 108] then true
  else if traceStr = [98, 111, 111, 116] then
    [99, 97, 112].isPrefixOf e.bytes || [115, 99, 104, 101, 100].isPrefixOf e.bytes
  else decide (traceStr <:+: e.bytes)

def matchedEvents (traceName : List UInt8) (events : List TraceEvent) : List TraceEvent :=
  events.foldl (fun matched e =>
    if e.isIn traceName && matched.length < 128 then matched ++ [e] else matched) []

/-- The line that `hash_event_to_addr` takes is one of twelve, so the product stays far
below the bound of the type. -/
def hashEventToAddr (e : TraceEvent) : UInt64 :=
  let h := e.bytes.foldl (fun h b => h + b.toUInt64) 0
  let h := h + e.param1 + e.param2
  h % 12 * 64

def eventToInstr (e : TraceEvent) : SimInstr :=
  let h := e.bytes.foldl (fun h b => (h ^^^ b.toUInt64) * 0x100000001b3) (0xcbf29ce484222325 : UInt64)
  let h := (h ^^^ e.param1) * 0x100000001b3
  let h := (h ^^^ e.param2) * 0x100000001b3
  let kind : InstrKind :=
    match e.msg with
    | "sched_switch_yield" | "sched_switch_preempt" | "sched_switch_term" => .branch
    | "ipc_send" | "ipc_send_async" => .store
    | "ipc_receive" | "ipc_receive_async" => .load
    | _ => .alu
  ⟨kind, ((h &&& 7) + 1).toUInt8, (((h >>> 3) &&& 7) + 1).toUInt8, (((h >>> 6) &&& 7) + 1).toUInt8⟩

def traceSeed (traceName : List UInt8) : UInt64 :=
  traceName.foldl (fun seed b => (seed + b.toUInt64) * 31) 0

def simLine (step : Nat) : UInt64 :=
  ([0, 4, 0, 4, 1, 5, 1, 5, 2, 6, 2, 6, 3, 7, 3, 7][step]?).getD 0

/-- `x + y` on `u64`; `none` is an overflow. -/
def checkedAdd (x y : UInt64) : Option UInt64 :=
  if x.toNat + y.toNat < 2 ^ 64 then some (x + y) else none

def simAddresses (traceName : List UInt8) (events : List TraceEvent) : Option (List UInt64) :=
  let matched := matchedEvents traceName events
  if matched.length = 0 then
    (List.range 128).mapM (fun i =>
      (checkedAdd (simLine (i % 16)) (traceSeed traceName)).map (fun sum => sum % 12 * 64))
  else (List.range 128).mapM (fun i => (matched[i % matched.length]?).map hashEventToAddr)

def simInstrs (traceName : List UInt8) (events : List TraceEvent) : Option (List SimInstr) :=
  let matched := matchedEvents traceName events
  if matched.length = 0 then
    some ((List.range 128).map (fun i =>
      if i % 3 = 0 then ⟨.load, 1, 0, 0⟩
      else if i % 3 = 1 then ⟨.alu, 2, 1, 0⟩
      else ⟨.store, 0, 2, 0⟩))
  else (List.range 128).mapM (fun i => (matched[i % matched.length]?).map eventToInstr)

def Tracer.getSimAddresses (t : Tracer) (traceName : List UInt8) : Option (List UInt64) :=
  t.walk.bind (simAddresses traceName)

def Tracer.getSimInstrs (t : Tracer) (traceName : List UInt8) : Option (List SimInstr) :=
  t.walk.bind (simInstrs traceName)

end Runix
