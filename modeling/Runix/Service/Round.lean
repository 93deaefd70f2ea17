import Runix.Service.Device
import Runix.Service.Fs
import Runix.Service.Kv
import Runix.Service.Log
import Runix.Service.Sync

namespace Runix

structure Stores where
  kv : KvStore
  log : LogState
  fs : FsStore
  dev : Devices
  sync : SyncStore

def Stores.new : Stores := ⟨.new, .new, .new, .new, .new⟩

/-- The replies of a round of the synchronisation service: to the waiter that was
woken and to the sender. -/
def SyncServed.replies (out : SyncServed) : List (List UInt8) :=
  out.grant.toList.map (fun _ => [0]) ++ out.reply.toList.map (fun reply => [reply.1])

/-- One iteration of a service's loop on a message it has received, with the
replies it sends. -/
def Stores.round (st : Stores) (svc : Service) (s : Scheduler) (ticks : UInt64) (call : Nat)
    (msg : Message) : Option (Stores × List (List UInt8)) :=
  match svc with
  | .kv => (kvServiceMain s st.kv call msg).map
      (fun out => ({ st with kv := out.store }, [out.reply]))
  | .log => (logServiceMain s ticks st.log call msg).map
      (fun out => ({ st with log := out.store }, [out.reply]))
  | .fs => (fsServiceMain s st.fs call msg).map
      (fun out => ({ st with fs := out.store }, [out.reply]))
  | .device => (devServiceMain s st.dev call msg).map
      (fun out => ({ st with dev := out.store }, [out.reply]))
  | .sync => (syncServiceMain s st.sync call msg).map
      (fun out => ({ st with sync := out.store }, out.replies))

end Runix
