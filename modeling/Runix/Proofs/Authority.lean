import Runix.Proofs.Revocation
import Runix.Lib.Run

namespace Runix
open Lib

def issued (k : Kernel) : List CapAction → Nat
  | [] => 0
  | a :: as =>
    match capSystem k a with
    | none => 0
    | some k' => (if k'.nextCapId = k.nextCapId then 0 else 1) + issued k' as

structure Kernel.Boot (k : Kernel) : Prop where
  counter : k.nextCapId < 2 ^ 64
  roots : ∀ p c, k.sched.store p = some c → c.origin = none
  distinct : ∀ p q c d, k.sched.store p = some c → k.sched.store q = some d → c.id = d.id → p = q
  below : ∀ p c, k.sched.store p = some c → c.id < k.nextCapId

structure AtMost (d c : Capability) : Prop where
  resource : d.resource = c.resource
  read : c.read = true → d.read = true
  write : c.write = true → d.write = true
  grant : c.grant = true → d.grant = true

structure Delegates (d c : Capability) : Prop extends AtMost d c where
  mayGrant : d.grant = true
  notSealed : c.isSealed = false

theorem AtMost.trans {b c d : Capability} (h : AtMost d c) (h' : AtMost c b) : AtMost d b :=
  ⟨h.resource.trans h'.resource, h.read ∘ h'.read, h.write ∘ h'.write, h.grant ∘ h'.grant⟩

theorem atMost_of_chain {c d : Capability} (h : Relation.ReflTransGen Delegates d c) :
    AtMost d c := by
  induction h with
  | refl => exact ⟨rfl, id, id, id⟩
  | tail _ hd ih => exact ih.trans hd.toAtMost

/-- The capability store seen abstractly: what one call can do to it and to
the identity counter. -/
inductive StoreStep : (Slot → Option Capability) × Nat → (Slot → Option Capability) × Nat → Prop
  | idle (s : Slot → Option Capability) (n : Nat) : StoreStep (s, n) (s, n)
  | draw (s : Slot → Option Capability) (n : Nat) : StoreStep (s, n) (s, (n + 1) % 2 ^ 64)
  | mint {s : Slot → Option Capability} {n : Nat} {p : Slot} {c : Capability}
      (hp : s p = none) (hc : c.origin = none) :
      StoreStep (s, n) (Function.update s p (some { c with id := n }), (n + 1) % 2 ^ 64)
  | derive {s : Slot → Option Capability} {n : Nat} {p q : Slot} {c d : Capability}
      {r : RightsMask} (hp : s p = none) (hd : s q = some d) (hc : d.attenuate r = .ok c) :
      StoreStep (s, n) (Function.update s p (some { c with origin := some d.id, id := n }),
        (n + 1) % 2 ^ 64)
  | revoke {s s' : Slot → Option Capability} {n : Nat} {p : Slot} {c : Capability}
      {rs : List Nat} (hp : s p = some c)
      (hw : capLineage.Pruned (Function.update s p none) c.id (s', rs))
      (hc : capLineage.Closed (s', rs)) : StoreStep (s, n) (s', n)

def Kernel.view (k : Kernel) : (Slot → Option Capability) × Nat := (k.sched.store, k.nextCapId)

namespace Kernel

theorem deriveFrom_some {k : Kernel} {caller src : Nat} {rights : RightsMask} {c : Capability}
    (h : k.deriveFrom caller src rights = some c) : ∃ q d e, k.sched.store q = some d ∧
      d.attenuate rights = .ok e ∧ c = { e with origin := some d.id } := by
  unfold deriveFrom at h
  split at h
  · cases h
  · rename_i task ht
    split at h
    · cases h
    · rename_i cap hcap
      split at h
      · cases h
      · rename_i e he
        cases h
        obtain ⟨_, hi, ht⟩ := Scheduler.getTask_some ht
        obtain ⟨hj, hcap⟩ := CapTable.get_eq_some.mp hcap
        exact ⟨(⟨caller, hi⟩, ⟨src, hj⟩), cap, e, Scheduler.store_eq_some.mpr ⟨task, ht, hcap⟩,
          he, rfl⟩

/-- Inserting into a task's table, as both minting and granting do. -/
theorem store_insert {s : Scheduler} {id : Nat} {t : Task} {n n' : Nat} {c : Capability}
    {slot : Fin maxCaps} {table : CapTable} (ht : s.getTask id = some t)
    (h : t.capTable.insert n c = (some (slot, table), n')) :
    n' = (n + 1) % 2 ^ 64 ∧ ∃ hi : id < maxTasks, s.store (⟨id, hi⟩, slot) = none ∧
      (s.modify id (fun t => { t with capTable := table })).store =
        Function.update s.store (⟨id, hi⟩, slot) (some { c with id := n }) := by
  obtain ⟨hi, hslot, hmod⟩ := getTask_modify ht (fun t => { t with capTable := table })
  rcases CapTable.insert_cases t.capTable n c with ⟨i, hfree, heq⟩ | ⟨_, heq⟩
  · rw [heq] at h
    cases h
    refine ⟨rfl, hi, by simp [Scheduler.store, hslot, hfree], ?_⟩
    rw [hmod]
    exact Scheduler.store_set_slot hslot rfl
  · rw [heq] at h
    cases h

theorem insert_none_counter {t : CapTable} {n n' : Nat} {c : Capability}
    (h : t.insert n c = (none, n')) : n' = (n + 1) % 2 ^ 64 := by
  rcases CapTable.insert_cases t n c with ⟨i, _, heq⟩ | ⟨_, heq⟩
  · rw [heq] at h
    cases h
  · rw [heq] at h
    cases h
    rfl

theorem dispatchCapGrant_step (k : Kernel) (caller src target : Nat) (rights : RightsMask) :
    StoreStep k.view (k.dispatchCapGrant caller src target rights).1.view := by
  unfold dispatchCapGrant
  split
  · exact .idle _ _
  · rename_i derived hderived
    split
    · exact .idle _ _
    · rename_i t ht
      split
      · rename_i slot table counter hins
        obtain ⟨rfl, p, hp, hstore⟩ := store_insert ht hins
        obtain ⟨q, d, e, hd, he, rfl⟩ := deriveFrom_some hderived
        simp only [view, record, hstore]
        exact .derive hp hd he
      · rename_i counter hins
        rw [insert_none_counter hins]
        exact .draw _ _

theorem dispatchCapRevoke_step (k : Kernel) (caller target capIdx : Nat) :
    StoreStep k.view (k.dispatchCapRevoke caller target capIdx).1.view := by
  rcases k.dispatchCapRevoke_cases caller target capIdx with ⟨heq, _⟩ | ⟨p, c, hrev, heq⟩
  · rw [heq]
    exact .idle _ _
  · rw [heq]
    obtain ⟨rs, hpruned, hclosed⟩ := propagateRevocation_pruned
      ((k.emptied target capIdx).record .revoke caller target c.resource capIdx) c.id
    simp only [record, hrev.emptied_store] at hpruned hclosed ⊢
    simp only [view, propagateRevocation_nextCapId]
    exact .revoke hrev.holds hpruned hclosed

theorem dispatchCapRevoke_nextCapId (k : Kernel) (caller target capIdx : Nat) :
    (k.dispatchCapRevoke caller target capIdx).1.nextCapId = k.nextCapId := by
  unfold dispatchCapRevoke
  split
  · rfl
  · split
    · rfl
    · split
      · exact propagateRevocation_nextCapId _ _
      · rfl

/-- A new task starts with an empty table in a slot that held none. -/
theorem store_spawn {s : Scheduler} {i : Fin maxTasks} {t : Option Task} (h : s.tasks i = none)
    (ht : ∀ u, t = some u → u.capTable = CapTable.new) : (s.set i t).store = s.store := by
  funext p
  rw [Scheduler.store_set]
  split
  · rename_i hp
    cases t with
    | none => simp [Scheduler.store, hp, h]
    | some u => simp [Scheduler.store, hp, h, ht u rfl, CapTable.new]
  · rfl

theorem dispatchSpawnTask_step {k k' : Kernel} {blob : Nat} {ret : UInt64}
    (h : k.dispatchSpawnTask blob = some (k', ret)) : StoreStep k.view k'.view := by
  unfold dispatchSpawnTask at h
  split at h
  · cases h
    exact .idle _ _
  · rename_i id hid
    have hfree : k.sched.tasks id = none := by
      have := List.find?_some hid
      simpa using (Bool.and_eq_true_iff.mp this).2
    split at h
    · split at h
      · cases h
      · rename_i cr3 memory hmem
        have hnew : (k.sched.set id (some (Task.newUser k.stackBase id cr3 CapTable.new))).store =
            k.sched.store := store_spawn hfree (by rintro u ⟨⟩; rfl)
        have hback : ((k.sched.set id (some (Task.newUser k.stackBase id cr3 CapTable.new))).set id
            none).store = k.sched.store := by
          have : (k.sched.set id (some (Task.newUser k.stackBase id cr3 CapTable.new))).set id none =
              k.sched.set id none := by simp [Scheduler.set]
          rw [this]
          exact store_spawn hfree (by simp)
        simp only at h
        split at h
        · cases h
          simp only [view, hback]
          exact .idle _ _
        · rename_i t ht
          split at h
          · rename_i slot table counter hins
            cases h
            obtain ⟨rfl, p, hp, hstore⟩ := store_insert ht hins
            rw [hnew] at hp hstore
            simp only [view, hstore]
            exact .mint (c := ⟨.ipcChannel id, true, true, true, false, 0, none⟩) hp rfl
          · rename_i counter hins
            cases h
            simp only [view, hback, insert_none_counter hins]
            exact .draw _ _
    · cases h
      exact .idle _ _

theorem syscallDispatch_step {k k' : Kernel} {req : CapRequest} {ret : UInt64}
    (h : k.syscallDispatch req = some (k', ret)) : StoreStep k.view k'.view := by
  cases req with
  | capGrant src target rights =>
    obtain rfl := congrArg Prod.fst (Option.some.inj h)
    exact dispatchCapGrant_step ..
  | capRevoke target capIdx =>
    obtain rfl := congrArg Prod.fst (Option.some.inj h)
    exact dispatchCapRevoke_step ..
  | spawnTask blob =>
    simp only [syscallDispatch] at h
    split at h
    · exact dispatchSpawnTask_step h
    · cases h
      exact .idle _ _

end Kernel

/-- Every capability system call is a step of the abstract store. -/
theorem capSystem_step {k k' : Kernel} {a : CapAction} (h : capSystem k a = some k') :
    StoreStep k.view k'.view := by
  obtain ⟨⟨k₁, ret⟩, hd, rfl⟩ := Option.map_eq_some_iff.mp h
  have hstep := Kernel.syscallDispatch_step hd
  exact hstep

structure StoreInv (s : Slot → Option Capability) (n : Nat) : Prop where
  below : ∀ p c, s p = some c → c.id < n
  distinct : ∀ p q c d, s p = some c → s q = some d → c.id = d.id → p = q
  forest : capLineage.Forest Delegates s

theorem StoreInv.mono {s : Slot → Option Capability} {n m : Nat} (h : StoreInv s n)
    (hnm : n ≤ m) : StoreInv s m :=
  ⟨fun p c hc => (h.below p c hc).trans_le hnm, h.distinct, h.forest⟩

/-- A capability with the next identity, put next to its donor. -/
theorem StoreInv.insert {s : Slot → Option Capability} {n : Nat} {p : Slot} {c : Capability}
    (h : StoreInv s n) (hp : s p = none) (hid : c.id = n)
    (hc : ∀ k, c.origin = some k → ∃ q d, s q = some d ∧ d.id = k ∧ Delegates d c) :
    StoreInv (Function.update s p (some c)) (n + 1) := by
  have hcases : ∀ q d, Function.update s p (some c) q = some d →
      (q = p ∧ d = c) ∨ (q ≠ p ∧ s q = some d) := by
    intro q d hq
    by_cases hqp : q = p
    · subst hqp
      simp only [Function.update_self, Option.some.injEq] at hq
      exact .inl ⟨rfl, hq.symm⟩
    · exact .inr ⟨hqp, by simpa [Function.update_of_ne hqp] using hq⟩
  refine ⟨fun q d hq => ?_, fun q q' d d' hq hq' he => ?_, h.forest.insert hp fun k hk => ?_⟩
  · rcases hcases q d hq with ⟨_, rfl⟩ | ⟨_, hs⟩
    · omega
    · exact Nat.lt_succ_of_lt (h.below q d hs)
  · rcases hcases q d hq with ⟨rfl, rfl⟩ | ⟨_, hs⟩ <;>
      rcases hcases q' d' hq' with ⟨rfl, rfl⟩ | ⟨_, hs'⟩
    · rfl
    · have := h.below q' d' hs'
      omega
    · have := h.below q d hs
      omega
    · exact h.distinct q q' d d' hs hs' he
  · obtain ⟨q, d, hd, hk, hrel⟩ := hc k hk
    have := h.below q d hd
    exact ⟨q, d, hd, hk, by simp only [capLineage_key]; omega, hrel⟩

theorem delegates_of_attenuate {c d : Capability} {r : RightsMask} {o : Option Nat} {n : Nat}
    (h : d.attenuate r = .ok c) : Delegates d { c with origin := o, id := n } := by
  obtain ⟨hg, rfl⟩ := attenuate_ok h
  exact ⟨⟨rfl, fun h => (Bool.and_eq_true_iff.mp h).1, fun h => (Bool.and_eq_true_iff.mp h).1,
    fun _ => hg⟩, hg, rfl⟩

/-- What a step keeps of the invariant, and how it moves the counter. -/
theorem StoreStep.inv {s s' : Slot → Option Capability} {m m' n : Nat}
    (hstep : StoreStep (s, m) (s', m')) (h : StoreInv s n) (hm : m = n % 2 ^ 64)
    (hn : n + (if m' = m then 0 else 1) ≤ 2 ^ 64) :
    StoreInv s' (n + (if m' = m then 0 else 1)) ∧
      m' = (n + (if m' = m then 0 else 1)) % 2 ^ 64 := by
  have hdraw : ¬ (m + 1) % 2 ^ 64 = m := by omega
  cases hstep with
  | idle => simpa using ⟨h, hm⟩
  | draw =>
    simp only [hdraw, if_false] at hn ⊢
    exact ⟨h.mono (by omega), by omega⟩
  | mint hp hc =>
    simp only [hdraw, if_false] at hn ⊢
    exact ⟨h.insert hp (by simp only; omega) (by simp [hc]), by omega⟩
  | derive hp hd hc =>
    simp only [hdraw, if_false] at hn ⊢
    refine ⟨h.insert hp (by simp only; omega) fun k hk => ?_, by omega⟩
    exact ⟨_, _, hd, Option.some.inj hk, delegates_of_attenuate hc⟩
  | @revoke _ _ _ p c rs hp hw hc =>
    simp only [if_true, Nat.add_zero]
    have hkept : ∀ q d, s' q = some d → s q = some d := fun q d hq => (hw.kept_cleared hq).2
    refine ⟨⟨fun q d hq => h.below q d (hkept q d hq),
      fun q q' d d' hq hq' => h.distinct q q' d d' (hkept q d hq) (hkept q' d' hq'), ?_⟩, hm⟩
    refine h.forest.pruned p (fun q hq => Function.update_of_ne hq ..) ?_ ?_ hw hc
    · intro d hd
      cases hp.symm.trans hd
      rfl
    · simp

def Retired (r : Nat) (s : Slot → Option Capability) (n : Nat) : Prop :=
  r < n ∧ ∀ p c, s p = some c → c.id ≠ r

theorem StoreStep.retired {s s' : Slot → Option Capability} {m m' n r : Nat}
    (hstep : StoreStep (s, m) (s', m')) (h : Retired r s n) (hm : m = n % 2 ^ 64)
    (hn : n + (if m' = m then 0 else 1) ≤ 2 ^ 64) :
    Retired r s' (n + (if m' = m then 0 else 1)) := by
  have hdraw : ¬ (m + 1) % 2 ^ 64 = m := by omega
  have hnew : ∀ (p : Slot) (c : Capability), n < 2 ^ 64 → c.id = m →
      ∀ q d, Function.update s p (some c) q = some d → d.id ≠ r := by
    intro p c hlt hid q d hq
    have := h.1
    by_cases hqp : q = p
    · subst hqp
      simp only [Function.update_self, Option.some.injEq] at hq
      subst hq
      omega
    · exact h.2 q d (by simpa [Function.update_of_ne hqp] using hq)
  refine ⟨by have := h.1; omega, ?_⟩
  cases hstep with
  | idle => exact h.2
  | draw => exact h.2
  | mint hp hc =>
    simp only [hdraw, if_false] at hn
    exact hnew _ _ (by omega) rfl
  | derive hp hd hc =>
    simp only [hdraw, if_false] at hn
    exact hnew _ _ (by omega) rfl
  | @revoke _ _ _ p c rs hp hw hc =>
    exact fun q d hq => h.2 q d (hw.kept_cleared hq).2

/-- A capability that leaves its slot is the last one with its identity. -/
theorem StoreStep.retires {s s' : Slot → Option Capability} {m m' n : Nat}
    (hstep : StoreStep (s, m) (s', m')) (h : StoreInv s n) {p : Slot} {c : Capability}
    (hp : s p = some c) (hp' : s' p ≠ some c) : Retired c.id s' n := by
  refine ⟨h.below p c hp, ?_⟩
  cases hstep with
  | idle => exact absurd hp hp'
  | draw => exact absurd hp hp'
  | @mint _ _ q _ hq =>
    refine absurd ?_ hp'
    rw [Function.update_of_ne (by rintro rfl; simp [hp] at hq), hp]
  | @derive _ _ q _ _ _ _ hq =>
    refine absurd ?_ hp'
    rw [Function.update_of_ne (by rintro rfl; simp [hp] at hq), hp]
  | @revoke _ _ _ p₀ c₀ rs hp₀ hw hc =>
    intro q d hq he
    have hk := (hw.kept_cleared hq).2
    have hqp := h.distinct q p d c hk hp he
    subst hqp
    cases hk.symm.trans hp
    exact hp' hq

/-- In a forest, an identity no capability carries is nobody's ancestor. -/
theorem StoreInv.not_descends {s : Slot → Option Capability} {n r : Nat} (h : StoreInv s n)
    (hr : ∀ p c, s p = some c → c.id ≠ r) {p : Slot} {c : Capability} (hc : s p = some c) :
    ¬ capLineage.Descends s r c := by
  intro hd
  induction hd generalizing p with
  | child hpar =>
    obtain ⟨q, d, hd, hid, _⟩ := h.forest p _ _ hc hpar
    exact hr q d hd hid
  | step _ hq _ ih => exact ih hq

theorem issued_cons {k k₁ : Kernel} {a : CapAction} (h : capSystem k a = some k₁)
    (as : List CapAction) : issued k (a :: as) =
      (if k₁.nextCapId = k.nextCapId then 0 else 1) + issued k₁ as := by
  rw [issued, h]

theorem issued_le_length (k : Kernel) (as : List CapAction) : issued k as ≤ as.length := by
  induction as generalizing k with
  | nil => exact Nat.le_refl 0
  | cons a as ih =>
    cases h : capSystem k a with
    | none => simp [issued, h]
    | some k₁ =>
      rw [issued_cons h, List.length_cons]
      have := ih k₁
      split <;> omega

theorem issued_append {k k₁ : Kernel} {as : List CapAction}
    (h : Run (Steps capSystem) k as k₁) (bs : List CapAction) :
    issued k (as ++ bs) = issued k as + issued k₁ bs := by
  induction h with
  | nil => simp [issued]
  | cons head _ ih => rw [List.cons_append, issued_cons head, issued_cons head, ih, Nat.add_assoc]

/-- The run lemma: a run moves the unwrapped counter by what it issues. -/
theorem run_inv {k k' : Kernel} {as : List CapAction} {n : Nat}
    (hr : Run (Steps capSystem) k as k') (h : StoreInv k.sched.store n)
    (hm : k.nextCapId = n % 2 ^ 64) (hn : n + issued k as ≤ 2 ^ 64) :
    StoreInv k'.sched.store (n + issued k as) ∧ k'.nextCapId = (n + issued k as) % 2 ^ 64 ∧
      ∀ r, Retired r k.sched.store n → Retired r k'.sched.store (n + issued k as) := by
  induction hr generalizing n with
  | nil => exact ⟨h, hm, fun _ => id⟩
  | @cons k k₁ k' a as head tail ih =>
    have hhead : capSystem k a = some k₁ := head
    rw [issued_cons hhead] at hn ⊢
    have hstep : StoreStep (k.sched.store, k.nextCapId) (k₁.sched.store, k₁.nextCapId) :=
      capSystem_step hhead
    obtain ⟨h₁, hm₁⟩ := hstep.inv h hm (by omega)
    obtain ⟨h', hm', hret⟩ := ih h₁ hm₁ (by omega)
    simp only [← Nat.add_assoc]
    exact ⟨h', hm', fun r hr => hret r (hstep.retired hr hm (by omega))⟩

theorem Kernel.Boot.inv {k : Kernel} (hb : k.Boot) : StoreInv k.sched.store k.nextCapId where
  below := hb.below
  distinct := hb.distinct
  forest p c n hc hn := by
    have hnone := hb.roots p c hc
    rw [capLineage_parent, hnone] at hn
    cases hn

/-- Authority is confined: each derived capability is covered by a live donor,
and each capability by a live root its origin links lead to. -/
structure Kernel.Confined (k : Kernel) : Prop where
  donor : ∀ p c o, k.sched.store p = some c → c.origin = some o →
    ∃ q d, k.sched.store q = some d ∧ d.id = o ∧ o < c.id ∧ d.grant = true ∧
      d.resource = c.resource ∧ (c.read = true → d.read = true) ∧
      (c.write = true → d.write = true) ∧ (c.grant = true → d.grant = true) ∧
      c.isSealed = false
  root : ∀ p c, k.sched.store p = some c →
    ∃ q d, k.sched.store q = some d ∧ d.origin = none ∧
      (d = c ∨ capLineage.Descends k.sched.store d.id c) ∧ AtMost d c

theorem StoreInv.confined {k : Kernel} {n : Nat} (h : StoreInv k.sched.store n) :
    k.Confined where
  donor p c o hc ho := by
    obtain ⟨q, d, hd, hid, hlt, hrel⟩ := h.forest p c o hc ho
    exact ⟨q, d, hd, hid, hlt, hrel.mayGrant, hrel.resource, hrel.read, hrel.write, hrel.grant,
      hrel.notSealed⟩
  root p c hc := by
    obtain ⟨q, d, hd, hnone, htrace, hchain⟩ := h.forest.root hc
    exact ⟨q, d, hd, hnone, htrace, atMost_of_chain hchain⟩

/-- Over whole runs of grants, revocations and spawns authority stays confined,
and an identity that a call took out of its slot is from then on neither live
nor an ancestor of anything live. -/
theorem authority_confined {k₀ k : Kernel} {as : List CapAction} (hb : k₀.Boot)
    (hr : Run (Steps capSystem) k₀ as k) (hn : k₀.nextCapId + issued k₀ as ≤ 2 ^ 64) :
    k.Confined ∧
    ∀ bs a cs k₁ k₂, as = bs ++ a :: cs → Run (Steps capSystem) k₀ bs k₁ →
      capSystem k₁ a = some k₂ → ∀ p c, k₁.sched.store p = some c →
      k₂.sched.store p ≠ some c → ∀ q d, k.sched.store q = some d →
      d.id ≠ c.id ∧ ¬ capLineage.Descends k.sched.store c.id d := by
  have hm : k₀.nextCapId = k₀.nextCapId % 2 ^ 64 := (Nat.mod_eq_of_lt hb.counter).symm
  obtain ⟨hinv, -, -⟩ := run_inv hr hb.inv hm hn
  refine ⟨hinv.confined, ?_⟩
  rintro bs a cs k₁ k₂ rfl hbs ha p c hp hp' q d hq
  obtain ⟨k₁', hbs', hcs⟩ := hr.split
  cases hbs.unique hbs'
  cases hcs with
  | cons head tail =>
    cases Option.some.inj (ha.symm.trans head)
    rw [issued_append hbs, issued_cons ha] at hn
    obtain ⟨hinv₁, hm₁, -⟩ := run_inv hbs hb.inv hm (by omega)
    have hstep := capSystem_step ha
    obtain ⟨hinv₂, hm₂⟩ := hstep.inv hinv₁ hm₁ (by omega)
    obtain ⟨hinv', -, hret⟩ := run_inv tail hinv₂ hm₂ (by omega)
    obtain ⟨hlt, hgone⟩ := hstep.retires hinv₁ hp hp'
    have hfresh := (hret c.id ⟨by omega, hgone⟩).2
    exact ⟨hfresh q d hq, hinv'.not_descends hfresh hq⟩

def twoTasks : Kernel :=
  .ofTasks [Task.new 0 0 1 (CapTable.ofList [⟨.ipcChannel 2, true, true, true, false, 1, none⟩]),
    Task.new 0 0 2 CapTable.new] 2 none

theorem twoTasks_store {p : Slot} {c : Capability} (h : twoTasks.sched.store p = some c) :
    (p.1.val = 1 ∧ p.2.val = 0) ∧ c = ⟨.ipcChannel 2, true, true, true, false, 1, none⟩ := by
  obtain ⟨t, ht, hc⟩ := Scheduler.store_eq_some.mp h
  have hid := Scheduler.indexed_ofList _ _ _ ht
  have hmem := List.mem_of_find?_eq_some ht
  simp only [List.mem_cons, List.not_mem_nil, or_false] at hmem
  rcases hmem with rfl | rfl
  · obtain ⟨hlt, rfl⟩ := List.getElem?_eq_some_iff.mp hc
    have hzero : p.2.val = 0 := Nat.lt_one_iff.mp hlt
    exact ⟨⟨hid.symm, hzero⟩, by simp [hzero]⟩
  · cases hc

theorem twoTasks_boot : twoTasks.Boot where
  counter := by decide
  roots p c hc := by rw [(twoTasks_store hc).2]
  distinct p q c d hc hd _ := by
    obtain ⟨⟨h1, h2⟩, _⟩ := twoTasks_store hc
    obtain ⟨⟨h3, h4⟩, _⟩ := twoTasks_store hd
    exact Prod.ext (Fin.ext (h1.trans h3.symm)) (Fin.ext (h2.trans h4.symm))
  below p c hc := by
    rw [(twoTasks_store hc).2]
    decide

/-- The first task delegates read access to its channel and takes it back. -/
theorem authority_confined_delegate_and_revoke :
    ∃ k, Run (Steps capSystem) twoTasks
      [⟨some 1, .capGrant 0 2 ⟨true, false, false⟩⟩, ⟨some 1, .capRevoke 2 0⟩] k ∧
      k.Confined := by
  have hn : twoTasks.nextCapId + issued twoTasks
      [⟨some 1, .capGrant 0 2 ⟨true, false, false⟩⟩, ⟨some 1, .capRevoke 2 0⟩] ≤ 2 ^ 64 :=
    (Nat.add_le_add_left (issued_le_length _ _) _).trans (by decide)
  obtain ⟨k₁, h₁⟩ : ∃ k₁, Steps capSystem twoTasks
      ⟨some 1, .capGrant 0 2 ⟨true, false, false⟩⟩ k₁ := ⟨_, rfl⟩
  obtain ⟨k₂, h₂⟩ : ∃ k₂, Steps capSystem k₁ ⟨some 1, .capRevoke 2 0⟩ k₂ := ⟨_, rfl⟩
  have hr := Run.cons h₁ (.cons h₂ (.nil _))
  exact ⟨k₂, hr, (authority_confined twoTasks_boot hr hn).1⟩

end Runix
