import Runix.Lib.Run
import Mathlib.Logic.Function.Basic

namespace Runix.Lib

/-- Where a client is with its request: not yet with the server, with it, or with the reply
before it. -/
inductive Errand (α β : Type) where
  | idle
  | left
  | asking (a : α)
  | parked (a : α)
  | served (a : α)
  | answered (a : α) (b : β)

/-- What the server is about: it has a request before it, works on it, has a reply to send, or
waits until the client comes for it. -/
inductive Turn (ι α β : Type) where
  | free
  | mail (i : ι) (a : α)
  | working (i : ι) (a : α)
  | answering (i : ι) (a : α) (b : β)
  | stuck (i : ι) (a : α) (b : β)
  | sentOff

section
variable {ι α β : Type}

def Turn.Serves (i : ι) (a : α) : Turn ι α β → Prop
  | .mail j c | .working j c | .answering j c _ | .stuck j c _ => j = i ∧ c = a
  | .free | .sentOff => False

theorem Turn.Serves.client {t : Turn ι α β} {i j : ι} {a c : α} (h : t.Serves i a)
    (h' : t.Serves j c) : j = i := by
  cases t with
  | free | sentOff => exact h.elim
  | mail | working | answering | stuck => exact h'.1.symm.trans h.1

/-- One server and its clients. The lists record the requests, the replies and what the
clients got, newest first. -/
structure Dialogue (ι α β : Type) where
  errand : ι → Errand α β
  turn : Turn ι α β
  asked : List (ι × α)
  answers : List (ι × α × β)
  results : List (ι × α × β)

namespace Dialogue

def new : Dialogue ι α β := ⟨fun _ => .idle, .free, [], [], []⟩

variable [DecidableEq ι]

def move (x : Dialogue ι α β) (i : ι) (p : Errand α β) : Dialogue ι α β :=
  { x with errand := Function.update x.errand i p }

/-- The steps of the protocol. A request is handed over when the server waits for one, or
parked until it does; the same goes for a reply. -/
inductive Step : Dialogue ι α β → Dialogue ι α β → Prop where
  | ask {x : Dialogue ι α β} {i : ι} {a : α} (h : x.errand i = .idle) (fresh : (i, a) ∉ x.asked) :
      Step x { x.move i (.asking a) with asked := (i, a) :: x.asked }
  | park {x : Dialogue ι α β} {i : ι} {a : α} (h : x.errand i = .asking a) :
      Step x (x.move i (.parked a))
  | post {x : Dialogue ι α β} {i : ι} {a : α} (h : x.errand i = .asking a) (ht : x.turn = .free) :
      Step x { x.move i (.served a) with turn := .mail i a }
  | take {x : Dialogue ι α β} {i : ι} {a : α} (h : x.errand i = .parked a) (ht : x.turn = .free) :
      Step x { x.move i (.served a) with turn := .working i a }
  | fetch {x : Dialogue ι α β} {i : ι} {a : α} (ht : x.turn = .mail i a) :
      Step x { x with turn := .working i a }
  | answer {x : Dialogue ι α β} {i : ι} {a : α} (b : β) (ht : x.turn = .working i a) :
      Step x { x with turn := .answering i a b, answers := (i, a, b) :: x.answers }
  | stick {x : Dialogue ι α β} {i : ι} {a : α} {b : β} (ht : x.turn = .answering i a b) :
      Step x { x with turn := .stuck i a b }
  | push {x : Dialogue ι α β} {i : ι} {a : α} {b : β} (ht : x.turn = .answering i a b) :
      Step x { x.move i (.answered a b) with turn := .free }
  | pull {x : Dialogue ι α β} {i : ι} {a : α} {b : β} (ht : x.turn = .stuck i a b) :
      Step x { x.move i .idle with turn := .sentOff, results := (i, a, b) :: x.results }
  | settle {x : Dialogue ι α β} (ht : x.turn = .sentOff) : Step x { x with turn := .free }
  | read {x : Dialogue ι α β} {i : ι} {a : α} {b : β} (h : x.errand i = .answered a b) :
      Step x { x.move i .idle with results := (i, a, b) :: x.results }
  | leave {x : Dialogue ι α β} {i : ι} (h : x.errand i = .idle) : Step x (x.move i .left)

def key (r : ι × α × β) : ι × α := (r.1, r.2.1)

/-- How the records stand with a client: while a request is under way the client has got no
reply to it, and it is answered once the reply is before the client. -/
def ClientFair (x : Dialogue ι α β) (i : ι) : Prop :=
  match x.errand i with
  | .idle | .left => True
  | .asking a | .parked a =>
    (i, a) ∈ x.asked ∧ (i, a) ∉ x.answers.map key ∧ (i, a) ∉ x.results.map key
  | .served a => x.turn.Serves i a ∧ (i, a) ∈ x.asked ∧ (i, a) ∉ x.results.map key
  | .answered a b => (i, a, b) ∈ x.answers ∧ (i, a) ∉ x.results.map key

/-- The request that the server has is its client's, and answered once there is a reply. -/
def TurnFair (x : Dialogue ι α β) : Prop :=
  match x.turn with
  | .free | .sentOff => True
  | .mail i a | .working i a => x.errand i = .served a ∧ (i, a) ∉ x.answers.map key
  | .answering i a b | .stuck i a b => x.errand i = .served a ∧ (i, a, b) ∈ x.answers

/-- What every reachable state has: what was answered was asked, once; what a client got is
the answer to what it asked, and it got it once. -/
structure Wf (x : Dialogue ι α β) : Prop where
  clients : ∀ i, x.ClientFair i
  server : x.TurnFair
  asked : ∀ k ∈ x.answers.map key, k ∈ x.asked
  once : (x.answers.map key).Nodup
  results : ∀ p ∈ x.results, p ∈ x.answers
  got : (x.results.map key).Nodup

variable {x y : Dialogue ι α β} {i j : ι} {a c : α} {b : β} {p : Errand α β}

@[simp] theorem move_self (x : Dialogue ι α β) (i : ι) (p : Errand α β) : (x.move i p).errand i = p :=
  Function.update_self ..

theorem move_other (h : j ≠ i) : (x.move i p).errand j = x.errand j := Function.update_of_ne h ..

omit [DecidableEq ι] in
theorem wf_new : (new : Dialogue ι α β).Wf := by
  constructor <;> simp [new, ClientFair, TurnFair]

omit [DecidableEq ι] in
/-- A client that a step does not concern. -/
theorem ClientFair.frame (h : x.ClientFair j) (herrand : y.errand j = x.errand j)
    (hturn : ∀ a, x.turn.Serves j a → y.turn.Serves j a)
    (hasked : ∀ a, (j, a) ∈ x.asked → (j, a) ∈ y.asked) (hsub : ∀ r ∈ x.answers, r ∈ y.answers)
    (hanswers : ∀ a, (j, a) ∈ y.answers.map key → (j, a) ∈ x.answers.map key)
    (hresults : ∀ a, (j, a) ∈ y.results.map key → (j, a) ∈ x.results.map key) : y.ClientFair j := by
  unfold ClientFair at h ⊢
  rw [herrand]
  cases hp : x.errand j with
  | idle | left => trivial
  | asking a | parked a =>
    rw [hp] at h
    exact ⟨hasked a h.1, fun hin => h.2.1 (hanswers a hin), fun hin => h.2.2 (hresults a hin)⟩
  | served a =>
    rw [hp] at h
    exact ⟨hturn a h.1, hasked a h.2.1, fun hin => h.2.2 (hresults a hin)⟩
  | answered a b =>
    rw [hp] at h
    exact ⟨hsub _ h.1, fun hin => h.2 (hresults a hin)⟩

omit [DecidableEq ι] in
/-- The records gain nothing about another client. -/
theorem key_other {l : List (ι × α × β)} (h : j ≠ i) (hin : (j, c) ∈ ((i, a, b) :: l).map key) :
    (j, c) ∈ l.map key := by
  rw [List.map_cons, List.mem_cons] at hin
  rcases hin with heq | hin
  · exact absurd (Prod.mk.inj heq).1 h
  · exact hin

/-- The invariant is kept when the errand of one client changes and the turn goes from `free`, or
from that client, to it or to nobody. -/
theorem Wf.moved {t : Turn ι α β} {asked : List (ι × α)} {results : List (ι × α × β)} (h : x.Wf)
    (hy : y = ⟨(x.move i p).errand, t, asked, x.answers, results⟩)
    (hfrom : ∀ j c, j ≠ i → x.turn.Serves j c → t.Serves j c) (hasked : ∀ k ∈ x.asked, k ∈ asked)
    (hresults : results = x.results ∨ ∃ a b, (i, a, b) ∈ x.answers ∧
      (i, a) ∉ x.results.map key ∧ results = (i, a, b) :: x.results)
    (hi : y.ClientFair i) (hturn : y.TurnFair) : y.Wf := by
  subst hy
  refine ⟨fun j => ?_, hturn, fun k hk => hasked k (h.asked k hk), h.once, ?_, ?_⟩
  · by_cases hj : j = i
    · exact hj ▸ hi
    · refine (h.clients j).frame (move_other hj) (fun c => hfrom j c hj) (fun c => hasked _)
        (fun _ hr => hr) (fun _ hr => hr) (fun c hr => ?_)
      rcases hresults with rfl | ⟨a, b, _, _, rfl⟩
      · exact hr
      · exact key_other hj hr
  · rcases hresults with rfl | ⟨a, b, hin, _, rfl⟩
    · exact h.results
    · exact List.forall_mem_cons.mpr ⟨hin, h.results⟩
  · rcases hresults with rfl | ⟨a, b, _, hnot, rfl⟩
    · exact h.got
    · exact List.nodup_cons.mpr ⟨hnot, h.got⟩

/-- The turn is not about a client that is not served. -/
theorem TurnFair.move (h : x.TurnFair) (hi : ∀ c, x.errand i ≠ .served c) : (x.move i p).TurnFair := by
  have hkept : ∀ j c, x.errand j = .served c → (x.move i p).errand j = .served c := by
    intro j c hj
    have hji : j ≠ i := fun heq => hi c (heq ▸ hj)
    rw [move_other hji, hj]
  unfold TurnFair at h ⊢
  cases ht : x.turn with
  | free | sentOff => simp only [Dialogue.move, ht]
  | mail j c | working j c | answering j c d | stuck j c d =>
    rw [ht] at h
    simp only [Dialogue.move, ht]
    exact ⟨hkept j c h.1, h.2⟩

omit [DecidableEq ι] in
theorem Wf.results_key (h : x.Wf) {k : ι × α} (hk : k ∈ x.results.map key) :
    k ∈ x.answers.map key := by
  obtain ⟨r, hr, rfl⟩ := List.mem_map.mp hk
  exact List.mem_map_of_mem (h.results r hr)

omit [DecidableEq ι] in
/-- The client that the turn is about waits for the reply. -/
theorem Wf.served (h : x.Wf) (ht : x.turn.Serves i a) :
    x.errand i = .served a ∧ (i, a) ∈ x.asked ∧ (i, a) ∉ x.results.map key := by
  have hserver := h.server
  have hi := h.clients i
  unfold TurnFair at hserver
  unfold ClientFair at hi
  cases hturn : x.turn with
  | free | sentOff =>
    rw [hturn] at ht
    exact ht.elim
  | mail j c | working j c | answering j c d | stuck j c d =>
    rw [hturn] at ht hserver
    obtain ⟨rfl, rfl⟩ := ht
    rw [hserver.1] at hi
    exact ⟨hserver.1, hi.2⟩

/-- A request comes to the server. -/
theorem Wf.handed {t : Turn ι α β} (h : x.Wf) (ht : x.turn = .free) (hs : t.Serves i a)
    (hi : (i, a) ∈ x.asked ∧ (i, a) ∉ x.answers.map key ∧ (i, a) ∉ x.results.map key)
    (hturn : TurnFair { x.move i (.served a) with turn := t }) :
    Wf { x.move i (.served a) with turn := t } := by
  refine h.moved rfl (fun j c _ hc => ?_) (fun k hk => hk) (.inl rfl) ?_ hturn
  · rw [ht] at hc
    exact hc.elim
  · simp only [ClientFair, move_self]
    exact ⟨hs, hi.1, hi.2.2⟩

/-- The server goes on with the request that it has. -/
theorem Wf.turned {t : Turn ι α β} (h : x.Wf) (hx : x.turn.Serves i a) (hs : t.Serves i a)
    (hturn : TurnFair { x with turn := t }) : Wf { x with turn := t } := by
  obtain ⟨herrand, hi⟩ := h.served hx
  refine h.moved (i := i) (p := .served a) (t := t) ?_ (fun j c hj hc => absurd (hx.client hc) hj)
    (fun k hk => hk) (.inl rfl) ?_ hturn
  · rw [move, ← herrand, Function.update_eq_self]
  · simp only [ClientFair, herrand]
    exact ⟨hs, hi⟩

theorem Wf.step (h : x.Wf) (hs : Step x y) : y.Wf := by
  have hserver := h.server
  cases hs with
  | @ask i a hp fresh =>
    have hnew : (i, a) ∉ x.answers.map key := fun hin => fresh (h.asked _ hin)
    refine h.moved rfl (fun _ _ _ hc => hc) (fun k hk => List.mem_cons_of_mem _ hk) (.inl rfl) ?_
      (hserver.move (by rw [hp]; simp))
    simp only [ClientFair, move_self]
    exact ⟨List.mem_cons_self, hnew, fun hin => hnew (h.results_key hin)⟩
  | @park i a hp =>
    have hi := h.clients i
    simp only [ClientFair, hp] at hi
    refine h.moved rfl (fun _ _ _ hc => hc) (fun k hk => hk) (.inl rfl) ?_
      (hserver.move (by rw [hp]; simp))
    simp only [ClientFair, move_self]
    exact hi
  | @post i a hp ht | @take i a hp ht =>
    have hi := h.clients i
    simp only [ClientFair, hp] at hi
    exact h.handed ht ⟨rfl, rfl⟩ hi ⟨move_self .., hi.2.1⟩
  | @fetch i a ht | @stick i a b ht =>
    simp only [TurnFair, ht] at hserver
    exact h.turned (by rw [ht]; exact ⟨rfl, rfl⟩) ⟨rfl, rfl⟩ hserver
  | @answer i a b ht =>
    have hx : x.turn.Serves i a := by
      rw [ht]
      exact ⟨rfl, rfl⟩
    obtain ⟨herrand, hi⟩ := h.served hx
    simp only [TurnFair, ht] at hserver
    refine ⟨fun j => ?_, ⟨herrand, List.mem_cons_self⟩, ?_, ?_, ?_, h.got⟩
    · by_cases hj : j = i
      · subst hj
        simp only [ClientFair, herrand]
        exact ⟨⟨rfl, rfl⟩, hi⟩
      · exact (h.clients j).frame rfl (fun c hc => absurd (hx.client hc) hj) (fun _ hc => hc)
          (fun r hr => List.mem_cons_of_mem _ hr) (fun c hc => key_other hj hc) (fun _ hc => hc)
    · exact List.forall_mem_cons.mpr ⟨hi.1, h.asked⟩
    · exact List.nodup_cons.mpr ⟨hserver.2, h.once⟩
    · exact fun p hp => List.mem_cons_of_mem _ (h.results p hp)
  | @push i a b ht =>
    have hx : x.turn.Serves i a := by
      rw [ht]
      exact ⟨rfl, rfl⟩
    simp only [TurnFair, ht] at hserver
    refine h.moved rfl (fun j c hj hc => absurd (hx.client hc) hj) (fun k hk => hk) (.inl rfl) ?_
      trivial
    simp only [ClientFair, move_self]
    exact ⟨hserver.2, (h.served hx).2.2⟩
  | @pull i a b ht =>
    have hx : x.turn.Serves i a := by
      rw [ht]
      exact ⟨rfl, rfl⟩
    simp only [TurnFair, ht] at hserver
    refine h.moved rfl (fun j c hj hc => absurd (hx.client hc) hj) (fun k hk => hk)
      (.inr ⟨a, b, hserver.2, (h.served hx).2.2, rfl⟩) ?_ trivial
    simp only [ClientFair, move_self]
  | settle ht =>
    refine ⟨fun j => ?_, trivial, h.asked, h.once, h.results, h.got⟩
    refine (h.clients j).frame rfl (fun c hc => ?_) (fun _ hc => hc) (fun _ hr => hr)
      (fun _ hc => hc) (fun _ hc => hc)
    rw [ht] at hc
    exact hc.elim
  | @read i a b hp =>
    have hi := h.clients i
    simp only [ClientFair, hp] at hi
    refine h.moved rfl (fun _ _ _ hc => hc) (fun k hk => hk) (.inr ⟨a, b, hi.1, hi.2, rfl⟩) ?_
      (hserver.move (by rw [hp]; simp))
    simp only [ClientFair, move_self]
  | @leave i hp =>
    refine h.moved rfl (fun _ _ _ hc => hc) (fun k hk => hk) (.inl rfl) ?_
      (hserver.move (by rw [hp]; simp))
    simp only [ClientFair, move_self]

end Dialogue

end

end Runix.Lib
