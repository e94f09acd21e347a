import Craplib.Lib.Runs
import Craplib.Lib.Weights

/-!
# The owners of a descriptor

A `Socket` holds a descriptor and closes it when it is destroyed.  `Socket(Socket&)` takes the
descriptor of its source and leaves zero there, which the destructor does not close;
`SocketImpl`, `RWSocket` and `HTTPRequest` pass a `Socket` on in this way.  The assignment is
the one that the compiler makes: it copies the number.

`owned_iff` says for every run when each descriptor has one owner and is closed once: exactly
when no descriptor that is wrapped is the number zero, and no `Socket` is assigned to one with
another number.
-/

namespace Craplib

open Machine

/-- `Socket` -/
structure Socket where
  sock : ℕ
  deriving DecidableEq, Repr

namespace Socket

/-- `Socket(int sock)`, and `Socket()` with what `socket` gives. -/
def ofInt (sock : ℕ) : Socket := ⟨sock⟩

/-- `Socket(Socket& other)`: the new object, and what has become of `other`. -/
def ofSocket (other : Socket) : Socket × Socket :=
  let self : Socket := ⟨0⟩
  (⟨other.sock⟩, ⟨self.sock⟩)

/-- The assignment that the compiler makes. -/
def assign (_self other : Socket) : Socket := ⟨other.sock⟩

/-- `~Socket()`: the descriptor that it closes. -/
def destroy (self : Socket) : Option ℕ := if self.sock ≠ 0 then some self.sock else none

end Socket

/-- `SocketImpl(Socket& sock)`, by its member `s`. -/
def SocketImpl.ofSocket (sock : Socket) : Socket × Socket := Socket.ofSocket sock

/-- `RWSocket(Delegate* del, Socket& sock)`, by the member `s` of its base. -/
def RWSocket.ofSocket (sock : Socket) : Socket × Socket := SocketImpl.ofSocket sock

/-- `HTTPRequest(Delegate* del, Socket& sock)`, by the member `s` of its `RWSocket`. -/
def HTTPRequest.ofSocket (sock : Socket) : Socket × Socket := RWSocket.ofSocket sock

namespace Descriptors

open Weights

/-- The constructors that take over the descriptor of a `Socket`. -/
inductive Ctor
  | Socket
  | SocketImpl
  | RWSocket
  | HTTPRequest
  deriving DecidableEq, Repr

/-- The new `Socket`, as an object or as a member, and what has become of the old one. -/
def Ctor.call : Ctor → Craplib.Socket → Craplib.Socket × Craplib.Socket
  | .Socket => Socket.ofSocket
  | .SocketImpl => SocketImpl.ofSocket
  | .RWSocket => RWSocket.ofSocket
  | .HTTPRequest => HTTPRequest.ofSocket

theorem Ctor.call_eq (c : Ctor) (other : Craplib.Socket) :
    c.call other = (other, ⟨0⟩) := by
  cases c <;> rfl

/-- A program with Sockets: the ones that live, the descriptors that it has wrapped and that
are open, and the descriptors that it has wrapped and closed so far. -/
structure Program where
  sockets : List Socket
  opened : List ℕ
  wraps : List ℕ
  closes : List ℕ
  deriving DecidableEq, Repr

/-- Before anything runs. -/
def Program.init : Program := ⟨[], [], [], []⟩

/-- What a program does with Sockets; they are named by their places among those that live. -/
inductive Op
  | wrap (n : ℕ)
  | transfer (c : Ctor) (src : ℕ)
  | assign (dst src : ℕ)
  | destroy (i : ℕ)
  deriving DecidableEq, Repr

namespace Program

/-- `close(n)` -/
def close (s : Program) (n : ℕ) : Program :=
  { s with opened := s.opened.filter (· ≠ n), closes := n :: s.closes }

/-- One operation.  `socket` and `accept` give descriptors that are not open. -/
def step (s : Program) : Op → Option Program
  | .wrap n =>
    if n ∈ s.opened then none
    else some { s with
      sockets := s.sockets ++ [Socket.ofInt n], opened := n :: s.opened, wraps := n :: s.wraps }
  | .transfer c src =>
    s.sockets[src]?.map fun other =>
      { s with sockets := s.sockets.set src (c.call other).2 ++ [(c.call other).1] }
  | .assign dst src =>
    s.sockets[dst]?.bind fun self => s.sockets[src]?.map fun other =>
      { s with sockets := s.sockets.set dst (self.assign other) }
  | .destroy i =>
    s.sockets[i]?.map fun self =>
      let s := { s with sockets := s.sockets.eraseIdx i }
      match self.destroy with
      | some n => s.close n
      | none => s

/-- Whether a `Socket` holds the number. -/
def holds (n : ℕ) (k : Socket) : ℕ := if k.sock = n then 1 else 0

/-- How many Sockets hold the number. -/
def holders (s : Program) (n : ℕ) : ℕ := total (holds n) s.sockets

/-- Each descriptor has been closed as often as it has been wrapped, or once less while it is
open; one Socket holds it while it is open and none after; and zero, which no destructor closes,
is not open. -/
structure Owned (s : Program) : Prop where
  closedOnce : ∀ n, s.closes.count n + (if n ∈ s.opened then 1 else 0) = s.wraps.count n
  owner : ∀ n, n ≠ 0 → s.holders n = if n ∈ s.opened then 1 else 0
  zero : 0 ∉ s.opened

/-- The operation does not wrap the number zero, nor assign to a Socket another number. -/
def Linear (s : Program) : Op → Prop
  | .wrap n => n ≠ 0
  | .assign dst src => s.sockets[dst]? = s.sockets[src]?
  | _ => True

instance (s : Program) : (a : Op) → Decidable (Linear s a)
  | .wrap n => inferInstanceAs (Decidable (n ≠ 0))
  | .transfer _ _ => inferInstanceAs (Decidable True)
  | .assign dst src => inferInstanceAs (Decidable (s.sockets[dst]? = s.sockets[src]?))
  | .destroy _ => inferInstanceAs (Decidable True)

variable {s t : Program} {a : Op}

theorem owned_init : Owned .init :=
  ⟨fun _ => rfl, fun _ _ => rfl, List.not_mem_nil⟩

theorem step_wrap {n : ℕ} (hstep : s.step (.wrap n) = some t) :
    n ∉ s.opened ∧ t = { s with
      sockets := s.sockets ++ [Socket.ofInt n], opened := n :: s.opened,
      wraps := n :: s.wraps } := by
  simp only [Program.step] at hstep
  split at hstep
  · simp at hstep
  · next hclosed => exact ⟨hclosed, (Option.some.inj hstep).symm⟩

/-- A descriptor other than zero has as many holders when it has been transferred. -/
theorem step_transfer {c : Ctor} {src : ℕ} (hstep : s.step (.transfer c src) = some t) :
    ∃ sockets, t = { s with sockets } ∧ ∀ n, n ≠ 0 → t.holders n = s.holders n := by
  obtain ⟨other, hother, rfl⟩ := Option.map_eq_some_iff.mp hstep
  refine ⟨_, rfl, fun n hn => ?_⟩
  have hset := total_set (f := holds n) hother ⟨0⟩
  have hzero : holds n ⟨0⟩ = 0 := if_neg (Ne.symm hn)
  simp only [holders, Ctor.call_eq, total_append, total_cons, total_nil]
  omega

theorem step_assign {dst src : ℕ} (hstep : s.step (.assign dst src) = some t) :
    ∃ self other, s.sockets[dst]? = some self ∧ s.sockets[src]? = some other ∧
      t = { s with sockets := s.sockets.set dst other } := by
  obtain ⟨self, hself, hrest⟩ := Option.bind_eq_some_iff.mp hstep
  obtain ⟨other, hother, rfl⟩ := Option.map_eq_some_iff.mp hrest
  exact ⟨self, other, hself, hother, rfl⟩

/-- The destructor closes the descriptor, unless it is zero. -/
theorem step_destroy {i : ℕ} (hstep : s.step (.destroy i) = some t) :
    ∃ self, s.sockets[i]? = some self ∧ (∀ n, t.holders n + holds n self = s.holders n) ∧
      t.wraps = s.wraps ∧
      t.closes = (if self.sock ≠ 0 then self.sock :: s.closes else s.closes) ∧
      t.opened = if self.sock ≠ 0 then s.opened.filter (· ≠ self.sock) else s.opened := by
  obtain ⟨self, hself, rfl⟩ := Option.map_eq_some_iff.mp hstep
  have hholders : ∀ n, total (holds n) (s.sockets.eraseIdx i) + holds n self = s.holders n :=
    fun n => total_eraseIdx hself
  refine ⟨self, hself, ?_⟩
  unfold Socket.destroy
  split_ifs with hsock
  · exact ⟨hholders, rfl, rfl, rfl⟩
  · exact ⟨hholders, rfl, rfl, rfl⟩

/-- **A linear operation** keeps every descriptor owned. -/
theorem Owned.step (h : Owned s) (hstep : s.step a = some t) (hgood : Linear s a) : Owned t := by
  cases a with
  | wrap n =>
      obtain ⟨hclosed, rfl⟩ := step_wrap hstep
      refine ⟨fun m => ?_, fun m hm => ?_, ?_⟩
      · have honce := h.closedOnce m
        have hcount := h.closedOnce n
        rw [if_neg hclosed] at hcount
        simp only [List.mem_cons, List.count_cons, beq_iff_eq]
        grind
      · have howner := h.owner m hm
        simp only [holders, total_append, total_cons, total_nil, holds, Socket.ofInt,
          List.mem_cons] at howner ⊢
        grind
      · simpa [Ne.symm hgood] using h.zero
  | transfer c src =>
      obtain ⟨sockets, rfl, hholders⟩ := step_transfer hstep
      exact ⟨h.closedOnce, fun n hn => (hholders n hn).trans (h.owner n hn), h.zero⟩
  | assign dst src =>
      obtain ⟨self, other, hself, hother, rfl⟩ := step_assign hstep
      obtain rfl : self = other := Option.some.inj (hself.symm.trans (hgood.trans hother))
      obtain ⟨hlt, rfl⟩ := List.getElem?_eq_some_iff.mp hself
      rw [List.set_getElem_self hlt]
      exact h
  | destroy i =>
      obtain ⟨self, hself, hholders, hwraps, hcloses, hopened⟩ := step_destroy hstep
      by_cases hsock : self.sock = 0
      · rw [if_neg (not_not.mpr hsock)] at hcloses hopened
        refine ⟨by rw [hcloses, hopened, hwraps]; exact h.closedOnce, fun n hn => ?_,
          hopened ▸ h.zero⟩
        have hnone : holds n self = 0 := if_neg fun heq => hn (heq.symm.trans hsock)
        rw [hopened, ← h.owner n hn, ← hholders n, hnone, Nat.add_zero]
      · rw [if_pos hsock] at hcloses hopened
        -- what this `Socket` holds is open, so it has no other holder
        have hopen : self.sock ∈ s.opened := by
          have howner := h.owner self.sock hsock
          have hself := hholders self.sock
          by_contra hclosed
          simp [howner, hclosed, holds] at hself
        have hmem : ∀ n, n ∈ t.opened ↔ n ∈ s.opened ∧ n ≠ self.sock := by
          simp [hopened]
        refine ⟨fun n => ?_, fun n hn => ?_, fun hzero => h.zero ((hmem 0).mp hzero).1⟩
        · have honce := h.closedOnce n
          rw [hcloses, hwraps, List.count_cons, ← honce]
          simp only [hmem, beq_iff_eq]
          grind
        · have howner := h.owner n hn
          have hself := hholders n
          simp only [hmem, holds] at hself ⊢
          grind

/-- **Any other operation** leaves a descriptor without its owner, or with two. -/
theorem not_owned_of_step (h : Owned s) (hstep : s.step a = some t) (hbad : ¬ Linear s a) :
    ¬ Owned t := by
  intro howned
  cases a with
  | wrap n =>
      obtain ⟨-, rfl⟩ := step_wrap hstep
      obtain rfl : n = 0 := not_not.mp hbad
      exact howned.zero (by simp)
  | transfer c src => exact hbad trivial
  | destroy i => exact hbad trivial
  | assign dst src =>
      obtain ⟨self, other, hself, hother, rfl⟩ := step_assign hstep
      have hne : self ≠ other := fun heq =>
        hbad (hself.trans ((congrArg some heq).trans hother.symm))
      have hset : ∀ n, total (holds n) (s.sockets.set dst other) + holds n self =
          s.holders n + holds n other := fun n => total_set hself other
      have hholders : ∀ n, n ≠ 0 → holds n self = holds n other := by
        intro n hn
        have hbefore := h.owner n hn
        have hafter := howned.owner n hn
        have hn := hset n
        simp only [holders] at hbefore hafter hn
        omega
      have hsock : self.sock ≠ other.sock := fun heq => hne (by cases self; cases other; simp_all)
      by_cases hzero : self.sock = 0
      · have hother := hholders other.sock fun h => hsock (hzero.trans h.symm)
        simp [holds, hsock] at hother
      · have hself := hholders self.sock hzero
        simp [holds, Ne.symm hsock] at hself

/-- **One owner for each descriptor**, closed once: in every state of a run exactly when no
descriptor that it wraps is zero and no assignment changes a `Socket`. -/
theorem owned_iff {tr : List (Program × Op)} {last : Program}
    (h : Run (Fires step) .init tr last) :
    (∀ s ∈ visited tr last, Owned s) ↔ ∀ p ∈ tr, Linear p.1 p.2 := by
  have keep : ∀ s a t, Owned s → Fires step s a t → Linear s a → Owned t :=
    fun _ _ _ howned hstep hgood => howned.step hstep hgood
  have blame : ∀ s a t, Owned s → Fires step s a t → ¬ Linear s a → ¬ Owned t :=
    fun _ _ _ howned hstep hbad => not_owned_of_step howned hstep hbad
  exact h.visited_iff_good keep blame (fun _ howned => howned) owned_init

/-- A client that is accepted, handed over to an `HTTPRequest` and closed, and another one with
the same number. -/
theorem owned_iff_clients :
    ∃ tr last, Run (Fires step) .init tr last ∧ last.closes = [5] ∧
      ∀ s ∈ visited tr last, Owned s := by
  let as : List Op := [.wrap 5, .transfer .HTTPRequest 0, .destroy 0, .destroy 0, .wrap 5]
  let last : Program := (exec step .init as).get (by decide)
  have hlast : exec step .init as = some last := (Option.some_get _).symm
  obtain ⟨hrun, -⟩ := exec_trace _ _ _ _ hlast
  exact ⟨_, _, hrun, by decide, (owned_iff hrun).mpr (by decide)⟩

/-- One `Socket` is assigned to another: descriptor 5 is closed twice, descriptor 4 never.  And
descriptor 0, when its owner is destroyed, is not closed. -/
theorem assigned_closes_twice :
    (∃ tr last, Run (Fires step) .init tr last ∧
      actions tr = [.wrap 4, .wrap 5, .assign 0 1, .destroy 0, .destroy 0] ∧
      last.closes = [5, 5] ∧ last.opened = [4] ∧ last.sockets = [] ∧ ¬ Owned last) ∧
    ∃ tr last, Run (Fires step) .init tr last ∧ actions tr = [.wrap 0, .destroy 0] ∧
      last.closes = [] ∧ last.opened = [0] ∧ last.sockets = [] ∧ ¬ Owned last := by
  constructor
  · let as : List Op := [.wrap 4, .wrap 5, .assign 0 1, .destroy 0, .destroy 0]
    let last : Program := (exec step .init as).get (by decide)
    have hlast : exec step .init as = some last := (Option.some_get _).symm
    obtain ⟨hrun, hactions⟩ := exec_trace _ _ _ _ hlast
    refine ⟨_, _, hrun, hactions, by decide, by decide, by decide, fun howned => ?_⟩
    exact absurd (howned.closedOnce 5) (by decide)
  · let as : List Op := [.wrap 0, .destroy 0]
    let last : Program := (exec step .init as).get (by decide)
    have hlast : exec step .init as = some last := (Option.some_get _).symm
    obtain ⟨hrun, hactions⟩ := exec_trace _ _ _ _ hlast
    refine ⟨_, _, hrun, hactions, by decide, by decide, by decide, fun howned => ?_⟩
    exact absurd howned.zero (by decide)

end Program

end Descriptors

end Craplib
