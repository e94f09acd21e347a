import Mathlib.Logic.Function.Basic
import Craplib.Stream.SslEngine

/-!
# Two `ssl::Engine`s on a connection

A client and a server, each with an engine of its own, are connected by a network that delivers
the bytes of each direction in their order, in pieces of any size.  Both go through
`transfer_data`, `read` and `write` as they like; their steps interleave in any order.

`link_exact` says where the bytes are that OpenSSL has put out on one side and not taken in on
the other, and what follows for the applications if OpenSSL keeps its word (`Secures`): that a
side whose records have arrived as they were sent reads what the other side has written.
-/

namespace Craplib

open Machine

namespace Ssl

/-- `engine_enum` -/
inductive Kind
  | SERVER
  | CLIENT
  deriving DecidableEq, Repr

/-- The other one. -/
def Kind.peer : Kind → Kind
  | .SERVER => .CLIENT
  | .CLIENT => .SERVER

theorem Kind.peer_peer (kind : Kind) : kind.peer.peer = kind := by
  cases kind <;> rfl

theorem Kind.peer_ne (kind : Kind) : kind.peer ≠ kind := by
  cases kind <;> decide

theorem Kind.eq_peer {kind other : Kind} (h : other ≠ kind) : other = kind.peer := by
  cases kind <;> cases other <;> first | rfl | exact absurd rfl h

/-- The two engines, and the bytes that are on the way from each of them. -/
structure Link where
  ends : Kind → State
  sent : Kind → Bytes

namespace Link

/-- Two new engines on a new connection. -/
def init : Link := ⟨fun _ => State.init, fun _ => []⟩

/-- One step of one side: what it reads from the network is the front of what is on the way to
it, what the network accepts goes on its way. -/
def step (l : Link) (act : Kind × Act) : Option Link := do
  let s ← (l.ends act.1).step act.2
  let arrived := received (l.ends act.1) act.2
  if arrived <+: l.sent act.1.peer then
    return {
      ends := Function.update l.ends act.1 s
      sent := fun kind =>
        if kind = act.1 then l.sent kind ++ sunk (l.ends act.1) act.2
        else (l.sent kind).drop arrived.length }
  else none

/-- The step is one of this side. -/
def label (kind : Kind) (_ : Link) (act : Kind × Act) : Option Act :=
  if act.1 = kind then some act.2 else none

/-- What one side does in a run. -/
def ofSide (kind : Kind) (tr : List (Link × (Kind × Act))) : List (State × Act) :=
  project (fun l => l.ends kind) (label kind) tr

/-- The answer that a side gets is one that the contract of the streams, or OpenSSL, allows. -/
def Follows (l : Link) (act : Kind × Act) : Prop := Ssl.Follows (l.ends act.1) act.2

instance (l : Link) (act : Kind × Act) : Decidable (l.Follows act) :=
  inferInstanceAs (Decidable (Ssl.Follows _ _))

end Link

/-! ## The application's data -/

/-- The plaintext that `SSL_write` takes in a step. -/
def secured (_ : State) : Act → Bytes
  | .write data c => if data.isEmpty then [] else data.take c.result.toNat
  | _ => []

/-- The bytes that `Engine::write` takes from the application in a step. -/
def accepted (s : State) : Act → Bytes
  | .write data c =>
    match (s.engine.write data c).1 with
    | .ok (count, _) => data.take count.toNat
    | .error _ => []
  | _ => []

/-- `Engine::write` takes what `SSL_write` takes. -/
theorem accepted_eq_secured {s : State} {act : Act} (h : Follows s act) :
    accepted s act = secured s act := by
  cases act with
  | write data c =>
      unfold accepted secured Engine.write
      by_cases hempty : data.isEmpty
      · simp [hempty]
      · by_cases hfail : c.result ≤ 0
        · simp [hempty, hfail, Int.toNat_of_nonpos hfail]
        · have hresult : c.result ≤ data.length := h
          simp [hempty, hfail, Bytes.slice_rest (by omega) hresult]
  | transferData | read | networkRead | sslRead | networkWrite => rfl

namespace Link

variable {l l' : Link} {tr : List (Link × (Kind × Act))} {act : Kind × Act} {kind : Kind}

/-- **What OpenSSL is for**: where both sides take in what the other one has put out, from its
beginning on, each one's `SSL_read` gives what the other one's `SSL_write` has taken, from its
beginning on. -/
def Secures (tr : List (Link × (Kind × Act))) : Prop :=
  (∀ kind, flow consumed (ofSide kind tr) <+: flow put (ofSide kind.peer tr)) →
    ∀ kind, flow plaintext (ofSide kind tr) <+: flow secured (ofSide kind.peer tr)

/-! ## One step -/

theorem step_cases (h : l.step act = some l') :
    ∃ s, (l.ends act.1).step act.2 = some s ∧
      received (l.ends act.1) act.2 <+: l.sent act.1.peer ∧
      l'.ends = Function.update l.ends act.1 s ∧
      l'.sent act.1 = l.sent act.1 ++ sunk (l.ends act.1) act.2 ∧
      l'.sent act.1.peer = (l.sent act.1.peer).drop (received (l.ends act.1) act.2).length := by
  obtain ⟨s, hs, hrest⟩ := Option.bind_eq_some_iff.mp h
  dsimp only at hrest
  split at hrest
  · next harrived =>
      obtain rfl := Option.some.inj hrest
      exact ⟨s, hs, harrived, rfl, if_pos rfl, if_neg act.1.peer_ne⟩
  · cases hrest

/-- A step of the link is a step of one engine and none of the other. -/
theorem moves (kind : Kind) (h : l.step act = some l') :
    Moves (Fires State.step) (l.ends kind) (label kind l act) (l'.ends kind) := by
  obtain ⟨s, hs, -, hends, -⟩ := step_cases h
  unfold label
  by_cases hside : act.1 = kind
  · subst hside
    rw [if_pos rfl, hends, Function.update_self]
    exact hs
  · rw [if_neg hside, hends, Function.update_of_ne (Ne.symm hside)]
    rfl

theorem ofSide_snoc (kind : Kind) (tr : List (Link × (Kind × Act))) (l : Link)
    (act : Kind × Act) : ofSide kind (tr ++ [(l, act)]) =
      ofSide kind tr ++ if act.1 = kind then [(l.ends kind, act.2)] else [] := by
  unfold ofSide
  rw [project_snoc, label]
  split <;> rfl

/-! ## Whole runs -/

/-- Each side of a run is a run of its engine. -/
theorem run_ofSide (kind : Kind) (h : Run (Fires step) init tr l) :
    Run (Fires State.step) State.init (ofSide kind tr) (l.ends kind) := by
  have hinit : State.init = init.ends kind := rfl
  rw [hinit]
  exact h.refine (I := fun _ => True) (fun _ _ _ _ _ => trivial) (fun _ _ _ _ h => moves kind h)
    trivial

/-- The answers that a side gets are those that the contract allows. -/
theorem follows_ofSide (kind : Kind) (h : ∀ p ∈ tr, p.1.Follows p.2) :
    ∀ q ∈ ofSide kind tr, Ssl.Follows q.1 q.2 := by
  intro q hq
  obtain ⟨p, hp, hmap⟩ := List.mem_filterMap.mp hq
  obtain ⟨b, hlabel, rfl⟩ := Option.map_eq_some_iff.mp hmap
  unfold label at hlabel
  split at hlabel
  · next hside =>
      obtain rfl := Option.some.inj hlabel
      exact hside ▸ h p hp
  · cases hlabel

/-- A run between streams that follow the contract. -/
theorem run_step {s : State} {tr : List (State × Act)}
    (hrun : Run (Fires State.step) State.init tr s) (hfollows : ∀ p ∈ tr, Ssl.Follows p.1 p.2) :
    Run Step State.init tr s := by
  refine hrun.restrict fun p hp => ⟨hfollows p hp, ?_⟩
  obtain ⟨pre, _, _, -, hpre, -, -⟩ := hrun.of_mem hp
  exact Run.invariant (I := Ready) (fun _ _ _ _ h => State.ready_step h) hpre (fun h => by cases h)

/-- **The network** has delivered what one side has sent, but for what is on the way. -/
theorem sent_of_run (h : Run (Fires step) init tr l) (kind : Kind) :
    flow received (ofSide kind.peer tr) ++ l.sent kind = flow sunk (ofSide kind tr) := by
  induction h with
  | nil => rfl
  | @snoc tr l l' act _ hstep ih =>
      obtain ⟨s, -, harrived, -, hsent, hleft⟩ := step_cases hstep
      rw [ofSide_snoc, ofSide_snoc, flow_append, flow_append]
      by_cases hside : act.1 = kind
      · subst hside
        rw [if_neg (Ne.symm act.1.peer_ne), if_pos rfl, hsent, flow_nil, List.append_nil,
          ← List.append_assoc, ih]
        simp [flow]
      · have hpeer := Kind.eq_peer hside
        have hkind : act.1.peer = kind := by rw [hpeer, Kind.peer_peer]
        rw [hkind] at harrived hleft
        obtain ⟨rest, hrest⟩ := harrived
        rw [if_pos hpeer, if_neg hside, hleft, flow_nil, List.append_nil, ← ih, ← hrest,
          List.drop_left, ← hpeer]
        simp [flow]

/-- **Between the two OpenSSLs** nothing is lost and nothing is doubled. -/
theorem ciphertext_of_run (hrun : Run (Fires step) init tr l)
    (hfollows : ∀ p ∈ tr, p.1.Follows p.2) (kind : Kind) :
    flow consumed (ofSide kind tr) ++ (l.ends kind).engine.bioIn ++ l.sent kind.peer ++
      (l.ends kind.peer).engine.outgoing = flow put (ofSide kind.peer tr) := by
  have hmine := run_step (run_ofSide kind hrun) (follows_ofSide kind hfollows)
  have hpeer := run_step (run_ofSide kind.peer hrun) (follows_ofSide kind.peer hfollows)
  have hin : flow consumed (ofSide kind tr) ++ (l.ends kind).engine.bioIn =
      flow given (ofSide kind tr) := relays_in.flow hmine
  have hgiven : flow given (ofSide kind tr) = flow received (ofSide kind tr) :=
    flow_congr fun p hp => given_eq_received (follows_ofSide kind hfollows p hp)
  have hsent := sent_of_run hrun kind.peer
  rw [Kind.peer_peer] at hsent
  rw [hin, hgiven, hsent]
  exact relays_out.flow hpeer

/-- **Two engines on a connection.**  In every run, however the steps of the two sides interleave,
into whatever pieces the network cuts the bytes and whatever OpenSSL answers: what a side's
OpenSSL has taken in, then its `bioIn`, then the bytes on the way to it, then what waits for the
network at the other side and the `bioOut` there, is what the OpenSSL of the other side has put
out.  So where OpenSSL does what it is for, the data that a side's application has been handed,
and then what waits for it, is the beginning of what the other side's `write` has taken. -/
theorem link_exact (hrun : Run (Fires step) init tr l) (hfollows : ∀ p ∈ tr, p.1.Follows p.2) :
    (∀ kind : Kind, flow consumed (ofSide kind tr) ++ (l.ends kind).engine.bioIn ++
      l.sent kind.peer ++ (l.ends kind.peer).engine.waitingToSocketData ++
      (l.ends kind.peer).engine.bioOut = flow put (ofSide kind.peer tr)) ∧
    (Secures tr → ∀ kind : Kind,
      flow handed (ofSide kind tr) ++ (l.ends kind).engine.waitingToAppData <+:
        flow accepted (ofSide kind.peer tr)) := by
  have hcipher := ciphertext_of_run hrun hfollows
  refine ⟨fun kind => ?_, fun hsecures kind => ?_⟩
  · rw [← hcipher kind, Engine.outgoing, ← List.append_assoc]
  · have hplain := hsecures (fun kind => ?_) kind
    · have happ : flow handed (ofSide kind tr) ++ (l.ends kind).engine.waitingToAppData =
          flow plaintext (ofSide kind tr) :=
        relays_app.flow (run_step (run_ofSide kind hrun) (follows_ofSide kind hfollows))
      have htaken : flow accepted (ofSide kind.peer tr) = flow secured (ofSide kind.peer tr) :=
        flow_congr fun p hp => accepted_eq_secured (follows_ofSide kind.peer hfollows p hp)
      rw [happ, htaken]
      exact hplain
    · rw [← hcipher kind, List.append_assoc, List.append_assoc]
      exact List.prefix_append _ _

/-- A call of `transfer_data` that gets nothing from the network or from OpenSSL, up to the
writing. -/
def idleTransfer (kind : Kind) : List (Kind × Act) :=
  [(kind, .transferData), (kind, .networkRead [] 0),
    (kind, .sslRead (List.replicate 16384 0) ⟨0, [], -1⟩)]

/-- The client writes three bytes, which its OpenSSL turns into four, and the network takes them
in two halves; the server has the three bytes when both halves have come. -/
def halves : List (Kind × Act) :=
  [(.CLIENT, .write [1, 2, 3] ⟨0, [9, 8, 7, 6], 3⟩)] ++ idleTransfer .CLIENT ++
    [(.CLIENT, .networkWrite [7, 6] 2), (.SERVER, .transferData), (.SERVER, .networkRead [9, 8] 2),
      (.SERVER, .sslRead (List.replicate 16384 0) ⟨0, [], -1⟩)] ++ idleTransfer .CLIENT ++
    [(.CLIENT, .networkWrite [] 2), (.SERVER, .transferData), (.SERVER, .networkRead [7, 6] 2),
      (.SERVER, .sslRead ([1, 2, 3] ++ List.replicate 16381 0) ⟨4, [], 3⟩), (.SERVER, .read)]

theorem link_exact_example : ∃ l, Run (Fires step) init (trace step init halves) l ∧
    flow handed (ofSide .SERVER (trace step init halves)) = [1, 2, 3] ∧
    flow handed (ofSide .SERVER (trace step init halves)) ++
      (l.ends .SERVER).engine.waitingToAppData <+:
        flow accepted (ofSide .CLIENT (trace step init halves)) := by
  have hexec : (exec step init halves).isSome = true := by decide +kernel
  obtain ⟨l, hl⟩ := Option.isSome_iff_exists.mp hexec
  have hrun := (exec_trace _ _ _ _ hl).1
  have hsecures : Secures (trace step init halves) := by
    rintro - (_ | _)
    · decide +kernel
    · decide +kernel
  exact ⟨l, hrun, by decide +kernel,
    (link_exact hrun (by decide +kernel)).2 hsecures .SERVER⟩

end Link

end Ssl

end Craplib
