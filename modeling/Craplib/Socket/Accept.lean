import Craplib.Socket.Descriptors

/-!
# `LASocket::onCanRead`

The listening socket is registered with `EPOLLET`, so an event has to be answered by accepting
all that is pending: "we should accept ALL clients, not only the first one".  The loop takes
every -1 of `accept` for "No more accepted sockets", also when a connection was aborted or the
call was interrupted, and an `fcntl` that fails ends it too.  The `Socket` of a client that the
delegate does not take closes it, unless its descriptor is zero.

`serves_iff` says for which results of the calls every client is handed over or closed and
nothing pending is left.
-/

namespace Craplib

namespace LASocket

/-- What `errno` tells when `accept` fails. -/
inductive Errno
  | EAGAIN
  | EWOULDBLOCK
  | ECONNABORTED
  | EINTR
  | other (code : ℕ)
  deriving DecidableEq, Repr

/-- No connection is pending. -/
def Errno.wouldBlock : Errno → Bool
  | .EAGAIN | .EWOULDBLOCK => true
  | _ => false

/-- What one call of `accept` gives; for a client, what the two calls of `fcntl` give and
whether the delegate takes the `Socket` that it is shown. -/
inductive Accepted
  | client (cli : ℕ) (getfl setfl : ℤ) (takes : Bool)
  | failed (errno : Errno)
  deriving DecidableEq, Repr

/-- What is done with a client. -/
inductive Event
  | onNewClient (cli : ℕ)
  | close (cli : ℕ)
  deriving DecidableEq, Repr

/-- What `onCanRead` has done: the results of its calls of `accept`, what became of the
clients, and whether it has returned. -/
structure Outcome where
  calls : List Accepted
  events : List Event
  returned : Bool
  deriving DecidableEq, Repr

/-- The destructor of `sock`. -/
def leaveScope (sock : Socket) : List Event := (sock.destroy.map Event.close).toList

/-- `onNewClient(*this, sock)`: what is left of `sock`. -/
def shown (sock : Socket) (takes : Bool) : Socket :=
  if takes then (Socket.ofSocket sock).2 else sock

/-- `LASocket::onCanRead`, with the results that `accept` will give. -/
def onCanRead : List Accepted → Outcome
  | [] => ⟨[], [], false⟩
  | .failed errno :: _ => ⟨[.failed errno], [], true⟩
  | .client cli getfl setfl takes :: results =>
    let sock := Socket.ofInt cli
    if getfl < 0 then ⟨[.client cli getfl setfl takes], leaveScope sock, true⟩
    else if setfl < 0 then ⟨[.client cli getfl setfl takes], leaveScope sock, true⟩
    else
      let later := onCanRead results
      { later with
        calls := .client cli getfl setfl takes :: later.calls
        events := .onNewClient cli :: leaveScope (shown sock takes) ++ later.events }

/-! ## Serving the clients -/

/-- What should become of a client: it is handed over and, unless the delegate takes it, closed;
or it is closed. -/
def handled : Accepted → List Event
  | .client cli getfl setfl takes =>
    if 0 ≤ getfl ∧ 0 ≤ setfl then
      if takes then [.onNewClient cli] else [.onNewClient cli, .close cli]
    else [.close cli]
  | .failed _ => []

/-- No connection is pending. -/
def Accepted.drained : Accepted → Bool
  | .client .. => false
  | .failed errno => errno.wouldBlock

/-- Every accepted client is handed over in order or closed, once, and `onCanRead` returns only
after `accept` has told that no connection is pending. -/
structure Serves (results : List Accepted) : Prop where
  events : (onCanRead results).events = (onCanRead results).calls.flatMap handled
  drained : (onCanRead results).returned = true →
    (onCanRead results).calls.getLast?.any Accepted.drained = true

/-- A result that the loop is made for: a client whose `fcntl` calls succeed, and whose
descriptor is not zero unless the delegate takes it. -/
def Accepted.Smooth : Accepted → Prop
  | .client cli getfl setfl takes => 0 ≤ getfl ∧ 0 ≤ setfl ∧ (cli ≠ 0 ∨ takes = true)
  | .failed _ => False

instance : (r : Accepted) → Decidable r.Smooth
  | .client cli getfl setfl takes =>
    inferInstanceAs (Decidable (0 ≤ getfl ∧ 0 ≤ setfl ∧ (cli ≠ 0 ∨ takes = true)))
  | .failed _ => inferInstanceAs (Decidable False)

variable {results : List Accepted}

theorem leaveScope_eq (cli : ℕ) :
    leaveScope (Socket.ofInt cli) = if cli = 0 then [] else [.close cli] := by
  unfold leaveScope Socket.destroy Socket.ofInt
  by_cases hzero : cli = 0
  · simp [hzero]
  · simp [hzero]

theorem leaveScope_shown (cli : ℕ) (takes : Bool) :
    leaveScope (shown (Socket.ofInt cli) takes) =
      if takes = true ∨ cli = 0 then [] else [.close cli] := by
  cases takes with
  | true => rfl
  | false => simpa [shown] using leaveScope_eq cli

/-- A client whose `fcntl` calls succeed is shown to the delegate, and the loop goes on. -/
theorem onCanRead_client {cli : ℕ} {getfl setfl : ℤ} {takes : Bool} (hget : 0 ≤ getfl)
    (hset : 0 ≤ setfl) :
    onCanRead (.client cli getfl setfl takes :: results) = { onCanRead results with
      calls := .client cli getfl setfl takes :: (onCanRead results).calls
      events := .onNewClient cli :: (if takes = true ∨ cli = 0 then [] else [.close cli]) ++
        (onCanRead results).events } := by
  rw [onCanRead, if_neg (by omega), if_neg (by omega), leaveScope_shown]

/-- One whose `fcntl` calls do not is closed, and the loop is left. -/
theorem onCanRead_failing {cli : ℕ} {getfl setfl : ℤ} {takes : Bool}
    (hfail : ¬ (0 ≤ getfl ∧ 0 ≤ setfl)) :
    onCanRead (.client cli getfl setfl takes :: results) =
      ⟨[.client cli getfl setfl takes], if cli = 0 then [] else [.close cli], true⟩ := by
  rw [onCanRead, leaveScope_eq]
  split_ifs <;> first | rfl | omega

/-- The calls that it has made are the first ones, and all of them while it has not returned. -/
theorem calls_prefix (results : List Accepted) :
    (onCanRead results).calls <+: results ∧
      ((onCanRead results).returned = false → (onCanRead results).calls = results) := by
  induction results with
  | nil => exact ⟨List.prefix_rfl, fun _ => rfl⟩
  | cons r results ih =>
      cases r with
      | failed errno => exact ⟨by simp [onCanRead], fun h => by cases h⟩
      | client cli getfl setfl takes =>
          by_cases hfcntl : 0 ≤ getfl ∧ 0 ≤ setfl
          · rw [onCanRead_client hfcntl.1 hfcntl.2]
            exact ⟨(List.prefix_cons_inj _).mpr ih.1, fun h => congrArg _ (ih.2 h)⟩
          · rw [onCanRead_failing hfcntl]
            exact ⟨by simp, fun h => by cases h⟩

/-- The descriptor zero is never closed. -/
theorem close_zero_not_mem : Event.close 0 ∉ (onCanRead results).events := by
  induction results with
  | nil => exact List.not_mem_nil
  | cons r results ih =>
      cases r with
      | failed errno => exact List.not_mem_nil
      | client cli getfl setfl takes =>
          by_cases hfcntl : 0 ≤ getfl ∧ 0 ≤ setfl
          · rw [onCanRead_client hfcntl.1 hfcntl.2]
            by_cases hkept : takes = true ∨ cli = 0
            · simpa [hkept] using ih
            · have hcli : 0 ≠ cli := fun h => hkept (Or.inr h.symm)
              simpa [hkept, hcli] using ih
          · rw [onCanRead_failing hfcntl]
            by_cases hzero : cli = 0
            · simp [hzero]
            · simpa [hzero] using Ne.symm hzero

/-- A client in front is served when it is smooth, and the later ones when they are. -/
theorem serves_client {cli : ℕ} {getfl setfl : ℤ} {takes : Bool} :
    Serves (.client cli getfl setfl takes :: results) ↔
      (Accepted.client cli getfl setfl takes).Smooth ∧ Serves results := by
  by_cases hfcntl : 0 ≤ getfl ∧ 0 ≤ setfl
  · have hhandled : handled (.client cli getfl setfl takes) =
        .onNewClient cli :: if takes = true then [] else [.close cli] := by
      rw [handled, if_pos hfcntl]
      split <;> rfl
    have hlast : ∀ calls : List Accepted,
        (Accepted.client cli getfl setfl takes :: calls).getLast?.any Accepted.drained =
          calls.getLast?.any Accepted.drained := by
      intro calls
      cases calls with
      | nil => rfl
      | cons r calls => rw [List.getLast?_cons_cons]
    have hsame : cli ≠ 0 ∨ takes = true →
        (if takes = true ∨ cli = 0 then [] else [Event.close cli]) =
          if takes = true then [] else [.close cli] := by
      intro hkept
      by_cases htakes : takes = true
      · simp [htakes]
      · simp [htakes, hkept.resolve_right htakes]
    constructor
    · intro h
      have hevents := h.events
      have hdrained := h.drained
      rw [onCanRead_client hfcntl.1 hfcntl.2] at hevents hdrained
      rw [List.flatMap_cons, hhandled] at hevents
      -- a descriptor zero that the delegate does not take would have to be closed
      have hkept : cli ≠ 0 ∨ takes = true := by
        by_contra hlost
        obtain ⟨hzero, htakes⟩ := not_or.mp hlost
        rw [not_not.mp hzero] at hevents
        simp only [htakes, List.cons_append, List.cons.injEq, true_and] at hevents
        have hnone : Event.close 0 ∉ (onCanRead results).events := close_zero_not_mem
        exact hnone (by simp_all)
      rw [hsame hkept] at hevents
      exact ⟨⟨hfcntl.1, hfcntl.2, hkept⟩,
        ⟨by simpa using hevents, fun hreturned => (hlast _).symm.trans (hdrained hreturned)⟩⟩
    · rintro ⟨⟨-, -, hkept⟩, h⟩
      constructor
      · rw [onCanRead_client hfcntl.1 hfcntl.2, List.flatMap_cons, hhandled, hsame hkept, h.events]
      · intro hreturned
        rw [onCanRead_client hfcntl.1 hfcntl.2] at hreturned ⊢
        exact (hlast _).trans (h.drained hreturned)
  · -- the loop is left although `accept` has not told that nothing is pending
    refine iff_of_false (fun h => ?_) fun h => hfcntl ⟨h.1.1, h.1.2.1⟩
    have hdrained := h.drained
    rw [onCanRead_failing hfcntl] at hdrained
    simp [Accepted.drained] at hdrained

/-- **When every client is served**: exactly when, before `accept` tells that no connection is
pending, it gives nothing but clients whose `fcntl` calls succeed and whose descriptor, when
the delegate does not take it, is not zero. -/
theorem serves_iff (results : List Accepted) :
    Serves results ↔ ∀ r ∈ results.takeWhile (!·.drained), r.Smooth := by
  induction results with
  | nil => exact iff_of_true ⟨rfl, fun h => by cases h⟩ (by simp)
  | cons r results ih =>
      cases r with
      | failed errno =>
          cases herrno : errno.wouldBlock with
          | true =>
              rw [List.takeWhile_cons_of_neg (by simp [Accepted.drained, herrno])]
              exact iff_of_true ⟨rfl, fun _ => by simpa [onCanRead, Accepted.drained] using herrno⟩
                (by simp)
          | false =>
              rw [List.takeWhile_cons_of_pos (by simp [Accepted.drained, herrno])]
              refine iff_of_false (fun h => ?_) fun h => h _ List.mem_cons_self
              have hdrained := h.drained rfl
              simp [onCanRead, Accepted.drained, herrno] at hdrained
      | client cli getfl setfl takes =>
          rw [serves_client, ih, List.takeWhile_cons_of_pos rfl, List.forall_mem_cons]

/-- The second connection was aborted before it was accepted: the third one stays pending. -/
theorem aborted_leaves_pending :
    onCanRead [.client 5 0 0 true, .failed .ECONNABORTED, .client 6 0 0 true,
        .failed .EWOULDBLOCK] =
      ⟨[.client 5 0 0 true, .failed .ECONNABORTED], [.onNewClient 5], true⟩ ∧
    ¬ Serves [.client 5 0 0 true, .failed .ECONNABORTED, .client 6 0 0 true,
      .failed .EWOULDBLOCK] := by
  refine ⟨by decide, fun h => ?_⟩
  exact absurd (h.drained (by decide)) (by decide)

end LASocket

end Craplib
