import Mathlib.Data.List.Perm.Basic
import Mathlib.Data.List.Range
import Craplib.Resolver.Pool

/-!
# What the steps of the resolver pool do

* `returnWorkerWith_spec`: the loop of `return_worker_with` moves the working workers that
  hold a request to the free ones, although it swaps elements of the vector it runs over,
  and changes nothing else: the workers keep their `addr`.
* `assignWork_cases` and its siblings say once what each step does, and the `_frame` lemmas
  what it leaves alone.
* `serial_of_step`: a request that lives was alive before, or is new.
-/

namespace Craplib

namespace Resolver

open scoped List

/-- Overwriting an element with the last one and dropping the last one takes the element
out. -/
theorem perm_cons_set_dropLast {α : Type} {l : List α} {i : ℕ} {x back : α}
    (hx : l[i]? = some x) (hback : l.getLast? = some back) :
    l.Perm (x :: (l.set i back).dropLast) := by
  obtain ⟨hi, hget⟩ := List.getElem?_eq_some_iff.mp hx
  obtain ⟨front, rfl⟩ := List.getLast?_eq_some_iff.mp hback
  rw [List.length_append, List.length_singleton] at hi
  by_cases hlast : i = front.length
  · -- the element is the last one itself
    subst hlast
    rw [List.getElem?_append_right (Nat.le_refl _), Nat.sub_self] at hx
    obtain rfl : back = x := Option.some.inj hx
    rw [List.set_append_right _ _ (Nat.le_refl _), Nat.sub_self, List.set_cons_zero,
      List.dropLast_concat]
    exact List.perm_append_singleton _ _
  · have hlt : i < front.length := by omega
    rw [List.getElem?_append_left hlt] at hx
    rw [List.set_append_left _ _ hlt, List.dropLast_concat]
    obtain ⟨_, hfront⟩ := List.getElem?_eq_some_iff.mp hx
    have hsplit : front.Perm (x :: front.eraseIdx i) := by
      rw [← hfront]
      exact (List.getElem_cons_eraseIdx_perm hlt).symm
    have hset : (front.set i back).Perm (back :: front.eraseIdx i) := by
      have hlen : i < (front.set i back).length := by
        rw [List.length_set]
        exact hlt
      have hperm := (List.getElem_cons_eraseIdx_perm hlen).symm
      rw [List.getElem_set_self, List.eraseIdx_set_eq] at hperm
      exact hperm
    calc front ++ [back] ~ back :: front := List.perm_append_singleton _ _
      _ ~ back :: x :: front.eraseIdx i := hsplit.cons back
      _ ~ x :: back :: front.eraseIdx i := List.Perm.swap _ _ _
      _ ~ x :: front.set i back := (hset.cons x).symm

namespace State

variable {s t : State}

/-- Worker `k` holds the request at `addr`. -/
def holds (s : State) (addr : Addr) (k : ℕ) : Bool := (s.worker k).addr = some addr

theorem holds_iff {addr : Addr} {k : ℕ} :
    s.holds addr k = true ↔ (s.worker k).addr = some addr := decide_eq_true_iff

/-- `cancel_work` leaves the worker as it is. -/
theorem setWorker_cancelWork (s : State) (k : ℕ) (addr : Addr) :
    s.setWorker k ((s.worker k).cancelWork addr).2 = s := by
  have hsame : ((s.worker k).cancelWork addr).2 = s.worker k := by
    unfold Worker.cancelWork
    split <;> rfl
  rw [hsame, setWorker, Function.update_eq_self]

theorem cancelWork_fst (s : State) (k : ℕ) (addr : Addr) :
    ((s.worker k).cancelWork addr).1 = s.holds addr k := by
  unfold Worker.cancelWork holds
  by_cases h : (s.worker k).addr = some addr
  · rw [if_neg (by rw [h]; exact fun hne => hne rfl), decide_eq_true h]
  · rw [if_pos (Ne.symm h), decide_eq_false h]

/-- The loop of `return_worker_with`, when no worker before `i` holds the request. -/
theorem returnFrom_spec (addr : Addr) (n i : ℕ) (s : State)
    (hlen : i + n = s.workingWorkers.length)
    (hbefore : ∀ k ∈ s.workingWorkers.take i, s.holds addr k = false) :
    ∃ working returned, returnFrom addr n i s =
        { s with workingWorkers := working, freeWorkers := s.freeWorkers ++ returned } ∧
      working ~ s.workingWorkers.filter (!s.holds addr ·) ∧
      returned ~ s.workingWorkers.filter (s.holds addr) := by
  induction n generalizing i s with
  | zero =>
      rw [Nat.add_zero] at hlen
      rw [hlen, List.take_length] at hbefore
      refine ⟨s.workingWorkers, [], by simp [returnFrom], ?_, ?_⟩
      · rw [List.filter_eq_self.mpr fun k hk => by rw [hbefore k hk, Bool.not_false]]
      · rw [List.filter_eq_nil_iff.mpr fun k hk => by rw [hbefore k hk]; exact Bool.false_ne_true]
  | succ n ih =>
      have hi : i < s.workingWorkers.length := by omega
      obtain ⟨k, hk⟩ : ∃ k, s.workingWorkers[i]? = some k :=
        ⟨_, List.getElem?_eq_getElem hi⟩
      obtain ⟨back, hback⟩ : ∃ back, s.workingWorkers.getLast? = some back :=
        Option.ne_none_iff_exists'.mp fun hnone => by
          rw [List.getLast?_eq_none_iff] at hnone
          rw [hnone] at hi
          exact absurd hi (Nat.not_lt_zero i)
      rw [returnFrom]
      simp only [hk, hback, setWorker_cancelWork, cancelWork_fst]
      by_cases hholds : s.holds addr k = true
      · -- it goes to the free workers, and the last one takes its place
        let s' : State := { s with
          freeWorkers := s.freeWorkers ++ [k]
          workingWorkers := (s.workingWorkers.set i back).dropLast }
        have hperm : s.workingWorkers ~ k :: s'.workingWorkers :=
          perm_cons_set_dropLast hk hback
        have htake : s'.workingWorkers.take i = s.workingWorkers.take i := by
          change (s.workingWorkers.set i back).dropLast.take i = _
          rw [List.dropLast_eq_take, List.take_take, List.length_set,
            Nat.min_eq_left (by omega), List.take_set_of_le (Nat.le_refl i)]
        obtain ⟨working, returned, heq, hworking, hreturned⟩ := ih i s'
          (by have := hperm.length_eq; rw [List.length_cons] at this; omega)
          (by rw [htake]; exact hbefore)
        refine ⟨working, k :: returned, ?_, ?_, ?_⟩
        · rw [if_pos hholds, heq]
          simp only [s', List.append_assoc, List.cons_append, List.nil_append]
        · refine hworking.trans (.symm ((hperm.filter _).trans ?_))
          rw [List.filter_cons_of_neg (by rw [hholds]; exact Bool.false_ne_true)]
          rfl
        · refine (hreturned.cons k).trans (.symm ((hperm.filter _).trans ?_))
          rw [List.filter_cons_of_pos hholds]
          rfl
      · have hfalse : s.holds addr k = false := eq_false_of_ne_true hholds
        obtain ⟨working, returned, heq, hworking, hreturned⟩ := ih (i + 1) s (by omega) (by
          intro k' hk'
          rw [List.take_add_one, hk, Option.toList_some, List.mem_append,
            List.mem_singleton] at hk'
          rcases hk' with hk' | rfl
          · exact hbefore k' hk'
          · exact hfalse)
        rw [hfalse]
        exact ⟨working, returned, heq, hworking, hreturned⟩

/-- **`return_worker_with`.**  The working workers that hold the request become free; every
worker keeps its `addr`. -/
theorem returnWorkerWith_spec (s : State) (addr : Addr) :
    ∃ working returned, s.returnWorkerWith addr =
        { s with workingWorkers := working, freeWorkers := s.freeWorkers ++ returned } ∧
      working ~ s.workingWorkers.filter (!s.holds addr ·) ∧
      returned ~ s.workingWorkers.filter (s.holds addr) :=
  returnFrom_spec addr _ 0 s (Nat.zero_add _) (by simp)

/-! ## What a step does -/

/-- `assign_work` gives the last free worker the first waiting request, or has nothing to
give or nobody to give it to. -/
theorem assignWork_cases (h : s.assignWork = some t) :
    (∃ k free addr waiting i hs, s.createWorkers.freeWorkers = free ++ [k] ∧
      s.createWorkers.waitingAddrs = addr :: waiting ∧
      s.createWorkers.objects.object addr = some (i, hs) ∧
      t = { s.createWorkers with
        workingWorkers := s.createWorkers.workingWorkers ++ [k]
        freeWorkers := free
        waitingAddrs := waiting
        worker := Function.update s.createWorkers.worker k
          ((s.createWorkers.worker k).startWork addr hs) }) ∨
    ((s.createWorkers.freeWorkers = [] ∨ s.createWorkers.waitingAddrs = []) ∧
      t = s.createWorkers) := by
  unfold assignWork at h
  generalize s.createWorkers = c at h ⊢
  dsimp only at h
  split at h
  · next k addr waiting hlast hwaiting =>
      left
      obtain ⟨⟨i, hs⟩, hobject, h⟩ := Option.bind_eq_some_iff.mp h
      obtain ⟨free, hfree⟩ := List.getLast?_eq_some_iff.mp hlast
      refine ⟨k, free, addr, waiting, i, hs, hfree, hwaiting, hobject, ?_⟩
      rw [← Option.some.inj h, hfree, List.dropLast_concat]
  · next hnone =>
      right
      refine ⟨?_, (Option.some.inj h).symm⟩
      cases hwaiting : c.waitingAddrs with
      | nil => exact .inr rfl
      | cons addr waiting =>
          left
          by_contra hne
          obtain ⟨k, hk⟩ := Option.ne_none_iff_exists'.mp
            (mt List.getLast?_eq_none_iff.mp hne)
          exact hnone k addr waiting hk hwaiting

theorem construct_cases {addr : Addr} {hs : HostService} (h : s.construct addr hs = some t) :
    ∃ objects, s.objects.construct addr hs = some objects ∧
      assignWork { s with objects := objects,
                          waitingAddrs := s.waitingAddrs ++ [addr] } = some t :=
  Option.bind_eq_some_iff.mp h

theorem destroy_cases {addr : Addr} (h : s.destroy addr = some t) :
    ∃ i, s.objects.serial addr = some i ∧
      ((addr ∈ s.waitingAddrs ∧
          t = { s with waitingAddrs := s.waitingAddrs.erase addr,
                       objects := s.objects.destroy addr }) ∨
        (addr ∉ s.waitingAddrs ∧
          t = { s.returnWorkerWith addr with
                objects := (s.returnWorkerWith addr).objects.destroy addr })) := by
  obtain ⟨i, hi, h⟩ := Option.bind_eq_some_iff.mp h
  refine ⟨i, hi, ?_⟩
  rw [← Option.some.inj h]
  unfold cancelResolve
  by_cases hwaiting : addr ∈ s.waitingAddrs
  · rw [if_pos hwaiting]
    exact .inl ⟨hwaiting, rfl⟩
  · rw [if_neg hwaiting]
    exact .inr ⟨hwaiting, rfl⟩

theorem take_cases {k : ℕ} (h : s.take k = some t) :
    ∃ hs rest, (s.worker k).localWork = none ∧ (s.worker k).needWork = hs :: rest ∧
      t = s.setWorker k { s.worker k with localWork := some hs, needWork := rest } := by
  unfold take at h
  split at h
  · next hs rest hlocal hneed => exact ⟨hs, rest, hlocal, hneed, (Option.some.inj h).symm⟩
  · cases h

theorem publish_cases {k : ℕ} {res : Option AddrInfoPtr} (h : s.publish k res = some t) :
    ∃ hs, (s.worker k).localWork = some hs ∧ (s.worker k).called = false ∧
      t = { s.setWorker k { s.worker k with
              localWork := none, res := res, resWork := hs, called := true } with
            queue := s.queue ++ [k] } := by
  unfold publish at h
  split at h
  · next hs hlocal =>
      split at h
      · cases h
      · next hcalled =>
          exact ⟨hs, hlocal, eq_false_of_ne_true hcalled, (Option.some.inj h).symm⟩
  · cases h

/-- The run loop calls the first message: its worker has a result that is not wanted, or
one that matches the request the worker points to, if that still lives. -/
theorem deliver_cases {stale : Bool} (h : s.deliver stale = some t) :
    ∃ k queue, s.control = .idle ∧ s.queue = k :: queue ∧
      (t = { s.setWorker k { s.worker k with called := false } with queue := queue } ∨
        ∃ addr, (s.worker k).addr = some addr ∧
          (∀ i hs, s.objects.object addr = some (i, hs) →
            hs.host = (s.worker k).resWork.host ∧ hs.service = (s.worker k).resWork.service) ∧
          t = { returnWorkerWith { s with queue := queue } addr with
                control := .resolving k addr }) := by
  unfold deliver at h
  split at h
  · next k queue hcontrol hqueue =>
      refine ⟨k, queue, hcontrol, hqueue, ?_⟩
      rw [← Option.some.inj h]
      unfold onCall
      dsimp only
      split
      · exact .inl rfl
      · next addr haddr =>
          split_ifs with hmatched
          · refine .inr ⟨addr, haddr, fun i hs hobject => ?_, rfl⟩
            simp only [matched, hobject, decide_eq_true_eq] at hmatched
            exact hmatched
          · exact .inl rfl
  · cases h

theorem ret_cases (h : s.ret = some t) :
    ∃ k addr u, s.control = .resolving k addr ∧ s.assignWork = some u ∧
      t = { u.setWorker k { u.worker k with called := false } with control := .idle } := by
  unfold ret at h
  split at h
  · next k addr hcontrol =>
      obtain ⟨u, hu, h⟩ := Option.bind_eq_some_iff.mp h
      exact ⟨k, addr, u, hcontrol, hu, (Option.some.inj h).symm⟩
  · cases h

/-! ## What a step leaves alone -/

theorem createWorkers_frame (s : State) :
    s.createWorkers.objects = s.objects ∧ s.createWorkers.worker = s.worker ∧
      s.createWorkers.waitingAddrs = s.waitingAddrs ∧
      s.createWorkers.workingWorkers = s.workingWorkers := by
  unfold createWorkers
  split <;> exact ⟨rfl, rfl, rfl, rfl⟩

theorem objects_assignWork (h : s.assignWork = some t) : t.objects = s.objects := by
  rcases assignWork_cases h with ⟨k, free, addr, waiting, i, hs, -, -, -, rfl⟩ | ⟨-, rfl⟩
  · exact s.createWorkers_frame.1
  · exact s.createWorkers_frame.1

theorem control_assignWork (h : s.assignWork = some t) : t.control = s.control := by
  have hcreate : s.createWorkers.control = s.control := by
    unfold createWorkers
    split <;> rfl
  rcases assignWork_cases h with ⟨k, free, addr, waiting, i, hs, -, -, -, rfl⟩ | ⟨-, rfl⟩
  · exact hcreate
  · exact hcreate

/-- Every worker is working or free, and not both. -/
def Partitioned (s : State) : Prop :=
  s.workingWorkers ++ s.freeWorkers ~ List.range s.workers

theorem Partitioned.createWorkers (h : s.Partitioned) : s.createWorkers.Partitioned := by
  unfold State.createWorkers
  split
  · change s.workingWorkers ++ (s.freeWorkers ++ [s.workers, s.workers + 1]) ~
      List.range (s.workers + 2)
    rw [List.range_succ, List.range_succ, List.append_assoc, ← List.append_assoc]
    exact h.append_right _
  · exact h

theorem Partitioned.not_working (h : s.Partitioned) {k : ℕ} (hk : k ∈ s.freeWorkers) :
    k ∉ s.workingWorkers := by
  have hnodup := h.nodup_iff.mpr List.nodup_range
  rw [List.nodup_append] at hnodup
  exact fun hin => hnodup.2.2 k hin k hk rfl

theorem Partitioned.assignWork (h : s.Partitioned) (hstep : s.assignWork = some t) :
    t.Partitioned := by
  have hc := h.createWorkers
  rcases assignWork_cases hstep with ⟨k, free, addr, waiting, i, hs, hfree, -, -, rfl⟩ | ⟨-, rfl⟩
  · unfold Partitioned at hc ⊢
    rw [hfree] at hc
    refine List.Perm.trans ?_ hc
    rw [List.append_assoc]
    exact (List.perm_append_comm).append_left _
  · exact hc

/-- The working workers and the returned ones together are those that worked. -/
theorem Partitioned.returnWorkerWith (h : s.Partitioned) (addr : Addr) :
    (s.returnWorkerWith addr).Partitioned := by
  obtain ⟨working, returned, heq, hworking, hreturned⟩ := s.returnWorkerWith_spec addr
  have hsplit := List.filter_append_perm (s.holds addr) s.workingWorkers
  rw [heq]
  calc working ++ (s.freeWorkers ++ returned)
      ~ working ++ (returned ++ s.freeWorkers) := (List.perm_append_comm).append_left _
    _ ~ (working ++ returned) ++ s.freeWorkers := by rw [List.append_assoc]
    _ ~ (returned ++ working) ++ s.freeWorkers := (List.perm_append_comm).append_right _
    _ ~ s.workingWorkers ++ s.freeWorkers :=
        ((hreturned.append hworking).trans hsplit).append_right _
    _ ~ List.range s.workers := h

theorem addr_setWorker {k : ℕ} {w : Worker} (h : w.addr = (s.worker k).addr) (k' : ℕ) :
    ((s.setWorker k w).worker k').addr = (s.worker k').addr := by
  unfold setWorker
  dsimp only
  rw [Function.update_apply]
  split_ifs with hk
  · rw [hk, h]
  · rfl

/-- What `return_worker_with` leaves alone. -/
theorem returnWorkerWith_frame (s : State) (addr : Addr) :
    (s.returnWorkerWith addr).worker = s.worker ∧
      (s.returnWorkerWith addr).objects = s.objects ∧
      (s.returnWorkerWith addr).waitingAddrs = s.waitingAddrs ∧
      ∀ k ∈ (s.returnWorkerWith addr).workingWorkers,
        k ∈ s.workingWorkers ∧ (s.worker k).addr ≠ some addr := by
  obtain ⟨working, returned, heq, hworking, -⟩ := s.returnWorkerWith_spec addr
  rw [heq]
  refine ⟨rfl, rfl, rfl, fun k hk => ?_⟩
  obtain ⟨hin, hnot⟩ := List.mem_filter.mp (hworking.mem_iff.mp hk)
  refine ⟨hin, fun hholds => ?_⟩
  rw [holds, decide_eq_true hholds] at hnot
  cases hnot

theorem objects_destroy {addr : Addr} (hstep : s.destroy addr = some t) :
    t.objects = s.objects.destroy addr := by
  obtain ⟨j, -, ⟨-, rfl⟩ | ⟨-, rfl⟩⟩ := destroy_cases hstep
  · rfl
  · dsimp only
    rw [(s.returnWorkerWith_frame addr).2.1]

/-- How a step changes the live requests. -/
theorem objects_of_step {act : Action} (hstep : s.step act = some t) :
    t.objects = s.objects ∨ (∃ addr hs, s.objects.construct addr hs = some t.objects) ∨
      ∃ addr, t.objects = s.objects.destroy addr := by
  cases act with
  | construct addr hs =>
      obtain ⟨objects, hnew, hassign⟩ := construct_cases hstep
      exact .inr (.inl ⟨addr, hs, by rw [objects_assignWork hassign, hnew]⟩)
  | destroy addr => exact .inr (.inr ⟨addr, objects_destroy hstep⟩)
  | take k =>
      obtain ⟨hs, rest, -, -, rfl⟩ := take_cases hstep
      exact .inl rfl
  | publish k res =>
      obtain ⟨hs, -, -, rfl⟩ := publish_cases hstep
      exact .inl rfl
  | deliver stale =>
      obtain ⟨k, queue, -, -, rfl | ⟨addr, -, -, rfl⟩⟩ := deliver_cases hstep
      · exact .inl rfl
      · exact .inl (returnWorkerWith_frame { s with queue := queue } addr).2.1
  | ret =>
      obtain ⟨k, addr, u, -, hassign, rfl⟩ := ret_cases hstep
      have hobjects : u.objects = s.objects := objects_assignWork hassign
      exact .inl hobjects

/-- A live request was alive before, or is new; numbers are not given out again. -/
theorem serial_of_step {act : Action} (hstep : s.step act = some t) :
    s.objects.born ≤ t.objects.born ∧ ∀ addr i, t.objects.serial addr = some i →
      s.objects.serial addr = some i ∨ i = s.objects.born := by
  rcases objects_of_step hstep with hsame | ⟨c, hs, hnew⟩ | ⟨c, hgone⟩
  · rw [hsame]
    exact ⟨Nat.le_refl _, fun _ _ => .inl⟩
  · refine ⟨by rw [Arena.born_of_construct hnew]; exact Nat.le_succ _, fun addr i hi => ?_⟩
    rw [Arena.serial_of_construct hnew] at hi
    split_ifs at hi
    · exact .inr (Option.some.inj hi).symm
    · exact .inl hi
  · rw [hgone, Arena.born_destroy]
    refine ⟨Nat.le_refl _, fun addr i hi => ?_⟩
    rw [Arena.serial_destroy] at hi
    split_ifs at hi
    exact .inl hi

end State

end Resolver

end Craplib
