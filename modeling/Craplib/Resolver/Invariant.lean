import Craplib.Resolver.Steps

/-!
# The invariant of the resolver pool

`Tidy` holds from the beginning, and every step keeps it that does not destroy a request a
worker points to (`Tidy.step`): the workers are working or free and none is both, a free
worker has nothing left to look up, a working one has at most one lookup, and the requests
that wait and those the workers point to are alive and all different.
-/

namespace Craplib

namespace Resolver

open scoped List

namespace State

variable {s t : State}

/-- The action does not destroy a request that a worker points to. -/
def Unheld (s : State) (act : Action) : Prop :=
  ∀ addr, act = .destroy addr → ∀ k, (s.worker k).addr ≠ some addr

/-- The lookups of a worker that are queued, under way, or published and not delivered. -/
def outstanding (s : State) (k : ℕ) : ℕ :=
  (s.worker k).needWork.length + (s.worker k).localWork.toList.length + s.queue.count k

/-- What holds as long as no request is destroyed while a worker points to it. -/
structure Tidy (s : State) : Prop where
  /-- Every worker is working or free, and not both. -/
  split : s.workingWorkers ++ s.freeWorkers ~ List.range s.workers
  /-- A free worker has nothing to look up. -/
  unloaded : ∀ k, k ∉ s.workingWorkers → s.outstanding k = 0
  loaded : ∀ k, s.outstanding k ≤ 1
  alive : ∀ k addr, (s.worker k).addr = some addr → s.objects.serial addr ≠ none
  inj : ∀ k k' addr, (s.worker k).addr = some addr → (s.worker k').addr = some addr → k = k'
  waiting_nodup : s.waitingAddrs.Nodup
  /-- A request that waits is alive, and no worker points to it. -/
  waiting : ∀ addr ∈ s.waitingAddrs,
    s.objects.serial addr ≠ none ∧ ∀ k, (s.worker k).addr ≠ some addr

namespace Tidy

theorem init : State.init.Tidy where
  split := List.Perm.refl _
  unloaded := fun _ _ => rfl
  loaded := fun _ => Nat.zero_le _
  alive := by
    rintro k addr ⟨⟩
  inj := by
    rintro k k' addr ⟨⟩
  waiting_nodup := List.nodup_nil
  waiting := by
    intro addr hin
    cases hin

/-- The workers have been regrouped, and those that left the working ones have nothing to
look up. -/
theorem regroup (h : s.Tidy) (hobjects : t.objects = s.objects)
    (haddr : ∀ k, (t.worker k).addr = (s.worker k).addr)
    (hload : ∀ k, t.outstanding k ≤ s.outstanding k)
    (hwaiting : t.waitingAddrs = s.waitingAddrs) (hworkers : t.workers = s.workers)
    (hgroups : t.workingWorkers ++ t.freeWorkers ~ s.workingWorkers ++ s.freeWorkers)
    (hleft : ∀ k ∈ s.workingWorkers, k ∉ t.workingWorkers → t.outstanding k = 0) :
    t.Tidy where
  split := by
    rw [hworkers]
    exact hgroups.trans h.split
  unloaded := by
    intro k hk
    by_cases hold : k ∈ s.workingWorkers
    · exact hleft k hold hk
    · exact Nat.eq_zero_of_le_zero ((hload k).trans (h.unloaded k hold).le)
  loaded := fun k => (hload k).trans (h.loaded k)
  alive := by
    intro k addr hk
    rw [haddr] at hk
    rw [hobjects]
    exact h.alive k addr hk
  inj := by
    intro k k' addr hk hk'
    rw [haddr] at hk hk'
    exact h.inj k k' addr hk hk'
  waiting_nodup := hwaiting ▸ h.waiting_nodup
  waiting := by
    intro addr hin
    rw [hwaiting] at hin
    rw [hobjects]
    refine ⟨(h.waiting addr hin).1, fun k => ?_⟩
    rw [haddr]
    exact (h.waiting addr hin).2 k

/-- A step of a worker's thread, or of the loop thread in `onCall`, that changes neither
groups nor requests. -/
theorem of_same (h : s.Tidy) (hobjects : t.objects = s.objects)
    (haddr : ∀ k, (t.worker k).addr = (s.worker k).addr)
    (hload : ∀ k, t.outstanding k ≤ s.outstanding k)
    (hwaiting : t.waitingAddrs = s.waitingAddrs) (hworkers : t.workers = s.workers)
    (hworking : t.workingWorkers = s.workingWorkers) (hfree : t.freeWorkers = s.freeWorkers) :
    t.Tidy :=
  h.regroup hobjects haddr hload hwaiting hworkers (by rw [hworking, hfree])
    fun k hk hnot => absurd (hworking ▸ hk) hnot

theorem createWorkers (h : s.Tidy) : s.createWorkers.Tidy := by
  have hsplit : s.createWorkers.Partitioned := Partitioned.createWorkers h.split
  unfold State.createWorkers at hsplit ⊢
  split at hsplit
  · next hnone =>
      rw [if_pos hnone]
      exact { h with split := hsplit }
  · next hsome =>
      rw [if_neg hsome]
      exact h

/-- A free worker is given the first waiting request. -/
theorem give {k : ℕ} {free : List ℕ} {addr : Addr} {waiting : List Addr} (h : s.Tidy)
    (hs : HostService) (hfree : s.freeWorkers = free ++ [k])
    (hwaiting : s.waitingAddrs = addr :: waiting) :
    Tidy { s with
      workingWorkers := s.workingWorkers ++ [k]
      freeWorkers := free
      waitingAddrs := waiting
      worker := Function.update s.worker k ((s.worker k).startWork addr hs) } := by
  have hsplit := h.split
  have hidle : k ∉ s.workingWorkers :=
    Partitioned.not_working hsplit (hfree ▸ List.mem_append_right _ List.mem_cons_self)
  rw [hfree] at hsplit
  have hhead := h.waiting addr (by rw [hwaiting]; exact List.mem_cons_self)
  have hnodup := h.waiting_nodup
  rw [hwaiting, List.nodup_cons] at hnodup
  have haddr : ∀ k', (Function.update s.worker k ((s.worker k).startWork addr hs) k').addr =
      if k' = k then some addr else (s.worker k').addr := by
    intro k'
    rw [Function.update_apply]
    split_ifs <;> rfl
  have hload : ∀ k', outstanding { s with
      worker := Function.update s.worker k ((s.worker k).startWork addr hs) } k' =
      if k' = k then 1 else s.outstanding k' := by
    intro k'
    have hout := h.unloaded k hidle
    unfold outstanding at hout ⊢
    dsimp only
    rw [Function.update_apply]
    split_ifs with hk
    · subst hk
      simp only [Worker.startWork, List.length_append, List.length_singleton]
      omega
    · rfl
  exact {
    split := by
      refine List.Perm.trans ?_ hsplit
      rw [List.append_assoc]
      exact (List.perm_append_comm).append_left _
    unloaded := by
      intro k' hk'
      rw [List.mem_append, List.mem_singleton, not_or] at hk'
      have hout := hload k'
      rw [if_neg hk'.2, h.unloaded k' hk'.1] at hout
      exact hout
    loaded := by
      intro k'
      have hout := hload k'
      split_ifs at hout with hk
      · exact hout.le
      · exact hout.le.trans (h.loaded k')
    alive := by
      intro k' addr' hk'
      rw [haddr] at hk'
      split_ifs at hk' with hk
      · rw [← Option.some.inj hk']
        exact hhead.1
      · exact h.alive k' addr' hk'
    inj := by
      intro k₁ k₂ addr' h₁ h₂
      rw [haddr] at h₁ h₂
      split_ifs at h₁ h₂ with hk₁ hk₂ hk₂
      · rw [hk₁, hk₂]
      · rw [← Option.some.inj h₁] at h₂
        exact absurd h₂ (hhead.2 k₂)
      · rw [← Option.some.inj h₂] at h₁
        exact absurd h₁ (hhead.2 k₁)
      · exact h.inj k₁ k₂ addr' h₁ h₂
    waiting_nodup := hnodup.2
    waiting := by
      intro addr' hin
      have hold := h.waiting addr' (by rw [hwaiting]; exact List.mem_cons_of_mem _ hin)
      refine ⟨hold.1, fun k' => ?_⟩
      rw [haddr]
      split_ifs
      · rintro ⟨rfl⟩
        exact hnodup.1 hin
      · exact hold.2 k' }

theorem assignWork (h : s.Tidy) (hstep : s.assignWork = some t) : t.Tidy := by
  have hc := h.createWorkers
  rcases assignWork_cases hstep with
    ⟨k, free, addr, waiting, i, hs, hfree, hwaiting, -, rfl⟩ | ⟨-, rfl⟩
  · exact hc.give hs hfree hwaiting
  · exact hc

/-- A new request waits. -/
theorem construct {addr : Addr} {hs : HostService} (h : s.Tidy)
    (hstep : s.construct addr hs = some t) : t.Tidy := by
  obtain ⟨objects, hnew, hassign⟩ := construct_cases hstep
  have hserial := fun c => Arena.serial_of_construct hnew c
  have hunused : s.objects.serial addr = none :=
    Arena.serial_eq_none.mpr (Arena.free_of_construct hnew)
  have hnotin : addr ∉ s.waitingAddrs := fun hin => (h.waiting addr hin).1 hunused
  refine Tidy.assignWork ?_ hassign
  exact {
    split := h.split
    unloaded := h.unloaded
    loaded := h.loaded
    alive := by
      intro k addr' hk
      rw [hserial]
      split_ifs
      · exact Option.some_ne_none _
      · exact h.alive k addr' hk
    inj := h.inj
    waiting_nodup := by
      rw [List.nodup_append]
      refine ⟨h.waiting_nodup, List.nodup_singleton _, ?_⟩
      rintro a ha _ hb rfl
      rw [List.mem_singleton] at hb
      exact hnotin (hb ▸ ha)
    waiting := by
      intro addr' hin
      rw [hserial]
      rcases List.mem_append.mp hin with hin | hin
      · refine ⟨?_, (h.waiting addr' hin).2⟩
        split_ifs
        · exact Option.some_ne_none _
        · exact (h.waiting addr' hin).1
      · rw [List.mem_singleton] at hin
        subst hin
        refine ⟨by rw [if_pos rfl]; exact Option.some_ne_none _, fun k hk => ?_⟩
        exact h.alive k addr' hk hunused }

/-- When no worker points to the object, the destructor leaves the workers alone. -/
theorem destroy {addr : Addr} (h : s.Tidy) (hunheld : ∀ k, (s.worker k).addr ≠ some addr)
    (hstep : s.destroy addr = some t) : t.Tidy := by
  have hgone : ∀ c, c ≠ addr → s.objects.serial c ≠ none →
      (s.objects.destroy addr).serial c ≠ none := by
    intro c hne hc
    rw [Arena.serial_destroy, if_neg hne]
    exact hc
  have halive : ∀ k c, (s.worker k).addr = some c →
      (s.objects.destroy addr).serial c ≠ none := by
    intro k c hk
    refine hgone c ?_ (h.alive k c hk)
    rintro rfl
    exact hunheld k hk
  obtain ⟨i, hi, ⟨hin, rfl⟩ | ⟨hnotin, rfl⟩⟩ := destroy_cases hstep
  · exact {
      split := h.split
      unloaded := h.unloaded
      loaded := h.loaded
      alive := halive
      inj := h.inj
      waiting_nodup := h.waiting_nodup.erase addr
      waiting := by
        intro c hc
        rw [h.waiting_nodup.mem_erase_iff] at hc
        exact ⟨hgone c hc.1 (h.waiting c hc.2).1, (h.waiting c hc.2).2⟩ }
  · obtain ⟨working, returned, heq, hworking, hreturned⟩ := s.returnWorkerWith_spec addr
    have hnone : ∀ k ∈ s.workingWorkers, s.holds addr k = false :=
      fun k _ => decide_eq_false (hunheld k)
    rw [List.filter_eq_self.mpr fun k hk => by rw [hnone k hk, Bool.not_false]] at hworking
    rw [List.filter_eq_nil_iff.mpr fun k hk => by rw [hnone k hk]; exact Bool.false_ne_true,
      List.perm_nil] at hreturned
    rw [heq, hreturned, List.append_nil]
    exact {
      split := (hworking.append_right _).trans h.split
      unloaded := fun k hk => h.unloaded k fun hin => hk (hworking.mem_iff.mpr hin)
      loaded := h.loaded
      alive := halive
      inj := h.inj
      waiting_nodup := h.waiting_nodup
      waiting := by
        intro c hc
        refine ⟨hgone c ?_ (h.waiting c hc).1, (h.waiting c hc).2⟩
        rintro rfl
        exact hnotin hc }

theorem take {k : ℕ} (h : s.Tidy) (hstep : s.take k = some t) : t.Tidy := by
  obtain ⟨hs, rest, hlocal, hneed, rfl⟩ := take_cases hstep
  refine h.of_same rfl (fun k' => ?_) (fun k' => ?_) rfl rfl rfl rfl
  · unfold setWorker
    dsimp only
    rw [Function.update_apply]
    split_ifs with hk
    · rw [hk]
    · rfl
  · unfold outstanding setWorker
    dsimp only
    rw [Function.update_apply]
    split_ifs with hk
    · rw [hk, hlocal, hneed]
      simp only [List.length_cons, Option.toList_some, Option.toList_none, List.length_nil]
      omega
    · exact Nat.le_refl _

theorem publish {k : ℕ} {res : Option AddrInfoPtr} (h : s.Tidy)
    (hstep : s.publish k res = some t) : t.Tidy := by
  obtain ⟨hs, hlocal, -, rfl⟩ := publish_cases hstep
  refine h.of_same rfl (fun k' => ?_) (fun k' => ?_) rfl rfl rfl rfl
  · unfold setWorker
    dsimp only
    rw [Function.update_apply]
    split_ifs with hk
    · rw [hk]
    · rfl
  · unfold outstanding setWorker
    dsimp only
    rw [Function.update_apply, List.count_append, List.count_singleton]
    split_ifs with hk hk' hk'
    · rw [hk, hlocal]
      simp only [Option.toList_some, Option.toList_none, List.length_cons, List.length_nil]
      omega
    · exact absurd (beq_iff_eq.mpr hk.symm) hk'
    · exact absurd (beq_iff_eq.mp hk').symm hk
    · exact Nat.le_refl _

/-- Releasing the message of a worker changes nothing that the invariant speaks of. -/
theorem release (h : s.Tidy) (k : ℕ) (control : Control) :
    Tidy { s.setWorker k { s.worker k with called := false } with control := control } := by
  have hsame : ∀ k', (Function.update s.worker k { s.worker k with called := false } k').addr =
      (s.worker k').addr ∧
      outstanding { s.setWorker k { s.worker k with called := false } with control := control }
        k' = s.outstanding k' := by
    intro k'
    unfold outstanding setWorker
    dsimp only
    rw [Function.update_apply]
    split_ifs with hk
    · rw [hk]
      exact ⟨rfl, rfl⟩
    · exact ⟨rfl, rfl⟩
  exact h.of_same rfl (fun k' => (hsame k').1) (fun k' => (hsame k').2.le) rfl rfl rfl rfl

/-- The message of a worker has been popped. -/
theorem pop {k : ℕ} {queue : List ℕ} (h : s.Tidy) (hqueue : s.queue = k :: queue) :
    Tidy { s with queue := queue } ∧ outstanding { s with queue := queue } k = 0 ∧
      k ∈ s.workingWorkers := by
  have hcount : ∀ k', outstanding { s with queue := queue } k' + (if k = k' then 1 else 0) =
      s.outstanding k' := by
    intro k'
    unfold outstanding
    rw [hqueue, List.count_cons]
    simp only [beq_iff_eq]
    omega
  refine ⟨h.of_same rfl (fun _ => rfl) (fun k' => ?_) rfl rfl rfl rfl, ?_, ?_⟩
  · have := hcount k'
    omega
  · have hone := hcount k
    rw [if_pos rfl] at hone
    have := h.loaded k
    omega
  · by_contra hfree
    have hone := hcount k
    rw [if_pos rfl, h.unloaded k hfree] at hone
    omega

theorem deliver {stale : Bool} (h : s.Tidy) (hstep : s.deliver stale = some t) : t.Tidy := by
  obtain ⟨k, queue, hidle, hqueue, hcase⟩ := deliver_cases hstep
  obtain ⟨hpop, hdone, -⟩ := h.pop hqueue
  rcases hcase with rfl | ⟨addr, haddr, -, rfl⟩
  · exact hpop.release k s.control
  · obtain ⟨working, returned, heq, hworking, hreturned⟩ :=
      returnWorkerWith_spec { s with queue := queue } addr
    rw [heq]
    refine hpop.regroup rfl (fun _ => rfl) (fun _ => Nat.le_refl _) rfl rfl ?_ ?_
    · -- the two groups together are what they were
      have hsplit : (returnWorkerWith { s with queue := queue } addr).Partitioned :=
        Partitioned.returnWorkerWith (s := { s with queue := queue }) h.split addr
      rw [heq] at hsplit
      exact hsplit.trans h.split.symm
    · -- only the worker whose result this is has left the working ones
      intro k' hin hout
      have hholds : State.holds s addr k' = true := by
        by_contra hnot
        refine hout (hworking.mem_iff.mpr (List.mem_filter.mpr ⟨hin, ?_⟩))
        rw [Bool.not_eq_true'] at *
        exact eq_false_of_ne_true hnot
      have hk' : k' = k := h.inj k' k addr (of_decide_eq_true hholds) haddr
      rw [hk']
      exact hdone

theorem ret (h : s.Tidy) (hstep : s.ret = some t) : t.Tidy := by
  obtain ⟨k, addr, u, -, hassign, rfl⟩ := ret_cases hstep
  exact (h.assignWork hassign).release k .idle

/-- **The invariant.**  Every step that does not destroy a request a worker points to
keeps it. -/
theorem step {act : Action} (h : s.Tidy) (hunheld : s.Unheld act)
    (hstep : s.step act = some t) : t.Tidy := by
  cases act with
  | construct addr hs => exact h.construct hstep
  | destroy addr => exact h.destroy (hunheld addr rfl) hstep
  | take k => exact h.take hstep
  | publish k res => exact h.publish hstep
  | deliver stale => exact h.deliver hstep
  | ret => exact h.ret hstep

end Tidy

end State

end Resolver

end Craplib
