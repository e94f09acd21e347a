import Mathlib.Data.List.Basic
import Mathlib.Tactic.Common

/-!
# Consumers that take their input in chunks

A consumer is handed a sequence of items chunk by chunk.  `next s a` takes one item
and says whether the consumer returns to its caller after it, leaving the rest of
the chunk; a consumer that is `done` takes nothing at all.  `feed` is the caller's
loop: chunks in order until the consumer is done or none is left.

Cutting the input differently makes no difference to what can be seen of the
consumer, under one condition (`Absorbs`): there is a view of its state, and a total
function on views, such that every item moves the view by that function, and a
consumer that is done, or has returned early, has a view that no item moves.

* `view_feed` — the view after `feed` is the fold over all items.
* `feed_done` — a consumer that is done has taken the shortest prefix of the items
  that makes it so, and `feed` returns the items behind it.
-/

namespace Incremental

universe u v w

variable {σ : Type u} {α : Type v} {τ : Type w}

/-- Take items one by one, until one of them makes the consumer return. -/
def consume (next : σ → α → σ × Bool) : σ → List α → σ × List α
  | s, [] => (s, [])
  | s, a :: rest => if (next s a).2 then ((next s a).1, rest) else consume next (next s a).1 rest

/-- Hand over chunks until the consumer is done: its state, what it left of the
current chunk and the chunks behind it. -/
def feed (done : σ → Bool) (write : σ → List α → σ × List α) :
    σ → List (List α) → σ × List (List α)
  | s, [] => (s, [])
  | s, c :: cs =>
    if done s then (s, c :: cs)
    else if done (write s c).1 then ((write s c).1, (write s c).2 :: cs)
    else feed done write (write s c).1 cs

/-- Items move the view of a consumer by `absorb`, until it is done or has returned. -/
structure Absorbs (next : σ → α → σ × Bool) (done : σ → Bool) (view : σ → τ)
    (absorb : τ → α → τ) (finished : τ → Bool) : Prop where
  done_eq : ∀ s, done s = finished (view s)
  next_view : ∀ s a, done s = false → view (next s a).1 = absorb (view s) a
  done_absorbs : ∀ s a, done s = true → absorb (view s) a = view s
  returned_absorbs : ∀ s a b, done s = false → (next s a).2 = true →
    absorb (view (next s a).1) b = view (next s a).1
  done_returns : ∀ s a, done s = false → done (next s a).1 = true → (next s a).2 = true

theorem foldl_of_fixed {absorb : τ → α → τ} {t : τ} (h : ∀ a, absorb t a = t) (as : List α) :
    as.foldl absorb t = t := by
  induction as with
  | nil => rfl
  | cons a as ih => rw [List.foldl_cons, h a, ih]

namespace Absorbs

variable {next : σ → α → σ × Bool} {done : σ → Bool} {view : σ → τ} {absorb : τ → α → τ}
  {finished : τ → Bool}

/-- One chunk moves the view by all its items, those left behind included. -/
theorem view_consume (h : Absorbs next done view absorb finished) {s : σ} (hs : done s = false)
    (as : List α) : view (consume next s as).1 = as.foldl absorb (view s) := by
  induction as generalizing s with
  | nil => rfl
  | cons a as ih =>
      rw [consume, List.foldl_cons, ← h.next_view s a hs]
      cases hret : (next s a).2 with
      | true =>
          rw [if_pos rfl]
          exact (foldl_of_fixed (fun b => h.returned_absorbs s a b hs hret) as).symm
      | false =>
          rw [if_neg Bool.false_ne_true]
          cases hdone : done (next s a).1 with
          | true => simp [h.done_returns s a hs hdone] at hret
          | false => exact ih hdone

/-- The items of a chunk that were taken, with those that were left behind them. -/
theorem consume_used (h : Absorbs next done view absorb finished) {s : σ} (hs : done s = false)
    (as : List α) : ∃ used, as = used ++ (consume next s as).2 ∧
      view (consume next s as).1 = used.foldl absorb (view s) := by
  induction as generalizing s with
  | nil => exact ⟨[], rfl, rfl⟩
  | cons a as ih =>
      rw [consume]
      cases hret : (next s a).2 with
      | true => exact ⟨[a], rfl, h.next_view s a hs⟩
      | false =>
          rw [if_neg Bool.false_ne_true]
          cases hdone : done (next s a).1 with
          | true => simp [h.done_returns s a hs hdone] at hret
          | false =>
              obtain ⟨used, hused, hview⟩ := ih hdone
              refine ⟨a :: used, by rw [List.cons_append, ← hused], ?_⟩
              rw [hview, List.foldl_cons, h.next_view s a hs]

/-- A consumer that is done after a chunk took the shortest prefix that finishes it. -/
theorem consume_done (h : Absorbs next done view absorb finished) {s : σ} (hs : done s = false)
    {as : List α} (hd : done (consume next s as).1 = true) :
    ∃ used, as = used ++ (consume next s as).2 ∧
      view (consume next s as).1 = used.foldl absorb (view s) ∧
      ∀ p, p <+: used → p ≠ used → finished (p.foldl absorb (view s)) = false := by
  induction as generalizing s with
  | nil =>
      rw [consume] at hd
      rw [hs] at hd
      simp at hd
  | cons a as ih =>
      rw [consume] at hd ⊢
      cases hret : (next s a).2 with
      | true =>
          refine ⟨[a], by simp, by simpa using h.next_view s a hs, ?_⟩
          intro p hp hne
          rcases List.prefix_cons_iff.mp hp with rfl | ⟨p', rfl, hp'⟩
          · rw [List.foldl_nil, ← h.done_eq, hs]
          · rw [List.prefix_nil] at hp'
            exact absurd (by rw [hp']) hne
      | false =>
          rw [hret, if_neg Bool.false_ne_true] at hd
          rw [if_neg Bool.false_ne_true]
          cases hdone : done (next s a).1 with
          | true => simp [h.done_returns s a hs hdone] at hret
          | false =>
              obtain ⟨used, hused, hview, hleast⟩ := ih hdone hd
              refine ⟨a :: used, by rw [List.cons_append, ← hused], ?_, ?_⟩
              · rw [hview, h.next_view s a hs, List.foldl_cons]
              · intro p hp hne
                rcases List.prefix_cons_iff.mp hp with rfl | ⟨p', rfl, hp'⟩
                · rw [List.foldl_nil, ← h.done_eq, hs]
                · rw [List.foldl_cons, ← h.next_view s a hs]
                  exact hleast p' hp' fun heq => hne (by rw [heq])

/-- A chunk that is handed over in two parts: the consumer returned inside the first, and
the second is left with the rest of it, or it went on into the second. -/
theorem consume_append (h : Absorbs next done view absorb finished) {s : σ} (hs : done s = false)
    (as bs : List α) :
    (consume next s (as ++ bs) = ((consume next s as).1, (consume next s as).2 ++ bs) ∧
        ∃ t a, done t = false ∧ next t a = ((consume next s as).1, true)) ∨
      (done (consume next s as).1 = false ∧ (consume next s as).2 = [] ∧
        consume next s (as ++ bs) = consume next (consume next s as).1 bs) := by
  induction as generalizing s with
  | nil => exact Or.inr ⟨hs, rfl, rfl⟩
  | cons a as ih =>
      rw [List.cons_append, consume, consume]
      cases hret : (next s a).2 with
      | true =>
          rw [if_pos rfl, if_pos rfl]
          exact Or.inl ⟨rfl, s, a, hs, Prod.ext rfl hret⟩
      | false =>
          rw [if_neg Bool.false_ne_true, if_neg Bool.false_ne_true]
          cases hdone : done (next s a).1 with
          | true => simp [h.done_returns s a hs hdone] at hret
          | false => exact ih hdone

variable {write : σ → List α → σ × List α}

/-- **Chunks make no difference**: the view after feeding them is the fold over all
their items. -/
theorem view_feed (h : Absorbs next done view absorb finished)
    (hwrite : ∀ s as, done s = false → write s as = consume next s as) (s : σ)
    (chunks : List (List α)) :
    view (feed done write s chunks).1 = chunks.flatten.foldl absorb (view s) := by
  induction chunks generalizing s with
  | nil => rfl
  | cons c cs ih =>
      rw [feed, List.flatten_cons]
      cases hs : done s with
      | true =>
          rw [if_pos rfl]
          exact (foldl_of_fixed (fun a => h.done_absorbs s a hs) _).symm
      | false =>
          rw [if_neg Bool.false_ne_true, List.foldl_append, ← h.view_consume hs c, ← hwrite s c hs]
          cases hd : done (write s c).1 with
          | true =>
              rw [if_pos rfl]
              exact (foldl_of_fixed (fun a => h.done_absorbs _ a hd) _).symm
          | false =>
              rw [if_neg Bool.false_ne_true]
              exact ih _

/-- **What a consumer that is done has taken**: the shortest prefix of the items that
finishes it.  The rest of its chunk and the later chunks are what follows. -/
theorem feed_done (h : Absorbs next done view absorb finished)
    (hwrite : ∀ s as, done s = false → write s as = consume next s as) {s : σ}
    (hs : done s = false) {chunks : List (List α)}
    (hd : done (feed done write s chunks).1 = true) :
    ∃ used, chunks.flatten = used ++ (feed done write s chunks).2.flatten ∧
      finished (used.foldl absorb (view s)) = true ∧
      ∀ p, p <+: used → p ≠ used → finished (p.foldl absorb (view s)) = false := by
  induction chunks generalizing s with
  | nil =>
      rw [feed, hs] at hd
      simp at hd
  | cons c cs ih =>
      rw [feed, hs, if_neg Bool.false_ne_true] at hd ⊢
      have hc := hwrite s c hs
      cases hdone : done (write s c).1 with
      | true =>
          rw [if_pos rfl]
          obtain ⟨used, hused, hview, hleast⟩ := h.consume_done hs (hc ▸ hdone)
          refine ⟨used, ?_, ?_, hleast⟩
          · rw [List.flatten_cons, List.flatten_cons, ← List.append_assoc, hc, ← hused]
          · rw [← hview, ← h.done_eq, ← hc]
            exact hdone
      | false =>
          rw [hdone, if_neg Bool.false_ne_true] at hd
          rw [if_neg Bool.false_ne_true]
          obtain ⟨used, hused, hfin, hleast⟩ := ih hdone hd
          have hview : view (write s c).1 = c.foldl absorb (view s) := by
            rw [hc, h.view_consume hs]
          refine ⟨c ++ used, by rw [List.flatten_cons, List.append_assoc, ← hused], ?_, ?_⟩
          · rw [List.foldl_append, ← hview]
            exact hfin
          · -- a prefix that ends in this chunk leaves the consumer unfinished: otherwise
            -- the rest of the chunk would not have moved its view
            intro p hp hne
            rcases Nat.le_total p.length c.length with hlen | hlen
            · obtain ⟨c', rfl⟩ :=
                List.prefix_of_prefix_length_le hp (List.prefix_append c used) hlen
              by_contra hfin'
              have hp' : view (consume next s p).1 = p.foldl absorb (view s) := h.view_consume hs p
              have hpdone : done (consume next s p).1 = true := by
                rw [h.done_eq, hp']
                simpa using hfin'
              have hstay : view (write s (p ++ c')).1 = view (consume next s p).1 := by
                rw [hview, List.foldl_append, ← hp']
                exact foldl_of_fixed (fun a => h.done_absorbs _ a hpdone) c'
              rw [h.done_eq, hstay, ← h.done_eq, hpdone] at hdone
              simp at hdone
            · obtain ⟨p', rfl⟩ :=
                List.prefix_of_prefix_length_le (List.prefix_append c used) hp hlen
              rw [List.foldl_append, ← hview]
              exact hleast p' ((List.prefix_append_right_inj c).mp hp) fun heq => hne (by rw [heq])

end Absorbs

end Incremental
