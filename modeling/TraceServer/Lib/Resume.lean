import Mathlib.Data.List.Basic

/-!
# Resumable consumers

A consumer is fed a stream in segments, keeps its state between two deliveries,
and is over at some point. How a network cuts the stream into segments must not
matter. This file reduces that statement about all cuts to a law about *one* cut:
feeding `a ++ b` at once is feeding `a` and then, unless the consumer is over,
feeding `b`.

The law is only asked of segments the consumer can take (`Fits`; a real one has a
limit on what it is handed at a time) and of states it can be in between two
deliveries (`Ready`). Two runs are compared through `obs`, because what a consumer
leaves unread once it is over does depend on the cut.

The pivot is the finest cut, one element at a time: every cut agrees with it, so
any two cuts of one stream agree with each other.
-/

/-- A consumer of a stream of `α`, seen by `ω`. -/
structure Consumer (σ α ω : Type*) where
  /-- One delivery. -/
  feed : σ → List α → σ
  /-- Nothing more is delivered once this holds. -/
  ended : σ → Prop
  /-- What two runs are compared by. -/
  obs : σ → ω
  /-- The states between two deliveries. -/
  Ready : σ → Prop
  /-- The segments one delivery can carry. -/
  Fits : List α → Prop
  [decEnded : DecidablePred ended]

namespace Consumer

variable {σ α ω : Type*} (C : Consumer σ α ω)

attribute [instance] Consumer.decEnded

/-- Deliver the segments one by one, up to the one that ends the dialogue. -/
def serve : σ → List (List α) → σ
  | s, [] => s
  | s, seg :: segs =>
    if C.ended (C.feed s seg) then C.feed s seg else serve (C.feed s seg) segs

/-- The segments `serve` does not deliver. -/
def undelivered : σ → List (List α) → List (List α)
  | _, [] => []
  | s, seg :: segs => if C.ended (C.feed s seg) then segs else undelivered (C.feed s seg) segs

/-- What one cut of one segment may and may not change. -/
structure Lawful : Prop where
  /-- A piece of a segment can be delivered too. -/
  fits_left : ∀ {a b : List α}, C.Fits (a ++ b) → C.Fits a
  fits_right : ∀ {a b : List α}, C.Fits (a ++ b) → C.Fits b
  /-- A delivery that does not end the dialogue leaves a state between two deliveries. -/
  ready : ∀ {s : σ} {a : List α}, C.Ready s → C.Fits a → a ≠ [] → ¬ C.ended (C.feed s a) →
    C.Ready (C.feed s a)
  /-- Delivering `a ++ b` is delivering `a`, then `b`. -/
  feed_append : ∀ {s : σ} {a b : List α}, C.Ready s → C.Fits (a ++ b) → a ≠ [] → b ≠ [] →
    ¬ C.ended (C.feed s a) → C.feed s (a ++ b) = C.feed (C.feed s a) b
  /-- What follows the end of the dialogue in the same segment is not seen. -/
  ended_append : ∀ {s : σ} {a b : List α}, C.Ready s → C.Fits (a ++ b) → a ≠ [] → b ≠ [] →
    C.ended (C.feed s a) → C.ended (C.feed s (a ++ b)) ∧ C.obs (C.feed s (a ++ b)) = C.obs (C.feed s a)

/-- The finest cut of a stream. -/
def bytewise (stream : List α) : List (List α) := stream.map fun x => [x]

variable {C}

theorem serve_cons_ended {s : σ} {seg : List α} {segs : List (List α)}
    (h : C.ended (C.feed s seg)) : C.serve s (seg :: segs) = C.feed s seg := by
  rw [serve, if_pos h]

theorem serve_cons_not_ended {s : σ} {seg : List α} {segs : List (List α)}
    (h : ¬ C.ended (C.feed s seg)) :
    C.serve s (seg :: segs) = C.serve (C.feed s seg) segs := by
  rw [serve, if_neg h]

theorem serve_singleton (s : σ) (seg : List α) : C.serve s [seg] = C.feed s seg := by
  rw [serve]
  split <;> rfl

/-- Cutting the first segment once is not seen. -/
theorem serve_cut (hC : C.Lawful) {s : σ} {a b : List α} {segs : List (List α)}
    (hs : C.Ready s) (hf : C.Fits (a ++ b)) (ha : a ≠ []) (hb : b ≠ []) :
    C.obs (C.serve s ((a ++ b) :: segs)) = C.obs (C.serve s (a :: b :: segs)) := by
  by_cases hended : C.ended (C.feed s a)
  · obtain ⟨h1, h2⟩ := hC.ended_append hs hf ha hb hended
    rw [serve_cons_ended h1, serve_cons_ended hended, h2]
  · have happ := hC.feed_append hs hf ha hb hended
    rw [serve_cons_not_ended hended, serve, serve, happ]

/-- Cutting the first segment as finely as possible is not seen. -/
theorem serve_bytewise_cons (hC : C.Lawful) {segs : List (List α)} (seg : List α) :
    ∀ {s : σ}, C.Ready s → C.Fits seg → seg ≠ [] →
      C.obs (C.serve s (seg :: segs)) = C.obs (C.serve s (bytewise seg ++ segs)) := by
  induction seg with
  | nil => intro s _ _ h; exact absurd rfl h
  | cons x seg ih =>
      intro s hs hf _
      by_cases hseg : seg = []
      · subst hseg; rfl
      · have hf' : C.Fits ([x] ++ seg) := hf
        rw [show x :: seg = [x] ++ seg from rfl,
          serve_cut hC hs hf' (List.cons_ne_nil x []) hseg]
        show C.obs (C.serve s ([x] :: seg :: segs)) = C.obs (C.serve s ([x] :: (bytewise seg ++ segs)))
        by_cases hended : C.ended (C.feed s [x])
        · rw [serve_cons_ended hended, serve_cons_ended hended]
        · rw [serve_cons_not_ended hended, serve_cons_not_ended hended]
          have hr := hC.ready hs (hC.fits_left hf') (List.cons_ne_nil x []) hended
          exact ih hr (hC.fits_right hf') hseg

/-- Two continuations that agree after every delivery agree after a common start. -/
theorem serve_append_congr (hC : C.Lawful) (pre : List (List α)) {p q : List (List α)} :
    (∀ {s : σ}, C.Ready s → C.obs (C.serve s p) = C.obs (C.serve s q)) →
    (∀ seg ∈ pre, C.Fits seg ∧ seg ≠ []) → ∀ {s : σ}, C.Ready s →
    C.obs (C.serve s (pre ++ p)) = C.obs (C.serve s (pre ++ q)) := by
  intro hpq hpre
  induction pre with
  | nil => intro s hs; exact hpq hs
  | cons seg pre ih =>
      intro s hs
      obtain ⟨hfit, hne⟩ := hpre seg List.mem_cons_self
      rw [List.cons_append, List.cons_append]
      by_cases hended : C.ended (C.feed s seg)
      · rw [serve_cons_ended hended, serve_cons_ended hended]
      · rw [serve_cons_not_ended hended, serve_cons_not_ended hended]
        exact ih (fun g hg => hpre g (List.mem_cons_of_mem _ hg)) (hC.ready hs hfit hne hended)

theorem bytewise_fits (hC : C.Lawful) {seg : List α} (h : C.Fits seg) :
    ∀ g ∈ bytewise seg, C.Fits g ∧ g ≠ [] := by
  intro g hg
  obtain ⟨x, hx, rfl⟩ := List.mem_map.mp hg
  obtain ⟨l, r, rfl⟩ := List.append_of_mem hx
  exact ⟨hC.fits_left (hC.fits_right (a := l) (b := [x] ++ r) h), List.cons_ne_nil x []⟩

/-- **Every cut agrees with the finest one.** -/
theorem serve_bytewise (hC : C.Lawful) (segs : List (List α)) :
    (∀ seg ∈ segs, C.Fits seg ∧ seg ≠ []) → ∀ {s : σ}, C.Ready s →
    C.obs (C.serve s segs) = C.obs (C.serve s (bytewise segs.flatten)) := by
  induction segs with
  | nil => intro _ s _; rfl
  | cons seg segs ih =>
      intro h s hs
      obtain ⟨hfit, hne⟩ := h seg List.mem_cons_self
      have hrest : ∀ {t : σ}, C.Ready t →
          C.obs (C.serve t segs) = C.obs (C.serve t (bytewise segs.flatten)) :=
        ih fun g hg => h g (List.mem_cons_of_mem _ hg)
      rw [serve_bytewise_cons hC seg hs hfit hne, List.flatten_cons,
        show bytewise (seg ++ segs.flatten) = bytewise seg ++ bytewise segs.flatten from
          List.map_append]
      exact serve_append_congr hC _ hrest (bytewise_fits hC hfit) hs

/-- **Any two cuts of one stream are served alike.** -/
theorem serve_congr (hC : C.Lawful) {segs segs' : List (List α)}
    (hcut : segs.flatten = segs'.flatten)
    (h : ∀ seg ∈ segs, C.Fits seg ∧ seg ≠ []) (h' : ∀ seg ∈ segs', C.Fits seg ∧ seg ≠ [])
    {s : σ} (hs : C.Ready s) : C.obs (C.serve s segs) = C.obs (C.serve s segs') := by
  rw [serve_bytewise hC segs h hs, serve_bytewise hC segs' h' hs, hcut]

end Consumer
