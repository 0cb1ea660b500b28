import ChainIndexer.Consumer.Effect
import ChainIndexer.Core.Buffer
import Mathlib.Data.List.InsertIdx

/-!
# The consumer is a buffer with one reader

Forgetting everything but the positions of messages turns a state into a buffer:
`processQueue` is its reader. Every step of the consumer is a run of moves, and a
guard on the moves has to be met only where a message arrives, enters the queue
or is committed.
-/

namespace ChainIndexer.Consumer

open Machine (Reach)

variable {β γ : Type} {cfg : Config} {s t u : State β γ}

/-- Where the messages are. -/
def view (s : State β γ) : Buffer Position where
  arrived := s.delivered
  waiting := s.arriving.map (·.position)
  entered := s.entered
  queue := s.queue.map (·.position)
  hand := s.processing.map (·.element.position)
  taken := s.awaited
  resolved := s.resolved
  done := s.handled
  lost := s.dropped

/-- The view with something else in hand. -/
def viewWith (hand : Option Position) (s : State β γ) : Buffer Position :=
  { view s with hand := hand }

variable {G : Buffer Position → Buffer.Act Position → Prop}

/-- Clearing the queue is a move that is open at any time. -/
theorem Quiet.reach (hG : Buffer.Lenient G) (h : Quiet s t) (hand : Option Position) :
    (Buffer.machine Position).Reach G (viewWith hand s) (viewWith hand t) := by
  have hrest : ∀ queue lost, t.queue.map (·.position) = queue → t.dropped = lost →
      viewWith hand t = { viewWith hand s with queue := queue, lost := lost } := by
    intro queue lost hq hl
    simp [viewWith, view, h.arriving, h.delivered, h.entered, h.awaited, h.resolved, h.handled,
      hq, hl]
  obtain ⟨hq, hd⟩ | ⟨hq, hd⟩ := h.queue
  · rw [hrest _ _ (congrArg _ hq) hd]
    exact Reach.refl _ _
  · rw [hrest _ _ (congrArg _ hq) hd]
    exact Reach.single (e := .clear) (hG.clear _) rfl

/-- What moves no message is no step of the buffer. -/
theorem Quiet.view_reach (hG : Buffer.Lenient G) (h : Quiet s t) :
    (Buffer.machine Position).Reach G (view s) (view t) := by
  have hview : viewWith (view s).hand t = view t := by
    unfold viewWith view
    rw [h.processing]
  rw [← hview]
  exact h.reach hG _

/-- At the head of its loop the reader takes the front or leaves. -/
theorem runQueue_reach (hG : Buffer.Lenient G) (s : State β γ) (errorCount : Nat)
    (hand : Option Position) :
    (Buffer.machine Position).Reach G (viewWith hand s) (view (runQueue s errorCount)) := by
  cases hq : s.queue with
  | nil =>
    rw [runQueue_nil hq]
    exact Reach.single (e := .release) (hG.release _) rfl
  | cons element rest =>
    rw [runQueue_cons hq]
    refine Reach.single (e := .take) (hG.take _) ?_
    simp [Buffer.machine, Buffer.act, viewWith, view, hq]

private theorem processQueue_reach (hG : Buffer.Lenient G) (s : State β γ) :
    (Buffer.machine Position).Reach G (view s) (view (processQueue s)) := by
  unfold processQueue
  split
  · exact runQueue_reach hG { s with queueIsProcessing := true } 0 _
  · exact Reach.refl _ _

/-- The catch block leaves, after a clearing perhaps, or goes round again. -/
theorem caught_reach (hG : Buffer.Lenient G) (s : State β γ) (a : Activation γ) (error : Thrown)
    (hand : Option Position) :
    (Buffer.machine Position).Reach G (viewWith hand s) (view (caught cfg s a error)) := by
  unfold caught
  split
  · exact ((onError_quiet s _).reach hG hand).step (e := .release) (hG.release _) rfl
  · exact runQueue_reach hG s _ hand

/-- The resolved messages are recorded before the commit. -/
theorem resolve_reach (hG : Buffer.Lenient G) (s : State β γ) (a : Activation γ) :
    (Buffer.machine Position).Reach G (view s)
      { view s with resolved := (resolve s a).resolved } := by
  unfold resolve
  cases a.element.promise with
  | none => exact Reach.single (e := .resolve a.element.position) (hG.resolve _ _) rfl
  | some i => exact Reach.refl _ _

/-- Committing finishes the item in hand. -/
theorem succeed_reach {a : Activation γ} (hG : Buffer.Lenient G) (ha : s.processing = some a)
    (commits : List (Option Thrown))
    (hfinish : ∀ cleared, G { view s with resolved := (resolve s a).resolved } (.finish cleared)) :
    (Buffer.machine Position).Reach G (view s) (viewWith none (succeed cfg s a commits)) := by
  obtain ⟨committed, _, h⟩ :=
    safeCommitMessage_quiet cfg (resolve s a) a.element.position commits 0
  have hreach : ∀ cleared : Bool, viewWith none (succeed cfg s a commits) = { view s with
      resolved := (resolve s a).resolved
      hand := none
      done := s.handled ++ [a.element.position]
      queue := if cleared then [] else (view s).queue.tail
      lost := if cleared then s.dropped ++ (view s).queue else s.dropped } →
      (Buffer.machine Position).Reach G (view s) (viewWith none (succeed cfg s a commits)) := by
    intro cleared heq
    refine (resolve_reach hG s a).step (e := .finish cleared) (hfinish cleared) ?_
    rw [heq]
    simp [Buffer.machine, Buffer.act, view, ha]
  have hfields : ∀ queue lost, (succeed cfg s a commits).queue.map (·.position) = queue →
      (succeed cfg s a commits).dropped = lost →
      viewWith none (succeed cfg s a commits) = { view s with
        resolved := (resolve s a).resolved
        hand := none
        done := s.handled ++ [a.element.position]
        queue := queue
        lost := lost } := by
    intro queue lost hq hl
    simp only [viewWith, view, hq, hl]
    simp only [succeed, h.arriving, h.delivered, h.entered, h.awaited, h.resolved, h.handled]
    rfl
  obtain ⟨hq, hd⟩ | ⟨hq, hd⟩ := h.queue
  · change _ = s.queue at hq
    refine hreach false (hfields _ _ ?_ hd)
    simp [succeed, hq, view, List.map_tail]
  · refine hreach true (hfields _ _ ?_ hd)
    simp [succeed, hq]

/-- The guard admits the arrival, the entry or the finish that the event amounts to. -/
def Permits (G : Buffer Position → Buffer.Act Position → Prop) (s : State β γ) :
    Event β γ → Prop
  | .data m => G (view s) (.arrive m.position)
  | .deserialized i (.ok _) _ => G (view s) (.enter i)
  | .settled none _ _ => ∀ a, s.processing = some a → outcomeOf s a.element none = true →
      ∀ cleared, G { view s with resolved := (resolve s a).resolved } (.finish cleared)
  | _ => True

/-- A decoded message enters the buffer. -/
theorem push_reach {i : Nat} {m : Message β} (hm : s.arriving[i]? = some m)
    (hG : G (view s) (.enter i)) (value : Option γ) :
    (Buffer.machine Position).Reach G (view s)
      (view (push cfg (decoded s i) ⟨m.position, value⟩)) := by
  obtain ⟨element, nextCalls, promises, hmessage, hp⟩ :=
    push_eq cfg (decoded s i) ⟨m.position, value⟩
  refine Reach.single hG ?_
  have hposition : element.position = m.position := by
    rw [QueueObject.position, hmessage]
  rw [hp]
  simp [Buffer.machine, Buffer.act, view, decoded, hm, hposition, List.eraseIdx_map]

/-- Every step of the consumer is a run of moves. -/
theorem step_reach {e : Event β γ} (hG : Buffer.Lenient G) (hp : Permits G s e)
    (h : step cfg s e = some t) : (Buffer.machine Position).Reach G (view s) (view t) := by
  cases step_effect h with
  | quiet _ hq => exact hq.view_reach hG
  | arrive _ =>
    refine Reach.single hp ?_
    simp [Buffer.machine, Buffer.act, view]
  | retry _ _ => exact Reach.refl _ _
  | resolve _ => exact Reach.single (e := .resolve _) (hG.resolve _ _) rfl
  | @reject i m _ _ _ hm hq =>
    refine Reach.trans (Reach.single (e := .reject i) (hG.reject _ _) ?_) (hq.view_reach hG)
    simp [Buffer.machine, Buffer.act, view, decoded, hm, List.eraseIdx_map]
  | enter hm hu =>
    exact ((push_reach hm hp _).trans (hu.quiet.view_reach hG)).trans (processQueue_reach hG _)
  | overflow hm hq => exact (push_reach hm hp _).trans (hq.view_reach hG)
  | fail ha => exact caught_reach hG s _ _ _
  | succeed ha hout hu =>
    exact ((succeed_reach hG ha _ (hp _ ha hout)).trans (hu.quiet.reach hG none)).trans
      (runQueue_reach hG _ 0 none)
  | underflow ha hout hu =>
    exact ((succeed_reach hG ha _ (hp _ ha hout)).trans (hu.quiet.reach hG none)).trans
      (caught_reach hG _ _ _ none)

end ChainIndexer.Consumer
