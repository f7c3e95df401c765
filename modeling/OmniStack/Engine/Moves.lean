import OmniStack.Lib.Worklist
import OmniStack.Engine.Graph
import OmniStack.Engine.Turns

/-! The worker as a stack machine.

The live part of `task_queue` is a stack of pending calls. What an event does to it
is a move (`moveOf`): a poll puts a task on top for every link and every packet of
the burst, a call takes its task off and, when it returns `Ok`, puts one on for every
link. A run of the worker is a run of these moves (`run_moves`). -/
namespace OmniStack
open Lib
namespace Worker
variable {σ : Type}

/-- The links of a worker's node. -/
def links (w : Worker σ) (n : NodeId) : List NodeId := Graph.linksOf w.nodes.items n

theorem links_eq {w : Worker σ} {n : NodeId} {node : Node σ} (h : w.nodes.items[n]? = some node) :
    w.links n = node.linksTo.items := Graph.linksOf_some h

/-- What an event does to the stack of tasks. -/
def moveOf (w : Worker σ) : Event → Move Task
  | .polled n burst => ⟨[], (w.links n).flatMap (linkTasks burst)⟩
  | .called n pkt (.ok ()) => ⟨[⟨n, some pkt⟩], (w.links n).map fun m => ⟨m, some pkt⟩⟩
  | .called n pkt (.error _) => ⟨[⟨n, some pkt⟩], []⟩
  | _ => ⟨[], []⟩

variable {checks : Bool} {shouldStop : World σ → Bool} {w : Worker σ} {ctx : Context}

theorem still_move (s : List Task) : Move.Step s ⟨[], []⟩ s :=
  ⟨s, (List.append_nil s).symm, (List.append_nil s).symm⟩

theorem turn_move {s t : Loop σ} {ev : Event} (h : Turn checks shouldStop w ctx s ev t) :
    Move.Step s.queue.live (w.moveOf ev) t.queue.live := by
  cases h with
  | enter | leave | pollEnd | idle | pollFailed | drained => exact still_move _
  | polled _ hnode _ _ _ hpush =>
    refine ⟨s.queue.live, (List.append_nil _).symm, ?_⟩
    rw [ArrayStack.pushAll_live hpush, moveOf, links_eq hnode]
  | forwarded _ hindex htask hnode _ _ hpush =>
    refine ⟨s.queue.pop.2.live, ?_, ?_⟩
    · rw [moveOf, ← htask]
      exact ArrayStack.pop_live hindex
    · rw [ArrayStack.pushAll_live hpush, moveOf, links_eq hnode]
  | dropped _ hindex htask | callFailed _ hindex htask =>
    refine ⟨s.queue.pop.2.live, ?_, (List.append_nil _).symm⟩
    rw [moveOf, ← htask]
    exact ArrayStack.pop_live hindex

theorem run_moves {s t : Loop σ} {evs : List Event}
    (h : Run (Step checks shouldStop w ctx) s evs t) :
    Run Move.Step s.queue.live (evs.map w.moveOf) t.queue.live :=
  h.map (fun s => s.queue.live) w.moveOf fun _ _ _ hst => turn_move (step_turn hst)

end Worker
end OmniStack
