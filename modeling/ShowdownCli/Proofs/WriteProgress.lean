import ShowdownCli.Proofs.ProgramDelivery

/-! How the frames get out. Each frame that is posted costs the network thread three steps:
the handler that queues it, its write, and the handler of that. As long as no write fails
the thread always has one of them to do until everything posted has been written. -/

namespace ShowdownCli
open Library

namespace WsClient
variable {ws after : WsClient} {gone : List String}

/-- The steps until every frame posted has left the queue. -/
def left (ws : WsClient) : Nat :=
  3 * (ws.strand.filterMap Handler.waiting).length + 2 * ws.internalWriteQueue.length -
    (ws.strand.filterMap Handler.write).length

structure Unfailing (ws : WsClient) : Prop where
  ordered : ∃ gone, Ordered ws gone
  flowing : Flowing ws
  clean : ∀ write, .written write true ∉ ws.strand

theorem Unfailing.initial : Unfailing {} := ⟨⟨[], .initial⟩, fun filled => absurd rfl filled, fun _ => List.not_mem_nil⟩

theorem Unfailing.step (unfailing : Unfailing ws) {action : Action} (taken : ws.step action = some after)
    (errorless : ∀ operation, action ≠ .complete operation true) : Unfailing after := by
  obtain ⟨⟨gone, ordered⟩, flowing, clean⟩ := unfailing
  obtain ⟨later, flows⟩ := ordered.step taken
  refine ⟨later, (flows flowing).mpr ?_, ?_⟩
  · rintro ⟨_, write, failed⟩
    exact clean write (List.mem_of_mem_head? failed)
  · intro write failed
    cases action with
    | send message =>
      obtain ⟨formattedMsg, _, rfl⟩ := Option.map_eq_some_iff.mp taken
      exact clean write (by simpa using failed)
    | complete operation ec =>
      obtain ⟨completed, _, rfl⟩ := Option.map_eq_some_iff.mp taken
      rcases List.mem_append.mp failed with before | answer
      · exact clean write before
      · obtain ⟨rfl, rfl⟩ := Handler.written.inj (List.mem_singleton.mp answer)
        exact errorless operation rfl
    | run =>
      rw [(run_aside taken).2] at failed
      exact clean write (List.mem_of_mem_tail failed)

/-! ## Where it ends -/

theorem Unfailing.proceeds (unfailing : Unfailing ws) (unwritten : 0 < ws.left) :
    (∃ after, ws.run = some after) ∨ ∃ after, ws.complete 0 false = some after := by
  obtain ⟨⟨gone, ordered⟩, flowing, _⟩ := unfailing
  cases strand : ws.strand with
  | cons handler rest =>
    obtain ⟨after, taken, _⟩ := ordered.run strand
    exact .inl ⟨after, taken⟩
  | nil =>
    have filled : ws.internalWriteQueue ≠ [] := by
      intro empty
      simp [left, strand, empty] at unwritten
    have one := flowing filled
    rw [outstanding, strand, List.filterMap_nil, List.append_nil] at one
    obtain ⟨write, writes⟩ := List.length_eq_one_iff.mp one
    exact .inr ⟨_, by rw [complete, writes]; rfl⟩

end WsClient

namespace Inbound
open SPSCQueue
variable {state after : Inbound}

end Inbound

namespace Program
variable {world : World} {program after : Program} {action : Action}

/-- The steps of the network thread that have to do with writing. -/
def writing : Action → Bool
  | .strand => true
  | .complete _ _ => true
  | _ => false

def pushing : Action → Bool
  | .network => true
  | _ => false

end Program
end ShowdownCli
