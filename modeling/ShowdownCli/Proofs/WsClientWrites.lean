import ShowdownCli.Library.Runs
import ShowdownCli.WsClient

/-! The write queue over whole runs. A write begins only when none is under way, and
its frame is the front of the queue until its handler has run. -/

namespace ShowdownCli.WsClient
open Library

/-- A frame on its way to the queue. -/
def Handler.waiting : Handler → Option String
  | .push formattedMsg => some formattedMsg
  | .written _ _ => none

/-- A frame that was written, as long as it is still in the queue. -/
def Handler.succeeded : Handler → Option String
  | .written write false => some write.frame
  | _ => none

/-- `gone` are the frames that have left the queue. -/
structure Ordered (ws : WsClient) (gone : List String) : Prop where
  single : ws.outstanding.length ≤ 1
  front : ∀ write ∈ ws.outstanding, write.element = ws.popped ∧ ws.internalWriteQueue.head? = some write.frame
  popped : gone.length = ws.popped
  posted : ws.posted = gone ++ ws.internalWriteQueue ++ ws.strand.filterMap Handler.waiting
  completed : ws.completed = gone ++ ws.strand.filterMap Handler.succeeded

/-- A queue that holds frames has a write under way. -/
def Flowing (ws : WsClient) : Prop := ws.internalWriteQueue ≠ [] → ws.outstanding.length = 1

/-- The step runs the handler of a write that failed. -/
def Fails (ws : WsClient) (action : Action) : Prop :=
  action = .run ∧ ∃ write, ws.strand.head? = some (.written write true)

variable {ws after : WsClient} {gone : List String} {rest : List Handler}

theorem Ordered.initial : Ordered {} [] := ⟨Nat.zero_le 1, by simp [outstanding], rfl, rfl, rfl⟩

/-! ## What a handler does -/

theorem run_push_idle {formattedMsg : String} (strand : ws.strand = .push formattedMsg :: rest)
    (idle : ws.internalWriteQueue = []) :
    ws.run = some { ws with
      strand := rest
      internalWriteQueue := [formattedMsg]
      writes := ws.writes ++ [{ element := ws.popped, frame := formattedMsg }] } := by
  simp [run, strand, handle, onPush, idle, doWrite]

theorem run_push_busy {formattedMsg : String} (strand : ws.strand = .push formattedMsg :: rest)
    (busy : ws.internalWriteQueue ≠ []) :
    ws.run = some { ws with strand := rest, internalWriteQueue := ws.internalWriteQueue ++ [formattedMsg] } := by
  simp [run, strand, handle, onPush, busy]

theorem run_failed {write : Write} (strand : ws.strand = .written write true :: rest) :
    ws.run = some { ws with strand := rest } := by
  simp [run, strand, handle, onWritten]

theorem run_written {write : Write} {front : String} {frames : List String}
    (strand : ws.strand = .written write false :: rest) (queue : ws.internalWriteQueue = front :: frames) :
    ws.run = some { ws with
      strand := rest
      internalWriteQueue := frames
      popped := ws.popped + 1
      writes := ws.writes ++ frames.head?.toList.map fun next => { element := ws.popped + 1, frame := next } } := by
  cases frames with
  | nil => simp [run, strand, handle, onWritten, queue]
  | cons next frames => simp [run, strand, handle, onWritten, queue, doWrite]

/-! ## One step -/

theorem succeeded_sublist (handlers : List Handler) :
    (handlers.filterMap Handler.succeeded).Sublist ((handlers.filterMap Handler.write).map Write.frame) := by
  induction handlers with
  | nil => exact .slnil
  | cons handler rest ih =>
    cases handler with
    | push => exact ih
    | written write ec =>
      cases ec with
      | true => exact ih.cons write.frame
      | false => exact ih.cons_cons write.frame

theorem succeeded_nil {handlers : List Handler} (none : handlers.filterMap Handler.write = []) :
    handlers.filterMap Handler.succeeded = [] := by
  have part := succeeded_sublist handlers
  rw [none] at part
  exact List.sublist_nil.mp part

theorem Ordered.alone (ordered : Ordered ws gone) {operation : Nat} {write : Write}
    (under : ws.writes[operation]? = some write) :
    ws.writes = [write] ∧ operation = 0 ∧ ws.strand.filterMap Handler.write = [] := by
  have single := ordered.single
  rw [outstanding, List.length_append] at single
  obtain ⟨inside, here⟩ := List.getElem?_eq_some_iff.mp under
  have only : ws.writes.length = 1 := by omega
  obtain ⟨other, same⟩ := List.length_eq_one_iff.mp only
  have first : operation = 0 := by omega
  subst first
  refine ⟨?_, rfl, List.length_eq_zero_iff.mp (by omega)⟩
  simp only [same, List.getElem?_cons_zero, Option.some.injEq] at under
  rw [same, under]

theorem Ordered.sent (ordered : Ordered ws gone) {message : String} (sent : ws.send message = some after) :
    Ordered after gone ∧ after.outstanding = ws.outstanding ∧ after.internalWriteQueue = ws.internalWriteQueue := by
  obtain ⟨formattedMsg, _, rfl⟩ := Option.map_eq_some_iff.mp sent
  have same : outstanding { ws with
      strand := ws.strand ++ [.push formattedMsg], posted := ws.posted ++ [formattedMsg] } = ws.outstanding := by
    simp [outstanding, Handler.write]
  refine ⟨⟨same ▸ ordered.single, same ▸ ordered.front, ordered.popped, ?_, ?_⟩, same, rfl⟩
  · simp [ordered.posted, Handler.waiting]
  · simp [ordered.completed, Handler.succeeded]

theorem Ordered.complete (ordered : Ordered ws gone) {operation : Nat} {ec : Bool}
    (completed : ws.complete operation ec = some after) :
    Ordered after gone ∧ after.outstanding = ws.outstanding ∧ after.internalWriteQueue = ws.internalWriteQueue := by
  obtain ⟨write, under, rfl⟩ := Option.map_eq_some_iff.mp completed
  obtain ⟨writes, rfl, strand⟩ := ordered.alone under
  have same : outstanding { ws with
      writes := ws.writes.eraseIdx 0
      strand := ws.strand ++ [.written write ec]
      completed := if ec then ws.completed else ws.completed ++ [write.frame] } = ws.outstanding := by
    simp [outstanding, writes, strand, Handler.write]
  refine ⟨⟨same ▸ ordered.single, same ▸ ordered.front, ordered.popped, ?_, ?_⟩, same, rfl⟩
  · simp [ordered.posted, Handler.waiting]
  · cases ec <;> simp [ordered.completed, Handler.succeeded, succeeded_nil strand]

/-- While the handler of a write has not run, no other write is under way. -/
theorem Ordered.answering (ordered : Ordered ws gone) {write : Write} {ec : Bool}
    (strand : ws.strand = .written write ec :: rest) :
    ws.writes = [] ∧ rest.filterMap Handler.write = [] ∧ ws.internalWriteQueue.head? = some write.frame := by
  have all : ws.outstanding = ws.writes ++ write :: rest.filterMap Handler.write := by
    simp [outstanding, strand, Handler.write]
  have single := ordered.single
  rw [all, List.length_append, List.length_cons] at single
  refine ⟨List.length_eq_zero_iff.mp (by omega), List.length_eq_zero_iff.mp (by omega), ?_⟩
  exact (ordered.front write (by simp [all])).2

theorem Ordered.push (ordered : Ordered ws gone) {formattedMsg : String}
    (strand : ws.strand = .push formattedMsg :: rest) :
    ∃ after, ws.run = some after ∧ Ordered after gone ∧ (Flowing ws → Flowing after) := by
  have posted := ordered.posted
  have completed := ordered.completed
  simp only [strand, List.filterMap_cons, Handler.waiting, Handler.succeeded] at posted completed
  have all : ws.outstanding = ws.writes ++ rest.filterMap Handler.write := by
    rw [outstanding, strand, List.filterMap_cons]
    rfl
  by_cases idle : ws.internalWriteQueue = []
  · have none : ws.outstanding = [] := by
      rw [List.eq_nil_iff_forall_not_mem]
      intro write member
      have front := (ordered.front write member).2
      rw [idle] at front
      cases front
    obtain ⟨writes, handlers⟩ := List.append_eq_nil_iff.mp (all.symm.trans none)
    refine ⟨_, run_push_idle strand idle, ⟨?_, ?_, ordered.popped, ?_, completed⟩, fun _ _ => ?_⟩
    · simp [outstanding, writes, handlers]
    · simp [outstanding, writes, handlers]
    · simp [posted, idle]
    · simp [outstanding, writes, handlers]
  · refine ⟨_, run_push_busy strand idle, ⟨?_, ?_, ordered.popped, ?_, completed⟩, fun flowing _ => ?_⟩
    · exact Nat.le_trans (Nat.le_of_eq (congrArg List.length all.symm)) ordered.single
    · intro write member
      obtain ⟨element, front⟩ := ordered.front write (by rw [all]; exact member)
      exact ⟨element, by rw [List.head?_append, front]; rfl⟩
    · simp [posted]
    · exact (congrArg List.length all.symm).trans (flowing idle)

theorem Ordered.failed (ordered : Ordered ws gone) {write : Write}
    (strand : ws.strand = .written write true :: rest) :
    ∃ after, ws.run = some after ∧ Ordered after gone ∧ ¬ Flowing after := by
  obtain ⟨writes, handlers, front⟩ := ordered.answering strand
  have posted := ordered.posted
  have completed := ordered.completed
  simp only [strand, List.filterMap_cons, Handler.waiting, Handler.succeeded] at posted completed
  refine ⟨_, run_failed strand, ⟨?_, ?_, ordered.popped, posted, completed⟩, ?_⟩
  · simp [outstanding, writes, handlers]
  · simp [outstanding, writes, handlers]
  · intro flowing
    have filled : ws.internalWriteQueue ≠ [] := by
      intro empty
      rw [empty] at front
      cases front
    have one := flowing filled
    simp [outstanding, writes, handlers] at one

theorem Ordered.written (ordered : Ordered ws gone) {write : Write}
    (strand : ws.strand = .written write false :: rest) :
    ∃ after, ws.run = some after ∧ Ordered after (gone ++ [write.frame]) ∧ Flowing after := by
  obtain ⟨writes, handlers, front⟩ := ordered.answering strand
  obtain ⟨frames, queue⟩ := List.head?_eq_some_iff.mp front
  have posted := ordered.posted
  have completed := ordered.completed
  simp only [strand, List.filterMap_cons, Handler.waiting, Handler.succeeded, queue] at posted completed
  rw [succeeded_nil handlers] at completed
  refine ⟨_, run_written strand queue, ⟨?_, ?_, ?_, ?_, ?_⟩, ?_⟩
  · cases frames <;> simp [outstanding, writes, handlers]
  · cases frames <;> simp [outstanding, writes, handlers]
  · simp [ordered.popped]
  · simp [posted]
  · simp [completed, succeeded_nil handlers]
  · intro filled
    cases frames with
    | nil => exact absurd rfl filled
    | cons => simp [outstanding, writes, handlers]

/-- A handler always finds the front it needs, and the queue stops flowing only when
the handler of a failed write runs. -/
theorem Ordered.run (ordered : Ordered ws gone) {handler : Handler} (strand : ws.strand = handler :: rest) :
    ∃ after, ws.run = some after ∧ (∃ gone, Ordered after gone) ∧
      (Flowing ws → (Flowing after ↔ ¬ Fails ws .run)) := by
  have fails : Fails ws .run ↔ ∃ write, handler = .written write true := by simp [Fails, strand]
  rw [fails]
  cases handler with
  | push =>
    obtain ⟨after, taken, later, flows⟩ := ordered.push strand
    exact ⟨after, taken, ⟨gone, later⟩, fun flowing => by simp [flows flowing]⟩
  | written write ec =>
    cases ec with
    | true =>
      obtain ⟨after, taken, later, stuck⟩ := ordered.failed strand
      exact ⟨after, taken, ⟨gone, later⟩, fun _ => by simp [stuck]⟩
    | false =>
      obtain ⟨after, taken, later, flows⟩ := ordered.written strand
      exact ⟨after, taken, ⟨_, later⟩, fun _ => by simp [flows]⟩

theorem Ordered.step (ordered : Ordered ws gone) {action : Action} (taken : ws.step action = some after) :
    (∃ gone, Ordered after gone) ∧ (Flowing ws → (Flowing after ↔ ¬ Fails ws action)) := by
  cases action with
  | send message =>
    obtain ⟨later, outstanding, queue⟩ := ordered.sent taken
    exact ⟨⟨gone, later⟩, fun flowing => by simpa [Fails, Flowing, outstanding, queue] using flowing⟩
  | complete operation ec =>
    obtain ⟨later, outstanding, queue⟩ := ordered.complete taken
    exact ⟨⟨gone, later⟩, fun flowing => by simpa [Fails, Flowing, outstanding, queue] using flowing⟩
  | run =>
    cases strand : ws.strand with
    | nil => simp [WsClient.step, WsClient.run, strand] at taken
    | cons handler rest =>
      obtain ⟨other, same, later⟩ := ordered.run strand
      cases taken.symm.trans same
      exact later

/-! ## Runs -/

theorem ordered {actions : List Action} (reached : Runs.exec step {} actions = some ws) :
    ∃ gone, Ordered ws gone := by
  refine Runs.always (fun _ ws => ∃ gone, Ordered ws gone) ⟨[], .initial⟩ ?_ reached
  intro _ action before after prior taken
  obtain ⟨gone, ordered⟩ := prior
  exact (ordered.step taken).1

theorem Ordered.completed_prefix (ordered : Ordered ws gone) : ws.completed <+: ws.posted := by
  have part := (succeeded_sublist ws.strand).trans ((List.sublist_append_right ws.writes _).map Write.frame)
  have short : (ws.strand.filterMap Handler.succeeded).length ≤ 1 :=
    Nat.le_trans (by simpa [outstanding] using part.length_le) ordered.single
  rw [ordered.completed, ordered.posted, List.append_assoc, List.prefix_append_right_inj]
  cases frames : ws.strand.filterMap Handler.succeeded with
  | nil => exact List.nil_prefix
  | cons frame more =>
    rw [frames, List.length_cons] at short
    obtain rfl := List.length_eq_zero_iff.mp (show more.length = 0 by omega)
    obtain ⟨write, member, rfl⟩ := List.mem_map.mp (part.subset (frames ▸ List.mem_cons_self))
    obtain ⟨others, queue⟩ := List.head?_eq_some_iff.mp (ordered.front write member).2
    rw [queue]
    exact ⟨others ++ ws.strand.filterMap Handler.waiting, rfl⟩

/-- At most one write is outstanding, on the front of the queue; frames are written
in the order they were posted, each once. -/
theorem writes_in_order {actions : List Action} (reached : Runs.exec step {} actions = some ws) :
    ws.outstanding.length ≤ 1 ∧
      (∀ write ∈ ws.outstanding,
        write.element = ws.popped ∧ ws.internalWriteQueue.head? = some write.frame) ∧
      ws.completed <+: ws.posted ∧ (ws.strand ≠ [] → ∃ after, ws.run = some after) := by
  obtain ⟨gone, ordered⟩ := ordered reached
  refine ⟨ordered.single, ordered.front, ordered.completed_prefix, fun waiting => ?_⟩
  obtain ⟨handler, rest, strand⟩ := List.exists_cons_of_ne_nil waiting
  obtain ⟨after, taken, _⟩ := ordered.run strand
  exact ⟨after, taken⟩

/-- Two of three frames are written, the second of them posted while the first was under way. -/
private def conversation : List Action :=
  [.send "|/join a", .send "|/join b\n", .run, .complete 0 false, .run, .run, .complete 0 false, .send "|/leave a", .run,
    .run]

theorem writes_in_order_exchange :
    ∃ ws, Runs.exec step {} conversation = some ws ∧ ws.completed = ["|/join a\n", "|/join b\n"] ∧
      ws.posted = ["|/join a\n", "|/join b\n", "|/leave a\n"] ∧ ws.outstanding.map Write.frame = ["|/leave a\n"] ∧
      ws.outstanding.length ≤ 1 ∧
      (∀ write ∈ ws.outstanding,
        write.element = ws.popped ∧ ws.internalWriteQueue.head? = some write.frame) ∧
      ws.completed <+: ws.posted ∧ (ws.strand ≠ [] → ∃ after, ws.run = some after) := by
  have run : (Runs.exec step {} conversation).map (fun ws => (ws.completed, ws.posted, ws.outstanding.map Write.frame)) =
      some (["|/join a\n", "|/join b\n"], ["|/join a\n", "|/join b\n", "|/leave a\n"], ["|/leave a\n"]) := by decide
  obtain ⟨ws, reached, facts⟩ := Option.map_eq_some_iff.mp run
  simp only [Prod.mk.injEq] at facts
  obtain ⟨completed, posted, outstanding⟩ := facts
  exact ⟨ws, reached, completed, posted, outstanding, writes_in_order reached⟩

/-- The queue flows in every state of a run exactly when no handler of a failed
write runs in it. -/
theorem flowing_iff (actions : List Action) :
    (∀ done, done <+: actions → ∀ ws, Runs.exec step {} done = some ws → Flowing ws) ↔
      Runs.Guarded step (fun ws action => ¬ Fails ws action) {} actions := by
  apply Runs.prefixes_iff
  · intro ws reached filled
    cases reached
    exact absurd rfl filled
  · intro done action inside earlier
    constructor
    · intro flows ws reached fails
      obtain ⟨gone, ordered⟩ := ordered reached
      obtain ⟨rfl, write, failed⟩ := fails
      obtain ⟨rest, strand⟩ := List.head?_eq_some_iff.mp failed
      obtain ⟨after, taken, _, stuck⟩ := ordered.failed strand
      apply stuck
      exact flows after (by rw [Runs.exec_concat, reached]; exact taken)
    · intro runs after reached
      obtain ⟨ws, first, taken⟩ := Runs.exec_concat_some reached
      obtain ⟨gone, ordered⟩ := ordered first
      have flowing := earlier done (List.prefix_refl _) ws first
      exact ((ordered.step taken).2 flowing).mpr (runs ws first)

/-- What a failed write leaves behind, with one more frame sent since. -/
private def blocked : WsClient :=
  { internalWriteQueue := ["|/join a\n", "|/join b\n"], posted := ["|/join a\n", "|/join b\n"] }

theorem failed_write_blocks :
    ∃ actions ws, Runs.exec step {} actions = some ws ∧ ¬ Flowing ws := by
  refine ⟨[.send "|/join a", .run, .complete 0 true, .run, .send "|/join b", .run], blocked, by decide, ?_⟩
  intro flowing
  exact absurd (flowing (by decide)) (by decide)

end ShowdownCli.WsClient
