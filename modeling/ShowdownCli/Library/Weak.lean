import Mathlib.Data.Nat.Notation
import Mathlib.Logic.Function.Basic

/-! Memory in which a load may return an older store. Each process has a view, the number
of its own accesses to plain cells and of those of the others that happened before. A
release store carries the view of its process and an acquire load joins it. Two accesses
to a plain cell by different processes race unless one happened before the other. -/

namespace ShowdownCli.Library.Weak

universe u v
variable {π : Type u} {β : Type v}

abbrev View (π : Type u) := π → Nat

namespace View

def join (view other : View π) : View π := fun process => max (view process) (other process)

theorem le_join_right (view other : View π) (process : π) : other process ≤ view.join other process :=
  Nat.le_max_right ..

theorem join_le {view other : View π} {process : π} {bound : Nat} (former : view process ≤ bound)
    (latter : other process ≤ bound) : view.join other process ≤ bound := Nat.max_le.mpr ⟨former, latter⟩

variable [DecidableEq π]

/-- One more access by this process. -/
def tick (view : View π) (process : π) : View π := Function.update view process (view process + 1)

@[simp] theorem tick_self (view : View π) (process : π) : view.tick process process = view process + 1 :=
  Function.update_self ..

theorem tick_other {process other : π} (apart : other ≠ process) (view : View π) :
    view.tick process other = view other := Function.update_of_ne apart ..

end View

structure Message (π : Type u) (β : Type v) where
  value : β
  view : View π

/-- The view of every process. -/
abbrev Views (π : Type u) := π → View π

namespace Views

/-- What each process has done itself. -/
def clock (views : Views π) : View π := fun process => views process process

/-- No process knows more of another than that has done. -/
def Causal (views : Views π) : Prop := ∀ process other, views process other ≤ views.clock other

variable [DecidableEq π]

def acquire (views : Views π) (process : π) (message : Message π β) : Views π :=
  Function.update views process ((views process).join message.view)

def tick (views : Views π) (process : π) : Views π := Function.update views process ((views process).tick process)

@[simp] theorem acquire_self (views : Views π) (process : π) (message : Message π β) :
    views.acquire process message process = (views process).join message.view := Function.update_self ..

theorem acquire_other {process other : π} (apart : other ≠ process) (views : Views π) (message : Message π β) :
    views.acquire process message other = views other := Function.update_of_ne apart ..

@[simp] theorem tick_self (views : Views π) (process : π) :
    views.tick process process = (views process).tick process := Function.update_self ..

theorem tick_other {process other : π} (apart : other ≠ process) (views : Views π) :
    views.tick process other = views other := Function.update_of_ne apart ..

/-- To learn of the others changes nothing of what was done. -/
theorem clock_acquire {views : Views π} {process : π} {message : Message π β}
    (within : ∀ other, message.view other ≤ views.clock other) : (views.acquire process message).clock = views.clock := by
  funext other
  by_cases same : other = process
  · subst same
    have own := within other
    simp only [clock, acquire_self, View.join] at own ⊢
    omega
  · rw [clock, acquire_other same]
    rfl

theorem Causal.acquire {views : Views π} {message : Message π β} (causal : views.Causal)
    (within : ∀ other, message.view other ≤ views.clock other) (process : π) : (views.acquire process message).Causal := by
  intro knower other
  rw [clock_acquire within]
  by_cases same : knower = process
  · rw [same, acquire_self]
    exact View.join_le (causal process other) (within other)
  · rw [acquire_other same]
    exact causal knower other

theorem clock_tick_self (views : Views π) (process : π) :
    (views.tick process).clock process = views.clock process + 1 := by
  rw [clock, tick_self, View.tick_self]
  rfl

theorem clock_tick_other {process other : π} (apart : other ≠ process) (views : Views π) :
    (views.tick process).clock other = views.clock other := by
  rw [clock, tick_other apart]
  rfl

theorem clock_tick_le (views : Views π) (process other : π) : views.clock other ≤ (views.tick process).clock other := by
  by_cases same : other = process
  · rw [same, clock_tick_self]
    exact Nat.le_succ _
  · exact Nat.le_of_eq (clock_tick_other same views).symm

theorem Causal.tick {views : Views π} (causal : views.Causal) (process : π) : (views.tick process).Causal := by
  intro knower other
  have later := clock_tick_le views process other
  by_cases same : knower = process
  · subst same
    by_cases own : other = knower
    · subst own
      exact Nat.le_refl _
    · rw [tick_self, View.tick_other own]
      exact Nat.le_trans (causal knower other) later
  · rw [tick_other same]
    exact Nat.le_trans (causal knower other) later

end Views

/-! ## Atomic variables -/

/-- The stores to an atomic variable up to `latest`, and the one each process saw last. -/
structure Cell (π : Type u) (β : Type v) where
  stores : Nat → Message π β
  latest : Nat
  seen : π → Nat

namespace Cell

def initial (value : β) : Cell π β := { stores := fun _ => { value, view := fun _ => 0 }, latest := 0, seen := fun _ => 0 }

def current (cell : Cell π β) : β := (cell.stores cell.latest).value

/-- What the stores carry is at most this. -/
def Within (cell : Cell π β) (bound : View π) : Prop := ∀ store process, (cell.stores store).view process ≤ bound process

theorem Within.trans {cell : Cell π β} {bound other : View π} (within : cell.Within bound)
    (above : ∀ process, bound process ≤ other process) : cell.Within other :=
  fun store process => Nat.le_trans (within store process) (above process)

variable [DecidableEq π]

/-- What the process stored or has seen, it cannot load anything older than. -/
def load (cell : Cell π β) (process : π) (store : Nat) : Option (Message π β × Cell π β) :=
  if cell.seen process ≤ store ∧ store ≤ cell.latest then
    some (cell.stores store, { cell with seen := Function.update cell.seen process store })
  else none

def store (cell : Cell π β) (process : π) (message : Message π β) : Cell π β :=
  { stores := Function.update cell.stores (cell.latest + 1) message
    latest := cell.latest + 1
    seen := Function.update cell.seen process (cell.latest + 1) }

theorem load_some {cell after : Cell π β} {process : π} {store : Nat} {message : Message π β} :
    cell.load process store = some (message, after) ↔
      cell.seen process ≤ store ∧ store ≤ cell.latest ∧ message = cell.stores store ∧
        after = { cell with seen := Function.update cell.seen process store } := by
  simp only [load]
  split
  next within =>
    rw [Option.some.injEq, Prod.mk.injEq]
    exact ⟨fun same => ⟨within.1, within.2, same.1.symm, same.2.symm⟩, fun known => ⟨known.2.2.1.symm, known.2.2.2.symm⟩⟩
  next without =>
    refine ⟨fun missing => ?_, fun known => absurd ⟨known.1, known.2.1⟩ without⟩
    cases missing

theorem load_newer {cell after : Cell π β} {process : π} {store : Nat} {message : Message π β}
    (loaded : cell.load process store = some (message, after)) :
    cell.seen process ≤ store ∧ after.seen process = store ∧
      ∀ other, other ≠ process → after.seen other = cell.seen other := by
  obtain ⟨newer, _, _, rfl⟩ := load_some.mp loaded
  exact ⟨newer, Function.update_self .., fun other apart => Function.update_of_ne apart ..⟩

theorem Within.load {cell after : Cell π β} {process : π} {store : Nat} {message : Message π β} {bound : View π}
    (within : cell.Within bound) (loaded : cell.load process store = some (message, after)) :
    after.Within bound ∧ ∀ other, message.view other ≤ bound other := by
  obtain ⟨_, _, rfl, rfl⟩ := load_some.mp loaded
  exact ⟨within, within store⟩

theorem Within.store {cell : Cell π β} {message : Message π β} {bound : View π} (within : cell.Within bound)
    (carried : ∀ other, message.view other ≤ bound other) (process : π) : (cell.store process message).Within bound := by
  intro store other
  show (Function.update cell.stores (cell.latest + 1) message store).view other ≤ bound other
  by_cases new : store = cell.latest + 1
  · rw [new, Function.update_self]
    exact carried other
  · rw [Function.update_of_ne new]
    exact within store other

theorem store_seen_other {process other : π} (apart : other ≠ process) (cell : Cell π β) (message : Message π β) :
    (cell.store process message).seen other = cell.seen other := Function.update_of_ne apart ..

@[simp] theorem store_current (cell : Cell π β) (process : π) (message : Message π β) :
    (cell.store process message).current = message.value := by
  simp [store, current]

end Cell

/-- A variable that one process stores to and that counts its stores. The view of each
store covers as many accesses of that process. -/
structure Counts (value : Nat → β) (owner : π) (count : Nat) (cell : Cell π β) : Prop where
  latest : cell.latest = count
  own : cell.seen owner = count
  known : ∀ process, cell.seen process ≤ count
  value : ∀ store ≤ count, (cell.stores store).value = value store
  covers : ∀ store ≤ count, store ≤ (cell.stores store).view owner

namespace Counts
variable {value : Nat → β} {owner : π} {count : Nat} {cell after : Cell π β}

theorem initial (value : Nat → β) (owner : π) : Counts value owner 0 (Cell.initial (value 0) : Cell π β) := by
  refine ⟨rfl, rfl, fun _ => Nat.le_refl _, fun store first => ?_, fun store first => ?_⟩
  · cases Nat.le_zero.mp first
    rfl
  · exact first

theorem current (counts : Counts value owner count cell) : cell.current = value count := by
  rw [Cell.current, counts.latest]
  exact counts.value count (Nat.le_refl _)

variable [DecidableEq π]

theorem load {process : π} {store : Nat} {message : Message π β} (counts : Counts value owner count cell)
    (loaded : cell.load process store = some (message, after)) :
    Counts value owner count after ∧ after.current = cell.current ∧ store ≤ count ∧ message.value = value store ∧
      store ≤ message.view owner := by
  obtain ⟨newer, made, rfl, rfl⟩ := Cell.load_some.mp loaded
  have within : store ≤ count := counts.latest ▸ made
  refine ⟨⟨counts.latest, ?_, fun other => ?_, counts.value, counts.covers⟩, rfl, within, counts.value store within,
    counts.covers store within⟩
  · show Function.update cell.seen process store owner = count
    by_cases same : owner = process
    · subst same
      have own := counts.own
      rw [Function.update_self]
      omega
    · rw [Function.update_of_ne same]
      exact counts.own
  · show Function.update cell.seen process store other ≤ count
    by_cases same : other = process
    · rw [same, Function.update_self]
      exact within
    · rw [Function.update_of_ne same]
      exact counts.known other

/-- Every process may load the latest store. -/
theorem load_latest (counts : Counts value owner count cell) (process : π) :
    cell.load process cell.latest = some (cell.stores cell.latest,
      { cell with seen := Function.update cell.seen process cell.latest }) := by
  have known := counts.known process
  rw [← counts.latest] at known
  exact Cell.load_some.mpr ⟨known, Nat.le_refl _, rfl, rfl⟩

/-- Its own process always loads the latest store. -/
theorem load_own {store : Nat} {message : Message π β} (counts : Counts value owner count cell)
    (loaded : cell.load owner store = some (message, after)) : message.value = value count := by
  obtain ⟨_, _, within, same, _⟩ := counts.load loaded
  have newer := (Cell.load_some.mp loaded).1
  have own := counts.own
  rw [same, show store = count by omega]

theorem store {message : Message π β} (counts : Counts value owner count cell)
    (next : message.value = value (count + 1)) (covers : count + 1 ≤ message.view owner) :
    Counts value owner (count + 1) (cell.store owner message) := by
  have latest := counts.latest
  refine ⟨congrArg (· + 1) latest, ?_, fun other => ?_, fun store within => ?_, fun store within => ?_⟩
  · show Function.update cell.seen owner (cell.latest + 1) owner = count + 1
    rw [Function.update_self, latest]
  · show Function.update cell.seen owner (cell.latest + 1) other ≤ count + 1
    have known := counts.known other
    by_cases same : other = owner
    · subst same
      exact Nat.le_of_eq (by rw [Function.update_self, latest])
    · rw [Function.update_of_ne same]
      omega
  · show (Function.update cell.stores (cell.latest + 1) message store).value = value store
    by_cases new : store = count + 1
    · rw [latest, new, Function.update_self, next]
    · rw [latest, Function.update_of_ne new]
      exact counts.value store (by omega)
  · show store ≤ (Function.update cell.stores (cell.latest + 1) message store).view owner
    by_cases new : store = count + 1
    · rw [latest, new, Function.update_self]
      exact covers
    · rw [latest, Function.update_of_ne new]
      exact counts.covers store (by omega)

end Counts

/-! ## Plain cells -/

/-- `last` is when each process accessed the cell last, by its own count; zero for never. -/
structure Plain (π : Type u) (β : Type v) where
  value : β
  last : View π

namespace Plain

def initial (value : β) : Plain π β := { value, last := fun _ => 0 }

/-- An access by the process would conflict with one that did not happen before. -/
def Races (cell : Plain π β) (process : π) (view : View π) : Prop :=
  ∃ other, other ≠ process ∧ view other < cell.last other

variable [DecidableEq π]

/-- The access that takes the process to this view. -/
def write (cell : Plain π β) (process : π) (view : View π) (value : β) : Plain π β :=
  { value, last := Function.update cell.last process (view process) }

@[simp] theorem write_last_self (cell : Plain π β) (process : π) (view : View π) (value : β) :
    (cell.write process view value).last process = view process := Function.update_self ..

theorem write_last_other {process other : π} (apart : other ≠ process) (cell : Plain π β) (view : View π) (value : β) :
    (cell.write process view value).last other = cell.last other := Function.update_of_ne apart ..

end Plain
end ShowdownCli.Library.Weak
