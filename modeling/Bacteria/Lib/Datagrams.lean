/-
**Nodes that send each other datagrams.**

What was sent once can arrive at any later time, any number of times and in any order, or never: `sent`
only grows, and a node that receives takes any datagram for it from there.

* `Message`, `World` — a datagram; all that were sent, and the states of the nodes.
* `step` — a node acts, on a datagram or on nothing; `Possible` — the datagram was sent to it.
* `Keeps` — what an action has to keep: a property of the states, and one of the datagrams, both of which
  may look at what was sent so far.
* `run_keeps` — after every run they hold of all nodes and of all datagrams.
-/

import Bacteria.Lib.Runs
import Mathlib.Logic.Function.Basic

namespace Datagrams

/-- A datagram. -/
structure Message (α τ : Type) where
  source : α
  target : α
  text : τ
deriving DecidableEq

/-- The nodes and the network. -/
structure World (α τ σ : Type) where
  sent : List (Message α τ)
  state : α → σ

/-- A node acts on a datagram it received, or on none, and on what else it is given. -/
structure Event (α τ ι : Type) where
  node : α
  received : Option (Message α τ)
  input : ι

section System

variable {α τ σ ι : Type} [DecidableEq α]
  (act : α → σ → Option (Message α τ) → ι → σ × List (α × τ))

/-- What a node sends, as datagrams. -/
def outgoing (node : α) (sends : List (α × τ)) : List (Message α τ) :=
  sends.map fun out => ⟨node, out.1, out.2⟩

/-- **A node acts.** -/
def step (world : World α τ σ) (event : Event α τ ι) : World α τ σ :=
  let acted := act event.node (world.state event.node) event.received event.input
  { sent := world.sent ++ outgoing event.node acted.2
    state := Function.update world.state event.node acted.1 }

/-- **What can arrive**: what was sent to this node. -/
def Possible (world : World α τ σ) (event : Event α τ ι) : Prop :=
  ∀ message, event.received = some message → message ∈ world.sent ∧ message.target = event.node

instance [DecidableEq τ] (world : World α τ σ) (event : Event α τ ι) : Decidable (Possible world event) :=
  decidable_of_iff (∀ message ∈ event.received.toList, message ∈ world.sent ∧ message.target = event.node)
    ⟨fun all message same => all message (by rw [same]; exact List.mem_singleton_self message),
      fun all message member => all message (Option.mem_toList.mp member)⟩

variable (sound : List (Message α τ) → Message α τ → Prop)
  (right : List (Message α τ) → α → σ → Prop) (permitted : α → ι → Prop)

/-- **What an action keeps**: it leaves its node right, and what it sends is sound; and what was right or
sound stays so when more is sent. -/
structure Keeps : Prop where
  soundLater : ∀ sent more message, sound sent message → sound (sent ++ more) message
  rightLater : ∀ sent more node state, right sent node state → right (sent ++ more) node state
  acts : ∀ sent node state received input, right sent node state → permitted node input →
    (∀ message, received = some message →
      message ∈ sent ∧ message.target = node ∧ sound sent message) →
    right (sent ++ outgoing node (act node state received input).2) node
        (act node state received input).1 ∧
      ∀ message ∈ outgoing node (act node state received input).2,
        sound (sent ++ outgoing node (act node state received input).2) message

/-- All nodes are right, and all datagrams sound. -/
structure Holds (world : World α τ σ) : Prop where
  sound : ∀ message ∈ world.sent, sound world.sent message
  right : ∀ node, right world.sent node (world.state node)

variable {act sound right permitted}

/-- **One action.** -/
theorem step_holds (keeps : Keeps act sound right permitted) {world : World α τ σ}
    (holds : Holds sound right world) {event : Event α τ ι} (possible : Possible world event)
    (allowed : permitted event.node event.input) : Holds sound right (step act world event) := by
  have received : ∀ message, event.received = some message →
      message ∈ world.sent ∧ message.target = event.node ∧ sound world.sent message := by
    intro message arrived
    obtain ⟨member, target⟩ := possible message arrived
    exact ⟨member, target, holds.sound message member⟩
  obtain ⟨rightHere, soundHere⟩ := keeps.acts world.sent event.node (world.state event.node)
    event.received event.input (holds.right event.node) allowed received
  constructor
  · intro message member
    rcases List.mem_append.mp member with old | new
    · exact keeps.soundLater _ _ message (holds.sound message old)
    · exact soundHere message new
  · intro node
    by_cases same : node = event.node
    · subst same
      simp only [step, Function.update_self]
      exact rightHere
    · simp only [step, Function.update_of_ne same]
      exact keeps.rightLater _ _ node _ (holds.right node)

/-- **Every run**, whatever is lost, repeated or overtaken. -/
theorem run_keeps (keeps : Keeps act sound right permitted) {world : World α τ σ}
    (holds : Holds sound right world) {events : List (Event α τ ι)}
    (each : Runs.EveryStep (step act)
      (fun world event => Possible world event ∧ permitted event.node event.input) world events) :
    Holds sound right (Runs.run (step act) world events) :=
  Runs.everyStep_induction (Holds sound right)
    (fun _ _ here allowed => step_holds keeps here allowed.1 allowed.2) holds each
    (List.prefix_refl events)

end System

end Datagrams
