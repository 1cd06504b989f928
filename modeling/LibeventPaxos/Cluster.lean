import Mathlib.Data.Fintype.Basic
import LibeventPaxos.Node

/-!
A cluster: `n` nodes and the network between them. Whatever a node has sent may arrive at its
target at any later time, any number of times, or never; of a `missing_ack` only the front of the
record arrives.
-/
namespace LibeventPaxos

open Lib

abbrev Cluster (n : ℕ) := Fin n → Node

/-- An event at one node. -/
abbrev ClusterEvent (n : ℕ) := Fin n × NodeEnv × NodeEvent

namespace Cluster

variable {n : ℕ}

/-- A message with this target reaches a node: a negative target is every other node, and no node
is its own peer. -/
def Reaches (source target : Fin n) (address : Int) : Prop :=
  source ≠ target ∧ (address < 0 ∨ address = (target : ℕ))

instance (source target : Fin n) (address : Int) : Decidable (Reaches source target address) :=
  inferInstanceAs (Decidable (source ≠ target ∧ (address < 0 ∨ address = (target : ℕ))))

/-- A message that arrives was sent by another node; requests come from outside. -/
def Sent (g : Cluster n) (target : Fin n) : NodeEvent → Prop
  | .message (.consensus msg) => ∃ source, ∃ call ∈ (g source).comp.upCalls,
      Reaches source target call.1 ∧ call.2.Received msg
  | .message (.requestSubmit _) => True
  | .message msg => ∃ source, ∃ call ∈ (g source).sent,
      Reaches source target call.1 ∧ call.2 = msg
  | _ => True

instance (g : Cluster n) (target : Fin n) : ∀ event, Decidable (Sent g target event)
  | .message (.consensus msg) => inferInstanceAs (Decidable (∃ source,
      ∃ call ∈ (g source).comp.upCalls, Reaches source target call.1 ∧ call.2.Received msg))
  | .message (.requestSubmit _) => .isTrue trivial
  | .message (.pingReq nodeId view timestamp) => inferInstanceAs (Decidable (∃ source,
      ∃ call ∈ (g source).sent, Reaches source target call.1 ∧
        call.2 = .pingReq nodeId view timestamp))
  | .message (.pingAck nodeId view timestamp) => inferInstanceAs (Decidable (∃ source,
      ∃ call ∈ (g source).sent, Reaches source target call.1 ∧
        call.2 = .pingAck nodeId view timestamp))
  | .message (.leaderElection msg data) => inferInstanceAs (Decidable (∃ source,
      ∃ call ∈ (g source).sent, Reaches source target call.1 ∧
        call.2 = .leaderElection msg data))
  | .leaderPing => .isTrue trivial
  | .expectPing => .isTrue trivial
  | .makeProgress => .isTrue trivial
  | .electionTimeout => .isTrue trivial

/-- The record that is read of a `missing_ack` is one that was sent: what lies behind the message
are the bytes it lacks. -/
def Intact (g : Cluster n) (target : Fin n) : NodeEvent → Prop
  | .message (.consensus (.missingAck nodeId missingVs record)) => ∃ source,
      ∃ call ∈ (g source).comp.upCalls,
        Reaches source target call.1 ∧ call.2 = .missingAck nodeId missingVs record
  | _ => True

instance (g : Cluster n) (target : Fin n) : ∀ event, Decidable (Intact g target event)
  | .message (.consensus (.missingAck nodeId missingVs record)) => inferInstanceAs (Decidable
      (∃ source, ∃ call ∈ (g source).comp.upCalls,
        Reaches source target call.1 ∧ call.2 = .missingAck nodeId missingVs record))
  | .message (.consensus (.acceptReq _ _ _ _)) => .isTrue trivial
  | .message (.consensus (.acceptAck _ _)) => .isTrue trivial
  | .message (.consensus (.missingReq _ _)) => .isTrue trivial
  | .message (.consensus (.forceExec _ _)) => .isTrue trivial
  | .message (.consensus (.forwardReq _ _)) => .isTrue trivial
  | .message (.requestSubmit _) => .isTrue trivial
  | .message (.pingReq _ _ _) => .isTrue trivial
  | .message (.pingAck _ _ _) => .isTrue trivial
  | .message (.leaderElection _ _) => .isTrue trivial
  | .leaderPing => .isTrue trivial
  | .expectPing => .isTrue trivial
  | .makeProgress => .isTrue trivial
  | .electionTimeout => .isTrue trivial

/-- Steps that read every record as it was sent. -/
def intact (g : Cluster n) (e : ClusterEvent n) : Prop := Intact g e.1 e.2.2

instance (g : Cluster n) (e : ClusterEvent n) : Decidable (intact g e) :=
  inferInstanceAs (Decidable (Intact g e.1 e.2.2))

def act (g : Cluster n) (e : ClusterEvent n) : Cluster n :=
  Function.update g e.1 ((g e.1).dispatch e.2)

/-- The cluster from the given states on; a node whose call does not return takes no further
step. -/
def machine (initial : Cluster n → Prop) : Machine (Cluster n) (ClusterEvent n) where
  initial := initial
  enabled g e := Node.machine.enabled (g e.1) e.2 ∧ Sent g e.1 e.2.2
  apply := act

instance (initial : Cluster n → Prop) (g : Cluster n) (e : ClusterEvent n) :
    Decidable ((machine initial).enabled g e) :=
  inferInstanceAs (Decidable (Node.machine.enabled (g e.1) e.2 ∧ Sent g e.1 e.2.2))

@[simp] theorem act_self (g : Cluster n) (e : ClusterEvent n) :
    act g e e.1 = (g e.1).dispatch e.2 := Function.update_self ..

theorem act_other (g : Cluster n) (e : ClusterEvent n) (i : Fin n) (other : i ≠ e.1) :
    act g e i = g i := Function.update_of_ne other ..

end Cluster

end LibeventPaxos
