import Mathlib.Data.List.Perm.Basic

/-!
# Datagrams

A network that may lose, duplicate and reorder what is sent, and the queue of the socket it delivers to.

* `Network.count_send`, `Network.count_remove` : how often a datagram is on its way.
-/

namespace SysSnippets.Lib

structure Network (α : Type*) where
  /-- on the way, to be delivered in any order -/
  flight : List α
  /-- delivered, to be received in this order -/
  queue : List α

namespace Network
variable {α : Type*}

def init : Network α := ⟨[], []⟩

def send (n : Network α) (a : α) : Network α := { n with flight := n.flight ++ [a] }

/-- What is left when one is taken out of the way. -/
def remove (n : Network α) (k : Nat) : Network α := { n with flight := n.flight.eraseIdx k }

def deliver (n : Network α) (k : Nat) (a : α) : Network α := ⟨n.flight.eraseIdx k, n.queue ++ [a]⟩

theorem mem_of_remove {n : Network α} {k : Nat} {a : α} (h : a ∈ n.flight.eraseIdx k) : a ∈ n.flight :=
  (List.eraseIdx_sublist n.flight k).subset h

theorem mem_send {n : Network α} {a b : α} (h : b ∈ (n.send a).flight ∨ b ∈ (n.send a).queue) :
    b = a ∨ b ∈ n.flight ∨ b ∈ n.queue := by
  rcases h with hflight | hqueue
  · rcases List.mem_append.1 hflight with hold | hnew
    · exact Or.inr (Or.inl hold)
    · exact Or.inl (List.mem_singleton.1 hnew)
  · exact Or.inr (Or.inr hqueue)

variable [BEq α] {n : Network α} {a b : α} {k : Nat}

theorem count_send : (n.send a).flight.count b = n.flight.count b + [a].count b := List.count_append

theorem count_remove (hk : n.flight[k]? = some a) : (n.flight.eraseIdx k).count b + [a].count b = n.flight.count b := by
  obtain ⟨hlt, rfl⟩ := List.getElem?_eq_some_iff.1 hk
  rw [← (List.getElem_cons_eraseIdx_perm hlt).count_eq b, Nat.add_comm, ← List.count_append]
  rfl

end Network

end SysSnippets.Lib
