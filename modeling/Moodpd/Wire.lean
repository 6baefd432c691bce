import Mathlib

/-!
# Datagrams on the way

A network that may drop, duplicate and reorder what is sent. It makes nothing up: whatever is
delivered was sent before.
-/
namespace Moodpd.Wire
variable {α : Type*}

/-- The datagrams on the way, and those sent and delivered so far. -/
structure Net (α : Type*) where
  transit : List α
  sent : List α
  delivered : List α

def Net.empty : Net α := ⟨[], [], []⟩

namespace Net

def send (net : Net α) (ms : List α) : Net α :=
  { net with transit := net.transit ++ ms, sent := net.sent ++ ms }

def drop (net : Net α) (j : ℕ) : Net α := { net with transit := net.transit.eraseIdx j }

def duplicate (net : Net α) (j : ℕ) : Net α :=
  { net with transit := net.transit ++ net.transit[j]?.toList }

/-- A datagram arrives, not necessarily the oldest one. -/
def deliver (net : Net α) (j : ℕ) : Net α :=
  { net with
    transit := net.transit.eraseIdx j
    delivered := net.delivered ++ net.transit[j]?.toList }

/-- Nothing is on the way or delivered that was not sent. -/
structure Honest (net : Net α) : Prop where
  transit : ∀ m ∈ net.transit, m ∈ net.sent
  delivered : ∀ m ∈ net.delivered, m ∈ net.sent

theorem honest_empty : Honest (empty : Net α) := ⟨nofun, nofun⟩

variable {net : Net α}

theorem Honest.send (h : net.Honest) (ms : List α) : (net.send ms).Honest where
  transit m hm := by
    rcases List.mem_append.mp hm with hm | hm
    · exact List.mem_append_left _ (h.transit m hm)
    · exact List.mem_append_right _ hm
  delivered m hm := List.mem_append_left _ (h.delivered m hm)

theorem Honest.drop (h : net.Honest) (j : ℕ) : (net.drop j).Honest where
  transit m hm := h.transit m (List.mem_of_mem_eraseIdx hm)
  delivered := h.delivered

theorem Honest.duplicate (h : net.Honest) (j : ℕ) : (net.duplicate j).Honest where
  transit m hm := by
    rcases List.mem_append.mp hm with hm | hm
    · exact h.transit m hm
    · exact h.transit m (List.mem_of_getElem? (Option.mem_toList.mp hm))
  delivered := h.delivered

theorem Honest.deliver (h : net.Honest) (j : ℕ) : (net.deliver j).Honest where
  transit m hm := h.transit m (List.mem_of_mem_eraseIdx hm)
  delivered m hm := by
    rcases List.mem_append.mp hm with hm | hm
    · exact h.delivered m hm
    · exact h.transit m (List.mem_of_getElem? (Option.mem_toList.mp hm))

end Net

end Moodpd.Wire
