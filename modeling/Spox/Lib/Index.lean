import Spox.Lib.DList
import Spox.Lib.Order

/-!
# Indexes

A map whose keys are also kept in a doubly linked list, so that they can be
walked. `Indexes l present insertions` says everything a client of the list
may rely on, in terms of which keys are present and of the history of
insertions. It follows from `DList.Represents` of the insertion order, which
is the form the operations preserve.
-/

namespace Spox.Lib

variable {K : Type} [DecidableEq K]

namespace DList

/-- Appending `key` finds the node of the old tail. -/
def AppendFinds (l : DList K) (key : K) : Prop :=
  ∀ tailKey, l.tail = some tailKey →
    (Function.update l.nodes key (some ⟨l.tail, none⟩) tailKey).isSome = true

/-- Removing `key` finds the nodes of its neighbours: the second is looked up
after the first was rewritten. -/
def RemoveFinds (l : DList K) (key : K) : Prop :=
  ∀ links, l.nodes key = some links →
    (∀ prevKey, links.prev = some prevKey → (l.nodes prevKey).isSome = true) ∧
    ∀ nextKey, links.next = some nextKey →
      ((l.relinkPrev links.prev links.next).nodes nextKey).isSome = true

variable {l : DList K} {ks : List K}

theorem isSome_relinkPrev {k : K} (hk : (l.nodes k).isSome = true) (prev target : Option K) :
    ((l.relinkPrev prev target).nodes k).isSome = true := by
  unfold relinkPrev
  cases prev with
  | none => exact hk
  | some prevKey =>
      cases hprev : l.nodes prevKey with
      | none => simpa [hprev] using hk
      | some prevLinks =>
          by_cases heq : k = prevKey
          · simp [hprev, heq]
          · simpa [hprev, heq] using hk

theorem Represents.appendFinds (h : Represents l ks) (key : K) : AppendFinds l key := by
  intro tailKey htail
  by_cases heq : tailKey = key
  · simp [heq]
  · rw [Function.update_of_ne heq]
    rw [h.tail] at htail
    exact h.isSome_iff.mpr (List.mem_of_getLast? htail)

theorem Represents.removeFinds (h : Represents l ks) (key : K) : RemoveFinds l key := by
  intro links hlinks
  have hkey : key ∈ ks := h.isSome_iff.mp (by simp [hlinks])
  obtain ⟨a, b, hks⟩ := List.append_of_mem hkey
  rw [h.links hks] at hlinks
  cases hlinks
  constructor
  · intro prevKey hprev
    have hmem : prevKey ∈ a := List.mem_of_getLast? hprev
    exact h.isSome_iff.mpr (by simp [hks, hmem])
  · intro nextKey hnext
    have hmem : nextKey ∈ b := List.mem_of_head? hnext
    exact isSome_relinkPrev (h.isSome_iff.mpr (by simp [hks, hmem])) _ _

end DList

/-- `l` walks the keys that are present, in the order of their insertion. -/
structure Indexes (l : DList K) (present : K → Bool) (insertions : List K) : Prop where
  nodup : (insertionOrder insertions present).Nodup
  mem_iff : ∀ k, k ∈ insertionOrder insertions present ↔ present k = true
  /-- Following the links from the head gives the keys and then stops. -/
  walk : ∀ n, (insertionOrder insertions present).length ≤ n →
    l.follow n l.head = insertionOrder insertions present
  tail : l.tail = (insertionOrder insertions present).getLast?
  /-- Each node links to the keys before and after its own. -/
  links : ∀ a k b, insertionOrder insertions present = a ++ k :: b →
    l.nodes k = some ⟨a.getLast?, b.head?⟩
  /-- No key off the path has a node. -/
  nodes : ∀ k, (l.nodes k).isSome = true ↔ present k = true
  /-- What follows a key was inserted after it, for the last time. -/
  order : ∀ a k b, insertionOrder insertions present = a ++ k :: b →
    ∃ pre post, insertions = pre ++ k :: post ∧ k ∉ post ∧ b.Sublist post
  appendFinds : ∀ k, l.AppendFinds k
  removeFinds : ∀ k, l.RemoveFinds k

theorem DList.Represents.indexes {l : DList K} {present : K → Bool} {insertions : List K}
    (h : l.Represents (insertionOrder insertions present))
    (hinserted : ∀ k, present k = true → k ∈ insertions) : Indexes l present insertions where
  nodup := h.nodup
  mem_iff k := by
    rw [mem_insertionOrder]
    exact ⟨fun hk => hk.2, fun hk => ⟨hinserted k hk, hk⟩⟩
  walk n hn := h.follow_head hn
  tail := h.tail
  links a k b hks := h.links hks
  nodes k := by
    rw [h.isSome_iff, mem_insertionOrder]
    exact ⟨fun hk => hk.2, fun hk => ⟨hinserted k hk, hk⟩⟩
  order a k b hks := insertionOrder_split hks
  appendFinds := h.appendFinds
  removeFinds := h.removeFinds

end Spox.Lib
