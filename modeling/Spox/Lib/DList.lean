import Mathlib.Data.List.Basic
import Mathlib.Logic.Function.Basic
import Mathlib.Tactic.Common

/-!
# Doubly linked lists over a map

The list discipline of a contract that has maps and variables but no
pointers: one map from a key to the keys before and after it, and two
variables for the ends. `append` and `remove` are the usual constant-time
algorithms, with every map read they make.

`Represents l ks` says that the structure is the list `ks`, read in either
direction, and holds nothing else. It is the only fact later proofs use:
`append` turns `ks` into `ks ++ [k]`, `remove` turns it into `ks.erase k`,
and `follow` reads it back.
-/

namespace Spox.Lib

/-- The neighbours of a node. -/
structure Links (K : Type) where
  prev : Option K
  next : Option K
deriving DecidableEq, Repr

/-- The node map and the two end variables. -/
structure DList (K : Type) where
  nodes : K → Option (Links K)
  head : Option K
  tail : Option K

namespace DList

variable {K : Type}

/-- The list without nodes. -/
def empty : DList K := ⟨fun _ => none, none, none⟩

/-- The key after `key`, `none` at the tail and for a key that has no node. -/
def next (l : DList K) (key : K) : Option K :=
  match l.nodes key with
  | some links => links.next
  | none => none

/-- The keys met from `key` on by taking at most the given number of nodes. -/
def follow (l : DList K) : Nat → Option K → List K
  | 0, _ => []
  | _ + 1, none => []
  | n + 1, some key => key :: l.follow n (l.next key)

section Operations

variable [DecidableEq K]

/-- Append `key` at the tail. -/
def append (l : DList K) (key : K) : DList K :=
  let nodes := Function.update l.nodes key (some ⟨l.tail, none⟩)
  match l.tail with
  | some tailKey =>
      match nodes tailKey with
      | some tailLinks =>
          ⟨Function.update nodes tailKey (some { tailLinks with next := some key }),
            l.head, some key⟩
      | none => ⟨nodes, l.head, some key⟩
  | none => ⟨nodes, some key, some key⟩

/-- Point whatever precedes a node (the head variable when nothing does) at
`target`. -/
def relinkPrev (l : DList K) (prev target : Option K) : DList K :=
  match prev with
  | some prevKey =>
      match l.nodes prevKey with
      | some prevLinks =>
          ⟨Function.update l.nodes prevKey (some { prevLinks with next := target }),
            l.head, l.tail⟩
      | none => l
  | none => { l with head := target }

/-- Point whatever follows a node (the tail variable when nothing does) at
`target`. -/
def relinkNext (l : DList K) (next target : Option K) : DList K :=
  match next with
  | some nextKey =>
      match l.nodes nextKey with
      | some nextLinks =>
          ⟨Function.update l.nodes nextKey (some { nextLinks with prev := target }),
            l.head, l.tail⟩
      | none => l
  | none => { l with tail := target }

/-- Splice `key` out; nothing happens if it has no node. -/
def remove (l : DList K) (key : K) : DList K :=
  match l.nodes key with
  | some links =>
      let relinked := (l.relinkPrev links.prev links.next).relinkNext links.next links.prev
      { relinked with nodes := Function.update relinked.nodes key none }
  | none => l

end Operations

/-! ## Paths through the node map -/

/-- The nodes of `ks` are linked one to the next, entered from `prev` and
left to `next`. -/
def Path (nodes : K → Option (Links K)) : Option K → List K → Option K → Prop
  | _, [], _ => True
  | prev, k :: ks, next =>
      nodes k = some ⟨prev, ks.head?.or next⟩ ∧ Path nodes (some k) ks next

theorem path_congr {nodes nodes' : K → Option (Links K)} {ks : List K}
    {p n : Option K} (h : ∀ k ∈ ks, nodes' k = nodes k) (hp : Path nodes p ks n) :
    Path nodes' p ks n := by
  induction ks generalizing p with
  | nil => trivial
  | cons k ks ih =>
      obtain ⟨hk, hks⟩ := hp
      exact ⟨by rw [h k (by simp), hk], ih (fun q hq => h q (by simp [hq])) hks⟩

theorem path_append {nodes : K → Option (Links K)} {a b : List K} {p n : Option K} :
    Path nodes p (a ++ b) n ↔
      Path nodes p a (b.head?.or n) ∧ Path nodes (a.getLast?.or p) b n := by
  induction a generalizing p with
  | nil => simp [Path]
  | cons k a ih =>
      have hlast : (k :: a).getLast?.or p = a.getLast?.or (some k) := by
        rw [List.getLast?_cons]
        cases a.getLast? <;> rfl
      rw [List.cons_append, Path, Path, ih, hlast, List.head?_append, Option.or_assoc,
        and_assoc]

/-- The last node of a path is where its exit is stored. -/
theorem path_concat {nodes : K → Option (Links K)} {a : List K} {t : K} {p n : Option K} :
    Path nodes p (a ++ [t]) n ↔
      Path nodes p a (some t) ∧ nodes t = some ⟨a.getLast?.or p, n⟩ := by
  simp [path_append, Path]

/-- The node map at a position of the list: its neighbours there. -/
theorem path_links {nodes : K → Option (Links K)} {a b : List K} {k : K}
    (h : Path nodes none (a ++ k :: b) none) : nodes k = some ⟨a.getLast?, b.head?⟩ := by
  obtain ⟨-, hk⟩ := path_append.mp h
  simpa using hk.1

section Retarget

variable [DecidableEq K]

theorem path_set_exit {nodes : K → Option (Links K)} {a : List K} {t : K}
    {p n : Option K} (n' : Option K) (h : Path nodes p (a ++ [t]) n) (ht : t ∉ a) :
    Path (Function.update nodes t (some ⟨a.getLast?.or p, n'⟩)) p (a ++ [t]) n' := by
  obtain ⟨ha, -⟩ := path_concat.mp h
  refine path_concat.mpr ⟨path_congr (fun k hk => ?_) ha, by simp⟩
  exact Function.update_of_ne (ne_of_mem_of_not_mem hk ht) _ _

theorem path_set_entry {nodes : K → Option (Links K)} {ks : List K} {k : K}
    {p n : Option K} (p' : Option K) (h : Path nodes p (k :: ks) n) (hk : k ∉ ks) :
    Path (Function.update nodes k (some ⟨p', ks.head?.or n⟩)) p' (k :: ks) n := by
  refine ⟨by simp, path_congr (fun q hq => ?_) h.2⟩
  exact Function.update_of_ne (ne_of_mem_of_not_mem hq hk) _ _

end Retarget

/-! ## The list a structure stands for -/

/-- `l` is the list `ks`: its nodes are linked in that order, its end
variables are the ends, no key occurs twice and no other key has a node. -/
structure Represents (l : DList K) (ks : List K) : Prop where
  nodup : ks.Nodup
  head : l.head = ks.head?
  tail : l.tail = ks.getLast?
  path : Path l.nodes none ks none
  absent : ∀ k, k ∉ ks → l.nodes k = none

theorem represents_empty : Represents (empty : DList K) [] where
  nodup := List.nodup_nil
  head := rfl
  tail := rfl
  path := trivial
  absent := fun _ _ => rfl

section Represents

variable {l : DList K} {ks : List K}

theorem Represents.links (h : Represents l ks) {a b : List K} {k : K}
    (hks : ks = a ++ k :: b) : l.nodes k = some ⟨a.getLast?, b.head?⟩ :=
  path_links (hks ▸ h.path)

theorem Represents.isSome_iff (h : Represents l ks) {k : K} :
    (l.nodes k).isSome ↔ k ∈ ks := by
  constructor
  · intro hk
    by_contra hn
    simp [h.absent k hn] at hk
  · intro hk
    obtain ⟨a, b, hks⟩ := List.append_of_mem hk
    simp [h.links hks]

/-- Following the links from any position reads the rest of the list. -/
theorem Represents.follow_from (h : Represents l ks) {a b : List K}
    (hks : ks = a ++ b) (n : Nat) : l.follow n b.head? = b.take n := by
  -- on the nodes still to be read; what has been read grows at its end
  induction n generalizing a b with
  | zero => simp [follow]
  | succ n ih =>
      cases b with
      | nil => simp [follow]
      | cons k b =>
          have hnext : l.next k = b.head? := by simp [next, h.links hks]
          rw [List.head?_cons, follow, hnext, ih (a := a ++ [k]) (by simp [hks]),
            List.take_succ_cons]

/-- Following the links from the head reads the whole list and stops. -/
theorem Represents.follow_head (h : Represents l ks) {n : Nat} (hn : ks.length ≤ n) :
    l.follow n l.head = ks := by
  rw [h.head, h.follow_from (a := []) rfl, List.take_of_length_le hn]

variable [DecidableEq K]

theorem Represents.append (h : Represents l ks) {k : K} (hk : k ∉ ks) :
    Represents (l.append k) (ks ++ [k]) := by
  have hnodup : (ks ++ [k]).Nodup := by
    simpa [List.nodup_append, h.nodup] using fun q hq => ne_of_mem_of_not_mem hq hk
  -- an empty list has no tail to relink
  rcases List.eq_nil_or_concat ks with rfl | ⟨init, t, rfl⟩
  · have htail : l.tail = none := h.tail
    refine ⟨hnodup, ?_, ?_, ?_, fun q hq => ?_⟩
    · simp [DList.append, htail]
    · simp [DList.append, htail]
    · simp [DList.append, htail, Path]
    · have hq' : q ≠ k := by simpa using hq
      simp [DList.append, htail, hq', h.absent q]
  · rw [List.concat_eq_append] at *
    have htail : l.tail = some t := by rw [h.tail]; simp
    have hinit : t ∉ init := by
      have := h.nodup
      simp only [List.nodup_append, List.mem_singleton] at this
      exact fun hm => this.2.2 t hm t rfl rfl
    have htk : t ≠ k := fun he => hk (by simp [he])
    have ht : l.nodes t = some ⟨init.getLast?, none⟩ := h.links rfl
    have happ : l.append k =
        ⟨Function.update (Function.update l.nodes k (some ⟨some t, none⟩)) t
          (some ⟨init.getLast?, some k⟩), l.head, some k⟩ := by
      simp [DList.append, htail, htk, ht]
    have hpath : Path (Function.update l.nodes k (some ⟨some t, none⟩)) none
        (init ++ [t]) none :=
      path_congr (fun q hq => Function.update_of_ne (ne_of_mem_of_not_mem hq hk) _ _) h.path
    rw [happ]
    refine ⟨hnodup, ?_, by simp, ?_, fun q hq => ?_⟩
    · show l.head = _
      rw [h.head]
      cases init <;> simp
    · refine path_concat.mpr ⟨?_, ?_⟩
      · simpa using path_set_exit (some k) hpath hinit
      · simp [Ne.symm htk]
    · have hqt : q ≠ t := fun he => hq (by simp [he])
      have hqk : q ≠ k := fun he => hq (by simp [he])
      simpa [hqt, hqk] using h.absent q (fun hm => hq (by simp at hm ⊢; tauto))

/-- Redirecting the exit of a segment rewrites its last node, or the head
variable when the segment is empty, and nothing else. -/
theorem relinkPrev_segment {a : List K} {n : Option K} (n' : Option K)
    (ha : Path l.nodes none a n) (hnodup : a.Nodup) :
    Path (l.relinkPrev a.getLast? n').nodes none a n' ∧
      (∀ q, q ∉ a → (l.relinkPrev a.getLast? n').nodes q = l.nodes q) ∧
      (l.relinkPrev a.getLast? n').head = (if a = [] then n' else l.head) ∧
      (l.relinkPrev a.getLast? n').tail = l.tail := by
  -- nothing precedes an empty segment but the head variable
  rcases List.eq_nil_or_concat a with rfl | ⟨init, p, rfl⟩
  · simp [relinkPrev, Path]
  · rw [List.concat_eq_append] at *
    have hp : p ∉ init := by
      simp only [List.nodup_append, List.mem_singleton] at hnodup
      exact fun hm => hnodup.2.2 p hm p rfl rfl
    have hlinks : l.nodes p = some ⟨init.getLast?, n⟩ := by
      simpa using (path_concat.mp ha).2
    have hset := path_set_exit n' ha hp
    simp only [Option.or_none] at hset
    refine ⟨by simpa [relinkPrev, hlinks] using hset, fun q hq => ?_, ?_, ?_⟩
    · have hqp : q ≠ p := fun he => hq (by simp [he])
      simp [relinkPrev, hlinks, hqp]
    · simp [relinkPrev, hlinks]
    · simp [relinkPrev, hlinks]

/-- Redirecting the entry of a segment rewrites its first node, or the tail
variable when the segment is empty, and nothing else. -/
theorem relinkNext_segment {b : List K} {p : Option K} (p' : Option K)
    (hb : Path l.nodes p b none) (hnodup : b.Nodup) :
    Path (l.relinkNext b.head? p').nodes p' b none ∧
      (∀ q, q ∉ b → (l.relinkNext b.head? p').nodes q = l.nodes q) ∧
      (l.relinkNext b.head? p').tail = (if b = [] then p' else l.tail) ∧
      (l.relinkNext b.head? p').head = l.head := by
  cases b with
  | nil => simp [relinkNext, Path]
  | cons k b =>
      have hk : k ∉ b := (List.nodup_cons.mp hnodup).1
      have hlinks : l.nodes k = some ⟨p, b.head?⟩ := by simpa using hb.1
      have hset := path_set_entry p' hb hk
      simp only [Option.or_none] at hset
      refine ⟨by simpa [relinkNext, hlinks] using hset, fun q hq => ?_, ?_, ?_⟩
      · have hqk : q ≠ k := fun he => hq (by simp [he])
        simp [relinkNext, hlinks, hqk]
      · simp [relinkNext, hlinks]
      · simp [relinkNext, hlinks]

theorem Represents.remove (h : Represents l ks) (k : K) :
    Represents (l.remove k) (ks.erase k) := by
  -- a key without a node is not touched
  by_cases hk : k ∈ ks
  swap
  · have hremove : l.remove k = l := by simp [DList.remove, h.absent k hk]
    rwa [hremove, List.erase_of_not_mem hk]
  obtain ⟨a, b, rfl⟩ := List.append_of_mem hk
  obtain ⟨hna, hnkb, hdisj⟩ := List.nodup_append.mp h.nodup
  obtain ⟨hkb, hnb⟩ := List.nodup_cons.mp hnkb
  have hka : k ∉ a := fun hm => hdisj k hm k (by simp) rfl
  have hab : ∀ q ∈ b, q ∉ a := fun q hq hm => hdisj q hm q (by simp [hq]) rfl
  obtain ⟨hpa, hpkb⟩ := path_append.mp h.path
  have hlinks : l.nodes k = some ⟨a.getLast?, b.head?⟩ := h.links rfl
  -- first the node before `k` skips it, then the node after it
  obtain ⟨hprev, hprevFrame, hprevHead, hprevTail⟩ :=
    relinkPrev_segment b.head? hpa hna
  have hpb : Path (l.relinkPrev a.getLast? b.head?).nodes (some k) b none :=
    path_congr (fun q hq => hprevFrame q (hab q hq)) hpkb.2
  obtain ⟨hnext, hnextFrame, hnextTail, hnextHead⟩ :=
    relinkNext_segment a.getLast? hpb hnb
  have herase : (a ++ k :: b).erase k = a ++ b := by
    rw [List.erase_append_right _ hka, List.erase_cons_head]
  have hremove : l.remove k =
      { (l.relinkPrev a.getLast? b.head?).relinkNext b.head? a.getLast? with
        nodes := Function.update
          ((l.relinkPrev a.getLast? b.head?).relinkNext b.head? a.getLast?).nodes k none } := by
    simp [DList.remove, hlinks]
  rw [herase, hremove]
  refine ⟨?_, ?_, ?_, ?_, fun q hq => ?_⟩
  · exact List.nodup_append.mpr ⟨hna, hnb, fun x hx y hy => hdisj x hx y (by simp [hy])⟩
  · show ((l.relinkPrev _ _).relinkNext _ _).head = _
    rw [hnextHead, hprevHead, h.head]
    cases a <;> simp
  · show ((l.relinkPrev _ _).relinkNext _ _).tail = _
    rw [hnextTail, hprevTail, h.tail]
    cases b <;> simp
  · have hdrop : ∀ q ∈ a ++ b, q ≠ k := by
      intro q hq
      rcases List.mem_append.mp hq with hq | hq
      · exact ne_of_mem_of_not_mem hq hka
      · exact ne_of_mem_of_not_mem hq hkb
    refine path_congr (fun q hq => Function.update_of_ne (hdrop q hq) _ _) ?_
    refine path_append.mpr ⟨?_, by simpa using hnext⟩
    refine path_congr (fun q hq => hnextFrame q (fun hm => hab q hm hq)) ?_
    simpa using hprev
  · by_cases hqk : q = k
    · simp [hqk]
    · have hqa : q ∉ a := fun hm => hq (by simp [hm])
      have hqb : q ∉ b := fun hm => hq (by simp [hm])
      simp [hqk, hnextFrame q hqb, hprevFrame q hqa, h.absent q (by simp [hqa, hqb, hqk])]

end Represents

end DList

end Spox.Lib
