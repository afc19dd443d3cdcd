import LiteKernel.Lib.Ring
import LiteKernel.Lib.Run

/-!
# Iterations over a klist

`klist_next` follows the link of the node that it returned last. `klist_del` makes the links of
a node point to itself, so an iteration does not get away from a node that is deleted under it.

Main results:

- Theorem `klist_iteration`: what an iteration returns while nodes come and go.
- Theorem `klistNext_deleted`: the node that is returned for ever.
-/

namespace LiteKernel.Drivers.Klist

open Function Lib Links List

/-- A `list_head`: none, the one of the klist, or the one of a node. -/
inductive Link where
  | null
  | head
  | node (n : Nat)
  deriving DecidableEq

/-- A klist with an iterator, and the history of the iteration. -/
structure Iteration where
  links : Links Link
  attached : Nat → Bool
  cur : Option Nat
  /-- `klist_next` has returned `NULL`. -/
  done : Bool
  /-- The nodes returned, the last one first, and whether they were attached. -/
  returned : List (Nat × Bool)
  /-- The nodes that have been on the list. -/
  ever : List Nat
  /-- The nodes that have been attached during the whole iteration. -/
  whole : List Nat

inductive Op where
  | addHead (n : Nat)
  | addTail (n : Nat)
  | del (n : Nat)
  | next

variable {n : Nat} {k : Iteration} {l : List Nat} {L : Links Link}

namespace Iteration

/-- An iteration over the list `l` begins. -/
def start (L : Links Link) (l : List Nat) : Iteration :=
  ⟨L, fun n => decide (n ∈ l), none, false, [], l, l⟩

def klistDel (k : Iteration) (n : Nat) : Iteration :=
  let next := k.links.next (.node n)
  if k.attached n = false then k
  else
    { k with
      links :=
        if next ≠ .null ∧ k.links.prev (.node n) ≠ .null ∧ next ≠ .node n then
          k.links.listDelInit .null (.node n)
        else k.links
      attached := update k.attached n false
      whole := k.whole.filter (· ≠ n) }

def klistNext (k : Iteration) : Iteration :=
  match k.links.next (k.cur.elim .head .node) with
  | .node n => { k with cur := some n, returned := (n, k.attached n) :: k.returned }
  | .head => { k with cur := none, done := true }
  | .null => k  -- no link of a klist is null

/-- `klist_add_head` and `klist_add_tail`, which differ in the way they link the node. -/
def klistAdd (k : Iteration) (n : Nat) (add : Links Link → Link → Link → Links Link) : Iteration :=
  { k with
    links := add (k.links.initListHead (.node n)) (.node n) .head
    attached := update k.attached n true
    ever := n :: k.ever }

def step (k : Iteration) : Op → Iteration
  | .addHead n => k.klistAdd n Links.listAdd
  | .addTail n => k.klistAdd n Links.listAddTail
  | .del n => k.klistDel n
  | .next => k.klistNext

/-- The iteration goes on, nodes that are added are new, and the current node is not deleted. -/
def Ok (k : Iteration) (op : Op) : Prop :=
  k.done = false ∧
    match op with
    | .addHead n | .addTail n => n ∉ k.ever
    | .del n => k.cur ≠ some n
    | .next => True

/-- The list is `pre` up to the current node and `post` behind it. -/
structure At (k : Iteration) (pre post : List Nat) : Prop where
  ring : k.links.Ring .head ((pre ++ post).map .node)
  attached : ∀ n, k.attached n = true ↔ n ∈ pre ++ post
  ever : ∀ n ∈ pre ++ post, n ∈ k.ever
  returned : ∀ r ∈ k.returned, r.1 ∈ k.ever ∧ r.2 = true
  nodup : (k.returned.map Prod.fst).Nodup
  ahead : ∀ n ∈ post, n ∉ k.returned.map Prod.fst
  cur : k.cur = pre.getLast? ∨ k.done = true
  done : k.done = true → post = []
  whole : ∀ n ∈ k.whole, n ∈ post ∨ n ∈ k.returned.map Prod.fst

variable {pre post pre' post' : List Nat}

lemma next_of_ring (h : L.Ring .head ((pre ++ post).map .node)) :
    L.next (pre.getLast?.elim .head .node) = post.head?.elim .head .node := by
  have hc := h.chain
  rcases eq_nil_or_concat pre with rfl | ⟨pre, c, rfl⟩
  · cases post with
    | nil => exact (chain_nil.mp hc).1
    | cons m post => exact (Links.chain_cons.mp hc).1.1
  · rw [concat_append, map_append, map_cons, chain_append_cons] at hc
    rw [concat_eq_append, getLast?_concat]
    cases post with
    | nil => exact (chain_nil.mp hc.2).1
    | cons m post => exact (Links.chain_cons.mp hc.2).1.1

lemma At.add {add : Links Link → Link → Link → Links Link} (h : At k pre post)
    (hn : n ∉ k.ever) (hdone : k.done = false)
    (hring : (add (k.links.initListHead (.node n)) (.node n) .head).Ring .head
      ((pre' ++ post').map .node))
    (hmem : ∀ m, m ∈ pre' ++ post' ↔ m = n ∨ m ∈ pre ++ post)
    (hpost : ∀ m, m ∈ post → m ∈ post') (hpost' : ∀ m ∈ post', m = n ∨ m ∈ post)
    (hlast : pre'.getLast? = pre.getLast?) : At (k.klistAdd n add) pre' post' where
  ring := hring
  attached m := by
    show update k.attached n true m = true ↔ _
    rw [hmem, update_apply]
    split_ifs with hm
    · exact iff_of_true rfl (.inl hm)
    · rw [h.attached, or_iff_right hm]
  ever m hm := mem_cons.mpr (((hmem m).mp hm).imp_right (h.ever m))
  returned r hr := ⟨mem_cons_of_mem _ (h.returned r hr).1, (h.returned r hr).2⟩
  nodup := h.nodup
  ahead m hm hr := by
    rcases hpost' m hm with rfl | hm
    · obtain ⟨r, hr, rfl⟩ := mem_map.mp hr
      exact hn (h.returned r hr).1
    · exact h.ahead m hm hr
  cur := h.cur.imp_left (·.trans hlast.symm)
  done hd := absurd hd (Bool.not_eq_true _ ▸ hdone)
  whole m hm := (h.whole m hm).imp_left (hpost m)

lemma At.delete {l1 l2 : List Nat} (h : At k pre post) (hdone : k.done = false)
    (hl : pre ++ post = l1 ++ n :: l2) (hl' : pre' ++ post' = l1 ++ l2)
    (hpost : ∀ m ∈ post', m ∈ post) (hpost' : ∀ m ∈ post, m ≠ n → m ∈ post')
    (hlast : pre'.getLast? = pre.getLast?) : At (k.klistDel n) pre' post' := by
  obtain ⟨hring, hatt, hever, hret, hnd, hahead, hcur, -, hwhole⟩ := h
  have hn : k.attached n = true := by simp [hatt, hl]
  have hnodup : (l1 ++ n :: l2).Nodup := hl ▸ (nodup_cons.mp hring.nodup).2.of_map
  have hne : ∀ m ∈ l1 ++ l2, m ≠ n := by grind
  rw [hl, map_append, map_cons] at hring
  have hmem : Link.node n ∈ .head :: (l1.map .node ++ .node n :: l2.map .node) := by simp
  have hnull : Link.null ∉ .head :: (l1.map .node ++ .node n :: l2.map .node) := by simp
  have hself : k.links.next (.node n) ≠ .node n := by
    have := (chain_append_cons.mp hring.chain).2.next_mem mem_cons_self
    grind
  have hguard : k.links.next (.node n) ≠ .null ∧ k.links.prev (.node n) ≠ .null ∧
      k.links.next (.node n) ≠ .node n :=
    ⟨fun hc => hnull (hc ▸ hring.next_mem hmem), fun hc => hnull (hc ▸ hring.prev_mem hmem), hself⟩
  rw [klistDel, if_neg (by simp [hn]), if_pos hguard]
  refine ⟨?_, fun m => ?_, fun m hm => hever m ?_, hret, hnd, fun m hm => hahead m (hpost m hm),
    hcur.imp_left (·.trans hlast.symm), fun hd => absurd hd (by simp [hdone]), fun m hm => ?_⟩
  · rw [hl', map_append]
    exact hring.listDelInit hnull
  · show update k.attached n false m = true ↔ _
    rw [hl', update_apply]
    grind
  · grind
  · obtain ⟨hm, hmn⟩ := mem_filter.mp hm
    exact (hwhole m hm).imp_left fun hp => hpost' m hp (of_decide_eq_true hmn)

lemma At.next (h : At k pre post) (hcur : k.cur = pre.getLast?) :
    ∃ pre post, At k.klistNext pre post := by
  have hnext := next_of_ring h.ring
  rw [← hcur] at hnext
  obtain ⟨hring, hatt, hever, hret, hnd, hahead, -, hdone, hwhole⟩ := h
  cases post with
  | nil =>
    rw [klistNext, show k.links.next _ = .head from hnext]
    exact ⟨pre, [], hring, hatt, hever, hret, hnd, hahead, .inr rfl, fun _ => rfl, hwhole⟩
  | cons m post =>
    have hm : m ∉ post := by
      have := (nodup_cons.mp hring.nodup).2.of_map
      grind
    rw [append_cons] at hring hever
    rw [klistNext, show k.links.next _ = .node m from hnext]
    refine ⟨pre ++ [m], post, hring, by rwa [← append_cons], hever, ?_, nodup_cons.mpr
      ⟨hahead m mem_cons_self, hnd⟩, ?_, .inl getLast?_concat.symm, ?_, ?_⟩
    · rintro r (- | ⟨_, hr⟩)
      · exact ⟨hever m (by simp), (hatt m).mpr (by simp)⟩
      · exact hret r hr
    · intro x hx
      rw [map_cons, mem_cons, not_or]
      exact ⟨ne_of_mem_of_not_mem hx hm, hahead x (mem_cons_of_mem _ hx)⟩
    · intro hd
      cases hdone hd
    · intro x hx
      rw [map_cons, mem_cons]
      rcases hwhole x hx with hp | hr
      · exact (mem_cons.mp hp).symm.imp_right .inl
      · exact .inr (.inr hr)

lemma At.step {op : Op} (h : At k pre post) (hok : k.Ok op) :
    ∃ pre post, At (k.step op) pre post := by
  obtain ⟨hdone, hok⟩ := hok
  have hcur : k.cur = pre.getLast? := h.cur.resolve_right (by simp [hdone])
  cases op with
  | addHead n =>
    have hn : Link.node n ∉ .head :: (pre ++ post).map .node := by
      simpa using fun hm => hok (h.ever n hm)
    have hring := (h.ring.initListHead_of_not_mem hn).listAdd hn
    -- a node added before the first step is still to come
    rcases pre with - | ⟨a, pre⟩
    · exact ⟨[], n :: post, h.add hok hdone hring (by simp) (by simp +contextual) (by simp) rfl⟩
    · exact ⟨n :: a :: pre, post, h.add hok hdone hring (by simp) (by simp) (by simp +contextual)
        getLast?_cons_cons⟩
  | addTail n =>
    have hn : Link.node n ∉ .head :: (pre ++ post).map .node := by
      simpa using fun hm => hok (h.ever n hm)
    have hring := (h.ring.initListHead_of_not_mem hn).listAddTail hn
    refine ⟨pre, post ++ [n], h.add hok hdone (by simpa using hring) (by grind) (by grind)
      (by grind) rfl⟩
  | del n =>
    by_cases hn : k.attached n = true
    · rcases mem_append.mp ((h.attached n).mp hn) with hm | hm
      · obtain ⟨a, b, rfl⟩ := append_of_mem hm
        cases b with
        | nil => exact absurd (hcur.trans getLast?_concat) hok
        | cons c b =>
          exact ⟨a ++ c :: b, post, h.delete hdone (append_assoc ..) (append_assoc ..) (by simp)
            (by simp +contextual) (by simp [getLast?_append])⟩
      · obtain ⟨a, b, rfl⟩ := append_of_mem hm
        exact ⟨pre, a ++ b, h.delete hdone (append_assoc ..).symm (append_assoc ..).symm (by grind)
          (by grind) rfl⟩
    · exact ⟨pre, post, by rwa [Iteration.step, klistDel, if_pos (by simpa using hn)]⟩
  | next => exact h.next hcur

lemma At.start (h : L.Ring .head (l.map .node)) : At (start L l) [] l :=
  ⟨h, fun _ => decide_eq_true_iff, fun _ => id, by simp [Iteration.start], nodup_nil,
    by simp [Iteration.start], .inl rfl, by simp [Iteration.start], fun _ => .inl⟩

/-- The nodes that `klist_next` returns were attached, are different nodes of the list, and at the
end are all those that were attached all the time. -/
theorem klist_iteration {ops : List Op} (h : L.Ring .head (l.map .node))
    (hok : RunOk step Ok (start L l) ops) :
    let k := run step (start L l) ops
    k.returned.length ≤ k.ever.length ∧ (∀ r ∈ k.returned, r.2 = true) ∧
      (k.returned.map Prod.fst).Nodup ∧
      (k.done = true → ∀ n ∈ k.whole, (k.returned.map Prod.fst).count n = 1) := by
  obtain ⟨pre, post, hk⟩ := run_invariant (fun k => ∃ pre post, At k pre post)
    (fun _ _ ⟨_, _, h⟩ => h.step) ⟨[], l, .start h⟩ hok
  refine ⟨?_, fun r hr => (hk.returned r hr).2, hk.nodup, fun hd n hn => ?_⟩
  · rw [← length_map Prod.fst]
    refine (hk.nodup.subperm fun n hn => ?_).length_le
    obtain ⟨r, hr, rfl⟩ := mem_map.mp hn
    exact (hk.returned r hr).1
  · have hr := (hk.whole n hn).resolve_left (by simp [hk.done hd])
    exact count_eq_one_of_mem hk.nodup hr

/-- An empty klist. -/
def klistInit : Iteration :=
  start (Links.initListHead ⟨fun _ => .null, fun _ => .null⟩ .head) []

/-- Of three nodes the second is deleted while the first is the current one. -/
theorem klist_iteration_two :
    let L := (run step klistInit [.addTail 1, .addTail 2, .addTail 3]).links
    let k := run step (start L [1, 2, 3]) [.next, .del 2, .next, .next]
    k.done = true ∧ k.whole = [1, 3] ∧ (∀ r ∈ k.returned, r.2 = true) ∧
      ∀ n ∈ k.whole, (k.returned.map Prod.fst).count n = 1 := by
  intro L k
  have hring : L.Ring .head ([1, 2, 3].map .node) := by
    refine ⟨?_, by decide⟩
    simp only [map_cons, map_nil, Links.chain_cons, Links.chain_nil, Adj]
    decide
  have hok : RunOk step Ok (start L [1, 2, 3]) [.next, .del 2, .next, .next] := by
    simp only [RunOk, Ok]
    decide
  obtain ⟨-, hattached, -, honce⟩ := klist_iteration hring hok
  exact ⟨by decide, by decide, hattached, honce (by decide)⟩

/-- The current node is deleted: the links of the node, which is the only one that has been on the
list, lead `klist_next` back to it. -/
theorem klistNext_deleted :
    let k := run step klistInit [.addTail 1, .next, .del 1, .next, .next]
    k.returned = [(1, false), (1, false), (1, true)] ∧ k.done = false ∧ k.ever = [1] := by
  decide

end Iteration

end LiteKernel.Drivers.Klist
