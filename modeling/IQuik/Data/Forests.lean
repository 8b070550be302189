import Mathlib.Data.List.Nodup

namespace IQuik.Data

universe u

/-! # Trees as first children and next siblings -/

/-- Trees side by side: the first node, what is below it, and the trees behind it. -/
inductive Forest (α : Type u) where
  | empty
  | node (value : α) (children siblings : Forest α)

namespace Forest

variable {α : Type u}

/-- All nodes, each in front of those below it. -/
def nodes : Forest α → List α
  | empty => []
  | node value children siblings => value :: (children.nodes ++ siblings.nodes)

def head? : Forest α → Option α
  | empty => none
  | node value _ _ => some value

theorem head_mem {forest : Forest α} {next : α} (head : forest.head? = some next) : next ∈ forest.nodes := by
  cases forest with
  | empty => cases head
  | node => exact List.mem_cons.mpr (.inl (Option.some.inj head).symm)

theorem nodup_children {other : α} {children siblings : Forest α}
    (distinct : (node other children siblings).nodes.Nodup) : children.nodes.Nodup :=
  (List.nodup_append.mp (List.nodup_cons.mp distinct).2).1

theorem nodup_siblings {other : α} {children siblings : Forest α}
    (distinct : (node other children siblings).nodes.Nodup) : siblings.nodes.Nodup :=
  (List.nodup_append.mp (List.nodup_cons.mp distinct).2).2.1

variable [DecidableEq α]

/-- What is below a node, and what is behind it. -/
def find (value : α) : Forest α → Option (Forest α × Forest α)
  | empty => none
  | node other children siblings =>
      if other = value then some (children, siblings) else (children.find value).or (siblings.find value)

/-- The first child of a node. -/
def child? (forest : Forest α) (value : α) : Option α := (forest.find value).bind fun around => around.1.head?

/-- The next sibling of a node. -/
def peer? (forest : Forest α) (value : α) : Option α := (forest.find value).bind fun around => around.2.head?

/-- A node with all that is below it. -/
def subtree (forest : Forest α) (value : α) : List α :=
  match forest.find value with
  | some around => value :: around.1.nodes
  | none => []

/-- What is left when a node is cut off with all below and all behind it. -/
def cut (hidden : α) : Forest α → Forest α
  | empty => empty
  | node value children siblings =>
      if value = hidden then empty else node value (children.cut hidden) (siblings.cut hidden)

/-- The nodes that are reached from `start`, where `hidden` ends each chain. -/
inductive Reached (forest : Forest α) (hidden start : α) : α → Prop where
  | start : Reached forest hidden start start
  | child {value next : α} (reached : Reached forest hidden start value) (first : forest.child? value = some next)
      (shown : next ≠ hidden) : Reached forest hidden start next
  | peer {value next : α} (reached : Reached forest hidden start value) (behind : forest.peer? value = some next)
      (shown : next ≠ hidden) : Reached forest hidden start next

variable {forest children siblings : Forest α} {value hidden start other : α}

theorem find_isSome : (forest.find value).isSome ↔ value ∈ forest.nodes := by
  induction forest with
  | empty => exact iff_of_false Bool.false_ne_true List.not_mem_nil
  | node other children siblings childrenIH siblingsIH =>
      rw [find, nodes, List.mem_cons, List.mem_append, ← childrenIH, ← siblingsIH]
      split
      · next same => simp [same]
      · next differ => simp [Ne.symm differ]

theorem find_eq_none (absent : value ∉ forest.nodes) : forest.find value = none := by
  rw [← Option.not_isSome_iff_eq_none, find_isSome]
  exact absent

theorem find_child (distinct : (node other children siblings).nodes.Nodup) (member : value ∈ children.nodes) :
    (node other children siblings).find value = children.find value := by
  have differ : other ≠ value := by
    rintro rfl
    exact (List.nodup_cons.mp distinct).1 (List.mem_append_left _ member)
  obtain ⟨around, found⟩ := Option.isSome_iff_exists.mp (find_isSome.mpr member)
  rw [find, if_neg differ, found, Option.some_or]

theorem find_sibling (distinct : (node other children siblings).nodes.Nodup) (member : value ∈ siblings.nodes) :
    (node other children siblings).find value = siblings.find value := by
  have differ : other ≠ value := by
    rintro rfl
    exact (List.nodup_cons.mp distinct).1 (List.mem_append_right _ member)
  have absent : value ∉ children.nodes := fun also =>
    (List.nodup_append.mp (List.nodup_cons.mp distinct).2).2.2 value also value member rfl
  rw [find, if_neg differ, find_eq_none absent, Option.none_or]

theorem cut_subset (hidden : α) (forest : Forest α) : (forest.cut hidden).nodes ⊆ forest.nodes := by
  induction forest with
  | empty => exact List.Subset.refl _
  | node other children siblings childrenIH siblingsIH =>
      rw [cut]
      split
      · exact List.nil_subset _
      · intro value member
        rw [nodes, List.mem_cons, List.mem_append] at member ⊢
        exact member.imp_right (Or.imp (@childrenIH value) (@siblingsIH value))

theorem cut_head (found : forest.head? = some value) (shown : value ≠ hidden) : value ∈ (forest.cut hidden).nodes := by
  cases forest with
  | empty => cases found
  | node other children siblings =>
      cases found
      rw [cut, if_neg shown]
      exact List.mem_cons_self

/-- The first child and the next sibling of a node that is left are left. -/
theorem cut_closed (distinct : forest.nodes.Nodup) (left : value ∈ (forest.cut hidden).nodes)
    (found : forest.find value = some (children, siblings)) (shown : other ≠ hidden)
    (next : children.head? = some other ∨ siblings.head? = some other) : other ∈ (forest.cut hidden).nodes := by
  induction forest with
  | empty => cases left
  | node first below behind belowIH behindIH =>
      rw [cut] at left ⊢
      by_cases stop : first = hidden
      · rw [if_pos stop] at left
        cases left
      · rw [if_neg stop] at left ⊢
        rw [nodes, List.mem_cons, List.mem_append] at left ⊢
        right
        obtain rfl | left | left := left
        · rw [find, if_pos rfl, Option.some.injEq, Prod.mk.injEq] at found
          obtain ⟨rfl, rfl⟩ := found
          exact next.imp (cut_head · shown) (cut_head · shown)
        · rw [find_child distinct (cut_subset hidden below left)] at found
          exact .inl (belowIH (nodup_children distinct) left found)
        · rw [find_sibling distinct (cut_subset hidden behind left)] at found
          exact .inr (behindIH (nodup_siblings distinct) left found)

/-- Where the first node is reached, all that is left is reached. -/
theorem reached_cut {whole : Forest α} (distinct : forest.nodes.Nodup)
    (same : ∀ value ∈ forest.nodes, whole.find value = forest.find value)
    (first : ∀ value, forest.head? = some value → value ≠ hidden → Reached whole hidden start value) :
    ∀ value ∈ (forest.cut hidden).nodes, Reached whole hidden start value := by
  induction forest with
  | empty => exact fun _ left => nomatch left
  | node other below behind belowIH behindIH =>
      rw [cut]
      by_cases stop : other = hidden
      · rw [if_pos stop]
        exact fun _ left => nomatch left
      · rw [if_neg stop]
        have reached := first other rfl stop
        have found : whole.find other = some (below, behind) := by
          rw [same other List.mem_cons_self, find, if_pos rfl]
        intro value left
        obtain rfl | left := List.mem_cons.mp left
        · exact reached
        · obtain left | left := List.mem_append.mp left
          · refine belowIH (nodup_children distinct) (fun value member => ?_) (fun value head shown => ?_) value left
            · rw [same value (List.mem_cons_of_mem _ (List.mem_append_left _ member)), find_child distinct member]
            · exact .child reached (by rw [child?, found]; exact head) shown
          · refine behindIH (nodup_siblings distinct) (fun value member => ?_) (fun value head shown => ?_) value left
            · rw [same value (List.mem_cons_of_mem _ (List.mem_append_right _ member)), find_sibling distinct member]
            · exact .peer reached (by rw [peer?, found]; exact head) shown

theorem reached_iff (distinct : forest.nodes.Nodup) (root : forest.head? = some start) (shown : start ≠ hidden) :
    Reached forest hidden start value ↔ value ∈ (forest.cut hidden).nodes := by
  constructor
  · intro reached
    induction reached with
    | start => exact cut_head root shown
    | child _ first shown ih =>
        obtain ⟨around, found, head⟩ := Option.bind_eq_some_iff.mp first
        exact cut_closed distinct ih found shown (.inl head)
    | peer _ behind shown ih =>
        obtain ⟨around, found, head⟩ := Option.bind_eq_some_iff.mp behind
        exact cut_closed distinct ih found shown (.inr head)
  · refine reached_cut distinct (fun _ _ => rfl) (fun other head _ => ?_) value
    cases root.symm.trans head
    exact .start

theorem cut_absent (absent : hidden ∉ forest.nodes) : forest.cut hidden = forest := by
  induction forest with
  | empty => rfl
  | node other below behind belowIH behindIH =>
      rw [nodes, List.mem_cons, List.mem_append, not_or, not_or] at absent
      rw [cut, if_neg (Ne.symm absent.1), belowIH absent.2.1, behindIH absent.2.2]

/-- What is cut off is the node, all below it and all behind it. -/
theorem cut_perm (distinct : forest.nodes.Nodup) (found : forest.find hidden = some (children, siblings)) :
    forest.nodes.Perm ((forest.cut hidden).nodes ++ hidden :: (children.nodes ++ siblings.nodes)) := by
  induction forest with
  | empty => cases found
  | node other below behind belowIH behindIH =>
      rw [cut]
      rw [find] at found
      by_cases stop : other = hidden
      · rw [if_pos stop, Option.some.injEq, Prod.mk.injEq] at found
        obtain ⟨rfl, rfl⟩ := found
        rw [if_pos stop, stop]
        exact .refl _
      · rw [if_neg stop] at found
        rw [if_neg stop, nodes, nodes, List.cons_append, List.append_assoc]
        refine .cons other ?_
        by_cases member : hidden ∈ below.nodes
        · have absent : hidden ∉ behind.nodes := fun also =>
            (List.nodup_append.mp (List.nodup_cons.mp distinct).2).2.2 hidden member hidden also rfl
          obtain ⟨around, here⟩ := Option.isSome_iff_exists.mp (find_isSome.mpr member)
          rw [here, Option.some_or, ← here] at found
          rw [cut_absent absent]
          have split := (belowIH (nodup_children distinct) found).append_right behind.nodes
          refine split.trans ?_
          rw [List.append_assoc]
          exact .append_left _ List.perm_append_comm
        · rw [find_eq_none member, Option.none_or] at found
          rw [cut_absent member]
          exact .append_left _ (behindIH (nodup_siblings distinct) found)

theorem child_mem {next : α} (distinct : forest.nodes.Nodup) (first : forest.child? value = some next) :
    next ∈ forest.nodes := by
  obtain ⟨around, found, head⟩ := Option.bind_eq_some_iff.mp first
  refine (cut_perm distinct found).mem_iff.mpr (List.mem_append_right _ (List.mem_cons_of_mem _ ?_))
  exact List.mem_append_left _ (head_mem head)

theorem peer_mem {next : α} (distinct : forest.nodes.Nodup) (behind : forest.peer? value = some next) :
    next ∈ forest.nodes := by
  obtain ⟨around, found, head⟩ := Option.bind_eq_some_iff.mp behind
  refine (cut_perm distinct found).mem_iff.mpr (List.mem_append_right _ (List.mem_cons_of_mem _ ?_))
  exact List.mem_append_right _ (head_mem head)

/-- The nodes that are reached are those outside the subtree, if nothing is behind it. -/
theorem reaches_outside_iff (distinct : forest.nodes.Nodup) (root : forest.head? = some start)
    (shown : start ≠ hidden) (member : hidden ∈ forest.nodes) :
    (∀ value, Reached forest hidden start value ↔ value ∈ forest.nodes ∧ value ∉ forest.subtree hidden) ↔
      forest.peer? hidden = none := by
  obtain ⟨⟨children, siblings⟩, found⟩ := Option.isSome_iff_exists.mp (find_isSome.mpr member)
  have perm := cut_perm distinct found
  have parts := List.nodup_append.mp (perm.nodup_iff.mp distinct)
  have subtree : forest.subtree hidden = hidden :: children.nodes := by
    rw [Forest.subtree, found]
  have peer : forest.peer? hidden = siblings.head? := by
    rw [peer?, found]
    rfl
  have reached (value : α) : Reached forest hidden start value ↔ value ∈ (forest.cut hidden).nodes :=
    reached_iff distinct root shown
  rw [peer, subtree]
  constructor
  · intro outside
    cases siblings with
    | empty => rfl
    | node first below behind =>
        -- the next sibling is lost
        have lost : first ∈ hidden :: (children.nodes ++ (node first below behind).nodes) :=
          List.mem_cons_of_mem _ (List.mem_append_right _ List.mem_cons_self)
        have known : first ∈ forest.nodes := perm.mem_iff.mpr (List.mem_append_right _ lost)
        have aside : first ∉ hidden :: children.nodes := by
          have split := List.nodup_cons.mp parts.2.1
          intro below
          obtain rfl | below := List.mem_cons.mp below
          · exact split.1 (List.mem_append_right _ List.mem_cons_self)
          · exact (List.nodup_append.mp split.2).2.2 first below first List.mem_cons_self rfl
        have left := (reached first).mp ((outside first).mpr ⟨known, aside⟩)
        exact absurd rfl (parts.2.2 first left first lost)
  · intro last value
    obtain rfl : siblings = empty := by
      cases siblings with
      | empty => rfl
      | node => cases last
    rw [nodes, List.append_nil] at perm parts
    rw [reached, perm.mem_iff, List.mem_append]
    constructor
    · intro left
      exact ⟨.inl left, fun below => parts.2.2 value left value below rfl⟩
    · rintro ⟨left | below, aside⟩
      · exact left
      · exact absurd below aside

end Forest

end IQuik.Data
