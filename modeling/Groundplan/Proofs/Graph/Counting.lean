import Groundplan.Graph.Order
import Groundplan.Proofs.Graph.Reach
import Groundplan.Proofs.Table

/-!
# Counting Down to an Order

Declarations are ordered by counting, for each of them, the dependencies that have not been placed.
The counts are never looked up in the edges again: whenever a declaration is placed, they are
lowered along the edges turned round.  So two things have to be shown.  The edges turned round are
those of the graph, although they are entered one by one into a table of their own; and after every
step a count is the number of dependencies that are not placed, and a declaration is ready or
placed just if that number is zero.

## Main Definitions

- `Graph.awaited`: the dependencies that are not placed
- `Graph.Counting`: what holds between two steps
- `Graph.Ordered`: each address comes behind its dependencies

## Main Statements

- `Graph.referrers_eq`: the edges turned round
- `Graph.countDown_eq`: counting down along some edges
- `Graph.Counting.place`, `Graph.Counting.orderFrom`: what one step and all steps preserve
- `Graph.Counting.ordered`: what is placed comes behind its dependencies
-/

namespace Groundplan

namespace Graph

variable {g : Graph}

/-! ## The edges turned round -/

/-- A declaration is entered once for every time that it lists a dependency. -/
theorem get?_enterNode (t : Table String (List String)) (n : Node) (a : String) :
    (Table.get? (enterNode t n) a).getD []
      = (Table.get? t a).getD [] ++ List.replicate (n.dependencies.count a) n.address := by
  unfold enterNode
  generalize n.dependencies = dependencies
  induction dependencies generalizing t with
  | nil => simp
  | cons d ds ih =>
    rw [List.foldl_cons, ih, Table.get?_put]
    by_cases hsame : d = a
    · simp [hsame, List.replicate_succ]
    · simp [hsame]

theorem get?_foldl_enterNode (nodes : List Node) (t : Table String (List String)) (a : String) :
    (Table.get? (nodes.foldl enterNode t) a).getD []
      = (Table.get? t a).getD []
        ++ nodes.flatMap fun n => List.replicate (n.dependencies.count a) n.address := by
  induction nodes generalizing t with
  | nil => simp
  | cons n nodes ih => rw [List.foldl_cons, ih, get?_enterNode, List.flatMap_cons, List.append_assoc]

/-- In the beginning nothing refers to anything. -/
private theorem get?_map_nil (addresses : List String) (a : String) :
    (Table.get? (addresses.map fun address => (address, ([] : List String))) a).getD [] = [] := by
  induction addresses with
  | nil => rfl
  | cons address rest ih =>
    rw [List.map_cons, Table.get?]
    split
    · rfl
    · exact ih

theorem get?_referrers (g : Graph) (a : String) :
    (Table.get? g.referrers a).getD []
      = g.nodes.flatMap fun n => List.replicate (n.dependencies.count a) n.address := by
  rw [referrers, get?_foldl_enterNode, get?_map_nil, List.nil_append]

theorem mem_addresses_of_mem_referrers {a b : String}
    (h : b ∈ (Table.get? g.referrers a).getD []) : b ∈ g.addresses := by
  rw [get?_referrers] at h
  obtain ⟨n, hn, hb⟩ := List.mem_flatMap.mp h
  rw [List.eq_of_mem_replicate hb]
  exact List.mem_map.mpr ⟨n, hn, rfl⟩

/-- The edges turned round are exact, and in the order of the declarations. -/
theorem referrers_eq (hdependencies : ∀ n ∈ g.nodes, n.dependencies.Nodup) (a : String) :
    (Table.get? g.referrers a).getD [] = g.dependents a := by
  rw [get?_referrers, dependents]
  generalize g.nodes = nodes at hdependencies ⊢
  induction nodes with
  | nil => rfl
  | cons n nodes ih =>
    obtain ⟨hn, hrest⟩ := List.forall_mem_cons.mp hdependencies
    rw [List.flatMap_cons, ih hrest]
    by_cases ha : a ∈ n.dependencies
    · simp [ha, List.count_eq_one_of_mem hn ha]
    · simp [ha, List.count_eq_zero_of_not_mem ha]

/-! ## Counting down -/

/-- Each of some different addresses is counted down once, and those that come to zero are
returned. -/
theorem countDown_eq {addresses : List String} (hnodup : addresses.Nodup)
    (counts : Table String Int) :
    (countDown addresses counts).1
        = addresses.filter (fun a => decide ((Table.get? counts a).getD 0 - 1 = 0))
      ∧ ∀ a, Table.get? (countDown addresses counts).2 a
          = if a ∈ addresses then some ((Table.get? counts a).getD 0 - 1)
            else Table.get? counts a := by
  induction addresses generalizing counts with
  | nil => simp [countDown_nil]
  | cons b rest ih =>
    obtain ⟨hb, hrest⟩ := List.nodup_cons.mp hnodup
    obtain ⟨hfreed, hcounts⟩ := ih hrest (Table.put counts b ((Table.get? counts b).getD 0 - 1))
    -- The others have the counts that they had before.
    have hothers : ∀ a ∈ rest, Table.get? (Table.put counts b ((Table.get? counts b).getD 0 - 1)) a
        = Table.get? counts a := by
      intro a ha
      apply Table.get?_put_of_ne
      rintro rfl
      exact hb ha
    have hsame : rest.filter (fun a => decide ((Table.get? (Table.put counts b
          ((Table.get? counts b).getD 0 - 1)) a).getD 0 - 1 = 0))
        = rest.filter (fun a => decide ((Table.get? counts a).getD 0 - 1 = 0)) :=
      List.filter_congr fun a ha => by rw [hothers a ha]
    constructor
    · simp only [countDown_cons, hfreed, hsame, List.filter_cons, decide_eq_true_eq]
    · intro a
      simp only [countDown_cons, hcounts, List.mem_cons]
      by_cases ha : a ∈ rest
      · simp [ha, hothers a ha]
      · by_cases hab : a = b
        · simp [hab, hb]
        · simp [ha, hab, Table.get?_put_of_ne counts _ (Ne.symm hab)]

theorem mem_of_mem_countDown {addresses : List String} {counts : Table String Int} {a : String}
    (h : a ∈ (countDown addresses counts).1) : a ∈ addresses := by
  induction addresses generalizing counts with
  | nil => simp [countDown_nil] at h
  | cons b rest ih =>
    simp only [countDown_cons] at h
    split at h
    · exact (List.mem_cons.mp h).elim (fun hab => hab ▸ List.mem_cons_self)
        fun hlater => List.mem_cons_of_mem b (ih hlater)
    · exact List.mem_cons_of_mem b (ih h)

/-- An order consists of what is ready and of what refers to something else. -/
theorem mem_of_mem_orderFrom {table : Table String (List String)} {counts : Table String Int}
    {ready : List String} {a : String} (h : a ∈ orderFrom table counts ready) :
    a ∈ ready ∨ ∃ b, a ∈ (Table.get? table b).getD [] := by
  induction counts, ready using orderFrom.induct table with
  | case1 counts =>
    rw [orderFrom_nil] at h
    exact absurd h List.not_mem_nil
  | case2 counts first ready counted ih =>
    rw [orderFrom_cons] at h
    rcases List.mem_cons.mp h with rfl | hlater
    · exact .inl List.mem_cons_self
    · rcases ih hlater with hready | hreferrer
      · rcases List.mem_append.mp hready with hready | hfreed
        · exact .inl (List.mem_cons_of_mem first hready)
        · exact .inr ⟨first, mem_of_mem_countDown hfreed⟩
      · exact .inr hreferrer

/-! ## What is counted -/

/-- The dependencies of a declaration that are not placed. -/
def awaited (g : Graph) (placed : List String) (address : String) : List String :=
  besides placed (g.dependencies address)

theorem mem_awaited_iff {placed : List String} {a d : String} :
    d ∈ g.awaited placed a ↔ g.Refers a d ∧ d ∉ placed := by
  simp [awaited, besides, Refers]

theorem awaited_eq_nil_iff {placed : List String} {a : String} :
    g.awaited placed a = [] ↔ ∀ d, g.Refers a d → d ∈ placed := by
  rw [List.eq_nil_iff_forall_not_mem]
  apply forall_congr'
  intro d
  rw [mem_awaited_iff, not_and_not_right]

/-- Where the order stands: `placed` have been taken, and `ready` can be taken next. -/
structure Counting (g : Graph) (placed : List String) (counts : Table String Int)
    (ready : List String) : Prop where
  /-- Nothing is placed or ready twice. -/
  once : (placed ++ ready).Nodup
  inside : ∀ a ∈ placed ++ ready, a ∈ g.addresses
  /-- A count is the number of dependencies that are not placed. -/
  counted : ∀ a ∈ g.addresses, Table.get? counts a = some ((g.awaited placed a).length : Int)
  /-- What awaits nothing is placed or ready, and nothing else is. -/
  free : ∀ a ∈ g.addresses, a ∈ placed ++ ready ↔ g.awaited placed a = []

/-- Each address of a list comes behind its dependencies, where `placed` have come before it. -/
def Ordered (g : Graph) : List String → List String → Prop
  | _, [] => True
  | placed, a :: rest => (∀ d, g.Refers a d → d ∈ placed) ∧ g.Ordered (a :: placed) rest

theorem Ordered.mem_before {placed before after : List String} {a d : String}
    (h : g.Ordered placed (before ++ a :: after)) (hrefers : g.Refers a d) :
    d ∈ placed ∨ d ∈ before := by
  induction before generalizing placed with
  | nil => exact .inl (h.1 d hrefers)
  | cons b before ih =>
    rcases ih h.2 with hplaced | hbefore
    · rcases List.mem_cons.mp hplaced with rfl | hplaced
      · exact .inr List.mem_cons_self
      · exact .inl hplaced
    · exact .inr (List.mem_cons_of_mem b hbefore)

section Steps

variable (hdistinct : g.addresses.Nodup)
  (hedges : ∀ n ∈ g.nodes, n = Node.among g.addresses n.declaration)

include hdistinct hedges

theorem nodup_node_dependencies : ∀ n ∈ g.nodes, n.dependencies.Nodup := by
  intro n hn
  rw [hedges n hn]
  exact hdistinct.filter _

theorem nodup_dependencies (a : String) : (g.dependencies a).Nodup := by
  unfold dependencies
  split
  · rename_i n hn
    exact nodup_node_dependencies hdistinct hedges n (mem_of_node? hn).1
  · exact List.nodup_nil

omit hedges in
theorem nodup_dependents (a : String) : (g.dependents a).Nodup :=
  hdistinct.sublist (List.filter_sublist.map Node.address)

/-- Placing one more dependency strikes it off. -/
theorem awaited_cons (placed : List String) (a b : String) :
    g.awaited (a :: placed) b = (g.awaited placed b).erase a := by
  have hnodup : (g.awaited placed b).Nodup := (nodup_dependencies hdistinct hedges b).filter _
  rw [hnodup.erase_eq_filter, awaited, awaited, besides, besides, List.filter_filter]
  apply List.filter_congr
  intro d _
  simp [bne, Bool.beq_eq_decide_eq]

theorem awaited_cons_of_refers {placed : List String} {a b : String} (hrefers : g.Refers b a)
    (ha : a ∉ placed) :
    ((g.awaited placed b).length : Int) - 1 = (g.awaited (a :: placed) b).length := by
  have hmem : a ∈ g.awaited placed b := mem_awaited_iff.mpr ⟨hrefers, ha⟩
  have hpositive := List.length_pos_of_mem hmem
  rw [awaited_cons hdistinct hedges, List.length_erase_of_mem hmem]
  omega

theorem awaited_cons_of_not_refers {placed : List String} {a b : String}
    (hrefers : ¬ g.Refers b a) : g.awaited (a :: placed) b = g.awaited placed b := by
  rw [awaited_cons hdistinct hedges]
  apply List.erase_of_not_mem
  intro hmem
  exact hrefers (mem_awaited_iff.mp hmem).1

/-! ## What the steps preserve -/

omit hedges in
theorem get?_dependencyCounts {a : String} (ha : a ∈ g.addresses) :
    Table.get? g.dependencyCounts a = some ((g.dependencies a).length : Int) := by
  obtain ⟨n, hn, rfl⟩ := List.mem_map.mp ha
  have hkeys : (Table.keys g.dependencyCounts).Nodup := by
    simpa [Table.keys, dependencyCounts, addresses, Function.comp_def] using hdistinct
  rw [dependencies, node?_of_mem hdistinct hn]
  apply (Table.mem_iff_get?_eq_some hkeys).mp
  exact List.mem_map.mpr ⟨n, hn, rfl⟩

omit hedges in
/-- Before anything is placed the counts are those of all dependencies. -/
theorem counting_start :
    Counting g [] g.dependencyCounts
      (g.addresses.filter fun a => Table.get? g.dependencyCounts a == some 0) := by
  have hnothing : ∀ a, g.awaited [] a = g.dependencies a := by
    intro a
    simp [awaited, besides]
  refine ⟨hdistinct.filter _, fun a ha => (List.mem_filter.mp ha).1, fun a ha => ?_, fun a ha => ?_⟩
  · rw [hnothing, get?_dependencyCounts hdistinct ha]
  · simp [hnothing, ha, get?_dependencyCounts hdistinct ha]

variable {placed ready : List String} {counts : Table String Int} {a : String}

omit hdistinct hedges in
/-- What is ready has not been placed. -/
theorem Counting.fresh (h : Counting g placed counts (a :: ready)) : a ∉ placed := by
  intro hmem
  exact (List.nodup_append.mp h.once).2.2 a hmem a List.mem_cons_self rfl

omit hdistinct hedges in
/-- When what is ready first is placed, what has been placed or ready remains so. -/
theorem mem_moved_iff {freed : List String} {b : String} :
    b ∈ a :: placed ++ (ready ++ freed) ↔ b ∈ placed ++ a :: ready ∨ b ∈ freed := by
  simp only [List.mem_append, List.mem_cons]
  tauto

omit hdistinct hedges in
theorem mem_addresses_of_mem_freed {b : String}
    (h : b ∈ (countDown (g.dependents a) counts).1) : b ∈ g.addresses := by
  obtain ⟨n, hn, rfl⟩ := List.mem_map.mp (mem_of_mem_countDown h)
  exact List.mem_map.mpr ⟨n, (List.mem_filter.mp hn).1, rfl⟩

/-- What becomes ready refers to what is placed, and to nothing else that is not placed. -/
theorem Counting.mem_freed_iff (h : Counting g placed counts (a :: ready)) {b : String} :
    b ∈ (countDown (g.dependents a) counts).1
      ↔ g.Refers b a ∧ g.awaited (a :: placed) b = [] := by
  rw [(countDown_eq (nodup_dependents hdistinct a) counts).1, List.mem_filter,
    mem_dependents_iff hdistinct]
  apply and_congr_right
  intro hrefers
  have hb : b ∈ g.addresses := by
    obtain ⟨n, hn, _⟩ := refers_iff.mp hrefers
    obtain ⟨hmem, rfl⟩ := mem_of_node? hn
    exact List.mem_map.mpr ⟨n, hmem, rfl⟩
  rw [h.counted b hb, Option.getD_some, awaited_cons_of_refers hdistinct hedges hrefers h.fresh]
  simp

/-- Nothing that becomes ready has been placed or ready. -/
theorem Counting.once_place (h : Counting g placed counts (a :: ready)) :
    (a :: placed ++ (ready ++ (countDown (g.dependents a) counts).1)).Nodup := by
  have hmoved : (placed ++ a :: ready).Perm (a :: (placed ++ ready)) := List.perm_middle
  rw [← List.append_assoc]
  apply List.nodup_append.mpr
  refine ⟨hmoved.nodup_iff.mp h.once, ?_, ?_⟩
  · rw [(countDown_eq (nodup_dependents hdistinct a) counts).1]
    exact (nodup_dependents hdistinct a).filter _
  · rintro b hb _ hfreed rfl
    -- What has been placed or ready awaits nothing, whereas this awaits what is placed now.
    have hnothing := (h.free b (mem_addresses_of_mem_freed hfreed)).mp (hmoved.mem_iff.mpr hb)
    have hrefers := ((h.mem_freed_iff hdistinct hedges).mp hfreed).1
    have hawaited : a ∈ g.awaited placed b := mem_awaited_iff.mpr ⟨hrefers, h.fresh⟩
    rw [hnothing] at hawaited
    exact absurd hawaited List.not_mem_nil

/-- The counts are lowered just where a dependency has been placed. -/
theorem Counting.counted_place (h : Counting g placed counts (a :: ready)) {b : String}
    (hb : b ∈ g.addresses) :
    Table.get? (countDown (g.dependents a) counts).2 b
      = some ((g.awaited (a :: placed) b).length : Int) := by
  rw [(countDown_eq (nodup_dependents hdistinct a) counts).2, h.counted b hb]
  by_cases hrefers : g.Refers b a
  · rw [if_pos ((mem_dependents_iff hdistinct).mpr hrefers), Option.getD_some,
      awaited_cons_of_refers hdistinct hedges hrefers h.fresh]
  · rw [if_neg fun hmem => hrefers ((mem_dependents_iff hdistinct).mp hmem),
      awaited_cons_of_not_refers hdistinct hedges hrefers]

/-- What awaits nothing now has awaited nothing before, or is freed. -/
theorem Counting.free_place (h : Counting g placed counts (a :: ready)) {b : String}
    (hb : b ∈ g.addresses) :
    b ∈ a :: placed ++ (ready ++ (countDown (g.dependents a) counts).1)
      ↔ g.awaited (a :: placed) b = [] := by
  rw [mem_moved_iff, h.free b hb, h.mem_freed_iff hdistinct hedges]
  by_cases hrefers : g.Refers b a
  · have hawaited : g.awaited placed b ≠ [] :=
      List.ne_nil_of_mem (mem_awaited_iff.mpr ⟨hrefers, h.fresh⟩)
    simp [hrefers, hawaited]
  · simp [hrefers, awaited_cons_of_not_refers hdistinct hedges hrefers]

/-- Placing what is ready first, and counting down along the edges turned round, keeps the counts
right. -/
theorem Counting.place (h : Counting g placed counts (a :: ready)) :
    Counting g (a :: placed) (countDown (g.dependents a) counts).2
      (ready ++ (countDown (g.dependents a) counts).1) where
  once := h.once_place hdistinct hedges
  inside b hb := by
    rcases mem_moved_iff.mp hb with hb | hb
    · exact h.inside b hb
    · exact mem_addresses_of_mem_freed hb
  counted _ hb := h.counted_place hdistinct hedges hb
  free _ hb := h.free_place hdistinct hedges hb

/-- In the end what is placed, with the order in front of it, is all that awaits nothing. -/
theorem Counting.orderFrom (h : Counting g placed counts ready) :
    ∃ counts', Counting g ((orderFrom g.referrers counts ready).reverse ++ placed) counts' [] := by
  induction counts, ready using orderFrom.induct g.referrers generalizing placed with
  | case1 counts =>
    refine ⟨counts, ?_⟩
    rw [orderFrom_nil]
    exact h
  | case2 counts first ready counted =>
    rename_i ih
    have hplaced := h.place hdistinct hedges
    rw [← referrers_eq (nodup_node_dependencies hdistinct hedges)] at hplaced
    obtain ⟨counts', hend⟩ := ih hplaced
    refine ⟨counts', ?_⟩
    rw [orderFrom_cons]
    simpa using hend

/-- Each address is taken when its dependencies have been placed. -/
theorem Counting.ordered (h : Counting g placed counts ready) :
    g.Ordered placed (Graph.orderFrom g.referrers counts ready) := by
  induction counts, ready using orderFrom.induct g.referrers generalizing placed with
  | case1 counts =>
    rw [orderFrom_nil]
    trivial
  | case2 counts first ready counted =>
    rename_i ih
    have hplaced := h.place hdistinct hedges
    rw [← referrers_eq (nodup_node_dependencies hdistinct hedges)] at hplaced
    have hfirst : first ∈ placed ++ first :: ready :=
      List.mem_append_right placed List.mem_cons_self
    rw [orderFrom_cons]
    constructor
    · exact awaited_eq_nil_iff.mp ((h.free first (h.inside first hfirst)).mp hfirst)
    · exact ih hplaced

end Steps

end Graph

end Groundplan
