import ThreeAddress.Proofs.Building
import ThreeAddress.Proofs.Height

/-!
# Stocks of nodes

While a tree is built, the nodes that are made and not yet used are a stock: each is kept with
the role that it is for, and no number occurs twice in it. `After xs b f` says that building,
from the stock `xs`, **ends** with the stock that `f` gives for the result, and fails only where
a number in the text has no value. The rules below are one for every way to build; **a new node
takes its children out of the stock, each in its role** (`After.node`), so what is built is
meaningful and its nodes have different numbers, the higher ones outside.
-/

namespace ThreeAddress

namespace Lowering

/-- Whether what is made for a role can stand in another one: a value can stand wherever values
do, and a property under any modifiers. -/
def Role.serves : Role → Role → Bool
  | .value, r => r.takesValue
  | .property _, .property _ => true
  | r, r' => r == r'

theorem standing_of_serves {α : Type} {r r' : Role} {k : Syntax.Kind α}
    (h : r.serves r' = true) (hk : standing r k ≠ .wrong) : standing r' k ≠ .wrong := by
  unfold standing at hk ⊢
  generalize category k = c at hk ⊢
  unfold Role.serves at h
  split at h
  · cases r' <;> first
      | exact absurd h Bool.false_ne_true
      | cases c <;> first
        | exact absurd rfl hk
        | exact nofun
  · cases c <;> first
      | exact absurd rfl hk
      | exact nofun
  · exact beq_iff_eq.mp h ▸ hk

end Lowering

namespace Syntax

open Lowering (Role Meaningful placed standing)
open scoped List

/-- Every node of the tree has a higher number than the nodes inside it. -/
def Node.Descends (n : Node) : Prop :=
  ∀ m ∈ n.subtree, ∀ d ∈ m.subtree.tail, d.id < m.id

theorem Node.tail_subtree (n : Node) : n.subtree.tail = n.kind.children.flatMap subtree := by
  rw [subtree_eq, List.tail_cons]

/-- Numbers descend below a node whose number is the highest, if they do below its children. -/
theorem Node.Descends.of_children {n : Node} (h : ∀ c ∈ n.kind.children, c.Descends)
    (hlt : ∀ i ∈ n.kind.children.flatMap Node.ids, i < n.id) : n.Descends := by
  intro m hm
  rw [Node.subtree_eq] at hm
  obtain rfl | hm := List.mem_cons.mp hm
  · intro d hd
    rw [Node.tail_subtree] at hd
    obtain ⟨c, hc, hd⟩ := List.mem_flatMap.mp hd
    exact hlt d.id (List.mem_flatMap.mpr ⟨c, hc, List.mem_map_of_mem hd⟩)
  · obtain ⟨c, hc, hm⟩ := List.mem_flatMap.mp hm
    exact h c hc m hm

theorem Node.Descends.child {n c : Node} (h : n.Descends) (hc : c ∈ n.kind.children) :
    c.Descends :=
  fun m hm => h m (Node.subtree_subset_of_mem_children hc hm)

/-- Nodes with the roles that they are for. -/
abbrev Stock := List (Role × Node)

namespace Stock

/-- The numbers of all nodes in the stock. -/
def ids (xs : Stock) : List Nat :=
  xs.flatMap fun x => x.2.ids

theorem ids_append (xs ys : Stock) : (xs ++ ys).ids = xs.ids ++ ys.ids :=
  List.flatMap_append

theorem ids_singleton (r : Role) (n : Node) : ids [(r, n)] = n.ids :=
  List.flatMap_singleton ..

theorem ids_map (r : Role) (ns : List Node) :
    ids (ns.map fun n => (r, n)) = ns.flatMap Node.ids :=
  List.flatMap_map ..

theorem ids_placed (k : Kind Node) : ids (placed k) = k.children.flatMap Node.ids := by
  rw [← Lowering.map_snd_placed, List.flatMap_map]
  rfl

/-- The nodes of the stock have a meaning in their roles, and different numbers between the
bounds, which descend inside them. -/
structure Keeps (xs : Stock) (start next : Nat) : Prop where
  le : start ≤ next
  meaningful : ∀ x ∈ xs, Meaningful x.1 x.2
  descends : ∀ x ∈ xs, x.2.Descends
  nodup : xs.ids.Nodup
  bounds : ∀ i ∈ xs.ids, start ≤ i ∧ i < next

/-- One stock can stand for another one: its nodes have the numbers of the other one's nodes,
and a meaning if those have, and so for numbers that descend. -/
structure Covers (xs ys : Stock) : Prop where
  meaningful : (∀ x ∈ xs, Meaningful x.1 x.2) → ∀ y ∈ ys, Meaningful y.1 y.2
  descends : (∀ x ∈ xs, x.2.Descends) → ∀ y ∈ ys, y.2.Descends
  ids : ys.ids <+~ xs.ids

theorem Keeps.nil (next : Nat) : Keeps [] next next :=
  ⟨Nat.le_refl _, nofun, nofun, List.nodup_nil, nofun⟩

theorem Keeps.append {xs ys : Stock} {start mid next : Nat} (hx : xs.Keeps start mid)
    (hy : ys.Keeps mid next) : (xs ++ ys).Keeps start next where
  le := hx.le.trans hy.le
  meaningful := List.forall_mem_append.mpr ⟨hx.meaningful, hy.meaningful⟩
  descends := List.forall_mem_append.mpr ⟨hx.descends, hy.descends⟩
  nodup := by
    rw [ids_append, List.nodup_append]
    refine ⟨hx.nodup, hy.nodup, fun i hi j hj hij => ?_⟩
    have h₁ := (hx.bounds i hi).2
    have h₂ := (hy.bounds j hj).1
    omega
  bounds := by
    rw [ids_append]
    refine List.forall_mem_append.mpr ⟨fun i hi => ?_, fun i hi => ?_⟩
    · exact ⟨(hx.bounds i hi).1, (hx.bounds i hi).2.trans_le hy.le⟩
    · exact ⟨hx.le.trans (hy.bounds i hi).1, (hy.bounds i hi).2⟩

theorem Keeps.covered {xs ys : Stock} {start next : Nat} (h : xs.Keeps start next)
    (hc : xs.Covers ys) : ys.Keeps start next := by
  refine ⟨h.le, hc.meaningful h.meaningful, hc.descends h.descends, ?_, fun i hi => h.bounds i (hc.ids.subset hi)⟩
  obtain ⟨ls, hperm, hls⟩ := hc.ids
  exact hperm.nodup_iff.mp (h.nodup.sublist hls)

namespace Covers

variable {xs ys zs xs' ys' : Stock}

@[simp] theorem refl (xs : Stock) : xs.Covers xs :=
  ⟨id, id, .refl _⟩

theorem nil (xs : Stock) : xs.Covers [] :=
  ⟨fun _ => nofun, fun _ => nofun, List.nil_subperm⟩

theorem append (h : xs.Covers xs') (h' : ys.Covers ys') : (xs ++ ys).Covers (xs' ++ ys') where
  meaningful := by
    simp only [List.forall_mem_append]
    exact fun hx => ⟨h.meaningful hx.1, h'.meaningful hx.2⟩
  descends := by
    simp only [List.forall_mem_append]
    exact fun hx => ⟨h.descends hx.1, h'.descends hx.2⟩
  ids := by
    rw [ids_append, ids_append]
    exact h.ids.append h'.ids

theorem of_perm (h : xs.Perm ys) : xs.Covers ys :=
  ⟨fun hx y hy => hx y (h.mem_iff.mpr hy), fun hx y hy => hx y (h.mem_iff.mpr hy),
    (h.flatMap_right _).symm.subperm⟩

theorem of_eq (h : ys = xs) : xs.Covers ys :=
  h ▸ refl _

theorem ended (xs : Stock) : xs.Covers (xs ++ []) :=
  of_eq (List.append_nil xs)

/-- A node can stand in every role that its own role serves. -/
theorem role {n : Node} {r r' : Role} (h : r.serves r' = true) : Covers [(r, n)] [(r', n)] where
  meaningful hn := by
    obtain ⟨hs, ht, hc⟩ := hn _ List.mem_cons_self
    exact List.forall_mem_singleton.mpr ⟨Lowering.standing_of_serves h hs, ht, hc⟩
  descends hn := List.forall_mem_singleton.mpr (hn (r, n) List.mem_cons_self)
  ids := .refl _

/-- A block as a body is its statements. -/
theorem body (n : Node) :
    Covers [(.statement, n)] ((bodyOf n).map fun m => (.statement, m)) := by
  unfold bodyOf
  split
  · rename_i statements hk
    refine ⟨fun h => ?_, fun h => ?_, ?_⟩
    · obtain ⟨-, -, hc⟩ := h _ List.mem_cons_self
      rw [hk] at hc
      exact fun x hx => hc x (List.mem_append_left _ hx)
    · refine List.forall_mem_map.mpr fun m hm => (h _ List.mem_cons_self).child ?_
      rw [hk]
      exact List.mem_append_left _ hm
    · rw [ids_map, ids_singleton, Node.ids_eq, hk]
      have hchildren : (Kind.block statements).children = statements ++ [] := rfl
      rw [hchildren, List.append_nil]
      exact (List.sublist_cons_self ..).subperm
  · exact refl _

end Covers

end Stock

open Stock

/-! ## Rules of building -/

/-- A number in the text has no value. -/
def SyntaxError.Cause.IsRefusal : SyntaxError.Cause → Prop
  | .badInteger text => Number.ofInteger? text = none
  | .badLoopDepth text => Number.loopDepth? text = none
  | _ => False

/-- The outcome is a result with the property, or a number was refused. -/
def Settles {α : Type} (P : α → Nat → Prop) : Except SyntaxError α × Nat → Prop
  | (.ok a, next) => P a next
  | (.error e, _) => e.cause.IsRefusal

theorem Settles.mono {α : Type} {P Q : α → Nat → Prop} {x : Except SyntaxError α × Nat}
    (h : Settles P x) (hpq : ∀ a next, P a next → Q a next) : Settles Q x := by
  obtain ⟨a | a, next⟩ := x
  · exact h
  · exact hpq a next h

/-- From the stock `xs`, building refuses a number or **comes to an end** with the stock that `f`
gives for the result. -/
def After {α : Type} (xs : Stock) (b : Build α) (f : α → Stock) : Prop :=
  ∀ file start next, xs.Keeps start next →
    Settles (fun a next' => (f a).Keeps start next') (b.outcome file next)

/-- Building makes a node for the role. -/
def Makes (b : Build Node) (r : Role) : Prop :=
  After [] b fun n => [(r, n)]

/-- Building makes nodes for the role. -/
def MakesAll (b : Build (List Node)) (r : Role) : Prop :=
  After [] b fun ns => ns.map fun n => (r, n)

/-- Building makes at most one node, for the role. -/
def MakesOption (b : Build (Option Node)) (r : Role) : Prop :=
  After [] b fun n => n.toList.map fun n => (r, n)

namespace After

variable {α β : Type} {xs ys z : Stock} {b : Build α} {f : α → Stock} {g : β → Stock}

theorem covered (hb : After xs b f) {f' : α → Stock} (h : ∀ a, (f a).Covers (f' a)) :
    After xs b f' :=
  fun file start next hx => (hb file start next hx).mono fun a _ ha => ha.covered (h a)

theorem convert (h : xs.Covers ys) (hb : After ys b f) : After xs b f :=
  fun file start next hx => hb file start next (hx.covered h)

theorem pure {a : α} (h : xs.Covers (f a)) : After xs (Pure.pure a) f :=
  fun _ _ _ hx => hx.covered h

/-- A number without a value is refused. -/
theorem failAt {e : Extent} {cause : SyntaxError.Cause} (h : cause.IsRefusal) :
    After xs (Build.failAt e cause) f :=
  fun _ _ _ _ => h

/-- What is in stock stays in stock. -/
theorem frame (hb : After [] b f) : After xs b fun a => xs ++ f a :=
  fun file _ next hx => (hb file next next (.nil next)).mono fun _ _ ha => hx.append ha

/-- A step that uses the stock. -/
theorem bind {k : α → Build β} (hb : After xs b f) (hk : ∀ a, After (f a) (k a) g) :
    After xs (b >>= k) g := by
  intro file start next hx
  have h := hb file start next hx
  rw [Build.outcome_bind]
  generalize b.outcome file next = x at h
  obtain ⟨e | a, next₁⟩ := x
  · exact h
  · exact hk a file start next₁ h

/-- **A step adds what it makes to the stock.** -/
theorem step {k : α → Build β} (hb : After [] b f) (hk : ∀ a, After (xs ++ f a) (k a) g) :
    After xs (b >>= k) g :=
  bind (frame hb) hk

theorem map {k : α → β} (hb : After xs b f) (hk : ∀ a, (f a).Covers (g (k a))) :
    After xs (k <$> b) g := by
  rw [← bind_pure_comp]
  exact bind hb fun a => pure (hk a)

theorem read {k : String → Build β} (hk : ∀ file, After xs (k file) g) :
    After xs (MonadReader.read >>= k) g := by
  intro file start next hx
  rw [Build.outcome_bind]
  exact hk file file start next hx

/-- Both are built; if both fail, the first failure counts. -/
theorem both {a : Build α} {b : Build β} (ha : After [] a f) (hb : After [] b g) :
    After [] (Build.both a b) fun z => f z.1 ++ g z.2 := by
  intro file start next hx
  have h₁ := ha file start next hx
  rw [Build.outcome_both]
  generalize a.outcome file next = x at h₁
  obtain ⟨e | x, next₁⟩ := x
  · exact h₁
  · have h₂ := frame hb file start next₁ h₁
    generalize b.outcome file next₁ = y at h₂
    obtain ⟨e | y, next₂⟩ := y
    · exact h₂
    · exact h₂

/-- Whether a node of the kind has a meaning of its own in the role. -/
def suits (r : Role) (k : Kind Node) : Bool :=
  standing r k != .wrong && k.hasToken

/-- **A new node takes its children out of the stock.** -/
theorem node {kind : Kind Node} {location : Option Location} {span : Option Span} {r : Role}
    (hr : suits r kind = true) (h : xs.Covers (z ++ placed kind)) :
    After xs (Build.node kind location span) fun n => z ++ [(r, n)] := by
  intro file start next hx
  obtain ⟨hs, ht⟩ := Bool.and_eq_true_iff.mp hr
  have hzs := hx.covered h
  obtain ⟨hkept, hchildren⟩ := List.forall_mem_append.mp hzs.meaningful
  obtain ⟨hdescends, hbelow⟩ := List.forall_mem_append.mp hzs.descends
  have hids : ids (z ++ [(r, (⟨next, kind, location, span⟩ : Node))])
      ~ next :: ids (z ++ placed kind) := by
    rw [ids_append, ids_append, ids_singleton, Node.ids_eq, ids_placed]
    exact List.perm_middle
  show Keeps (z ++ [(r, (⟨next, kind, location, span⟩ : Node))]) start (next + 1)
  refine ⟨hx.le.trans (Nat.le_succ _), ?_, ?_,
    hids.nodup_iff.mpr (List.nodup_cons.mpr ⟨?_, hzs.nodup⟩), fun i hi => ?_⟩
  · exact List.forall_mem_append.mpr ⟨hkept, List.forall_mem_singleton.mpr
      ⟨by simpa using hs, ht, hchildren⟩⟩
  · refine List.forall_mem_append.mpr ⟨hdescends, List.forall_mem_singleton.mpr ?_⟩
    refine .of_children (fun c hc => ?_) fun i hi => (hzs.bounds i ?_).2
    · rw [← Lowering.map_snd_placed] at hc
      obtain ⟨x, hx, rfl⟩ := List.mem_map.mp hc
      exact hbelow x hx
    · rw [ids_append, ids_placed]
      exact List.mem_append_right _ hi
  · exact fun hmem => Nat.lt_irrefl _ (hzs.bounds next hmem).2
  · obtain rfl | hi := List.mem_cons.mp (hids.mem_iff.mp hi)
    · exact ⟨hx.le, Nat.lt_succ_self _⟩
    · exact ⟨(hzs.bounds i hi).1, (hzs.bounds i hi).2.trans (Nat.lt_succ_self _)⟩

theorem nodeAt {e : Extent} {kind : Kind Node} {r : Role} (hr : suits r kind = true)
    (h : xs.Covers (placed kind)) : After xs (Build.nodeAt e kind) fun n => [(r, n)] :=
  read fun _ => node (z := []) hr h

/-- A step for every element, each of which adds what it makes. -/
theorem mapM {as : List β} {h : β → Build α} (hb : ∀ a ∈ as, After [] (h a) f) :
    After [] (as.mapM h) fun ys => ys.flatMap f := by
  induction as with
  | nil =>
    rw [List.mapM_nil]
    exact pure (.refl _)
  | cons a as ih =>
    obtain ⟨ha, has⟩ := List.forall_mem_cons.mp hb
    rw [List.mapM_cons]
    exact step ha fun y => step (ih has) fun ys => pure (.refl _)

/-- Steps that replace a node by another one for the same role. -/
theorem foldlM {as : List β} {k : Node → β → Build Node} {r : Role}
    (h : ∀ a ∈ as, ∀ n, After [(r, n)] (k n a) fun m => [(r, m)]) (n : Node) :
    After [(r, n)] (as.foldlM k n) fun m => [(r, m)] := by
  induction as generalizing n with
  | nil => exact pure (.refl _)
  | cons a as ih =>
    obtain ⟨ha, has⟩ := List.forall_mem_cons.mp h
    rw [List.foldlM_cons]
    exact bind (ha n) fun m => ih has m

theorem option {o : Option (Build α)} (hb : ∀ b ∈ o, After [] b f) :
    After [] (Build.option o) fun y => y.elim [] f := by
  cases o with
  | none => exact pure (.refl _)
  | some b => exact map (hb b rfl) fun a => .refl _

end After

theorem Makes.serving {b : Build Node} {r r' : Role} (h : Makes b r) (hr : r.serves r' = true) :
    Makes b r' :=
  h.covered fun _ => .role hr

theorem makesOption_option {o : Option (Build Node)} {r : Role} (h : ∀ b ∈ o, Makes b r) :
    MakesOption (Build.option o) r :=
  (After.option h).covered fun n => by cases n <;> exact .refl _

/-- A statement as a body. -/
theorem Makes.body {b : Build Node} (h : Makes b .statement) :
    After [] b fun n => (bodyOf n).map fun m => (.statement, m) :=
  h.covered .body

/-! ## Kinds -/

/-- From the stock, building gives a kind for the role whose children are what is left. -/
def MakesKind (xs : Stock) (b : Build (Kind Node)) (r : Role) : Prop :=
  ∀ file start next, xs.Keeps start next →
    Settles (fun k next' => After.suits r k = true ∧ Keeps (placed k) start next')
      (b.outcome file next)

namespace MakesKind

variable {α : Type} {xs ys : Stock} {r : Role} {b : Build α} {f : α → Stock}

theorem pure {k : Kind Node} (hr : After.suits r k = true) (h : xs.Covers (placed k)) :
    MakesKind xs (Pure.pure k) r :=
  fun _ _ _ hx => ⟨hr, hx.covered h⟩

theorem bind {k : α → Build (Kind Node)} (hb : After xs b f)
    (hk : ∀ a, MakesKind (f a) (k a) r) : MakesKind xs (b >>= k) r := by
  intro file start next hx
  have h := hb file start next hx
  rw [Build.outcome_bind]
  generalize b.outcome file next = x at h
  obtain ⟨e | a, next₁⟩ := x
  · exact h
  · exact hk a file start next₁ h

theorem step {k : α → Build (Kind Node)} (hb : After [] b f)
    (hk : ∀ a, MakesKind (xs ++ f a) (k a) r) : MakesKind xs (b >>= k) r :=
  bind (After.frame hb) hk

theorem convert {b : Build (Kind Node)} (h : xs.Covers ys) (hb : MakesKind ys b r) :
    MakesKind xs b r :=
  fun file start next hx => hb file start next (hx.covered h)

/-- A kind becomes a node. -/
theorem node {b : Build (Kind Node)} (h : MakesKind xs b r)
    {location : Option Location} {span : Option Span} :
    After xs (b >>= fun k => Build.node k location span) fun n => [(r, n)] := by
  intro file start next hx
  have h := h file start next hx
  rw [Build.outcome_bind]
  generalize b.outcome file next = x at h
  obtain ⟨e | k, next₁⟩ := x
  · exact h
  · exact After.node (z := []) h.1 (.refl _) file start next₁ h.2

theorem nodeAt {b : Build (Kind Node)} (h : MakesKind xs b r) {e : Extent} :
    After xs (b >>= Build.nodeAt e) fun n => [(r, n)] := by
  intro file start next hx
  have h := h file start next hx
  rw [Build.outcome_bind]
  generalize b.outcome file next = x at h
  obtain ⟨e | k, next₁⟩ := x
  · exact h
  · exact After.nodeAt h.1 (.refl _) file start next₁ h.2

end MakesKind

end Syntax

end ThreeAddress
