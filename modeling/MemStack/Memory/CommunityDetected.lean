import MemStack.Memory.CommunityPartition

/-!
This module contains what the detection of communities returns: the communities divide the nodes among them, and
they are worth no less than the nodes on their own.
-/

namespace MemStack
namespace Memory

open Finset

section Graph

variable {nodes : List String} {edges : List CommunityEdge} {n : Nat} {base : List IndexedEdge}

def nodeIds (nodes : List String) (edges : List CommunityEdge) : List String :=
  (indexNodes nodes edges).keys

def baseGraph (nodes : List String) (edges : List CommunityEdge) : WGraph :=
  WGraph.build (nodeIds nodes edges).length (baseEdges (indexNodes nodes edges) edges)

theorem nodup_nodeIds (nodes : List String) (edges : List CommunityEdge) : (nodeIds nodes edges).Nodup :=
  (indexNodes nodes edges).nodup

theorem get_indexNodes {id : String} {i : Nat}
    : (indexNodes nodes edges).get id = some i ↔ (nodeIds nodes edges)[i]? = some id :=
  Dict.get_numbered

theorem baseEdges_inRange (nodes : List String) (edges : List CommunityEdge)
    : InRange (nodeIds nodes edges).length (baseEdges (indexNodes nodes edges) edges) := by
  have hindexed : ∀ id ∈ nodes ++ edges.flatMap fun e => [e.source, e.target],
      ((indexNodes nodes edges).get id).getD 0 < (nodeIds nodes edges).length := by
    intro id hid
    obtain ⟨i, hlt, hget⟩ := Dict.exists_get_numbered hid
    have hget' : (indexNodes nodes edges).get id = some i := hget
    rw [hget', nodeIds, Dict.keys, List.length_map]
    exact hlt
  intro e he
  obtain ⟨e, hmem, rfl⟩ := List.mem_map.mp he
  constructor
  . apply hindexed
    rw [List.mem_append, List.mem_flatMap]
    exact .inr ⟨e, hmem, by simp⟩
  . apply hindexed
    rw [List.mem_append, List.mem_flatMap]
    exact .inr ⟨e, hmem, by simp⟩

theorem build_m2 (h : InRange n base) : (WGraph.build n base).m2 = 2 * (base.map IndexedEdge.weight).sum := by
  have htotal : (WGraph.build n base).m2 = Modularity.total (range n) (matrixOf base) :=
    (WGraph.build_represents h).m2
  rw [htotal]
  clear htotal
  unfold Modularity.total Modularity.degree matrixOf
  induction base with
  | nil => simp
  | cons e base ih =>
    have he := h e List.mem_cons_self
    have hrest := ih fun e he => h e (List.mem_cons_of_mem _ he)
    have hedge : (∑ i ∈ range n, ∑ j ∈ range n, e.between i j) = 2 * e.weight := by
      have hrow : ∀ i, (∑ j ∈ range n, e.between i j) =
          (if e.a = i then e.weight else 0) + if e.b = i then e.weight else 0 := by
        intro i
        simpa using WGraph.sum_between he i fun _ => 1
      simp only [hrow, sum_add_distrib, sum_ite_eq, mem_range, if_pos he.1, if_pos he.2]
      ring
    simp only [List.map_cons, List.sum_cons, sum_add_distrib]
    rw [hedge, hrest]
    ring

theorem baseGraph_m2 (nodes : List String) (edges : List CommunityEdge)
    : (baseGraph nodes edges).m2 = 2 * (edges.map CommunityEdge.weight).sum := by
  have hweights : (baseEdges (indexNodes nodes edges) edges).map IndexedEdge.weight =
      edges.map CommunityEdge.weight := by
    simp [baseEdges]
  rw [← hweights]
  exact build_m2 (baseEdges_inRange nodes edges)

end Graph

section Assigned

variable {nodes : List String} {edges : List CommunityEdge} {groups : List (List String)} {id : String} {c i : Nat}
  {comm : List (Option Nat)} {idOf : Dict String Nat}

def assign (idOf : Dict String Nat) (comm : List (Option Nat)) (e : String × Nat) : List (Option Nat) :=
  match idOf.get e.1 with
  | some i => comm.set i (some e.2)
  | none => comm

def listings (groups : List (List String)) : List (String × Nat) :=
  groups.zipIdx.flatMap fun group => group.1.map (·, group.2)

theorem assigned_eq (idOf : Dict String Nat) (groups : List (List String))
    : assigned idOf groups = (listings groups).foldl (assign idOf) (List.replicate idOf.keys.length none) := by
  unfold listings assigned
  rw [List.foldl_flatMap]
  simp only [List.foldl_map]
  rfl

theorem listings_fst (groups : List (List String)) : (listings groups).map Prod.fst = groups.flatten := by
  unfold listings
  rw [List.map_flatMap]
  have hgroup : ∀ group : List String × Nat, (group.1.map (·, group.2)).map Prod.fst = group.1 := by
    intro group
    rw [List.map_map]
    exact List.map_id _
  simp only [hgroup]
  rw [List.flatMap_def, List.zipIdx_map_fst]

theorem mem_listings : (id, c) ∈ listings groups ↔ ∃ group, groups[c]? = some group ∧ id ∈ group := by
  unfold listings
  rw [List.mem_flatMap]
  constructor
  . rintro ⟨⟨group, d⟩, hgroup, hmem⟩
    obtain ⟨id', hid', heq⟩ := List.mem_map.mp hmem
    cases heq
    exact ⟨group, List.mem_zipIdx_iff_getElem?.mp hgroup, hid'⟩
  . rintro ⟨group, hgroup, hid⟩
    exact ⟨(group, c), List.mem_zipIdx_iff_getElem?.mpr hgroup, List.mem_map_of_mem hid⟩

theorem length_foldl_assign (l : List (String × Nat)) : (l.foldl (assign idOf) comm).length = comm.length := by
  induction l generalizing comm with
  | nil => rfl
  | cons e l ih =>
    rw [List.foldl_cons, ih]
    unfold assign
    split
    . rw [List.length_set]
    . rfl

theorem foldl_assign_of_notMem {l : List (String × Nat)} (h : ∀ e ∈ l, idOf.get e.1 ≠ some i)
    : (l.foldl (assign idOf) comm)[i]? = comm[i]? := by
  induction l generalizing comm with
  | nil => rfl
  | cons e l ih =>
    rw [List.forall_mem_cons] at h
    rw [List.foldl_cons, ih h.2]
    unfold assign
    split
    . next j hj =>
      apply List.getElem?_set_ne
      rintro rfl
      exact h.1 hj
    . rfl

theorem getElem?_foldl_assign (hinj : ∀ a b i, idOf.get a = some i → idOf.get b = some i → a = b)
    {l : List (String × Nat)} (hnodup : (l.map Prod.fst).Nodup) (hmem : (id, c) ∈ l) (hid : idOf.get id = some i)
    (hi : i < comm.length)
    : (l.foldl (assign idOf) comm)[i]? = some (some c) := by
  obtain ⟨before, after, rfl⟩ := List.append_of_mem hmem
  rw [List.map_append, List.map_cons, List.nodup_append, List.nodup_cons] at hnodup
  have hlisted : ∀ comm, assign idOf comm (id, c) = comm.set i (some c) := by
    intro comm
    unfold assign
    dsimp only
    rw [hid]
  rw [List.foldl_append, List.foldl_cons, foldl_assign_of_notMem, hlisted,
    List.getElem?_set_self (by rwa [length_foldl_assign])]
  intro e he hget
  have hlater : e.1 ∈ after.map Prod.fst := List.mem_map_of_mem he
  rw [hinj e.1 id i hget hid] at hlater
  exact hnodup.2.1.1 hlater

theorem withSingletons_map_some (next : Nat) (l : List Nat) : withSingletons next (l.map some) = l := by
  induction l with
  | nil => rfl
  | cons c l ih =>
    rw [List.map_cons, withSingletons, ih]

theorem exists_assigned (hperm : groups.flatten.Perm (nodeIds nodes edges))
    : ∃ comm : List Nat,
        comm.length = (nodeIds nodes edges).length ∧
          assigned (indexNodes nodes edges) groups = comm.map some ∧
            ∀ (i : Nat) (id : String), (nodeIds nodes edges)[i]? = some id →
              ∃ group : List String, groups[comm.getD i 0]? = some group ∧ id ∈ group := by
  have hinj : ∀ a b i, (indexNodes nodes edges).get a = some i → (indexNodes nodes edges).get b = some i → a = b :=
    fun a b i => Dict.numbered_inj
  have hnodup : ((listings groups).map Prod.fst).Nodup := by
    rw [listings_fst, hperm.nodup_iff]
    exact nodup_nodeIds nodes edges
  have hlength : (assigned (indexNodes nodes edges) groups).length = (nodeIds nodes edges).length := by
    rw [assigned_eq, length_foldl_assign, List.length_replicate, nodeIds]
  have hgroup : ∀ (i : Nat) (id : String), (nodeIds nodes edges)[i]? = some id →
      ∃ (c : Nat) (group : List String), (assigned (indexNodes nodes edges) groups)[i]? = some (some c) ∧
        groups[c]? = some group ∧ id ∈ group := by
    intro i id hid
    have hmem : id ∈ (listings groups).map Prod.fst := by
      rw [listings_fst, hperm.mem_iff]
      exact List.mem_of_getElem? hid
    obtain ⟨⟨_, c⟩, hlisting, rfl⟩ := List.mem_map.mp hmem
    obtain ⟨group, hget, hin⟩ := mem_listings.mp hlisting
    refine ⟨c, group, ?_, hget, hin⟩
    rw [assigned_eq]
    apply getElem?_foldl_assign hinj hnodup hlisting (get_indexNodes.mpr hid)
    rw [List.length_replicate]
    exact (List.getElem?_eq_some_iff.mp hid).1
  refine ⟨(assigned (indexNodes nodes edges) groups).map (·.getD 0), ?_, ?_, ?_⟩
  . rw [List.length_map, hlength]
  . apply List.ext_getElem?
    intro i
    by_cases hi : i < (nodeIds nodes edges).length
    . obtain ⟨c, _, hget, _⟩ := hgroup i _ (List.getElem?_eq_getElem hi)
      simp [hget]
    . rw [List.getElem?_eq_none (by rw [hlength]; omega), List.getElem?_eq_none (by simp [hlength]; omega)]
  . intro i id hid
    obtain ⟨c, group, hget, hgroup, hin⟩ := hgroup i id hid
    refine ⟨group, ?_, hin⟩
    rw [List.getD_eq_getElem?_getD, List.getElem?_map, hget]
    exact hgroup

theorem modularity_eq_indexed {labels : List Nat} (hperm : groups.flatten.Perm (nodeIds nodes edges))
    (hlabels : labels.length = (nodeIds nodes edges).length)
    (hsame : ∀ group ∈ groups, ∀ (i j : Nat) (a b : String),
      (nodeIds nodes edges)[i]? = some a → (nodeIds nodes edges)[j]? = some b →
        a ∈ group → (b ∈ group ↔ labels.getD i 0 = labels.getD j 0))
    (hpos : (baseGraph nodes edges).m2 ≠ 0)
    : modularity nodes edges groups = modularityIndexed (baseGraph nodes edges) labels := by
  obtain ⟨comm, hlength, hassigned, hgroup⟩ := exists_assigned hperm
  have hrepresents := WGraph.build_represents (baseEdges_inRange nodes edges)
  have hmodularity : modularity nodes edges groups = modularityIndexed (baseGraph nodes edges) comm := by
    unfold modularity
    dsimp only
    rw [hassigned, withSingletons_map_some]
    exact if_neg hpos
  rw [hmodularity]
  unfold baseGraph
  rw [WGraph.modularityIndexed_eq hrepresents hlength, WGraph.modularityIndexed_eq hrepresents hlabels]
  apply Modularity.modularity_congr
  intro i hi j hj
  have hi' : i < (nodeIds nodes edges).length := mem_range.mp hi
  have hj' : j < (nodeIds nodes edges).length := mem_range.mp hj
  obtain ⟨a, ha⟩ : ∃ a, (nodeIds nodes edges)[i]? = some a := ⟨_, List.getElem?_eq_getElem hi'⟩
  obtain ⟨b, hb⟩ : ∃ b, (nodeIds nodes edges)[j]? = some b := ⟨_, List.getElem?_eq_getElem hj'⟩
  obtain ⟨group, hget, hin⟩ := hgroup i a ha
  obtain ⟨group', hget', hin'⟩ := hgroup j b hb
  rw [← hsame group (List.mem_of_getElem? hget) i j a b ha hb hin]
  constructor
  . intro heq
    rw [heq, hget'] at hget
    cases hget
    exact hin'
  . intro hmem
    -- No node is in two groups.
    have hnodup : groups.flatten.Nodup := hperm.nodup_iff.mpr (nodup_nodeIds nodes edges)
    by_contra hne
    rw [List.nodup_flatten, List.pairwise_iff_getElem] at hnodup
    obtain ⟨hc, rfl⟩ := List.getElem?_eq_some_iff.mp hget
    obtain ⟨hd, rfl⟩ := List.getElem?_eq_some_iff.mp hget'
    rcases Nat.lt_or_gt_of_ne hne with hlt | hlt
    . exact hnodup.2 _ _ hc hd hlt hmem hin'
    . exact hnodup.2 _ _ hd hc hlt hin' hmem

end Assigned

section Groups

variable {ids : List String} {labels : List Nat} {minCommunitySize : Nat}

theorem groupsOf_perm (ids : List String) (labels : List Nat)
    : ((groupsOf ids labels).entries.flatMap fun e => e.2.map (e.1, ·)).Perm (labels.zip ids) := by
  let pairs (c : Nat) (v : List String) : Multiset (Nat × String) := v.map (c, ·)
  have hstep : ∀ m : EntryMap Nat (List String), ∀ e ∈ labels.zip ids,
      (m.entry e.1 [] (· ++ [e.2])).sumOf pairs = m.sumOf pairs + {e} := by
    intro m e _
    apply EntryMap.sumOf_entry
    . rfl
    . intro v
      unfold pairs
      rw [List.map_append, ← Multiset.coe_add]
      rfl
  have hsum := EntryMap.sumOf_foldl (fun e : Nat × String => ({e} : Multiset (Nat × String))) hstep EntryMap.empty
  rw [EntryMap.sumOf_empty, zero_add] at hsum
  have hsingles : ((labels.zip ids).map fun e => ({e} : Multiset (Nat × String))).sum = (labels.zip ids : List _) := by
    induction labels.zip ids with
    | nil => rfl
    | cons e l ih =>
      rw [List.map_cons, List.sum_cons, ih]
      rfl
  rw [hsingles] at hsum
  rw [← Multiset.coe_eq_coe, ← hsum, List.flatMap, ← Multiset.coe_join, List.map_map]
  rfl

def listed (ids : List String) (labels : List Nat) (minCommunitySize : Nat) : List (List String) :=
  (((groupsOf ids labels).entries.map Prod.snd).filter (minCommunitySize ≤ ·.length)).map (·.insertionSort (· ≤ ·))

theorem flatten_filter_length (hmin : minCommunitySize ≤ 1) (l : List (List String))
    : (l.filter (minCommunitySize ≤ ·.length)).flatten = l.flatten := by
  induction l with
  | nil => rfl
  | cons group l ih =>
    rw [List.filter_cons]
    split
    . rw [List.flatten_cons, List.flatten_cons, ih]
    . next hsmall =>
      have hnil : group = [] := by
        rw [← List.length_eq_zero_iff]
        rw [decide_eq_true_eq] at hsmall
        omega
      rw [ih, List.flatten_cons, hnil, List.nil_append]

theorem flatten_map_insertionSort (l : List (List String))
    : (l.map (·.insertionSort (· ≤ ·))).flatten.Perm l.flatten := by
  induction l with
  | nil => exact .refl _
  | cons group l ih =>
    rw [List.map_cons, List.flatten_cons, List.flatten_cons]
    exact (List.perm_insertionSort _ group).append ih

theorem listed_perm (hmin : minCommunitySize ≤ 1) (hlabels : labels.length = ids.length)
    : (listed ids labels minCommunitySize).flatten.Perm ids := by
  have hzip := (groupsOf_perm ids labels).map Prod.snd
  rw [List.map_snd_zip (by omega), List.map_flatMap] at hzip
  have hvalues : ((groupsOf ids labels).entries.flatMap fun e => (e.2.map (e.1, ·)).map Prod.snd) =
      ((groupsOf ids labels).entries.map Prod.snd).flatten := by
    rw [List.flatMap_def]
    congr 1
    apply List.map_congr_left
    intro e _
    rw [List.map_map]
    exact List.map_id _
  rw [hvalues] at hzip
  apply (flatten_map_insertionSort _).trans
  rwa [flatten_filter_length hmin]

theorem mem_listed (hlabels : labels.length = ids.length) {group : List String}
    (hgroup : group ∈ listed ids labels minCommunitySize) {i j : Nat} {a b : String} (ha : ids[i]? = some a)
    (hb : ids[j]? = some b) (hnodup : ids.Nodup) (hin : a ∈ group)
    : b ∈ group ↔ labels.getD i 0 = labels.getD j 0 := by
  obtain ⟨members, hmembers, rfl⟩ := List.mem_map.mp hgroup
  obtain ⟨⟨c, _⟩, hentry, rfl⟩ := List.mem_map.mp (List.mem_of_mem_filter hmembers)
  dsimp only at hin ⊢
  rw [List.mem_insertionSort] at hin ⊢
  have hlabel : ∀ {k : Nat} {id : String}, ids[k]? = some id → ∀ d,
      (∃ members, (d, members) ∈ (groupsOf ids labels).entries ∧ id ∈ members) ↔ labels.getD k 0 = d := by
    intro k id hid d
    have hmem := (groupsOf_perm ids labels).mem_iff (a := (d, id))
    rw [List.mem_flatMap] at hmem
    have hpair : (∃ members, (d, members) ∈ (groupsOf ids labels).entries ∧ id ∈ members) ↔
        (d, id) ∈ labels.zip ids := by
      rw [← hmem]
      constructor
      . rintro ⟨members, hentry, hin⟩
        exact ⟨(d, members), hentry, List.mem_map_of_mem hin⟩
      . rintro ⟨⟨d', members⟩, hentry, hin⟩
        obtain ⟨id', hin, heq⟩ := List.mem_map.mp hin
        cases heq
        exact ⟨members, hentry, hin⟩
    rw [hpair, List.mem_iff_getElem?]
    constructor
    . rintro ⟨k', hk'⟩
      rw [List.getElem?_zip_eq_some] at hk'
      have hsame : k' = k := by
        have hlt := (List.getElem?_eq_some_iff.mp hk'.2).1
        exact (List.getElem?_inj hlt hnodup).mp (hk'.2.trans hid.symm)
      rw [hsame] at hk'
      rw [List.getD_eq_getElem?_getD, hk'.1]
      rfl
    . rintro rfl
      have hlt := (List.getElem?_eq_some_iff.mp hid).1
      refine ⟨k, ?_⟩
      rw [List.getElem?_zip_eq_some]
      refine ⟨?_, hid⟩
      rw [List.getD_eq_getElem?_getD, List.getElem?_eq_getElem (by omega)]
      rfl
  have hc := (hlabel ha c).mp ⟨_, hentry, hin⟩
  rw [hc, eq_comm, ← hlabel hb c]
  constructor
  . intro hmem
    exact ⟨_, hentry, hmem⟩
  . rintro ⟨members', hentry', hmem⟩
    have hsame := List.inj_on_of_nodup_map (groupsOf ids labels).nodup_keys hentry hentry' rfl
    cases hsame
    exact hmem

end Groups

section Detected

variable {nodes : List String} {edges : List CommunityEdge} {minCommunitySize fuel : Nat} {labels : List Nat}

def membersOf (nodes : List String) (edges : List CommunityEdge) (labels : List Nat) (minCommunitySize : Nat)
    : List (List String) :=
  (listed (nodeIds nodes edges) labels minCommunitySize).insertionSort fun a b => comesFirst a b

theorem detectCommunities_members (htwo : 2 ≤ (nodeIds nodes edges).length)
    (hrun : partition fuel (nodeIds nodes edges).length (baseEdges (indexNodes nodes edges) edges) = some labels)
    : ∃ communities, detectCommunities fuel nodes edges minCommunitySize = some communities ∧
        communities.map Community.members = membersOf nodes edges labels minCommunitySize := by
  unfold detectCommunities
  dsimp only
  rw [if_neg (by unfold nodeIds at htwo; omega)]
  unfold nodeIds at hrun
  rw [hrun]
  refine ⟨_, rfl, ?_⟩
  rw [List.map_map]
  exact List.zipIdx_map_fst 0 _

theorem detectCommunities_mono {fuel' : Nat} {communities : List Community} (hfuel : fuel ≤ fuel')
    (hrun : detectCommunities fuel nodes edges minCommunitySize = some communities)
    : detectCommunities fuel' nodes edges minCommunitySize = some communities := by
  unfold detectCommunities at hrun ⊢
  dsimp only at hrun ⊢
  split
  . next hfew => rwa [if_pos hfew] at hrun
  . next hmany =>
    rw [if_neg hmany] at hrun
    obtain ⟨labels, hlabels, rfl⟩ := Option.map_eq_some_iff.mp hrun
    rw [partition_mono hfuel hlabels]
    rfl

theorem membersOf_perm (hmin : minCommunitySize ≤ 1) (hlabels : labels.length = (nodeIds nodes edges).length)
    : (membersOf nodes edges labels minCommunitySize).flatten.Perm (nodeIds nodes edges) :=
  (List.perm_insertionSort _ _).flatten.trans (listed_perm hmin hlabels)

theorem modularity_membersOf (hmin : minCommunitySize ≤ 1) (hlabels : labels.length = (nodeIds nodes edges).length)
    (hpos : (baseGraph nodes edges).m2 ≠ 0)
    : modularity nodes edges (membersOf nodes edges labels minCommunitySize) =
        modularityIndexed (baseGraph nodes edges) labels := by
  apply modularity_eq_indexed (membersOf_perm hmin hlabels) hlabels _ hpos
  intro group hgroup i j a b ha hb hin
  have hlisted := (List.perm_insertionSort _ _).mem_iff.mp hgroup
  exact mem_listed hlabels hlisted ha hb (nodup_nodeIds nodes edges) hin

def singletons (nodes : List String) (edges : List CommunityEdge) : List (List String) :=
  (nodeIds nodes edges).map ([·])

theorem modularity_singletons (hpos : (baseGraph nodes edges).m2 ≠ 0)
    : modularity nodes edges (singletons nodes edges) =
        modularityIndexed (baseGraph nodes edges) (List.range (nodeIds nodes edges).length) := by
  have hflatten : (singletons nodes edges).flatten = nodeIds nodes edges := by
    unfold singletons
    induction nodeIds nodes edges with
    | nil => rfl
    | cons id ids ih => rw [List.map_cons, List.flatten_cons, ih, List.singleton_append]
  apply modularity_eq_indexed (by rw [hflatten]) List.length_range _ hpos
  intro group hgroup i j a b ha hb hin
  obtain ⟨id, _, rfl⟩ := List.mem_map.mp hgroup
  rw [List.mem_singleton] at hin ⊢
  subst hin
  have hi := (List.getElem?_eq_some_iff.mp ha).1
  have hj := (List.getElem?_eq_some_iff.mp hb).1
  have hnumber : ∀ k < (nodeIds nodes edges).length, (List.range (nodeIds nodes edges).length).getD k 0 = k := by
    intro k hk
    simp [List.getD_eq_getElem?_getD, hk]
  rw [hnumber i hi, hnumber j hj]
  constructor
  . rintro rfl
    exact (List.getElem?_inj hi (nodup_nodeIds nodes edges)).mp (ha.trans hb.symm)
  . rintro rfl
    rw [ha] at hb
    exact (Option.some.inj hb).symm

def Divides (nodes : List String) (edges : List CommunityEdge) (communities : List Community) : Prop :=
  (communities.map Community.members).flatten.Perm (nodeIds nodes edges) ∧
    modularity nodes edges (singletons nodes edges) ≤ modularity nodes edges (communities.map Community.members)

theorem exists_communities (hpos : 0 < (edges.map CommunityEdge.weight).sum)
    (htwo : 2 ≤ (nodeIds nodes edges).length) (hmin : minCommunitySize ≤ 1)
    : ∃ enough communities, Divides nodes edges communities ∧
        ∀ fuel ≥ enough, detectCommunities fuel nodes edges minCommunitySize = some communities := by
  have hm2 : 0 < (baseGraph nodes edges).m2 := by
    rw [baseGraph_m2]
    linarith
  obtain ⟨enough, labels, hruns⟩ := exists_partition (baseEdges_inRange nodes edges) hm2
  obtain ⟨hlength, hle⟩ := partition_spec (baseEdges_inRange nodes edges) hm2 (hruns enough le_rfl)
  obtain ⟨communities, hdetect, hmembers⟩ : ∃ communities,
      detectCommunities enough nodes edges minCommunitySize = some communities ∧
        communities.map Community.members = membersOf nodes edges labels minCommunitySize :=
    detectCommunities_members htwo (hruns enough le_rfl)
  refine ⟨enough, communities, ⟨?_, ?_⟩, ?_⟩
  . rw [hmembers]
    exact membersOf_perm hmin hlength
  . rw [hmembers, modularity_membersOf hmin hlength hm2.ne', modularity_singletons hm2.ne']
    exact hle
  . intro fuel hfuel
    exact detectCommunities_mono hfuel hdetect

end Detected

section Louvain

structure Louvain (g : WGraph) : Prop where
  localMove_ends : ∃ enough found, ∀ fuel ≥ enough, g.localMove fuel = some found
  moves_improve : ∀ i s, g.Visited i s → i < g.n → (g.moveNode s i).comm ≠ s.comm →
    modularityIndexed g s.comm < modularityIndexed g (g.moveNode s i).comm
  aggregate_same : ∀ k labels, labels.length = g.n → (∀ c ∈ labels, c < k) →
    (WGraph.build k (aggregate g labels)).m2 = g.m2 ∧
      ∀ comm, comm.length = k →
        modularityIndexed (WGraph.build k (aggregate g labels)) comm =
          modularityIndexed g (labels.map (comm.getD · 0))

theorem louvain_of_represents {g : WGraph} {A : Nat → Nat → ℚ} (h : g.Represents A) (hpos : 0 < g.m2)
    : Louvain g where
  localMove_ends := by
    obtain ⟨enough, henough⟩ := WGraph.exists_localMove h hpos
    obtain ⟨found, hfound⟩ := Option.isSome_iff_exists.mp henough
    exact ⟨enough, found, fun fuel hfuel => WGraph.localMove_mono hfuel hfound⟩
  moves_improve := by
    intro i s hvisited hi hmoves
    rcases WGraph.moveNode_spec (hvisited.sound h) h hi hpos with ⟨hsame, _⟩ | ⟨_, _, _, hlt⟩
    . exact absurd hsame hmoves
    . have hleap := WGraph.leap_pos hpos
      linarith
  aggregate_same := by
    intro k labels hlength hlt
    have hne : labels ≠ [] := by
      rintro rfl
      rw [h.m2, ← hlength] at hpos
      simp [Modularity.total] at hpos
    have hlabels : ∀ i, labels.getD i 0 < k := by
      intro i
      obtain ⟨c, hc⟩ := List.exists_mem_of_ne_nil labels hne
      rw [List.getD_eq_getElem?_getD]
      cases hget : labels[i]? with
      | none => exact Nat.zero_lt_of_lt (hlt c hc)
      | some d => exact hlt d (List.mem_of_getElem? hget)
    refine ⟨aggregate_m2 h hlabels, ?_⟩
    intro comm hcomm
    rw [WGraph.modularityIndexed_eq (WGraph.build_represents (WGraph.aggregate_inRange hlabels)) hcomm,
      WGraph.modularityIndexed_eq h (by rw [List.length_map, hlength])]
    refine (aggregate_modularity h hlabels _).trans ?_
    apply Modularity.modularity_congr
    intro i hi j hj
    rw [mem_range, ← hlength] at hi hj
    rw [getD_map_getD hi, getD_map_getD hj]

/--
Weights may be negative as long as their sum is not.
-/
theorem louvain
    : (∀ n base, InRange n base → 0 < (base.map IndexedEdge.weight).sum →
          Louvain (WGraph.build n base) ∧
            ∃ enough labels, ∀ fuel ≥ enough, partition fuel n base = some labels) ∧
        ∀ nodes edges minCommunitySize, 0 < (edges.map CommunityEdge.weight).sum →
          2 ≤ (nodeIds nodes edges).length → minCommunitySize ≤ 1 →
            ∃ enough communities, Divides nodes edges communities ∧
              ∀ fuel ≥ enough, detectCommunities fuel nodes edges minCommunitySize = some communities := by
  constructor
  . intro n base hbase hweight
    have hpos : 0 < (WGraph.build n base).m2 := by
      rw [build_m2 hbase]
      linarith
    exact ⟨louvain_of_represents (WGraph.build_represents hbase) hpos, exists_partition hbase hpos⟩
  . intro nodes edges minCommunitySize hweight htwo hmin
    exact exists_communities hweight htwo hmin

def bond : CommunityEdge :=
  { source := "a", target := "b", weight := 1 }

theorem bond_divided
    : ∃ enough communities, Divides [] [bond] communities ∧
        ∀ fuel ≥ enough, detectCommunities fuel [] [bond] 1 = some communities :=
  louvain.2 [] [bond] 1 (by simp [bond]) (by decide) le_rfl

def loop : CommunityEdge :=
  { source := "a", target := "a", weight := 1 }

/--
A node on its own is in no community.
-/
theorem loop_not_divided
    : 0 < ([loop].map CommunityEdge.weight).sum ∧
        ∀ fuel, ∃ communities, detectCommunities fuel [] [loop] 1 = some communities ∧
          ¬ Divides [] [loop] communities := by
  refine ⟨by simp [loop], fun fuel => ⟨[], rfl, ?_⟩⟩
  rintro ⟨hperm, _⟩
  exact absurd hperm (by decide)

end Louvain

end Memory
end MemStack
